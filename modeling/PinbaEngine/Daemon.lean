import PinbaEngine.Reports.Base
import PinbaEngine.Reports.Rtag
import PinbaEngine.Reports.Tag
import PinbaEngine.TimerPool

/-! # The daemon

    The request ring, the registered reports, and the three things that change
    them: a batch of the data thread (`pinba_data_main`), an expiry pass of the
    stats thread (`pinba_stats_main`), and the registration of a report. All
    three hold `collector_lock` for writing, so they are steps of one state
    machine.

    A record carries its timers as a list, as they were stored, and of the timer
    pool only the positions are kept. The code reads the timers from the pool
    whenever it needs them: the daemon that does so is `PooledDaemon`, and
    `PooledRuns` shows which runs of it are runs of this one.

    Memory for rows, copies and job buffers is assumed to be available; the timer
    pool may fail to grow, and then the timers of the batch are dropped.
-/

namespace PinbaEngine

open Circular

/-! ## Section 1: State -/

/-- Size and positions of the timer pool. -/
structure TimerCursor where
  size : Nat
  inPos : Nat
  outPos : Nat

namespace TimerCursor

def count (c : TimerCursor) : Nat := occupancy c.size c.inPos c.outPos

/-- `pinba_pool_grow`. -/
def grow (c : TimerCursor) (more : Nat) : TimerCursor :=
  if c.inPos < c.outPos then ⟨c.size + more, c.inPos, c.outPos + more⟩
  else ⟨c.size + more, c.inPos, c.outPos⟩

def reserve (c : TimerCursor) (timers_cnt : Nat) : TimerCursor :=
  { c with inPos := advance c.size c.inPos timers_cnt }

/-- `timer_pool_add`. -/
def add (c : TimerCursor) (timers_cnt : Nat) (realloc_ok : Bool) : Option TimerCursor :=
  if c.size ≤ c.count + timers_cnt then
    if realloc_ok then some ((c.grow (grow_amount timers_cnt)).reserve timers_cnt) else none
  else some (c.reserve timers_cnt)

/-- The end of an expiry pass. -/
def release (c : TimerCursor) (deleted_timer_cnt : Nat) : TimerCursor :=
  { c with outPos := advance c.size c.outPos deleted_timer_cnt }

/-- The positions of a pool. -/
def ofPool (pool : CircularBuffer PoolTimer) : TimerCursor := ⟨pool.size, pool.inPos, pool.outPos⟩

/-- The positions move as those of the pool do. -/
theorem add_ofPool (pool : CircularBuffer PoolTimer) (records : Nat → TimerOwner)
    (timers_cnt : Nat) (realloc_ok : Bool) :
    (ofPool pool).add timers_cnt realloc_ok =
      (timer_pool_add pool records timers_cnt realloc_ok).map fun r => ofPool r.2.1 := by
  have hgrow : ∀ more, (ofPool pool).grow more = ofPool (pool.grow more .zero) := by
    intro more
    unfold grow ofPool CircularBuffer.grow
    simp only
    split <;> rfl
  unfold add timer_pool_add
  by_cases hfull : timer_pool_full pool timers_cnt
  · have hfull' : (ofPool pool).size ≤ (ofPool pool).count + timers_cnt := hfull
    rw [if_pos hfull', dif_pos hfull, hgrow]
    cases realloc_ok <;> rfl
  · have hfull' : ¬ (ofPool pool).size ≤ (ofPool pool).count + timers_cnt := hfull
    rw [if_neg hfull', dif_neg hfull]
    rfl

end TimerCursor

/-- A registered report of a family that is indexed by its kind. -/
abbrev SomeTagReport := Σ k : TagKind, TagReport k

abbrev SomeRtagReport := Σ k : RtagKind, RtagReport k

/-- `pinba_daemon`, as far as accounting goes. -/
structure Daemon where
  request_pool : CircularBuffer StatsRecord
  request_pool_counter : Nat
  timer_pool : TimerCursor
  timertags_cnt : Int
  base_reports : List BaseReport
  rtag_reports : List SomeRtagReport
  tag_reports : List SomeTagReport

namespace Daemon

/-- After start-up: `requests + 1` zeroed slots, an empty timer pool, no reports. -/
def init (requests timers : Nat) : Daemon where
  request_pool := .blank requests default
  request_pool_counter := 0
  timer_pool := ⟨timers + 1, 0, 0⟩
  timertags_cnt := 0
  base_reports := []
  rtag_reports := []
  tag_reports := []

end Daemon

/-! ## Section 2: A batch -/

/-- A decoded request that waits in a staging pool. -/
structure StagedRecord where
  data : RequestData
  timers : List TimerRecord
  words : List Word

namespace StagedRecord

/-- The record as `request_copy_job_func` and `_add_timers` leave it in the ring. -/
def stamped (staged : StagedRecord) (now : Timeval) (counter : Nat) : StatsRecord :=
  ⟨staged.data, now, counter, staged.timers, staged.words⟩

/-- The same request when its timers could not be stored. -/
def without_timers (staged : StagedRecord) : StagedRecord := { staged with timers := [] }

/-- Stamp consecutive counters on the records of a batch. -/
def stamp (now : Timeval) : Nat → List StagedRecord → List StatsRecord
  | _, [] => []
  | counter, staged :: rest => staged.stamped now counter :: stamp now (counter + 1) rest

@[simp] theorem length_stamp (now : Timeval) (counter : Nat) (batch : List StagedRecord) :
    (stamp now counter batch).length = batch.length := by
  induction batch generalizing counter with
  | nil => rfl
  | cons staged rest ih => rw [stamp, List.length_cons, ih, List.length_cons]

end StagedRecord

namespace Daemon

/-- Total number of timers of some records. -/
def timers_total (records : List StatsRecord) : Nat :=
  (records.map fun record => record.timers.length).sum

/-- Total number of timer tags of some records. -/
def timertags_total (records : List StatsRecord) : Nat :=
  (records.map fun record => (record.timers.map fun timer => timer.tags.length).sum).sum

/-- Total number of request tags of some records. -/
def rtags_total (records : List StatsRecord) : Nat :=
  (records.map fun record => record.data.tags.length).sum

/-- Set the start of a report that has none, then run the add job. -/
def add_job {R : Type*} (ops : ReportOps R) (first : StatsRecord) (entries : List Entry)
    (report : R) : R :=
  ops.update_reports_func true first entries (ops.start_from first report)

variable (d : Daemon)

/-- The timer reservation of a batch; a batch without timers makes none. -/
def reserve_timers (timers_added : Nat) (realloc_ok : Bool) : Option TimerCursor :=
  if timers_added = 0 then some d.timer_pool else d.timer_pool.add timers_added realloc_ok

/-- The records that fit in the ring; the rest of the batch is lost. -/
def admitted (staged : List StagedRecord) : List StagedRecord := staged.take d.request_pool.free

/-- The new records, stamped; without timers if these found no room. -/
def new_records (now : Timeval) (staged : List StagedRecord) (realloc_ok : Bool) :
    List StatsRecord :=
  let batch := d.admitted staged
  let timers_added := (batch.map fun r => r.timers.length).sum
  StagedRecord.stamp now d.request_pool_counter
    (if (d.reserve_timers timers_added realloc_ok).isSome then batch
      else batch.map StagedRecord.without_timers)

theorem length_new_records (now : Timeval) (staged : List StagedRecord) (realloc_ok : Bool) :
    (d.new_records now staged realloc_ok).length = (d.admitted staged).length := by
  unfold new_records
  simp only [StagedRecord.length_stamp]
  split <;> simp

theorem new_records_fit (now : Timeval) (staged : List StagedRecord) (realloc_ok : Bool) :
    (d.new_records now staged realloc_ok).length ≤ d.request_pool.free := by
  rw [length_new_records, admitted, List.length_take]
  omega

/-- A batch of `pinba_data_main`. The start of a report is taken from slot `in`,
    which holds the first new record if there is one. -/
def ingest (now : Timeval) (staged : List StagedRecord) (realloc_ok : Bool) : Daemon :=
  if staged = [] then d
  else
    let records := d.new_records now staged realloc_ok
    let timers_added := timers_total records
    let first := (d.request_pool.write records).data d.request_pool.inPos
    let entries := (d.request_pool.ahead records.length).zip records
    { request_pool := d.request_pool.append records (d.new_records_fit now staged realloc_ok)
      request_pool_counter := d.request_pool_counter + records.length
      timer_pool := (d.reserve_timers timers_added realloc_ok).getD d.timer_pool
      timertags_cnt := d.timertags_cnt + timertags_total records
      base_reports := d.base_reports.map (add_job baseOps first entries)
      rtag_reports :=
        if rtags_total records = 0 then d.rtag_reports
        else d.rtag_reports.map fun r => ⟨r.1, add_job (rtagOps r.1) first entries r.2⟩
      tag_reports :=
        if timers_added = 0 then d.tag_reports
        else d.tag_reports.map fun r => ⟨r.1, add_job (tagOps r.1) first entries r.2⟩ }

end Daemon

/-! ## Section 3: An expiry pass -/

/-- `pinba_record_release_words`. -/
def StatsRecord.release_words (record : StatsRecord) : StatsRecord :=
  { record with data := { record.data with tags := [] }, dictionary_words := [] }

namespace Daemon

variable (d : Daemon)

/-- The entries that `pinba_request_pool_delete_old` removes. -/
def delete_old (from_ : Timeval) : List Entry :=
  d.request_pool.contents.takeWhile fun e => e.2.time.lt from_

theorem delete_old_eq_take (from_ : Timeval) :
    d.delete_old from_ = d.request_pool.contents.take (d.delete_old from_).length := by
  have hsplit := List.takeWhile_append_dropWhile (p := fun e : Entry => e.2.time.lt from_)
    (l := d.request_pool.contents)
  conv_rhs => rw [← hsplit]
  exact (List.take_left' rfl).symm

theorem length_delete_old (from_ : Timeval) :
    (d.delete_old from_).length ≤ d.request_pool.count := by
  rw [← d.request_pool.length_contents]
  exact (List.takeWhile_prefix _).length_le

/-- What the slots hold after the words of the expired records are released. -/
def released (expired : List Entry) : Nat → StatsRecord := fun i =>
  if i ∈ expired.map Prod.fst then (d.request_pool.data i).release_words else d.request_pool.data i

/-- An expiry pass of `pinba_stats_main`. -/
def expire (from_ : Timeval) : Daemon :=
  let expired := d.delete_old from_
  let records := expired.map Prod.snd
  { d with
    request_pool := (d.request_pool.setData (d.released expired)).dropFront expired.length
      (d.length_delete_old from_)
    timer_pool := d.timer_pool.release (timers_total records)
    timertags_cnt := d.timertags_cnt - timertags_total records
    base_reports := d.base_reports.map (baseOps.delete_all expired)
    rtag_reports :=
      if rtags_total records = 0 then d.rtag_reports
      else d.rtag_reports.map fun r => ⟨r.1, (rtagOps r.1).delete_all expired r.2⟩
    tag_reports :=
      if timers_total records = 0 then d.tag_reports
      else d.tag_reports.map fun r => ⟨r.1, (tagOps r.1).delete_all expired r.2⟩ }

/-! ## Section 4: Steps and runs -/

/-- What happens to the daemon. -/
inductive Event where
  | ingest (now : Timeval) (staged : List StagedRecord) (realloc_ok : Bool)
  | expire (from_ : Timeval)
  | register_base (kind : BaseKind) (cond : Conditions) (buckets : BucketChoice)
  | register_rtag (kind : RtagKind) (cond : Conditions) (buckets : BucketChoice) (tags : List Word)
  | register_tag (kind : TagKind) (cond : Conditions) (buckets : BucketChoice) (tag_id : List Int)

def step (d : Daemon) : Event → Daemon
  | .ingest now staged realloc_ok => d.ingest now staged realloc_ok
  | .expire from_ => d.expire from_
  | .register_base kind cond buckets =>
    { d with base_reports := d.base_reports ++ [.created kind cond buckets] }
  | .register_rtag kind cond buckets tags =>
    { d with rtag_reports := d.rtag_reports ++ [⟨kind, .created kind cond buckets tags⟩] }
  | .register_tag kind cond buckets tag_id =>
    { d with tag_reports := d.tag_reports ++ [⟨kind, .created kind cond buckets tag_id⟩] }

/-- Batches come with time stamps that do not go back (and are not those of the
    first second of 1970), and no timer carries a tag id twice. -/
def Event.Regular (last : Timeval) : Event → Prop
  | .ingest now staged _ => now.lt last = false ∧ now.tv_sec ≠ 0 ∧
      ∀ r ∈ staged, ∀ timer ∈ r.timers, timer.DistinctTags
  | _ => True

/-- The time stamp of the last batch after an event. -/
def Event.stamp (last : Timeval) : Event → Timeval
  | .ingest now _ _ => now
  | _ => last

/-- The states that regular events lead to from a state with a last time stamp.
    Every event meets the condition `ok` in the state it meets. -/
inductive Steps (ok : Daemon → Event → Prop) (d₀ : Daemon) (last₀ : Timeval) :
    Daemon → Timeval → Prop
  | refl : Steps ok d₀ last₀ d₀ last₀
  | step {d : Daemon} {last : Timeval} (e : Event) (hd : Steps ok d₀ last₀ d last)
    (hreg : e.Regular last) (hok : ok d e) : Steps ok d₀ last₀ (d.step e) (e.stamp last)

/-- The states of the runs of a daemon. -/
def Reachable (ok : Daemon → Event → Prop) (d : Daemon) (last : Timeval) : Prop :=
  ∃ requests timers, Steps ok (init requests timers) ⟨0, 0⟩ d last

end Daemon

end PinbaEngine
