import PinbaEngine.DeleteAll
import PinbaEngine.ExpiryPass

/-! # The daemon over its pools

    The records of `Daemon` carry their timers. In the code a record only knows
    where its timers start, and whoever wants them reads them from the timer pool
    with `record_get_timer`: the timer tag reports when a record is added and
    again when it is deleted, the jobs that clear timers, the destructor of the
    ring.

    This daemon is put over the two pools of `TimerState` and reads the timers
    where the code reads them. Its runs are paired with those of the daemon of
    whole records, which keeps what was stored for a record.
-/

namespace PinbaEngine

open Circular

/-! ## Section 1: State -/

/-- A slot of the request ring, but for the fields that locate its timers. -/
structure RequestSlot where
  data : RequestData
  time : Timeval
  counter : Nat
  dictionary_words : List Word

namespace RequestSlot

/-- Zeroed memory. -/
instance : Inhabited RequestSlot := ⟨⟨default, ⟨0, 0⟩, 0, []⟩⟩

/-- The record in the slot, with its timers. -/
def record (slot : RequestSlot) (timers : List TimerRecord) : StatsRecord :=
  ⟨slot.data, slot.time, slot.counter, timers, slot.dictionary_words⟩

/-- `pinba_record_release_words`. -/
def release_words (slot : RequestSlot) : RequestSlot :=
  { slot with data := { slot.data with tags := [] }, dictionary_words := [] }

end RequestSlot

/-- The timers of the record in a slot, as `record_get_timer` finds them. -/
def TimerState.timers_at (s : TimerState) (slot : Nat) : List TimerRecord :=
  (List.range (s.request_pool.data slot).timers_cnt).map fun i =>
    (record_get_timer s.timer_pool (s.request_pool.data slot) i).timer

theorem TimerState.length_timers_at (s : TimerState) (slot : Nat) :
    (s.timers_at slot).length = (s.request_pool.data slot).timers_cnt := by
  rw [timers_at, List.length_map, List.length_range]

/-- `pinba_daemon`, as far as accounting goes. -/
structure PooledDaemon extends TimerState where
  slots : Nat → RequestSlot
  /-- Every live record has a time. -/
  stamped : ∀ i ∈ request_pool.live, (slots i).time.tv_sec ≠ 0
  request_pool_counter : Nat
  timertags_cnt : Int
  base_reports : List BaseReport
  rtag_reports : List SomeRtagReport
  tag_reports : List SomeTagReport

/-! ## Section 2: The pools after a batch -/

namespace TimerState

variable {s : TimerState} {shares : List (List (List RequestTimer))} {realloc_ok : Bool}

/-- How many timers the new records have. -/
def kept_counts (s : TimerState) (shares : List (List (List RequestTimer))) (realloc_ok : Bool) :
    List Nat := (s.kept_timers shares realloc_ok).map List.length

theorem length_kept_timers :
    (s.kept_timers shares realloc_ok).length = shares.flatten.length := by
  unfold kept_timers
  split
  · exact List.length_replicate
  · exact List.length_map _

/-- What a batch does to the ring: the new slots become live, and of the others
    only the starts may move. -/
structure Published (s : TimerState) (counts : List Nat) (s' : TimerState) : Prop where
  size : s'.request_pool.size = s.request_pool.size
  inPos : s'.request_pool.inPos = advance s.request_pool.size s.request_pool.inPos counts.length
  outPos : s'.request_pool.outPos = s.request_pool.outPos
  timers_cnt : ∀ i, (s'.request_pool.data i).timers_cnt =
    writeFrom s.request_pool.size s.request_pool.inPos counts
      (fun i => (s.request_pool.data i).timers_cnt) i

theorem published_bare (h : shares.flatten.length ≤ s.request_pool.free) :
    s.Published (List.replicate shares.flatten.length 0) (s.admit_bare h) := by
  refine ⟨rfl, ?_, rfl, ?_⟩
  · rw [List.length_replicate]
    show advance _ _ (List.replicate shares.flatten.length (⟨0, 0⟩ : TimerOwner)).length = _
    rw [List.length_replicate]
    rfl
  · intro i
    show (writeFrom _ _ (List.replicate _ (⟨0, 0⟩ : TimerOwner)) _ i).timers_cnt = _
    rw [apply_writeFrom TimerOwner.timers_cnt, List.map_replicate]

theorem published_timers (h : shares.flatten.length ≤ s.request_pool.free) {id : Nat}
    {pool : CircularBuffer PoolTimer} {records : Nat → TimerOwner}
    (hr : s.reserved shares realloc_ok = some (id, pool, records)) :
    s.Published (shares.flatten.map pinba_stored_timer_count) (s.admit_timers realloc_ok h hr) := by
  have hlen := s.length_merged h id pool
  have hcounts := s.map_timers_cnt_merged h id pool
  refine ⟨rfl, ?_, rfl, ?_⟩
  · rw [List.length_map, ← hlen]
    rfl
  · intro i
    show (writeFrom _ _ (s.merged shares id pool).1 records i).timers_cnt = _
    rw [apply_writeFrom TimerOwner.timers_cnt, hcounts]
    -- the repair does not change counts, and the slots of the batch are written again
    apply writeFrom_congr
    intro hi
    rw [(timer_pool_add_count hr).2 i]
    show (writeFrom _ _ (List.replicate _ (⟨0, 0⟩ : TimerOwner)) _ i).timers_cnt = _
    rw [writeFrom_of_notMem]
    rw [List.length_map] at hi
    rwa [List.length_replicate]

theorem published_ingest (h : shares.flatten.length ≤ s.request_pool.free) :
    s.Published (s.kept_counts shares realloc_ok) (s.ingest shares h realloc_ok) := by
  unfold kept_counts
  rw [kept_timers_eq]
  by_cases hstores : s.stores shares realloc_ok
  · obtain ⟨⟨id, pool, records⟩, hr⟩ := Option.isSome_iff_exists.mp hstores.2
    rw [if_pos hstores, s.ingest_of_stores h hstores.1 hr]
    have hcounts : (batch_timers shares).map List.length =
        shares.flatten.map pinba_stored_timer_count := by
      rw [batch_timers, List.map_map]
      exact List.map_congr_left fun timers _ => length_stored_timers timers
    rw [hcounts]
    exact published_timers h hr
  · rw [if_neg hstores, s.ingest_of_not_stores h hstores, List.map_replicate]
    exact published_bare h

end TimerState

/-! ## Section 3: A batch -/

/-- The time of a batch, by a clock that runs. -/
structure LaunchTime extends Timeval where
  set : tv_sec ≠ 0

/-- A decoded request that waits in a staging pool (`pinba_stats_record_ex`). -/
structure StagedRequest where
  data : RequestData
  timers : List RequestTimer
  words : List Word

namespace StagedRequest

/-- The slot as `request_copy_job_func` leaves it. -/
def slot (r : StagedRequest) (now : Timeval) (counter : Nat) : RequestSlot :=
  ⟨r.data, now, counter, r.words⟩

/-- Stamp consecutive counters on the slots of a batch. -/
def stamp (now : Timeval) : Nat → List StagedRequest → List RequestSlot
  | _, [] => []
  | counter, r :: rest => r.slot now counter :: stamp now (counter + 1) rest

@[simp] theorem length_stamp (now : Timeval) (counter : Nat) (batch : List StagedRequest) :
    (stamp now counter batch).length = batch.length := by
  induction batch generalizing counter with
  | nil => rfl
  | cons r rest ih => rw [stamp, List.length_cons, ih, List.length_cons]

theorem time_of_mem_stamp {now : Timeval} {counter : Nat} {batch : List StagedRequest}
    {slot : RequestSlot} (h : slot ∈ stamp now counter batch) : slot.time = now := by
  induction batch generalizing counter with
  | nil => exact absurd h List.not_mem_nil
  | cons r rest ih =>
    rcases List.mem_cons.mp h with rfl | h
    · rfl
    · exact ih h

/-- The request with the timers that get stored. -/
def whole (r : StagedRequest) : StagedRecord := ⟨r.data, stored_timers r.timers, r.words⟩

/-- What the timer pool sees of the shares. -/
def timer_shares (shares : List (List StagedRequest)) : List (List (List RequestTimer)) :=
  shares.map fun share => share.map StagedRequest.timers

theorem flatten_timer_shares (shares : List (List StagedRequest)) :
    (timer_shares shares).flatten = shares.flatten.map StagedRequest.timers :=
  List.map_flatten.symm

theorem length_timer_shares (shares : List (List StagedRequest)) :
    (timer_shares shares).flatten.length = shares.flatten.length := by
  rw [flatten_timer_shares, List.length_map]

theorem map_whole_ne_nil {batch : List StagedRequest} (h : batch ≠ []) : batch.map whole ≠ [] :=
  mt List.map_eq_nil_iff.mp h

/-- The number of tags that get stored with the timers of a batch. -/
def timertag_cnt (batch : List StagedRequest) : Nat :=
  (batch.map fun r => ((stored_timers r.timers).map fun timer => timer.tags.length).sum).sum

/-- The shares that the threads copy: `end` is what they have staged, cut down to what is left of
    `records_to_copy`. -/
def cut_shares : Nat → List (List StagedRequest) → List (List StagedRequest)
  | _, [] => []
  | records_to_copy, share :: shares =>
    let copied := share.take records_to_copy
    copied :: cut_shares (records_to_copy - copied.length) shares

theorem flatten_cut_shares (records_to_copy : Nat) (shares : List (List StagedRequest)) :
    (cut_shares records_to_copy shares).flatten = shares.flatten.take records_to_copy := by
  induction shares generalizing records_to_copy with
  | nil => rw [cut_shares, List.flatten_nil, List.take_nil]
  | cons share shares ih =>
    have hrest : records_to_copy - (share.take records_to_copy).length =
        records_to_copy - share.length := by
      rw [List.length_take]
      omega
    rw [cut_shares, List.flatten_cons, ih, hrest, List.flatten_cons, List.take_append]

end StagedRequest

open StagedRequest

namespace PooledDaemon

variable (d : PooledDaemon)

/-- The record in a slot, as the report functions read it now. -/
def record (slot : Nat) : StatsRecord := (d.slots slot).record (d.timers_at slot)

/-- The daemon of the records as they are read now. -/
def view : Daemon where
  request_pool := d.request_pool.withData d.record
  request_pool_counter := d.request_pool_counter
  timer_pool := .ofPool d.timer_pool
  timertags_cnt := d.timertags_cnt
  base_reports := d.base_reports
  rtag_reports := d.rtag_reports
  tag_reports := d.tag_reports

/-- The live records, as they are read now. -/
abbrev live : List Entry := d.view.live

theorem live_eq : d.live = d.request_pool.live.map fun i => (i, d.record i) := rfl

/-- After start-up. -/
def init (requests timers : Nat) : PooledDaemon :=
  { TimerState.init requests timers with
    slots := fun _ => default
    stamped := by
      have hlive : (TimerState.init requests timers).request_pool.live = [] := by
        rw [← CircularBuffer.map_fst_contents]
        exact congrArg (List.map Prod.fst) (CircularBuffer.contents_blank _ _)
      rw [hlive]
      exact fun i hi => absurd hi List.not_mem_nil
    request_pool_counter := 0
    timertags_cnt := 0
    base_reports := []
    rtag_reports := []
    tag_reports := [] }

/-- The shares of a batch that fit in the ring; the rest is lost. -/
def admitted (shares : List (List StagedRequest)) : List (List StagedRequest) :=
  cut_shares (min shares.flatten.length d.request_pool.free) shares

theorem flatten_admitted (shares : List (List StagedRequest)) :
    (d.admitted shares).flatten = shares.flatten.take d.request_pool.free := by
  rw [admitted, flatten_cut_shares, List.take_eq_take_iff]
  omega

theorem length_admitted (shares : List (List StagedRequest)) :
    (d.admitted shares).flatten.length ≤ d.request_pool.free := by
  rw [flatten_admitted, List.length_take]
  exact Nat.min_le_left _ _

theorem admitted_fit (shares : List (List StagedRequest)) :
    (timer_shares (d.admitted shares)).flatten.length ≤ d.request_pool.free := by
  rw [length_timer_shares]
  exact d.length_admitted shares

/-- The slots after `request_copy_job_func`. -/
def copied_slots (now : Timeval) (batch : List StagedRequest) : Nat → RequestSlot :=
  writeFrom d.request_pool.size d.request_pool.inPos (stamp now d.request_pool_counter batch)
    d.slots

/-- Both pools after `merge_timers_func`. -/
def merged_pools (shares : List (List StagedRequest)) (realloc_ok : Bool) : TimerState :=
  d.toTimerState.ingest (timer_shares (d.admitted shares)) (d.admitted_fit shares) realloc_ok

theorem live_merged_pools (shares : List (List StagedRequest)) (realloc_ok : Bool) :
    (d.merged_pools shares realloc_ok).request_pool.live =
      d.request_pool.live ++ d.request_pool.ahead (d.admitted shares).flatten.length := by
  rw [merged_pools, TimerState.live_ingest, length_timer_shares]

theorem stamped_copied (now : LaunchTime) (shares : List (List StagedRequest)) (realloc_ok : Bool) :
    ∀ i ∈ (d.merged_pools shares realloc_ok).request_pool.live,
      (d.copied_slots now.toTimeval (d.admitted shares).flatten i).time.tv_sec ≠ 0 := by
  have hfit := d.length_admitted shares
  have hsize := d.request_pool.count_add_free
  rw [live_merged_pools]
  generalize (d.admitted shares).flatten = batch at hfit ⊢
  intro i hi
  unfold copied_slots
  rcases List.mem_append.mp hi with hold | hnew
  · rw [writeFrom_of_notMem]
    · exact d.stamped i hold
    · rw [length_stamp]
      exact (List.nodup_append'.mp (d.request_pool.nodup_live_append_ahead hfit)).2.2 hold
  · have hmem : writeFrom d.request_pool.size d.request_pool.inPos
        (stamp now.toTimeval d.request_pool_counter batch) d.slots i ∈
        stamp now.toTimeval d.request_pool_counter batch := by
      apply writeFrom_mem d.request_pool.in_lt
      · rw [length_stamp]
        omega
      · rwa [length_stamp]
    rw [time_of_mem_stamp hmem]
    exact now.set

/-- The new records when base and request tag reports are updated: no timer is stored yet. -/
def copied_entries (now : Timeval) (batch : List StagedRequest) : List Entry :=
  (d.request_pool.ahead batch.length).map fun i => (i, (d.copied_slots now batch i).record [])

/-- The new records when timer tag reports are updated. -/
def merged_entries (now : Timeval) (shares : List (List StagedRequest)) (realloc_ok : Bool) :
    List Entry :=
  let batch := (d.admitted shares).flatten
  (d.request_pool.ahead batch.length).map fun i =>
    (i, (d.copied_slots now batch i).record ((d.merged_pools shares realloc_ok).timers_at i))

/-- A batch of `pinba_data_main`. -/
def ingest (now : LaunchTime) (shares : List (List StagedRequest)) (realloc_ok : Bool) :
    PooledDaemon :=
  if shares.flatten = [] then d
  else
    let batch := (d.admitted shares).flatten
    let timers := timer_shares (d.admitted shares)
    let slots := d.copied_slots now.toTimeval batch
    let copied := d.copied_entries now.toTimeval batch
    let merged := d.merged_entries now.toTimeval shares realloc_ok
    -- the start of a report is taken from slot `in`, whatever it holds
    let first := (slots d.request_pool.inPos).record []
    { d.merged_pools shares realloc_ok with
      slots := slots
      stamped := d.stamped_copied now shares realloc_ok
      request_pool_counter := d.request_pool_counter + batch.length
      timertags_cnt :=
        if d.stores timers realloc_ok then d.timertags_cnt + timertag_cnt batch
        else d.timertags_cnt
      base_reports := d.base_reports.map (Daemon.add_job baseOps first copied)
      rtag_reports :=
        if Daemon.rtags_total (copied.map Prod.snd) = 0 then d.rtag_reports
        else d.rtag_reports.map fun r => ⟨r.1, Daemon.add_job (rtagOps r.1) first copied r.2⟩
      tag_reports :=
        if d.stores timers realloc_ok then
          d.tag_reports.map fun r => ⟨r.1, Daemon.add_job (tagOps r.1) first merged r.2⟩
        else d.tag_reports }

/-! ## Section 4: An expiry pass and DELETE FROM request -/

/-- The entries that `pinba_request_pool_delete_old` removes. -/
def delete_old (from_ : Timeval) : List Entry := d.view.delete_old from_

theorem length_delete_old (from_ : Timeval) :
    (d.delete_old from_).length ≤ d.request_pool.count := d.view.length_delete_old from_

/-- `clear_record_timers_func` over the oldest `n` records: what is left of the timers, and how many
    tags they had. -/
def clear_oldest (n : Nat) : (Nat → PoolTimer) × Nat :=
  (d.expired n).foldl (clear_timers d.timer_pool) (d.timer_pool.data, 0)

/-- An expiry pass of `pinba_stats_main`. -/
def expire (from_ : Timeval) : PooledDaemon :=
  let expired := d.delete_old from_
  { d.toTimerState.expire expired.length (d.length_delete_old from_) with
    slots := fun i => if i ∈ expired.map Prod.fst then (d.slots i).release_words else d.slots i
    stamped := by
      have hlive : (d.toTimerState.expire expired.length (d.length_delete_old from_)).request_pool.live
          = d.request_pool.live.drop expired.length :=
        d.request_pool.live_dropFront (d.length_delete_old from_)
      intro i hi
      rw [hlive] at hi
      have hset := d.stamped i (List.mem_of_mem_drop hi)
      split <;> exact hset
    request_pool_counter := d.request_pool_counter
    timertags_cnt := d.timertags_cnt - (d.clear_oldest expired.length).2
    base_reports := d.base_reports.map (baseOps.delete_all expired)
    rtag_reports :=
      if Daemon.rtags_total (expired.map Prod.snd) = 0 then d.rtag_reports
      else d.rtag_reports.map fun r => ⟨r.1, (rtagOps r.1).delete_all expired r.2⟩
    tag_reports :=
      if d.deleted_timer_cnt expired.length = 0 then d.tag_reports
      else d.tag_reports.map fun r => ⟨r.1, (tagOps r.1).delete_all expired r.2⟩ }

theorem times_view : ∀ e ∈ d.live, e.2.time.tv_sec ≠ 0 := by
  intro e he
  obtain ⟨i, hi, rfl⟩ := List.mem_map.mp he
  exact d.stamped i hi

theorem timers_total_view : Daemon.timers_total (d.live.map Prod.snd) = d.timer_pool.count := by
  have hsum := d.counted
  unfold CircularBuffer.contents at hsum
  rw [List.map_map] at hsum
  rw [Daemon.timers_total, live_eq, List.map_map, List.map_map, ← hsum]
  congr 1
  apply List.map_congr_left
  intro i _
  exact d.length_timers_at i

/-- The destructor of the ring takes all live records out of the books. -/
theorem pinba_request_pool_dtor_view : d.view.pinba_request_pool_dtor =
    { d.view.without d.live with
      request_pool := d.view.request_pool.setData fun i => (d.record i).release_words } := by
  have hlen : Daemon.timers_total (d.live.map Prod.snd) ≤ d.view.timer_pool.size := by
    rw [timers_total_view]
    exact d.timer_pool.count_lt.le
  unfold Daemon.pinba_request_pool_dtor
  rw [Daemon.foldl_record_dtor d.times_view d.timer_pool.out_lt hlen]
  rfl

/-- It gives up every timer. -/
theorem outPos_dtor_view :
    d.view.pinba_request_pool_dtor.timer_pool.outPos = d.timer_pool.inPos := by
  rw [pinba_request_pool_dtor_view]
  show advance d.timer_pool.size d.timer_pool.outPos _ = _
  rw [timers_total_view, advance_eq_mod d.timer_pool.out_lt d.timer_pool.count_lt.le]
  exact d.timer_pool.in_eq.symm

/-- `ha_pinba::delete_all_rows`: the destructor of the ring, then `pinba_pool_init` with its old
    size. Of the timer pool only the read position moves. -/
def delete_all_rows : PooledDaemon :=
  let gone := d.view.pinba_request_pool_dtor
  { request_pool := .blank (d.request_pool.size - 1) ⟨0, 0⟩
    timer_pool :=
      { d.timer_pool with
        outPos := gone.timer_pool.outPos
        out_lt := by
          rw [outPos_dtor_view]
          exact d.timer_pool.in_lt }
    counted := by
      have hempty : occupancy d.timer_pool.size d.timer_pool.inPos gone.timer_pool.outPos = 0 := by
        rw [outPos_dtor_view]
        exact if_pos rfl
      rw [CircularBuffer.contents_blank]
      exact hempty.symm
    slots := fun _ => default
    stamped := by
      intro i hi
      rw [← CircularBuffer.map_fst_contents, CircularBuffer.contents_blank] at hi
      exact absurd hi List.not_mem_nil
    request_pool_counter := gone.request_pool_counter
    timertags_cnt := gone.timertags_cnt
    base_reports := gone.base_reports
    rtag_reports := gone.rtag_reports
    tag_reports := gone.tag_reports }

/-! ## Section 5: Steps and runs -/

/-- What happens to the daemon. -/
inductive Event where
  | ingest (now : LaunchTime) (shares : List (List StagedRequest)) (realloc_ok : Bool)
  | expire (from_ : Timeval)
  | register_base (kind : BaseKind) (cond : Conditions) (buckets : BucketChoice)
  | register_rtag (kind : RtagKind) (cond : Conditions) (buckets : BucketChoice) (tags : List Word)
  | register_tag (kind : TagKind) (cond : Conditions) (buckets : BucketChoice) (tag_id : List Int)

def step (d : PooledDaemon) : Event → PooledDaemon
  | .ingest now shares realloc_ok => d.ingest now shares realloc_ok
  | .expire from_ => d.expire from_
  | .register_base kind cond buckets =>
    { d with base_reports := d.base_reports ++ [.created kind cond buckets] }
  | .register_rtag kind cond buckets tags =>
    { d with rtag_reports := d.rtag_reports ++ [⟨kind, .created kind cond buckets tags⟩] }
  | .register_tag kind cond buckets tag_id =>
    { d with tag_reports := d.tag_reports ++ [⟨kind, .created kind cond buckets tag_id⟩] }

/-- The event as the daemon of whole records sees it. -/
def Event.whole : Event → Daemon.Event
  | .ingest now shares realloc_ok =>
    .ingest now.toTimeval (shares.flatten.map StagedRequest.whole) realloc_ok
  | .expire from_ => .expire from_
  | .register_base kind cond buckets => .register_base kind cond buckets
  | .register_rtag kind cond buckets tags => .register_rtag kind cond buckets tags
  | .register_tag kind cond buckets tag_id => .register_tag kind cond buckets tag_id

/-- Batches come with time stamps that do not go back, and no stored timer carries a tag id
    twice. -/
def Event.Regular (last : Timeval) : Event → Prop
  | .ingest now shares _ => now.toTimeval.lt last = false ∧
      ∀ r ∈ shares.flatten, ∀ timer ∈ stored_timers r.timers, timer.DistinctTags
  | _ => True

/-- A batch does not make the timer pool grow past a record that the repair misses. -/
def SafeEvent (d : PooledDaemon) : Event → Prop
  | .ingest _ shares realloc_ok => d.SafeBatch (timer_shares (d.admitted shares)) realloc_ok
  | _ => True

/-- A batch does not give a base report without a start the time of a record that left the ring
    long ago. -/
def SoundEvent (d : PooledDaemon) : Event → Prop
  | .ingest _ shares _ => shares.flatten ≠ [] → d.request_pool.free = 0 →
      (∃ r ∈ d.base_reports, r.std.unset) → (d.slots d.request_pool.inPos).time.tv_sec = 0
  | _ => True

/-- The daemon and the daemon of whole records, through the same regular events. Every event meets
    the condition `ok` in the state it meets. -/
inductive Steps (ok : PooledDaemon → Event → Prop) (d₀ : PooledDaemon) (a₀ : Daemon)
    (last₀ : Timeval) : PooledDaemon → Daemon → Timeval → Prop
  | refl : Steps ok d₀ a₀ last₀ d₀ a₀ last₀
  | step {d : PooledDaemon} {a : Daemon} {last : Timeval} (e : Event)
    (h : Steps ok d₀ a₀ last₀ d a last) (hreg : e.Regular last) (hok : ok d e) :
    Steps ok d₀ a₀ last₀ (d.step e) (a.step e.whole) (e.whole.stamp last)

/-- The states of the runs from start-up. -/
def Reachable (ok : PooledDaemon → Event → Prop) (d : PooledDaemon) (a : Daemon) (last : Timeval) :
    Prop :=
  ∃ requests timers, PINBA_TIMER_POOL_GROW_SIZE ≤ timers + 1 ∧
    Steps ok (init requests timers) (.init requests timers) ⟨0, 0⟩ d a last

/-- The states of the runs in which rows may be deleted as well. -/
inductive History (ok : PooledDaemon → Event → Prop) : PooledDaemon → Daemon → Timeval → Prop
  | start (requests timers : Nat) (h : PINBA_TIMER_POOL_GROW_SIZE ≤ timers + 1) :
    History ok (init requests timers) (.init requests timers) ⟨0, 0⟩
  | step {d : PooledDaemon} {a : Daemon} {last : Timeval} (e : Event) (h : History ok d a last)
    (hreg : e.Regular last) (hok : ok d e) :
    History ok (d.step e) (a.step e.whole) (e.whole.stamp last)
  | delete_all_rows {d : PooledDaemon} {a : Daemon} {last : Timeval} (h : History ok d a last) :
    History ok d.delete_all_rows a.delete_all_rows last

end PooledDaemon

end PinbaEngine
