import PinbaEngine.Lib.Circular
import PinbaEngine.Types

/-! # The timer pool

    Timers live in a circular pool of their own. A request record only knows
    where its timers start and how many there are; a timer knows the ring slot
    of its request. The functions here are those of `pool.cc` and `main.cc` that
    touch either side:

    - `timer_pool_add` reserves room for the timers of a batch and grows the pool
      if needed. Growing a wrapped pool moves its tail, and the records of the
      moved timers are then found through the timers and shifted.
    - `merge_timers_func` stores the timers of a batch.
    - `clear_record_timers_func` and the end of an expiry pass give up the timers
      of the expired records.

    Positions and counts are natural numbers: the pool stays far below the
    2 ^ 31 timers that the `int` of `timer_pool_add` could index.
-/

namespace PinbaEngine

open Circular

/-! ## Section 1: Records and timers -/

def PINBA_TIMER_POOL_GROW_SIZE : Nat := 2621440

/-- A timer of a decoded request. -/
structure RequestTimer where
  hit_count : Nat
  tag_count : Nat
  value : Duration
  ru_utime : Duration
  ru_stime : Duration
  /-- The tags that get stored. There are none if the tag arrays of the timer
      cannot be allocated. -/
  tags : List (Int × Word)

namespace RequestTimer

/-- Timers without hits or without tags are not stored. -/
def skipped (timer : RequestTimer) : Bool := timer.hit_count = 0 || timer.tag_count = 0

def record (timer : RequestTimer) : TimerRecord :=
  { value := timer.value, ru_utime := timer.ru_utime, ru_stime := timer.ru_stime
    hit_count := timer.hit_count, tags := timer.tags }

end RequestTimer

/-- `pinba_timer_record`. -/
structure PoolTimer where
  request_id : Nat
  timer : TimerRecord

namespace PoolTimer

/-- Zeroed memory. -/
def zero : PoolTimer := ⟨0, ⟨default, default, default, 0, []⟩⟩

def tag_num (t : PoolTimer) : Nat := t.timer.tags.length

/-- What is left of a timer when its request has expired. -/
def cleared (t : PoolTimer) : PoolTimer :=
  { t with timer := { t.timer with tags := [], value := default, hit_count := 0 } }

end PoolTimer

/-- The fields of `pinba_stats_record` that locate its timers. -/
structure TimerOwner where
  timers_start : Nat
  timers_cnt : Nat
deriving DecidableEq

/-- The timers that a request stores. -/
def stored_timers (timers : List RequestTimer) : List TimerRecord :=
  (timers.filter fun t => !t.skipped).map RequestTimer.record

/-- `pinba_stored_timer_count`. -/
def pinba_stored_timer_count (timers : List RequestTimer) : Nat :=
  timers.countP fun t => !t.skipped

/-- `record_get_timer_id`. -/
def record_get_timer_id (pool : CircularBuffer PoolTimer) (record : TimerOwner) (i : Nat) : Nat :=
  advance pool.size record.timers_start i

/-- `record_get_timer`. -/
def record_get_timer (pool : CircularBuffer PoolTimer) (record : TimerOwner) (i : Nat) : PoolTimer :=
  pool.data (record_get_timer_id pool record i)

/-! ## Section 2: Reserving timers -/

/-- One turn of the loop of `timer_pool_add` over the moved timers. The state
    is the request records and `prev_request_id`, `none` for -1. -/
def shift_record (more : Nat) (st : (Nat → TimerOwner) × Option Nat) (timer : PoolTimer) :
    (Nat → TimerOwner) × Option Nat :=
  if timer.tag_num = 0 then st
  else if some timer.request_id = st.2 then st
  else
    let record := st.1 timer.request_id
    if record.timers_cnt = 0 then st
    else
      (Function.update st.1 timer.request_id
        { record with timers_start := record.timers_start + more }, some timer.request_id)

/-- The loop over the timers from `out` to the end of the grown pool. -/
def shift_records (more : Nat) (pool : CircularBuffer PoolTimer) (records : Nat → TimerOwner) :
    Nat → TimerOwner :=
  (((List.range' pool.outPos (pool.size - pool.outPos)).map pool.data).foldl
    (shift_record more) (records, none)).1

/-- How much `timer_pool_add` asks for. -/
def grow_amount (timers_cnt : Nat) : Nat :=
  if PINBA_TIMER_POOL_GROW_SIZE < timers_cnt then PINBA_TIMER_POOL_GROW_SIZE + timers_cnt
  else PINBA_TIMER_POOL_GROW_SIZE

theorem le_grow_amount (timers_cnt : Nat) : timers_cnt ≤ grow_amount timers_cnt := by
  unfold grow_amount
  split <;> omega

/-- `pinba_pool_grow` on the timer pool, and the repair of the records. -/
def timer_pool_grow (more : Nat) (pool : CircularBuffer PoolTimer) (records : Nat → TimerOwner) :
    CircularBuffer PoolTimer × (Nat → TimerOwner) :=
  let pool := pool.grow more .zero
  (pool, if pool.inPos < pool.outPos then shift_records more pool records else records)

@[simp] theorem fst_timer_pool_grow {more : Nat} {pool : CircularBuffer PoolTimer}
    {records : Nat → TimerOwner} :
    (timer_pool_grow more pool records).1 = pool.grow more .zero := rfl

/-- The pool is too small for the timers. -/
def timer_pool_full (pool : CircularBuffer PoolTimer) (timers_cnt : Nat) : Prop :=
  pool.size ≤ pool.count + timers_cnt

instance (pool : CircularBuffer PoolTimer) (timers_cnt : Nat) :
    Decidable (timer_pool_full pool timers_cnt) := inferInstanceAs (Decidable (_ ≤ _))

/-- `timer_pool_add`: the first reserved position, the pool and the request
    records. `realloc_ok` tells whether the pool can be enlarged. -/
def timer_pool_add (pool : CircularBuffer PoolTimer) (records : Nat → TimerOwner)
    (timers_cnt : Nat) (realloc_ok : Bool) :
    Option (Nat × CircularBuffer PoolTimer × (Nat → TimerOwner)) :=
  if h : timer_pool_full pool timers_cnt then
    if realloc_ok then
      let grown := timer_pool_grow (grow_amount timers_cnt) pool records
      some (grown.1.inPos,
        grown.1.publish timers_cnt (by
          have := le_grow_amount timers_cnt
          rw [fst_timer_pool_grow, CircularBuffer.free_grow]
          omega),
        grown.2)
    else none
  else
    some (pool.inPos,
      pool.publish timers_cnt (by
        have := pool.count_add_free
        unfold timer_pool_full at h
        omega),
      records)

/-! ## Section 3: Storing timers -/

/-- The loop of `_add_timers` for the request in slot `request_id`: the final
    `timers_cnt` and the pool's memory. -/
def add_timers (size request_id timers_start : Nat) :
    List RequestTimer → Nat → (Nat → PoolTimer) → Nat × (Nat → PoolTimer)
  | [], timers_cnt, data => (timers_cnt, data)
  | t :: timers, timers_cnt, data =>
    if t.skipped then add_timers size request_id timers_start timers timers_cnt data
    else
      add_timers size request_id timers_start timers (timers_cnt + 1)
        (Function.update data (advance size timers_start timers_cnt) ⟨request_id, t.record⟩)

/-- A share of a batch: the slots of its records and their timers. -/
abbrev Share := List (Nat × List RequestTimer)

/-- The loop of `merge_timers_func` for the share of one thread: the new values
    of its records and the pool's memory. `timers_cnt` is `d->timers_cnt`. -/
def merge_timers_func (size timers_offset : Nat) :
    Share → Nat → (Nat → PoolTimer) → List TimerOwner × (Nat → PoolTimer)
  | [], _, data => ([], data)
  | (request_id, timers) :: share, timers_cnt, data =>
    if timers = [] then
      let rest := merge_timers_func size timers_offset share timers_cnt data
      (⟨0, 0⟩ :: rest.1, rest.2)
    else
      let timers_start := timers_offset + timers_cnt
      let timers_start := if size ≤ timers_start then timers_start - size else timers_start
      let added := add_timers size request_id timers_start timers 0 data
      let rest := merge_timers_func size timers_offset share (timers_cnt + added.1) added.2
      (⟨timers_start, added.1⟩ :: rest.1, rest.2)

/-- The timers of a share, as `request_copy_job_func` counts them. -/
def share_timers (share : Share) : Nat :=
  (share.map fun e => pinba_stored_timer_count e.2).sum

/-- All threads: each share starts where the timers of the shares before it
    end. -/
def merge_shares (size timer_pool_in : Nat) :
    List Share → Nat → (Nat → PoolTimer) → List TimerOwner × (Nat → PoolTimer)
  | [], _, data => ([], data)
  | share :: shares, timers_added, data =>
    let merged := merge_timers_func size (timers_added + timer_pool_in) share 0 data
    let rest := merge_shares size timer_pool_in shares (timers_added + share_timers share) merged.2
    (merged.1 ++ rest.1, rest.2)

/-- The ring slots of the records of a batch: thread `i` fills the slots from
    `in + d->start` on. -/
def place (size inPos : Nat) : List (List (List RequestTimer)) → Nat → List Share
  | [], _ => []
  | share :: shares, accounted =>
    (walk size (advance size inPos accounted) share.length).zip share ::
      place size inPos shares (accounted + share.length)

/-! ### What the loops count -/

section counting
variable {size request_id timers_start timers_offset : Nat}

theorem add_timers_count (timers : List RequestTimer) (timers_cnt : Nat) (data : Nat → PoolTimer) :
    (add_timers size request_id timers_start timers timers_cnt data).1 =
      timers_cnt + pinba_stored_timer_count timers := by
  induction timers generalizing timers_cnt data with
  | nil => rfl
  | cons t timers ih =>
    rw [add_timers, pinba_stored_timer_count, List.countP_cons, ← pinba_stored_timer_count]
    cases t.skipped with
    | true => simp [ih]
    | false =>
      simp only [Bool.false_eq_true, if_false, ih, Bool.not_false, if_true]
      omega

theorem map_timers_cnt_merge_timers (share : Share) (timers_cnt : Nat) (data : Nat → PoolTimer) :
    (merge_timers_func size timers_offset share timers_cnt data).1.map TimerOwner.timers_cnt =
      share.map fun e => pinba_stored_timer_count e.2 := by
  induction share generalizing timers_cnt data with
  | nil => rfl
  | cons e share ih =>
    obtain ⟨request_id, timers⟩ := e
    rw [merge_timers_func]
    by_cases h : timers = []
    · subst h
      simp [ih, pinba_stored_timer_count]
    · simp [h, ih, add_timers_count]

theorem map_timers_cnt_merge_shares (shares : List Share) (timers_added : Nat)
    (data : Nat → PoolTimer) :
    (merge_shares size timers_offset shares timers_added data).1.map TimerOwner.timers_cnt =
      shares.flatten.map fun e => pinba_stored_timer_count e.2 := by
  induction shares generalizing timers_added data with
  | nil => rfl
  | cons share shares ih =>
    simp [merge_shares, ih, map_timers_cnt_merge_timers]

theorem shift_record_timers_cnt (more : Nat) (st : (Nat → TimerOwner) × Option Nat)
    (timer : PoolTimer) (i : Nat) :
    ((shift_record more st timer).1 i).timers_cnt = (st.1 i).timers_cnt := by
  unfold shift_record
  split
  · rfl
  · split
    · rfl
    · simp only
      split
      · rfl
      · by_cases hi : i = timer.request_id
        · simp [hi]
        · simp [hi]

theorem shift_records_timers_cnt (more : Nat) (pool : CircularBuffer PoolTimer)
    (records : Nat → TimerOwner) (i : Nat) :
    (shift_records more pool records i).timers_cnt = (records i).timers_cnt := by
  unfold shift_records
  generalize (List.range' pool.outPos (pool.size - pool.outPos)).map pool.data = tail
  generalize hst : (records, (none : Option Nat)) = st
  rw [show records = st.1 by rw [← hst]]
  clear hst
  induction tail generalizing st with
  | nil => rfl
  | cons timer tail ih => rw [List.foldl_cons, ih, shift_record_timers_cnt]

theorem timer_pool_grow_timers_cnt (more : Nat) (pool : CircularBuffer PoolTimer)
    (records : Nat → TimerOwner) (i : Nat) :
    ((timer_pool_grow more pool records).2 i).timers_cnt = (records i).timers_cnt := by
  unfold timer_pool_grow
  simp only
  split
  · exact shift_records_timers_cnt _ _ _ _
  · rfl

/-- A reservation makes room for the timers and changes no record's count. -/
theorem timer_pool_add_count {pool pool' : CircularBuffer PoolTimer} {records records' : Nat → TimerOwner}
    {timers_cnt id : Nat} {realloc_ok : Bool}
    (h : timer_pool_add pool records timers_cnt realloc_ok = some (id, pool', records')) :
    pool'.count = pool.count + timers_cnt ∧
    ∀ i, (records' i).timers_cnt = (records i).timers_cnt := by
  unfold timer_pool_add at h
  split at h
  · split at h
    · obtain ⟨-, rfl, rfl⟩ : _ ∧ _ ∧ _ := by simpa using h
      refine ⟨?_, fun i => timer_pool_grow_timers_cnt _ _ _ i⟩
      rw [CircularBuffer.count_publish, CircularBuffer.count_grow]
    · exact absurd h (by simp)
  · obtain ⟨-, rfl, rfl⟩ : _ ∧ _ ∧ _ := by simpa using h
    exact ⟨CircularBuffer.count_publish _ _, fun _ => rfl⟩

end counting

/-! ## Section 4: Batches and expiry passes -/

/-- The request ring and the timer pool. -/
structure TimerState where
  request_pool : CircularBuffer TimerOwner
  timer_pool : CircularBuffer PoolTimer
  /-- The pool holds as many timers as the live records have. -/
  counted : (request_pool.contents.map fun e => e.2.timers_cnt).sum = timer_pool.count

namespace TimerState

/-- Both pools after start-up, with room for `requests` records and `timers`
    timers. -/
def init (requests timers : Nat) : TimerState :=
  ⟨.blank requests ⟨0, 0⟩, .blank timers .zero, by simp⟩

/-- The number of timers that a batch stores. -/
def timers_added (shares : List (List (List RequestTimer))) : Nat :=
  (shares.flatten.map pinba_stored_timer_count).sum

variable (s : TimerState) (shares : List (List (List RequestTimer))) (realloc_ok : Bool)

/-- The ring after `request_copy_job_func`: the new records have no timers yet. -/
def copied : CircularBuffer TimerOwner :=
  s.request_pool.write (List.replicate shares.flatten.length ⟨0, 0⟩)

/-- The outcome of `timer_pool_add` for the batch. -/
def reserved : Option (Nat × CircularBuffer PoolTimer × (Nat → TimerOwner)) :=
  timer_pool_add s.timer_pool (s.copied shares).data (timers_added shares) realloc_ok

/-- The shares with their ring slots. -/
def placed : List Share := place s.request_pool.size s.request_pool.inPos shares 0

/-- What the threads of `merge_timers_func` make of the reserved pool. -/
def merged (timer_pool_in : Nat) (pool : CircularBuffer PoolTimer) :
    List TimerOwner × (Nat → PoolTimer) :=
  merge_shares pool.size timer_pool_in (s.placed shares) 0 pool.data

variable {shares}

theorem flatten_place {size inPos accounted : Nat} (hin : inPos < size)
    (hroom : accounted + shares.flatten.length ≤ size) :
    (place size inPos shares accounted).flatten =
      (walk size (advance size inPos accounted) shares.flatten.length).zip shares.flatten := by
  induction shares generalizing accounted with
  | nil => rfl
  | cons share shares ih =>
    rw [List.flatten_cons, List.length_append] at hroom
    have hpos := advance_lt hin (show accounted ≤ size by omega)
    have hnext : (advance size inPos accounted + share.length) % size =
        advance size inPos (accounted + share.length) := by
      rw [advance_eq_mod hin (by omega), advance_eq_mod hin (by omega), Nat.mod_add_mod,
        Nat.add_assoc]
    rw [place, List.flatten_cons, ih (by omega), List.flatten_cons, List.length_append,
      walk_add hpos, hnext, List.zip_append length_walk]

theorem flatten_placed (h : shares.flatten.length ≤ s.request_pool.free) :
    (s.placed shares).flatten =
      (s.request_pool.ahead shares.flatten.length).zip shares.flatten := by
  have hsize := s.request_pool.count_add_free
  have h0 : advance s.request_pool.size s.request_pool.inPos 0 = s.request_pool.inPos := by
    rw [advance_eq_mod s.request_pool.in_lt (by omega), Nat.add_zero,
      Nat.mod_eq_of_lt s.request_pool.in_lt]
  unfold placed
  rw [flatten_place s.request_pool.in_lt (by omega), h0]
  rfl

theorem map_timers_cnt_merged (h : shares.flatten.length ≤ s.request_pool.free)
    (timer_pool_in : Nat) (pool : CircularBuffer PoolTimer) :
    (s.merged shares timer_pool_in pool).1.map TimerOwner.timers_cnt =
      shares.flatten.map pinba_stored_timer_count := by
  have hsnd : ((s.request_pool.ahead shares.flatten.length).zip shares.flatten).map Prod.snd =
      shares.flatten := List.map_snd_zip (by rw [CircularBuffer.length_ahead])
  unfold merged
  rw [map_timers_cnt_merge_shares, s.flatten_placed h]
  conv_rhs => rw [← hsnd]
  rw [List.map_map]
  rfl

theorem length_merged (h : shares.flatten.length ≤ s.request_pool.free)
    (timer_pool_in : Nat) (pool : CircularBuffer PoolTimer) :
    (s.merged shares timer_pool_in pool).1.length = shares.flatten.length := by
  have hlen := congrArg List.length (s.map_timers_cnt_merged h timer_pool_in pool)
  rwa [List.length_map, List.length_map] at hlen

theorem map_timers_cnt_append {records : Nat → TimerOwner} {owners : List TimerOwner}
    (h : owners.length ≤ (s.request_pool.setData records).free)
    (hrec : ∀ i ∈ s.request_pool.live,
      (records i).timers_cnt = (s.request_pool.data i).timers_cnt) :
    (((s.request_pool.setData records).append owners h).contents.map fun e => e.2.timers_cnt) =
      (s.request_pool.contents.map fun e => e.2.timers_cnt) ++ owners.map TimerOwner.timers_cnt := by
  have hold : ((s.request_pool.setData records).contents.map fun e => e.2.timers_cnt) =
      s.request_pool.contents.map fun e => e.2.timers_cnt := by
    rw [CircularBuffer.contents_setData, CircularBuffer.contents, List.map_map, List.map_map]
    exact List.map_congr_left hrec
  have hnew : ((s.request_pool.ahead owners.length).zip owners).map (fun e => e.2.timers_cnt) =
      owners.map TimerOwner.timers_cnt := by
    have hsnd : ((s.request_pool.ahead owners.length).zip owners).map Prod.snd = owners :=
      List.map_snd_zip (by rw [CircularBuffer.length_ahead])
    calc _ = (((s.request_pool.ahead owners.length).zip owners).map Prod.snd).map
          TimerOwner.timers_cnt := by rw [List.map_map]; rfl
      _ = owners.map TimerOwner.timers_cnt := by rw [hsnd]
  rw [CircularBuffer.contents_append, List.map_append, hold, CircularBuffer.ahead_setData, hnew]

/-- The ring and the pool after a batch whose timers could not be stored, or
    that has none. -/
def admit_bare (h : shares.flatten.length ≤ s.request_pool.free) : TimerState where
  request_pool := s.request_pool.append (List.replicate shares.flatten.length ⟨0, 0⟩)
    (by rwa [List.length_replicate])
  timer_pool := s.timer_pool
  counted := by
    have hlen : (List.replicate shares.flatten.length (⟨0, 0⟩ : TimerOwner)).length ≤
        s.request_pool.free := by rwa [List.length_replicate]
    have hcnt := s.map_timers_cnt_append hlen (fun slot _ => rfl)
    calc _ = ((s.request_pool.contents.map fun e => e.2.timers_cnt) ++
          (List.replicate shares.flatten.length ⟨0, 0⟩).map TimerOwner.timers_cnt).sum :=
          congrArg List.sum hcnt
      _ = s.timer_pool.count := by
          rw [List.sum_append, s.counted, List.map_replicate, List.sum_replicate]
          simp

/-- Copying the new records does not touch the live ones. -/
theorem data_copied (h : shares.flatten.length ≤ s.request_pool.free) {i : Nat}
    (hi : i ∈ s.request_pool.live) : (s.copied shares).data i = s.request_pool.data i := by
  have hahead := (List.nodup_append'.mp (s.request_pool.nodup_live_append_ahead h)).2.2 hi
  rw [copied, CircularBuffer.write, CircularBuffer.data_setData]
  apply writeFrom_of_notMem
  rwa [List.length_replicate]

/-- The ring and the pool after `merge_timers_func`. -/
def admit_timers (h : shares.flatten.length ≤ s.request_pool.free) {id : Nat}
    {pool : CircularBuffer PoolTimer} {records : Nat → TimerOwner}
    (hr : s.reserved shares realloc_ok = some (id, pool, records)) : TimerState where
  request_pool := (s.request_pool.setData records).append (s.merged shares id pool).1
    (by rw [s.length_merged h]; exact h)
  timer_pool := pool.setData (s.merged shares id pool).2
  counted := by
    obtain ⟨hcount, hcnt⟩ := timer_pool_add_count hr
    have hlive : ∀ i ∈ s.request_pool.live,
        (records i).timers_cnt = (s.request_pool.data i).timers_cnt := by
      intro i hi
      rw [hcnt i, s.data_copied h hi]
    rw [s.map_timers_cnt_append _ hlive, List.sum_append, s.counted, s.map_timers_cnt_merged h,
      CircularBuffer.count_setData, hcount]
    rfl

/-- A batch of `pinba_data_main`. -/
def ingest (shares : List (List (List RequestTimer)))
    (h : shares.flatten.length ≤ s.request_pool.free) (realloc_ok : Bool) : TimerState :=
  if timers_added shares = 0 then s.admit_bare h
  else
    match hr : s.reserved shares realloc_ok with
    | none => s.admit_bare h
    | some _ => s.admit_timers realloc_ok h hr

/-- The timers of the batch find room and are stored. -/
def stores (shares : List (List (List RequestTimer))) (realloc_ok : Bool) : Prop :=
  timers_added shares ≠ 0 ∧ (s.reserved shares realloc_ok).isSome

instance (shares : List (List (List RequestTimer))) (realloc_ok : Bool) :
    Decidable (s.stores shares realloc_ok) := inferInstanceAs (Decidable (_ ∧ _))

theorem ingest_of_not_stores {realloc_ok : Bool} (h : shares.flatten.length ≤ s.request_pool.free)
    (hnot : ¬ s.stores shares realloc_ok) : s.ingest shares h realloc_ok = s.admit_bare h := by
  unfold ingest
  by_cases hadded : timers_added shares = 0
  · rw [if_pos hadded]
  · rw [if_neg hadded]
    split
    · rfl
    · next hr => exact absurd ⟨hadded, by rw [hr]; rfl⟩ hnot

theorem ingest_of_stores {realloc_ok : Bool} (h : shares.flatten.length ≤ s.request_pool.free)
    (hadded : timers_added shares ≠ 0) {id : Nat} {pool : CircularBuffer PoolTimer}
    {records : Nat → TimerOwner} (hr : s.reserved shares realloc_ok = some (id, pool, records)) :
    s.ingest shares h realloc_ok = s.admit_timers realloc_ok h hr := by
  unfold ingest
  rw [if_neg hadded]
  split
  · next hnone => exact absurd (hnone.symm.trans hr) (by simp)
  · next hsome =>
    obtain rfl := Option.some.inj (hsome.symm.trans hr)
    rfl

/-- A batch makes the slots after the live ones live. -/
theorem live_ingest {realloc_ok : Bool} (h : shares.flatten.length ≤ s.request_pool.free) :
    (s.ingest shares h realloc_ok).request_pool.live =
      s.request_pool.live ++ s.request_pool.ahead shares.flatten.length := by
  by_cases hstores : s.stores shares realloc_ok
  · obtain ⟨⟨id, pool, records⟩, hr⟩ := Option.isSome_iff_exists.mp hstores.2
    have hlen := s.length_merged h id pool
    rw [s.ingest_of_stores h hstores.1 hr]
    exact (s.request_pool.setData records).live_append hlen (by rw [hlen]; exact h)
  · rw [s.ingest_of_not_stores h hstores]
    exact s.request_pool.live_append List.length_replicate (by rwa [List.length_replicate])

/-- `clear_record_timers_func` over the expired records. -/
def clear_record_timers_func (pool : CircularBuffer PoolTimer) (records : List TimerOwner) :
    Nat → PoolTimer :=
  records.foldl (fun data record =>
    (List.range record.timers_cnt).foldl (fun data j =>
      let id := record_get_timer_id pool record j
      Function.update data id (data id).cleared) data) pool.data

/-- The records that the next expiry pass of `n` records removes. -/
def expired (n : Nat) : List TimerOwner := (s.request_pool.contents.take n).map Prod.snd

/-- `deleted_timer_cnt`. -/
def deleted_timer_cnt (n : Nat) : Nat := ((s.expired n).map TimerOwner.timers_cnt).sum

theorem deleted_timer_cnt_add (n : Nat) :
    s.deleted_timer_cnt n + ((s.request_pool.contents.drop n).map fun e => e.2.timers_cnt).sum =
      s.timer_pool.count := by
  rw [← s.counted]
  conv_rhs => rw [← List.take_append_drop n s.request_pool.contents]
  rw [List.map_append, List.sum_append]
  unfold deleted_timer_cnt expired
  rw [List.map_map]
  rfl

/-- An expiry pass of `pinba_stats_main` that removes the oldest `n` records.
    Without timers to clear nothing changes in the pool, as in the code. -/
def expire (n : Nat) (h : n ≤ s.request_pool.count) : TimerState where
  request_pool := s.request_pool.dropFront n h
  timer_pool := (s.timer_pool.setData
    (clear_record_timers_func s.timer_pool (s.expired n))).dropFront (s.deleted_timer_cnt n)
    (by have := s.deleted_timer_cnt_add n
        rw [CircularBuffer.count_setData]
        omega)
  counted := by
    have hsplit := s.deleted_timer_cnt_add n
    rw [CircularBuffer.contents_dropFront, CircularBuffer.count_dropFront,
      CircularBuffer.count_setData]
    omega

end TimerState

end PinbaEngine
