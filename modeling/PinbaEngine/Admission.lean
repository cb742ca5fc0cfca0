import PinbaEngine.Daemon
import PinbaEngine.Lib.Compaction
import PinbaEngine.Pipeline

/-! # Admitting a batch to the ring

    `pinba_data_main` hands out the free slots of the request ring to its worker
    threads, one run of slots for each (`shares`), and every worker copies what
    it has staged to its run (`request_copy_job_func`). A copy may fail for lack
    of memory. The worker then tries the next record on the same slot, so the
    run keeps a hole at its end, and the data thread closes the holes by swaps
    before it publishes the new records.

    The workers run at the same time. Here they take turns in any order, one
    record at a turn: `Copying` is what holds between any two turns.

    `Daemon.ingest` starts from the list of the records that were copied. This
    module is about the slots that these records end up in.
-/

namespace PinbaEngine

open Circular

/-! ## Section 1: Records -/

/-- A slot of the ring, with the sizes of the arrays that belong to it. -/
structure RawRecord where
  record : StatsRecord
  active : Bool
  dictionary_words_alloc : Nat
  tags_alloc_cnt : Nat

/-- An entry of a staging pool (`pinba_stats_record_ex`). That its words are
    moved out by a copy is the subject of `Ownership`. -/
structure TempRecord where
  staged : StagedRecord
  time : Timeval

/-- What a copy finds: the failure that tests inject, and the three calls of
    `realloc`. -/
structure CopyMemory where
  raw_copy_buffer : Bool
  words : Bool
  names : Bool
  values : Bool

/-- The record in the ring before its timers are merged. -/
def TempRecord.stamped (temp : TempRecord) (counter : Nat) : StatsRecord :=
  temp.staged.without_timers.stamped temp.time counter

/-- `record->active = 0; record->data.tags_cnt = 0`. -/
def RawRecord.abandon (slot : RawRecord) : RawRecord :=
  { slot with
    record := { slot.record with data := { slot.record.data with tags := [] } }
    active := false }

/-- The body of the loop of `request_copy_job_func`: the slot afterwards, and
    whether the copy succeeded. The arrays of the slot stay with it. -/
def copy_record (memory : CopyMemory) (counter : Nat) (temp : TempRecord) (slot : RawRecord) :
    RawRecord × Bool :=
  let words := temp.staged.words
  let tags_cnt := temp.staged.data.tags.length
  let slot := { slot with
    record := ⟨temp.staged.data, temp.time, counter, [], []⟩
    active := true }
  if memory.raw_copy_buffer then (slot.abandon, false)
  else if slot.dictionary_words_alloc < words.length ∧ !memory.words then (slot.abandon, false)
  else
    let slot := { slot with dictionary_words_alloc := max slot.dictionary_words_alloc words.length }
    if slot.tags_alloc_cnt < tags_cnt ∧ !(memory.names && memory.values) then (slot.abandon, false)
    else
      ({ slot with
          tags_alloc_cnt := max slot.tags_alloc_cnt tags_cnt
          record := { slot.record with dictionary_words := words } }, true)

/-! ## Section 2: Shares -/

/-- `start` and `end` of the jobs. A thread that has staged nothing gets no job,
    and its part of `job_data_arr` stays zero. -/
def copy_shares : List Nat → Nat → Nat → List (Nat × Nat)
  | [], _, _ => []
  | staged :: rest, accounted, records_to_copy =>
    if staged = 0 then (0, 0) :: copy_shares rest accounted records_to_copy
    else
      let share := if records_to_copy < staged then records_to_copy else staged
      (accounted, share) :: copy_shares rest (accounted + share) (records_to_copy - share)

/-- What the data thread finds when it has taken `collector_lock`. -/
structure Batch where
  request_pool : CircularBuffer RawRecord
  request_pool_counter : Nat
  /-- `tmp_pool->in` of each thread. -/
  staged : List Nat
  /-- `REQ_POOL_EX(tmp_pool)[n]` by thread and position. -/
  temp : Nat × Nat → TempRecord
  /-- Left over from earlier batches. -/
  request_id : Nat × Nat → Option Nat
  memory : Nat × Nat → CopyMemory

namespace Batch

variable (b : Batch)

/-- `records_to_copy` after it was cut down to `free_slots`. -/
def records_to_copy : Nat :=
  if b.request_pool.free < b.staged.sum then b.request_pool.free else b.staged.sum

def jobs : List (Nat × Nat) := copy_shares b.staged 0 b.records_to_copy

/-- `job_data_arr[t].start`. -/
def start (t : Nat) : Nat := (b.jobs.getD t (0, 0)).1

/-- `job_data_arr[t].end`. -/
def share (t : Nat) : Nat := (b.jobs.getD t (0, 0)).2

def accounted : Nat := (b.jobs.map Prod.snd).sum

end Batch

/-! ## Section 3: Copying -/

/-- The locals of a running job, and what it counts in its `data_job_data`. -/
structure CopyThread where
  i : Nat
  tmp_id : Nat
  res_cnt : Nat
  timers_cnt : Nat
  rtags_cnt : Nat

structure CopyState where
  /-- `REQ_POOL(request_pool)`. -/
  slots : Nat → RawRecord
  /-- `request_id` of the staging entries; `none` is `SIZE_MAX`. -/
  request_id : Nat × Nat → Option Nat
  threads : Nat → CopyThread

namespace Batch

variable (b : Batch)

/-- Before the first turn of a thread. -/
def copy_start : CopyState where
  slots := b.request_pool.data
  request_id := b.request_id
  threads t := ⟨0, advance b.request_pool.size b.request_pool.inPos (b.start t), 0, 0, 0⟩

/-- One turn of the loop of `request_copy_job_func` in thread `t`. -/
def request_copy_turn (s : CopyState) (t : Nat) : CopyState :=
  let d := s.threads t
  if d.i < b.share t then
    let temp := b.temp (t, d.i)
    let counter := b.request_pool_counter + b.start t + d.i
    match copy_record (b.memory (t, d.i)) counter temp (s.slots d.tmp_id) with
    | (record, false) =>
      { slots := Function.update s.slots d.tmp_id record
        request_id := Function.update s.request_id (t, d.i) none
        threads := Function.update s.threads t { d with i := d.i + 1 } }
    | (record, true) =>
      { slots := Function.update s.slots d.tmp_id record
        request_id := Function.update s.request_id (t, d.i) (some d.tmp_id)
        threads := Function.update s.threads t
          { i := d.i + 1
            tmp_id := succIndex b.request_pool.size d.tmp_id
            res_cnt := d.res_cnt + 1
            timers_cnt := d.timers_cnt + temp.staged.timers.length
            rtags_cnt := d.rtags_cnt + temp.staged.data.tags.length } }
  else s

/-- The threads take turns as `schedule` says. -/
def request_copy_jobs (schedule : List Nat) : CopyState :=
  schedule.foldl b.request_copy_turn b.copy_start

/-! ## Section 4: Compaction and publication -/

/-- All entries that were to be copied, by thread and position. -/
def order : List (Nat × Nat) :=
  (List.range b.staged.length).flatMap fun t => (List.range (b.share t)).map fun n => (t, n)

/-- Sum of `res_cnt`. -/
def records_created (s : CopyState) : Nat :=
  ((List.range b.staged.length).map fun t => (s.threads t).res_cnt).sum

/-- What is added to `raw_allocation_drops`. -/
def allocation_drops (s : CopyState) : Nat :=
  if b.records_created s < b.accounted then b.accounted - b.records_created s else 0

/-- `target.counter = D->request_pool_counter + counter++`. -/
def renumber (counter : Nat) (slot : RawRecord) : RawRecord :=
  { slot with record := { slot.record with counter := b.request_pool_counter + counter } }

/-- The loop that closes the holes: an entry that was not copied is passed over;
    another one's slot is swapped to `position`, which then moves on. -/
def compaction (s : CopyState) : Compaction.State (Nat × Nat) Nat RawRecord :=
  b.order.foldl
    (Compaction.visit (fun position => (position + 1) % b.request_pool.size) b.renumber)
    ⟨s.slots, s.request_id, b.request_pool.inPos, 0⟩

def compact (s : CopyState) : CopyState :=
  if b.records_created s < b.accounted then
    { s with slots := (b.compaction s).data, request_id := (b.compaction s).ids }
  else s

/-- The entries whose copy succeeded, by thread and position. -/
def survivors (s : CopyState) : List (Nat × Nat) :=
  b.order.filter fun p => (s.request_id p).isSome

end Batch

/-! ## Section 5: Shares are runs of free slots -/

theorem length_copy_shares (staged : List Nat) (accounted left : Nat) :
    (copy_shares staged accounted left).length = staged.length := by
  induction staged generalizing accounted left with
  | nil => rfl
  | cons n staged ih =>
    unfold copy_shares
    split <;> simp [ih]

/-- The lengths of the runs are the shares of the counting model. -/
theorem map_snd_copy_shares (staged : List Nat) (accounted left : Nat) :
    (copy_shares staged accounted left).map Prod.snd = shares staged left := by
  induction staged generalizing accounted left with
  | nil => rfl
  | cons n staged ih =>
    unfold copy_shares shares
    by_cases hn : n = 0
    · simp [hn, ih]
    · simp [hn, ih]

/-- A run starts where the runs of the threads before it end. -/
theorem copy_shares_start {staged : List Nat} {accounted left t : Nat}
    (h : ((copy_shares staged accounted left).getD t (0, 0)).2 ≠ 0) :
    ((copy_shares staged accounted left).getD t (0, 0)).1 =
      accounted + (((copy_shares staged accounted left).map Prod.snd).take t).sum := by
  induction staged generalizing accounted left t with
  | nil => exact absurd rfl h
  | cons n staged ih =>
    unfold copy_shares at h ⊢
    by_cases hn : n = 0
    · rw [if_pos hn] at h ⊢
      cases t with
      | zero => exact absurd rfl h
      | succ t => simpa using ih h
    · rw [if_neg hn] at h ⊢
      cases t with
      | zero => simp
      | succ t =>
        have hrest := ih h
        simp only [List.getD_cons_succ, List.map_cons, List.take_succ_cons, List.sum_cons] at hrest ⊢
        omega

namespace Batch

variable (b : Batch)

/-- The slots of the first `t` runs. -/
def taken (t : Nat) : Nat := ((b.jobs.map Prod.snd).take t).sum

theorem start_eq {t : Nat} (h : b.share t ≠ 0) : b.start t = b.taken t := by
  have hstart := copy_shares_start h
  rw [Nat.zero_add] at hstart
  exact hstart

theorem taken_succ (t : Nat) : b.taken (t + 1) = b.taken t + b.share t := by
  unfold taken share
  by_cases ht : t < b.jobs.length
  · rw [List.take_succ_eq_append_getElem (by simpa using ht), List.sum_append, List.getElem_map,
      List.getD_eq_getElem _ _ ht, List.sum_singleton]
  · rw [List.getD_eq_default _ _ (Nat.not_lt.mp ht), List.take_of_length_le (by simp; omega),
      List.take_of_length_le (by simp; omega)]
    rfl

theorem taken_length : b.taken b.staged.length = b.accounted := by
  unfold taken accounted
  rw [List.take_of_length_le]
  rw [List.length_map, jobs, length_copy_shares]

theorem accounted_eq : b.accounted = min b.staged.sum b.request_pool.free := by
  unfold accounted jobs
  rw [map_snd_copy_shares, sum_shares]
  unfold records_to_copy
  split <;> omega

theorem accounted_lt_size : b.accounted < b.request_pool.size := by
  have hfree := b.request_pool.count_add_free
  have hacc := b.accounted_eq
  omega

/-- The place of an entry in the runs, counted from `in`. -/
def offset (p : Nat × Nat) : Nat := b.start p.1 + p.2

/-- The entries that are to be copied are in the order of their places, and
    there are no gaps. -/
theorem map_offset_order : b.order.map b.offset = List.range b.accounted := by
  have hupto : ∀ m, ((List.range m).flatMap fun t =>
      (List.range (b.share t)).map fun n => (t, n)).map b.offset = List.range (b.taken m) := by
    intro m
    induction m with
    | zero => rfl
    | succ m ih =>
      rw [List.range_succ, List.flatMap_append, List.map_append, ih, b.taken_succ, List.range_add,
        List.flatMap_singleton, List.map_map]
      congr 1
      apply List.map_congr_left
      intro n hn
      have hshare : b.share m ≠ 0 := by
        have := List.mem_range.mp hn
        omega
      show b.start m + n = b.taken m + n
      rw [b.start_eq hshare]
  rw [← b.taken_length, ← hupto]
  rfl

theorem mem_order {p : Nat × Nat} : p ∈ b.order ↔ p.1 < b.staged.length ∧ p.2 < b.share p.1 := by
  obtain ⟨t, n⟩ := p
  simp [order]

/-- Only threads that exist have a share. -/
theorem lt_of_share {t : Nat} (h : b.share t ≠ 0) : t < b.staged.length := by
  by_contra hge
  apply h
  have hlen : b.jobs.length ≤ t := by
    rw [jobs, length_copy_shares]
    omega
  rw [share, List.getD_eq_default _ _ hlen]

theorem mem_order_of_lt {t n : Nat} (h : n < b.share t) : (t, n) ∈ b.order :=
  b.mem_order.mpr ⟨b.lt_of_share (Nat.ne_zero_of_lt h), h⟩

theorem offset_lt {p : Nat × Nat} (h : p ∈ b.order) : b.offset p < b.accounted := by
  have hmem : b.offset p ∈ b.order.map b.offset := List.mem_map_of_mem h
  rwa [map_offset_order, List.mem_range] at hmem

/-- No two entries have the same place. -/
theorem offset_inj {p q : Nat × Nat} (hp : p ∈ b.order) (hq : q ∈ b.order)
    (h : b.offset p = b.offset q) : p = q := by
  have hnd : (b.order.map b.offset).Nodup := by
    rw [map_offset_order]
    exact List.nodup_range
  exact List.inj_on_of_nodup_map hnd hp hq h

theorem nodup_order : b.order.Nodup := by
  apply List.Nodup.of_map b.offset
  rw [map_offset_order]
  exact List.nodup_range

/-- The slot at a place. -/
def slot (j : Nat) : Nat := (b.request_pool.inPos + j) % b.request_pool.size

theorem slot_inj {i j : Nat} (hi : i < b.accounted) (hj : j < b.accounted)
    (h : b.slot i = b.slot j) : i = j := by
  have hsize := b.accounted_lt_size
  have hmod : i % b.request_pool.size = j % b.request_pool.size := Nat.ModEq.add_left_cancel' _ h
  rwa [Nat.mod_eq_of_lt (by omega), Nat.mod_eq_of_lt (by omega)] at hmod

theorem slot_lt (j : Nat) : b.slot j < b.request_pool.size :=
  Nat.mod_lt _ (by have := b.request_pool.in_lt; omega)

theorem slot_succ (j : Nat) : (b.slot j + 1) % b.request_pool.size = b.slot (j + 1) := by
  unfold slot
  rw [Nat.mod_add_mod, Nat.add_assoc]

theorem succIndex_slot (j : Nat) : succIndex b.request_pool.size (b.slot j) = b.slot (j + 1) := by
  rw [succIndex_eq_mod (b.slot_lt j), slot_succ]

theorem advance_start {t : Nat} (h : b.share t ≠ 0) :
    advance b.request_pool.size b.request_pool.inPos (b.start t) = b.slot (b.start t) := by
  have hlt : b.start t + 0 < b.accounted := b.offset_lt (b.mem_order_of_lt (Nat.pos_of_ne_zero h))
  have hsize := b.accounted_lt_size
  exact advance_eq_mod b.request_pool.in_lt (by omega)

theorem ahead_eq {n : Nat} : b.request_pool.ahead n = (List.range n).map b.slot :=
  walk_eq_map b.request_pool.in_lt

end Batch

/-! ## Section 6: What holds between two turns -/

/-- What a successful copy leaves in its slot. -/
def RawRecord.Holds (slot : RawRecord) (temp : TempRecord) (counter : Nat) : Prop :=
  slot.record = temp.stamped counter ∧ slot.active = true

theorem copy_record_holds {memory : CopyMemory} {counter : Nat} {temp : TempRecord}
    {slot record : RawRecord} (h : copy_record memory counter temp slot = (record, true)) :
    record.Holds temp counter := by
  unfold copy_record at h
  simp only at h
  split at h
  · cases h
  · split at h
    · cases h
    · split at h
      · cases h
      · cases h
        exact ⟨rfl, rfl⟩

namespace Batch

variable {b : Batch} {s : CopyState} {t : Nat}

/-- The slots of a thread are filled from the start of its run on, by the records
    whose copy succeeded, in their order; the slots of nobody are as they were. -/
structure Copying (b : Batch) (s : CopyState) : Prop where
  i_le : ∀ t, (s.threads t).i ≤ b.share t
  tmp_id : ∀ t, b.share t ≠ 0 → (s.threads t).tmp_id = b.slot (b.start t + (s.threads t).res_cnt)
  ids : ∀ t, ((List.range (s.threads t).i).filterMap fun n => s.request_id (t, n)) =
    (List.range (s.threads t).res_cnt).map fun k => b.slot (b.start t + k)
  full : ∀ t, (s.threads t).res_cnt = (s.threads t).i →
    ∀ n < (s.threads t).i, s.request_id (t, n) = some (b.slot (b.start t + n))
  holds : ∀ t, ∀ n < (s.threads t).i, ∀ id, s.request_id (t, n) = some id →
    (s.slots id).Holds (b.temp (t, n)) (b.request_pool_counter + b.start t + n)
  frame : ∀ k, (∀ j < b.accounted, k ≠ b.slot j) → s.slots k = b.request_pool.data k

namespace Copying

theorem start (b : Batch) : Copying b b.copy_start where
  i_le _ := Nat.zero_le _
  tmp_id _ h := b.advance_start h
  ids _ := rfl
  full _ _ n h := absurd h (Nat.not_lt_zero n)
  holds _ n h := absurd h (Nat.not_lt_zero n)
  frame _ _ := rfl

theorem res_le (h : Copying b s) (t : Nat) : (s.threads t).res_cnt ≤ (s.threads t).i := by
  have hlen := congrArg List.length (h.ids t)
  rw [List.length_map, List.length_range] at hlen
  rw [← hlen]
  exact (List.length_filterMap_le _ _).trans (by simp)

/-- The slot of an entry is one that its thread has filled. -/
theorem id_eq (h : Copying b s) {n id : Nat} (hn : n < (s.threads t).i)
    (hid : s.request_id (t, n) = some id) :
    ∃ k < (s.threads t).res_cnt, id = b.slot (b.start t + k) := by
  have hmem : id ∈ (List.range (s.threads t).res_cnt).map fun k => b.slot (b.start t + k) := by
    rw [← h.ids t, List.mem_filterMap]
    exact ⟨n, List.mem_range.mpr hn, hid⟩
  obtain ⟨k, hk, rfl⟩ := List.mem_map.mp hmem
  exact ⟨k, List.mem_range.mp hk, rfl⟩

/-- No entry owns the slot that a thread is about to fill. -/
theorem id_ne_tmp_id (h : Copying b s) (ht : (s.threads t).i < b.share t) {t' n id : Nat}
    (hn : n < (s.threads t').i) (hid : s.request_id (t', n) = some id) :
    id ≠ (s.threads t).tmp_id := by
  obtain ⟨k, hk, rfl⟩ := h.id_eq hn hid
  rw [h.tmp_id t (Nat.ne_zero_of_lt ht)]
  intro heq
  have hp : (t', k) ∈ b.order :=
    b.mem_order_of_lt (by have := h.res_le t'; have := h.i_le t'; omega)
  have hq : (t, (s.threads t).res_cnt) ∈ b.order :=
    b.mem_order_of_lt (by have := h.res_le t; omega)
  have hpair := b.offset_inj hp hq (b.slot_inj (b.offset_lt hp) (b.offset_lt hq) heq)
  cases hpair
  exact absurd hk (Nat.lt_irrefl _)

/-- The slot that a thread is about to fill is one of those that were handed out. -/
theorem tmp_id_taken (h : Copying b s) (ht : (s.threads t).i < b.share t) :
    ∃ j < b.accounted, (s.threads t).tmp_id = b.slot j := by
  have hq : (t, (s.threads t).res_cnt) ∈ b.order :=
    b.mem_order_of_lt (by have := h.res_le t; omega)
  exact ⟨_, b.offset_lt hq, h.tmp_id t (Nat.ne_zero_of_lt ht)⟩

/-- The entries before the one whose turn it is keep their slots. -/
theorem id_turn (id : Option Nat) {t' n : Nat} (hn : n < (s.threads t').i) :
    Function.update s.request_id (t, (s.threads t).i) id (t', n) = s.request_id (t', n) := by
  apply Function.update_of_ne
  intro heq
  cases heq
  exact absurd hn (Nat.lt_irrefl _)

theorem ids_turn (h : Copying b s) (id : Option Nat) (t' : Nat) :
    ((List.range (s.threads t').i).filterMap fun n =>
      Function.update s.request_id (t, (s.threads t).i) id (t', n)) =
      (List.range (s.threads t').res_cnt).map fun k => b.slot (b.start t' + k) := by
  rw [← h.ids t']
  exact List.filterMap_congr fun n hn => id_turn id (List.mem_range.mp hn)

section turn
variable (h : Copying b s) (ht : (s.threads t).i < b.share t) (record : RawRecord)

include h ht

/-- A turn leaves alone what was copied before, and the slots of nobody. -/
theorem slots_turn {id : Nat} {t' n : Nat} (hn : n < (s.threads t').i)
    (hid : s.request_id (t', n) = some id) :
    Function.update s.slots (s.threads t).tmp_id record id = s.slots id :=
  Function.update_of_ne (h.id_ne_tmp_id ht hn hid) _ _

theorem frame_turn {k : Nat} (hk : ∀ j < b.accounted, k ≠ b.slot j) :
    Function.update s.slots (s.threads t).tmp_id record k = b.request_pool.data k := by
  obtain ⟨j, hj, heq⟩ := h.tmp_id_taken ht
  rw [Function.update_of_ne (heq ▸ hk j hj), h.frame k hk]

end turn

section advance
variable {thread : CopyThread} (hi : thread.i = (s.threads t).i + 1) {t' n : Nat}

include hi

theorem i_le_turn (h : Copying b s) (ht : (s.threads t).i < b.share t) (t' : Nat) :
    (Function.update s.threads t thread t').i ≤ b.share t' := by
  by_cases heq : t' = t
  · subst heq
    rw [Function.update_self, hi]
    exact ht
  · rw [Function.update_of_ne heq]
    exact h.i_le t'

/-- After a turn, the entries before the thread's position are those of before and the one whose
    turn it was. -/
theorem lt_of_lt_turn (hn : n < (Function.update s.threads t thread t').i)
    (hself : (t', n) ≠ (t, (s.threads t).i)) : n < (s.threads t').i := by
  by_cases heq : t' = t
  · subst heq
    rw [Function.update_self, hi] at hn
    have hne : n ≠ (s.threads t').i := fun hn' => hself (by rw [hn'])
    omega
  · rwa [Function.update_of_ne heq] at hn

end advance

/-- The copy failed: the slot is dirty, and the thread stays on it. -/
theorem failed (h : Copying b s) (ht : (s.threads t).i < b.share t) (record : RawRecord) :
    Copying b
      { slots := Function.update s.slots (s.threads t).tmp_id record
        request_id := Function.update s.request_id (t, (s.threads t).i) none
        threads := Function.update s.threads t { s.threads t with i := (s.threads t).i + 1 } } where
  i_le t' := i_le_turn rfl h ht t'
  tmp_id t' hshare := by
    by_cases heq : t' = t
    · subst heq
      simpa using h.tmp_id t' hshare
    · simpa [heq] using h.tmp_id t' hshare
  ids t' := by
    by_cases heq : t' = t
    · subst heq
      simp only [Function.update_self]
      rw [List.range_succ, List.filterMap_append, h.ids_turn none t']
      simp
    · simpa [heq] using h.ids t'
  full t' := by
    by_cases heq : t' = t
    · -- the thread has fewer copies than turns
      subst heq
      simp only [Function.update_self]
      intro hfull
      have := h.res_le t'
      omega
    · simp only [Function.update_of_ne heq]
      intro hfull n hn
      rw [id_turn none hn]
      exact h.full t' hfull n hn
  holds t' n hn id hid := by
    dsimp only at hid ⊢
    -- the entry whose turn it was has no slot
    have hself : (t', n) ≠ (t, (s.threads t).i) := by
      intro heq
      rw [heq, Function.update_self] at hid
      cases hid
    have hlt := lt_of_lt_turn rfl hn hself
    rw [id_turn none hlt] at hid
    rw [h.slots_turn ht record hlt hid]
    exact h.holds t' n hlt id hid
  frame k hk := h.frame_turn ht record hk

/-- The copy succeeded: the entry owns the slot, and the thread moves on. -/
theorem succeeded (h : Copying b s) (ht : (s.threads t).i < b.share t) {record : RawRecord}
    (hrecord : record.Holds (b.temp (t, (s.threads t).i))
      (b.request_pool_counter + b.start t + (s.threads t).i)) (timers_cnt rtags_cnt : Nat) :
    Copying b
      { slots := Function.update s.slots (s.threads t).tmp_id record
        request_id := Function.update s.request_id (t, (s.threads t).i) (some (s.threads t).tmp_id)
        threads := Function.update s.threads t
          { i := (s.threads t).i + 1
            tmp_id := succIndex b.request_pool.size (s.threads t).tmp_id
            res_cnt := (s.threads t).res_cnt + 1
            timers_cnt := timers_cnt
            rtags_cnt := rtags_cnt } } where
  -- field by field: the thread of the turn, then the others
  i_le t' := i_le_turn rfl h ht t'
  tmp_id t' hshare := by
    by_cases heq : t' = t
    · subst heq
      simp only [Function.update_self]
      rw [h.tmp_id t' hshare, b.succIndex_slot, Nat.add_assoc]
    · simpa [heq] using h.tmp_id t' hshare
  ids t' := by
    by_cases heq : t' = t
    · subst heq
      simp only [Function.update_self]
      rw [List.range_succ, List.filterMap_append, h.ids_turn _ t', List.range_succ, List.map_append]
      simp [h.tmp_id t' (Nat.ne_zero_of_lt ht)]
    · simpa [heq] using h.ids t'
  -- a thread without a failure has used its slots in a row
  full t' := by
    by_cases heq : t' = t
    · subst heq
      simp only [Function.update_self]
      intro hfull n hn
      have hsame : (s.threads t').res_cnt = (s.threads t').i := by omega
      rcases Nat.lt_succ_iff_lt_or_eq.mp hn with hlt | rfl
      · rw [id_turn _ hlt]
        exact h.full t' hsame n hlt
      · rw [Function.update_self, h.tmp_id t' (Nat.ne_zero_of_lt ht), hsame]
    · simp only [Function.update_of_ne heq]
      intro hfull n hn
      rw [id_turn _ hn]
      exact h.full t' hfull n hn
  holds t' n hn id hid := by
    dsimp only at hid ⊢
    by_cases hself : (t', n) = (t, (s.threads t).i)
    · -- the entry that was just copied
      cases hself
      rw [Function.update_self] at hid
      cases hid
      rw [Function.update_self]
      exact hrecord
    · have hlt := lt_of_lt_turn rfl hn hself
      rw [id_turn _ hlt] at hid
      rw [h.slots_turn ht record hlt hid]
      exact h.holds t' n hlt id hid
  frame k hk := h.frame_turn ht record hk

theorem turn (h : Copying b s) (t : Nat) : Copying b (b.request_copy_turn s t) := by
  unfold request_copy_turn
  simp only
  split
  · next ht =>
    split
    · exact h.failed ht _
    · next hcopy => exact h.succeeded ht (copy_record_holds hcopy) _ _
  · exact h

theorem foldl_turn (h : Copying b s) (schedule : List Nat) :
    Copying b (schedule.foldl b.request_copy_turn s) := by
  induction schedule generalizing s with
  | nil => exact h
  | cons t schedule ih => exact ih (h.turn t)

theorem jobs (b : Batch) (schedule : List Nat) : Copying b (b.request_copy_jobs schedule) :=
  (Copying.start b).foldl_turn schedule

end Copying

/-- A thread advances at every turn until it has reached the end of its share. -/
theorem i_turn (s : CopyState) (t t' : Nat) :
    ((b.request_copy_turn s t).threads t').i =
      if t' = t ∧ (s.threads t).i < b.share t then (s.threads t).i + 1 else (s.threads t').i := by
  unfold request_copy_turn
  simp only
  split
  · next ht =>
    by_cases heq : t' = t
    · subst heq
      split <;> simp [ht]
    · split <;> simp [heq]
  · next ht => simp [ht]

theorem i_foldl_turn (schedule : List Nat) (h : (s.threads t).i ≤ b.share t) :
    ((schedule.foldl b.request_copy_turn s).threads t).i =
      min (b.share t) ((s.threads t).i + schedule.count t) := by
  -- induction on the turns; those of other threads do not count
  induction schedule generalizing s with
  | nil => simpa using h
  | cons u schedule ih =>
    have hturn := b.i_turn s u t
    rw [List.foldl_cons, List.count_cons]
    by_cases heq : t = u
    · subst heq
      by_cases ht : (s.threads t).i < b.share t
      · rw [if_pos ⟨rfl, ht⟩] at hturn
        rw [ih (by omega), hturn]
        simp only [beq_self_eq_true, if_true]
        omega
      · rw [if_neg fun hc => ht hc.2] at hturn
        rw [ih (by omega), hturn]
        simp only [beq_self_eq_true, if_true]
        omega
    · rw [if_neg fun hc => heq hc.1] at hturn
      rw [ih (by omega), hturn]
      have hne : (u == t) = false := by simpa using Ne.symm heq
      rw [hne]
      rfl

/-- With as many turns as it has records, a thread gets to its end. -/
theorem finished (schedule : List Nat) (h : b.share t ≤ schedule.count t) :
    ((b.request_copy_jobs schedule).threads t).i = b.share t := by
  have hi := i_foldl_turn (b := b) (s := b.copy_start) (t := t) schedule (Nat.zero_le _)
  have hzero : (b.copy_start.threads t).i = 0 := rfl
  unfold request_copy_jobs
  omega

/-- A copy fails if the test hook says so, and succeeds if memory is plentiful. -/
theorem copy_record_snd {failing : Bool} {counter : Nat} {temp : TempRecord} {slot : RawRecord} :
    (copy_record ⟨failing, true, true, true⟩ counter temp slot).2 = !failing := by
  cases failing <;> simp [copy_record]

/-- A turn decides about the entry whose turn it is. -/
theorem isSome_turn {failing : Nat × Nat → Bool}
    (hmemory : ∀ p, b.memory p = ⟨failing p, true, true, true⟩)
    (ht : (s.threads t).i < b.share t) :
    ((b.request_copy_turn s t).request_id (t, (s.threads t).i)).isSome =
      !failing (t, (s.threads t).i) := by
  have hcopied : ∀ counter temp slot, (copy_record (b.memory (t, (s.threads t).i)) counter temp slot).2 =
      !failing (t, (s.threads t).i) := by
    intro counter temp slot
    rw [hmemory]
    exact copy_record_snd
  have hthis := hcopied (b.request_pool_counter + b.start t + (s.threads t).i)
    (b.temp (t, (s.threads t).i)) (s.slots (s.threads t).tmp_id)
  unfold request_copy_turn
  simp only [if_pos ht]
  split
  · next hcopy =>
    rw [hcopy] at hthis
    simpa using hthis
  · next hcopy =>
    rw [hcopy] at hthis
    simpa using hthis

theorem request_id_turn_ne {p : Nat × Nat} (hne : p ≠ (t, (s.threads t).i)) :
    (b.request_copy_turn s t).request_id p = s.request_id p := by
  unfold request_copy_turn
  simp only
  split
  · split <;> exact Function.update_of_ne hne _ _
  · rfl

/-- Any set of copies may fail, and then the entries without a slot are these. -/
theorem request_id_of_failing {failing : Nat × Nat → Bool}
    (hmemory : ∀ p, b.memory p = ⟨failing p, true, true, true⟩) (schedule : List Nat) :
    ∀ t, ∀ n < ((b.request_copy_jobs schedule).threads t).i,
      ((b.request_copy_jobs schedule).request_id (t, n)).isSome = !failing (t, n) := by
  unfold request_copy_jobs
  -- what has been decided stays, and a turn decides about one entry more
  have hstart : ∀ t, ∀ n < (b.copy_start.threads t).i,
      (b.copy_start.request_id (t, n)).isSome = !failing (t, n) :=
    fun t n hn => absurd hn (Nat.not_lt_zero n)
  generalize b.copy_start = s at hstart
  induction schedule generalizing s with
  | nil => exact hstart
  | cons u schedule ih =>
    refine ih _ fun t n hn => ?_
    rw [i_turn] at hn
    by_cases hself : (t, n) = (u, (s.threads u).i)
    · cases hself
      by_cases hu : (s.threads u).i < b.share u
      · exact isSome_turn hmemory hu
      · rw [if_neg fun hc => hu hc.2] at hn
        exact absurd hn (Nat.lt_irrefl _)
    · rw [request_id_turn_ne hself]
      apply hstart
      split at hn
      · next hc =>
        obtain ⟨rfl, -⟩ := hc
        have hne : n ≠ (s.threads t).i := fun hn' => hself (by rw [hn'])
        omega
      · exact hn

/-- Which requests survive does not depend on the schedule, as long as only the conversion of
    some requests fails. -/
theorem survivors_of_failing {failing : Nat × Nat → Bool}
    (hmemory : ∀ p, b.memory p = ⟨failing p, true, true, true⟩) (schedule : List Nat)
    (hall : ∀ t, b.share t ≤ schedule.count t) :
    b.survivors (b.request_copy_jobs schedule) = b.order.filter fun p => !failing p := by
  apply List.filter_congr
  intro p hp
  apply request_id_of_failing hmemory schedule p.1 p.2
  rw [finished schedule (hall p.1)]
  exact (b.mem_order.mp hp).2

/-! ## Section 7: What the copies leave behind -/

/-- The places that are filled, thread by thread. -/
def filled (b : Batch) (s : CopyState) : List Nat :=
  (List.range b.staged.length).flatMap fun t =>
    (List.range (s.threads t).res_cnt).map fun k => b.start t + k

theorem sublist_flatMap {α β : Type*} {f g : α → List β} (l : List α)
    (h : ∀ x ∈ l, List.Sublist (f x) (g x)) : List.Sublist (l.flatMap f) (l.flatMap g) := by
  induction l with
  | nil => exact List.Sublist.refl _
  | cons x l ih =>
    rw [List.flatMap_cons, List.flatMap_cons]
    exact (h x List.mem_cons_self).append (ih fun y hy => h y (List.mem_cons_of_mem _ hy))

namespace Copying

/-- The filled places are some of those that were handed out, in ascending order. -/
theorem filled_sublist (h : Copying b s) : List.Sublist (b.filled s) (List.range b.accounted) := by
  rw [← b.map_offset_order, order, List.map_flatMap]
  apply sublist_flatMap
  intro t _
  rw [List.map_map]
  have hle : (s.threads t).res_cnt ≤ b.share t := (h.res_le t).trans (h.i_le t)
  exact (List.range_sublist.mpr hle).map _

theorem length_filled (b : Batch) (s : CopyState) : (b.filled s).length = b.records_created s := by
  simp [filled, records_created, List.length_flatMap]

theorem records_created_le (h : Copying b s) : b.records_created s ≤ b.accounted := by
  rw [← length_filled]
  simpa using h.filled_sublist.length_le

/-- The entries own the filled slots, in their order. -/
theorem ids_order (h : Copying b s) (hdone : ∀ t, (s.threads t).i = b.share t) :
    b.order.filterMap s.request_id = (b.filled s).map b.slot := by
  rw [order, filled, List.filterMap_flatMap, List.map_flatMap]
  congr 1
  funext t
  rw [List.filterMap_map, List.map_map, ← hdone t]
  exact h.ids t

end Copying

theorem survivors_map {γ : Type*} (f : Nat × Nat → Option γ) (l : List (Nat × Nat)) :
    (l.filter fun p => (f p).isSome).map f = (l.filterMap f).map some := by
  induction l with
  | nil => rfl
  | cons p l ih => cases hp : f p <;> simp [hp, ih]

/-- What a batch leaves in the ring: the records that were copied in the slots
    from `in` on, numbered without gaps, and every entry knows its slot. -/
structure Admitted (b : Batch) (copied after : CopyState) : Prop where
  records : ∀ j, (h : j < (b.survivors copied).length) →
    (after.slots (b.slot j)).Holds (b.temp ((b.survivors copied).get ⟨j, h⟩))
      (b.request_pool_counter + j)
  ids : (b.survivors copied).map after.request_id =
    (List.range (b.survivors copied).length).map fun j => some (b.slot j)
  survivors : b.survivors after = b.survivors copied
  frame : ∀ k, (∀ j < b.accounted, k ≠ b.slot j) → after.slots k = b.request_pool.data k

theorem sum_share (b : Batch) : ((List.range b.staged.length).map b.share).sum = b.accounted := by
  have hlen := congrArg List.length b.map_offset_order
  rw [List.length_map, List.length_range] at hlen
  rw [← hlen, order, List.length_flatMap]
  simp

section result
variable (h : Copying b s) (hdone : ∀ t, (s.threads t).i = b.share t)

include h hdone

/-- The surviving entries own the filled slots. -/
theorem map_survivors : (b.survivors s).map s.request_id =
    (b.filled s).map fun j => some (b.slot j) := by
  rw [survivors, survivors_map, h.ids_order hdone, List.map_map]
  rfl

theorem length_survivors : (b.survivors s).length = b.records_created s := by
  have hlen := congrArg List.length (map_survivors h hdone)
  rwa [List.length_map, List.length_map, Copying.length_filled] at hlen

/-- Survivor number `j` and the slot it was copied to. -/
theorem survivor_holds {j : Nat} (hj : j < (b.survivors s).length)
    (hj' : j < (b.filled s).length) :
    let p := (b.survivors s).get ⟨j, hj⟩
    let id := b.slot ((b.filled s).get ⟨j, hj'⟩)
    s.request_id p = some id ∧ p ∈ b.order ∧
      (s.slots id).Holds (b.temp p) (b.request_pool_counter + b.offset p) := by
  intro p id
  have hmem : p ∈ b.survivors s := List.get_mem _ _
  have horder : p ∈ b.order := List.mem_of_mem_filter hmem
  have hid : s.request_id p = some id := by
    have hget := congrArg (·[j]?) (map_survivors h hdone)
    simp only [List.getElem?_map, List.getElem?_eq_getElem hj, List.getElem?_eq_getElem hj',
      Option.map_some, Option.some.injEq] at hget
    exact hget
  refine ⟨hid, horder, ?_⟩
  have hn : p.2 < (s.threads p.1).i := by
    rw [hdone]
    exact (b.mem_order.mp horder).2
  have hholds := h.holds p.1 p.2 hn id hid
  rwa [Nat.add_assoc] at hholds

/-- If all copies together succeeded, then all of every thread did. -/
theorem res_eq_of_full (hfull : b.records_created s = b.accounted) (t : Nat) :
    (s.threads t).res_cnt = (s.threads t).i := by
  refine Nat.le_antisymm (h.res_le t) ?_
  by_contra hlt
  rw [hdone t, Nat.not_le] at hlt
  have hsum : b.records_created s < ((List.range b.staged.length).map b.share).sum := by
    apply List.sum_lt_sum
    · intro u _
      exact (h.res_le u).trans (h.i_le u)
    · exact ⟨t, List.mem_range.mpr (b.lt_of_share (Nat.ne_zero_of_lt hlt)), hlt⟩
  rw [sum_share] at hsum
  omega

/-- Without a failed copy there are no holes, and the numbers are right. -/
theorem admitted_of_full (hfull : b.records_created s = b.accounted) : b.Admitted s s := by
  have hfilled : b.filled s = List.range b.accounted :=
    h.filled_sublist.eq_of_length (by rw [Copying.length_filled, hfull, List.length_range])
  have hlen := length_survivors h hdone
  refine ⟨fun j hj => ?_, ?_, rfl, h.frame⟩
  · have hj' : j < (b.filled s).length := by
      rw [Copying.length_filled]
      omega
    obtain ⟨hid, horder, hholds⟩ := survivor_holds h hdone hj hj'
    simp only [hfilled, List.get_eq_getElem, List.getElem_range] at hid hholds
    have hplace : b.offset (b.survivors s)[j] = j := by
      have hid' := h.full _ (res_eq_of_full h hdone hfull _) _ (hdone _ ▸ (b.mem_order.mp horder).2)
      rw [Prod.mk.eta] at hid'
      rw [List.get_eq_getElem] at hid'
      rw [hid'] at hid
      exact b.slot_inj (b.offset_lt horder) (by omega) (Option.some.inj hid)
    rwa [hplace] at hholds
  · rw [map_survivors h hdone, hfilled, hlen, hfull]

/-- With failed copies the loop moves the records together. -/
theorem admitted_of_compaction (hless : b.records_created s < b.accounted) :
    b.Admitted s (b.compact s) := by
  have hlen := length_survivors h hdone
  have hbound : ∀ o ∈ b.filled s, 0 ≤ o ∧ o < b.accounted := fun o ho =>
    ⟨Nat.zero_le o, List.mem_range.mp (h.filled_sublist.subset ho)⟩
  have hstart : b.request_pool.inPos = b.slot 0 := by
    rw [slot, Nat.add_zero, Nat.mod_eq_of_lt b.request_pool.in_lt]
  -- the library result on the loop, for the places in the order of the threads
  have hpass : Compaction.Compacted b.slot b.renumber b.accounted 0 b.order (b.filled s)
      ⟨s.slots, s.request_id, b.request_pool.inPos, 0⟩ (b.compaction s) :=
    Compaction.foldl_visit (fun i hi j hj => b.slot_inj hi hj) (fun j _ => b.slot_succ j)
      b.nodup_order hstart rfl (h.ids_order hdone)
      (List.Pairwise.sublist h.filled_sublist List.pairwise_lt_range) hbound
  have hcompact : b.compact s =
      { s with slots := (b.compaction s).data, request_id := (b.compaction s).ids } := if_pos hless
  have hsame : b.survivors (b.compact s) = b.survivors s := by
    rw [hcompact]
    exact List.filter_congr fun p _ => hpass.ids_isSome p
  refine ⟨fun j hj => ?_, ?_, hsame, ?_⟩
  · have hj' : j < (b.filled s).length := by
      rw [Copying.length_filled]
      omega
    -- the j-th survivor has moved to the j-th slot; only its number is new
    obtain ⟨-, -, hrecord, hactive⟩ := survivor_holds h hdone hj hj'
    have hmoved := hpass.moved j hj'
    rw [Nat.zero_add] at hmoved
    rw [hcompact]
    simp only [hmoved]
    refine ⟨?_, hactive⟩
    rw [renumber, hrecord]
    rfl
  -- the ids that the loop has set are those of the entries, in their order
  · have hids : (b.survivors s).map (b.compact s).request_id =
        (b.order.filterMap (b.compact s).request_id).map some := by
      rw [← survivors_map]
      exact congrArg (List.map _) hsame.symm
    have hids_eq := hpass.ids_eq
    rw [← List.range_eq_range'] at hids_eq
    rw [hids, hcompact, hids_eq, Copying.length_filled, hlen, List.map_map]
    rfl
  · rw [hcompact]
    exact fun k hk => (hpass.outside k hk).trans (h.frame k hk)

end result

/-! ## Section 8: The whole batch -/

/-- Records with consecutive numbers. -/
def stamped_from : Nat → List TempRecord → List StatsRecord
  | _, [] => []
  | counter, temp :: rest => temp.stamped counter :: stamped_from (counter + 1) rest

@[simp] theorem length_stamped_from (counter : Nat) (temps : List TempRecord) :
    (stamped_from counter temps).length = temps.length := by
  induction temps generalizing counter with
  | nil => rfl
  | cons temp temps ih => simp [stamped_from, ih]

theorem getElem?_stamped_from (counter : Nat) (temps : List TempRecord) (j : Nat) :
    (stamped_from counter temps)[j]? = temps[j]?.map fun temp => temp.stamped (counter + j) := by
  induction temps generalizing counter j with
  | nil => rfl
  | cons temp temps ih =>
    cases j with
    | zero => rfl
    | succ j =>
      rw [stamped_from, List.getElem?_cons_succ, List.getElem?_cons_succ, ih]
      congr 2
      funext temp
      congr 1
      omega

/-- Records of one batch have one time, and then these are the records of the
    daemon's batch, without their timers. -/
theorem stamped_from_eq_stamp {now : Timeval} {temps : List TempRecord}
    (h : ∀ temp ∈ temps, temp.time = now) (counter : Nat) :
    stamped_from counter temps =
      StagedRecord.stamp now counter (temps.map fun temp => temp.staged.without_timers) := by
  induction temps generalizing counter with
  | nil => rfl
  | cons temp temps ih =>
    rw [stamped_from, ih fun t ht => h t (List.mem_cons_of_mem _ ht), List.map_cons,
      StagedRecord.stamp, TempRecord.stamped, h temp List.mem_cons_self]

theorem admitted (schedule : List Nat) (hall : ∀ t, b.share t ≤ schedule.count t) :
    b.Admitted (b.request_copy_jobs schedule) (b.compact (b.request_copy_jobs schedule)) := by
  have h := Copying.jobs b schedule
  have hdone := fun t => finished schedule (hall t)
  by_cases hfull : b.records_created (b.request_copy_jobs schedule) < b.accounted
  · exact admitted_of_compaction h hdone hfull
  · have hsame : b.compact (b.request_copy_jobs schedule) = b.request_copy_jobs schedule :=
      if_neg hfull
    rw [hsame]
    exact admitted_of_full h hdone (Nat.le_antisymm h.records_created_le (Nat.not_lt.mp hfull))

theorem records_created_le_free (b : Batch) (schedule : List Nat) :
    b.records_created (b.request_copy_jobs schedule) ≤ b.request_pool.free := by
  have hle := (Copying.jobs b schedule).records_created_le
  have hacc := b.accounted_eq
  omega

/-- The ring after `publish_requests`. -/
def publish (b : Batch) (schedule : List Nat) : CircularBuffer RawRecord :=
  (b.request_pool.setData (b.compact (b.request_copy_jobs schedule)).slots).publish
    (b.records_created (b.request_copy_jobs schedule)) (b.records_created_le_free schedule)

/-- The slots that are handed out are not live. -/
theorem live_untouched {after : CopyState}
    (h : ∀ k, (∀ j < b.accounted, k ≠ b.slot j) → after.slots k = b.request_pool.data k) :
    ∀ i ∈ b.request_pool.live, after.slots i = b.request_pool.data i := by
  have hacc := b.accounted_eq
  have hnd := b.request_pool.nodup_live_append_ahead (show b.accounted ≤ _ by omega)
  intro i hi
  apply h
  rintro j hj rfl
  have hahead : b.slot j ∈ b.request_pool.ahead b.accounted := by
    rw [b.ahead_eq]
    exact List.mem_map_of_mem (List.mem_range.mpr hj)
  exact (List.nodup_append'.mp hnd).2.2 hi hahead

/-- Whatever the state of the ring, the shares of the threads, the order of their
    turns and the copies that fail: the slots from `in` on hold the records that
    were copied, in the order of threads and positions and numbered without gaps,
    and each entry that was copied knows the slot of its record. -/
theorem batch_admission (b : Batch) (schedule : List Nat)
    (hall : ∀ t, b.share t ≤ schedule.count t) :
    let copied := b.request_copy_jobs schedule
    let after := b.compact copied
    let created := b.records_created copied
    ((b.request_pool.ahead created).map fun i => (after.slots i).record) =
        stamped_from b.request_pool_counter ((b.survivors copied).map b.temp) ∧
      (∀ i ∈ b.request_pool.ahead created, (after.slots i).active = true) ∧
      (b.survivors copied).map after.request_id = (b.request_pool.ahead created).map some ∧
      b.survivors after = b.survivors copied ∧
      (∀ i ∈ b.request_pool.live, after.slots i = b.request_pool.data i) ∧
      created + b.allocation_drops copied = min b.staged.sum b.request_pool.free ∧
      (b.publish schedule).live = b.request_pool.live ++ b.request_pool.ahead created ∧
      ((b.publish schedule).inPos = (b.publish schedule).outPos ↔
        (b.publish schedule).count = 0) := by
  intro copied after created
  have hcopying := Copying.jobs b schedule
  have hadmitted := admitted schedule hall
  have hlen : (b.survivors copied).length = created :=
    length_survivors hcopying fun t => finished schedule (hall t)
  refine ⟨?_, ?_, ?_, hadmitted.survivors, live_untouched hadmitted.frame, ?_, ?_, ?_⟩
  -- the records, position by position
  · rw [b.ahead_eq, List.map_map]
    apply List.ext_getElem?
    intro j
    rw [getElem?_stamped_from, List.getElem?_map, List.getElem?_map]
    by_cases hj : j < created
    · have hj' : j < (b.survivors copied).length := hlen.symm ▸ hj
      have hrecord := (hadmitted.records j hj').1
      rw [List.getElem?_range hj, List.getElem?_eq_getElem hj']
      exact congrArg some hrecord
    · rw [List.getElem?_eq_none (by simpa using hj), List.getElem?_eq_none (by omega)]
      rfl
  · intro i hi
    -- their flags
    rw [b.ahead_eq] at hi
    obtain ⟨j, hj, rfl⟩ := List.mem_map.mp hi
    have hj' : j < (b.survivors copied).length := hlen.symm ▸ List.mem_range.mp hj
    exact (hadmitted.records j hj').2
  · rw [b.ahead_eq, List.map_map, hadmitted.ids, hlen]
    rfl
  -- what was handed out is either created or dropped
  · have hle : b.records_created copied ≤ b.accounted := hcopying.records_created_le
    have hacc := b.accounted_eq
    show b.records_created copied + b.allocation_drops copied = _
    unfold allocation_drops
    split <;> omega
  · exact CircularBuffer.live_publish _ _
  · constructor
    · intro heq
      exact if_pos heq
    · intro hempty
      have hin := (b.publish schedule).in_eq
      rwa [hempty, Nat.add_zero, Nat.mod_eq_of_lt (b.publish schedule).out_lt] at hin

/-- Two threads with two records each, three free slots at the end of the ring,
    and the very first copy fails. -/
def wrapping_batch : Batch where
  request_pool := ⟨6, 5, 3, fun _ => ⟨default, false, 0, 0⟩, by decide, by decide⟩
  request_pool_counter := 10
  staged := [2, 2]
  temp _ := ⟨⟨default, [], []⟩, ⟨1, 0⟩⟩
  request_id _ := none
  memory p := ⟨p = (0, 0), true, true, true⟩

theorem wrapping_batch_shares (t : Nat) : wrapping_batch.share t ≤ [1, 0, 0].count t := by
  match t with
  | 0 | 1 => decide
  | t + 2 => exact Nat.zero_le _

/-- The two records that were copied end up in the last and the first slot. -/
theorem batch_admission_wraps :
    (wrapping_batch.survivors (wrapping_batch.request_copy_jobs [1, 0, 0])).map
        (wrapping_batch.compact (wrapping_batch.request_copy_jobs [1, 0, 0])).request_id =
      [some 5, some 0] := by
  obtain ⟨-, -, hids, -⟩ := batch_admission wrapping_batch [1, 0, 0] wrapping_batch_shares
  have hcreated : wrapping_batch.records_created (wrapping_batch.request_copy_jobs [1, 0, 0]) = 2 := by
    decide
  rw [hids, hcreated]
  decide

end Batch

end PinbaEngine
