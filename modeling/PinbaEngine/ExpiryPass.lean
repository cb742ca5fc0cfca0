import PinbaEngine.Daemon
import PinbaEngine.Dictionary
import PinbaEngine.TimerTiling

/-! # One pass of the stats thread

    `pinba_stats_main` lets the oldest records of the ring go. The first loop
    (`pinba_request_pool_delete_old`) moves the read position of the ring while
    it walks over it. Everything after that works out again for itself which
    slots were passed: the jobs of the reports from the old position and the
    distance to the new one, the jobs that clear the timers from shares of that
    distance, the timer pool from a sum that the first loop has made, and the
    release of the dictionary words by another walk.

    All of them mean the same slots (`pass_spec`). Reports of request tags are
    only visited if one of the expired records has a tag, and reports of timers
    only if one of them has a timer.

    Timers are found through the records, so what the pass does to the timer pool
    depends on the records tiling it (`Tiling`).
-/

namespace PinbaEngine

open Circular

/-! ## Section 1: State -/

def PINBA_THREAD_POOL_THRESHOLD_AMOUNT : Nat := 16

/-- A slot of the request ring (`pinba_stats_record`). -/
structure RingRecord where
  data : RequestData
  time : Timeval
  counter : Nat
  owner : TimerOwner
  active : Bool
  dictionary_words : List Word

namespace RingRecord

/-- The record as the report functions read it, its timers included. -/
def view (timers : CircularBuffer PoolTimer) (record : RingRecord) : StatsRecord where
  data := record.data
  time := record.time
  counter := record.counter
  timers := (List.range record.owner.timers_cnt).map fun j =>
    (record_get_timer timers record.owner j).timer
  dictionary_words := record.dictionary_words

def deactivated (record : RingRecord) : RingRecord := { record with active := false }

/-- `pinba_record_release_words`, as far as the record goes. -/
def release_words (record : RingRecord) : RingRecord :=
  { record with data := { record.data with tags := [] }, dictionary_words := [] }

/-- What the record refers to in the dictionary. -/
def references (record : RingRecord) : List (Option Nat) :=
  record.dictionary_words.map fun word => some word.ptr

end RingRecord

/-- What the stats thread finds under `collector_lock`. -/
structure StatsThread where
  request_pool : CircularBuffer RingRecord
  timer_pool : CircularBuffer PoolTimer
  timertags_cnt : Int
  dictionary : Dictionary
  base_reports : List BaseReport
  rtag_reports : List SomeRtagReport
  tag_reports : List SomeTagReport
  /-- `D->thread_pool->size`; the daemon starts with two threads at least. -/
  threads : Nat
  threads_pos : 0 < threads

/-! ## Section 2: Removing old records -/

/-- What the loop of `pinba_request_pool_delete_old` changes. -/
@[ext]
structure DeleteOld where
  out : Nat
  slots : Nat → RingRecord
  deleted_timer_cnt : Nat
  rtags_cnt : Nat

/-- The loop, `pool_traverse_forward` included; no result if `fuel` turns are
    not enough. -/
def delete_old_loop (pool : CircularBuffer RingRecord) (from_ : Timeval) :
    Nat → Nat → DeleteOld → Option DeleteOld
  | 0, i, s => if i = pool.inPos then some s else none
  | fuel + 1, i, s =>
    if i = pool.inPos then some s
    else
      let record := s.slots i
      if record.time.lt from_ then
        delete_old_loop pool from_ fuel (succIndex pool.size i)
          { out := if s.out + 1 = pool.size then 0 else s.out + 1
            slots := Function.update s.slots i record.deactivated
            deleted_timer_cnt := s.deleted_timer_cnt + record.owner.timers_cnt
            rtags_cnt := s.rtags_cnt + record.data.tags.length }
      else some s

def pinba_request_pool_delete_old (pool : CircularBuffer RingRecord) (from_ : Timeval) :
    Option DeleteOld :=
  delete_old_loop pool from_ pool.size pool.outPos ⟨pool.outPos, pool.data, 0, 0⟩

/-! ## Section 3: Jobs -/

/-- The first slot of a job. -/
def job_start (size prefix_ : Nat) : Nat := if size ≤ prefix_ then prefix_ - size else prefix_

/-- `update_reports_func` with `add` unset: the report afterwards, and the slots
    that the loop has visited. -/
def update_reports_func {R : Type*} (ops : ReportOps R) (record : Nat → StatsRecord)
    (size prefix_ count : Nat) (report : R) : R × List Nat :=
  forEach size
    (fun (s : R × List Nat) tmp_id =>
      (if (ops.std s.1).cond.check (record tmp_id).data then
          ops.delete_func tmp_id s.1 (record tmp_id)
        else s.1,
        s.2 ++ [tmp_id]))
    count (job_start size prefix_) (report, [])

/-- `job_size` for `num` records. -/
def clear_job_size (threads num : Nat) : Nat :=
  if num < threads * PINBA_THREAD_POOL_THRESHOLD_AMOUNT then num else num / threads

/-- The loop that hands out the expired records: `prefix` and `count` of each job.
    It runs over the remaining threads and stops when all records are handed
    out. -/
def clear_jobs (prev_request_id num job_size : Nat) : Nat → Nat → List (Nat × Nat)
  | 0, _ => []
  | remaining + 1, accounted =>
    let l_job_size := if remaining = 0 then num - accounted else job_size
    (prev_request_id + accounted, l_job_size) ::
      if accounted + l_job_size = num then []
      else clear_jobs prev_request_id num job_size remaining (accounted + l_job_size)

/-- The slots of a job. -/
def job_slots (size : Nat) (job : Nat × Nat) : List Nat := walk size (job_start size job.1) job.2

/-- The inner loop of `clear_record_timers_func`: the timers of a record, and
    how many tags they had. -/
def clear_timers (pool : CircularBuffer PoolTimer) (s : (Nat → PoolTimer) × Nat)
    (record : TimerOwner) : (Nat → PoolTimer) × Nat :=
  (List.range record.timers_cnt).foldl
    (fun s j =>
      let id := record_get_timer_id pool record j
      (Function.update s.1 id (s.1 id).cleared, s.2 + (s.1 id).tag_num)) s

/-- `clear_record_timers_func` for one job; the tag counts of the jobs are added
    up. -/
def clear_record_timers_job (pool : CircularBuffer PoolTimer) (size : Nat)
    (slots : Nat → RingRecord) (s : (Nat → PoolTimer) × Nat) (job : Nat × Nat) :
    (Nat → PoolTimer) × Nat :=
  forEach size (fun s tmp_id => clear_timers pool s (slots tmp_id).owner) job.2
    (job_start size job.1) s

/-! ## Section 4: The pass -/

/-- What a pass leaves behind, and what the jobs of the reports have visited. -/
structure StatsPass where
  request_out : Nat
  slots : Nat → RingRecord
  timer_out : Nat
  timers : Nat → PoolTimer
  timertags_cnt : Int
  dictionary : Dictionary
  base_reports : List (BaseReport × List Nat)
  rtag_reports : List (SomeRtagReport × List Nat)
  tag_reports : List (SomeTagReport × List Nat)
  /-- The jobs that clear timers. -/
  jobs : List (Nat × Nat)

namespace StatsThread

variable (s : StatsThread)

/-- The jobs of one family; none are dispatched unless `wanted`. -/
def update_family {R : Type*} (update : R → R × List Nat) (wanted : Bool) (reports : List R) :
    List (R × List Nat) :=
  if wanted then reports.map update else reports.map fun report => (report, [])

/-- The last loop of the pass. -/
def release_words (d : DeleteOld) (num : Nat) : Dictionary × (Nat → RingRecord) :=
  forEach s.request_pool.size
    (fun (r : Dictionary × (Nat → RingRecord)) expired_id =>
      (r.1.pinba_words_release (r.2 expired_id).references,
        Function.update r.2 expired_id (r.2 expired_id).release_words))
    num s.request_pool.outPos (s.dictionary, d.slots)

/-- The part of `pinba_stats_main` after `pinba_request_pool_delete_old`. `order`
    is the order in which the threads of the pool get through their jobs. -/
def after_delete_old (d : DeleteOld) (order : List (Nat × Nat) → List (Nat × Nat)) : StatsPass :=
  let size := s.request_pool.size
  let prev_request_id := s.request_pool.outPos
  -- everybody works out the slots again, from the old and the new position
  let num := occupancy size d.out prev_request_id
  let record := fun tmp_id => (d.slots tmp_id).view s.timer_pool
  let jobs :=
    if 0 < d.deleted_timer_cnt then
      clear_jobs prev_request_id num (clear_job_size s.threads num) s.threads 0
    else []
  -- the threads may take the jobs in any order
  let cleared := (order jobs).foldl (clear_record_timers_job s.timer_pool size d.slots)
    (s.timer_pool.data, 0)
  let released := s.release_words d num
  { request_out := d.out
    slots := released.2
    timer_out :=
      if s.timer_pool.size ≤ s.timer_pool.outPos + d.deleted_timer_cnt then
        s.timer_pool.outPos + d.deleted_timer_cnt - s.timer_pool.size
      else s.timer_pool.outPos + d.deleted_timer_cnt
    timers := cleared.1
    timertags_cnt := s.timertags_cnt - cleared.2
    dictionary := released.1
    base_reports := update_family
      (update_reports_func baseOps record size prev_request_id num) true s.base_reports
    rtag_reports := update_family
      (fun r =>
        let u := update_reports_func (rtagOps r.1) record size prev_request_id num r.2
        (⟨r.1, u.1⟩, u.2)) (decide (d.rtags_cnt ≠ 0)) s.rtag_reports
    tag_reports := update_family
      (fun r =>
        let u := update_reports_func (tagOps r.1) record size prev_request_id num r.2
        (⟨r.1, u.1⟩, u.2)) (decide (0 < d.deleted_timer_cnt)) s.tag_reports
    jobs := jobs }

/-- One pass with the cut-off time `from_`. -/
def stats_pass (from_ : Timeval) (order : List (Nat × Nat) → List (Nat × Nat)) : Option StatsPass :=
  (pinba_request_pool_delete_old s.request_pool from_).map fun d => s.after_delete_old d order

end StatsThread

/-! ## Section 5: The loops, over lists of slots -/

section loops
variable {pool : CircularBuffer RingRecord} {from_ : Timeval}

/-- What the loop leaves when it has removed some records. -/
def DeleteOld.removed (st : DeleteOld) (size : Nat) (entries : List (Nat × RingRecord)) :
    DeleteOld where
  out := (st.out + entries.length) % size
  slots i := if i ∈ entries.map Prod.fst then (st.slots i).deactivated else st.slots i
  deleted_timer_cnt := st.deleted_timer_cnt + (entries.map fun e => e.2.owner.timers_cnt).sum
  rtags_cnt := st.rtags_cnt + (entries.map fun e => e.2.data.tags.length).sum

theorem DeleteOld.removed_nil {st : DeleteOld} (h : st.out < pool.size) :
    st.removed pool.size [] = st := by
  unfold removed
  simp [Nat.mod_eq_of_lt h]

theorem DeleteOld.removed_append (st : DeleteOld) (size : Nat) (xs ys : List (Nat × RingRecord)) :
    (st.removed size xs).removed size ys = st.removed size (xs ++ ys) := by
  ext i
  · simp [removed, Nat.add_assoc]
  · simp only [removed, List.map_append, List.mem_append]
    by_cases hx : i ∈ xs.map Prod.fst
    · simp only [hx, true_or, if_true]
      split <;> rfl
    · simp only [if_neg hx, or_iff_right hx]
  · simp [removed, Nat.add_assoc]
  · simp [removed, Nat.add_assoc]

/-- The body of the loop removes the record in slot `out`. -/
theorem DeleteOld.removed_one {st : DeleteOld} (hout : st.out < pool.size) :
    { out := if st.out + 1 = pool.size then 0 else st.out + 1
      slots := Function.update st.slots st.out (st.slots st.out).deactivated
      deleted_timer_cnt := st.deleted_timer_cnt + (st.slots st.out).owner.timers_cnt
      rtags_cnt := st.rtags_cnt + (st.slots st.out).data.tags.length : DeleteOld } =
    st.removed pool.size [(st.out, st.slots st.out)] := by
  ext i
  · show (if st.out + 1 = pool.size then 0 else st.out + 1) = (st.out + 1) % pool.size
    split_ifs with hend
    · rw [hend, Nat.mod_self]
    · rw [Nat.mod_eq_of_lt (by omega)]
  · by_cases hi : i = st.out
    · simp [removed, hi]
    · simp [removed, hi]
  · simp [removed]
  · simp [removed]

theorem delete_old_loop_eq {n fuel i : Nat} {st : DeleteOld} (hi : i < pool.size) (hout : st.out = i)
    (hn : n < pool.size) (hin : pool.inPos = (i + n) % pool.size) (hfuel : n ≤ fuel) :
    delete_old_loop pool from_ fuel i st = some (st.removed pool.size
      (((walk pool.size i n).map fun j => (j, st.slots j)).takeWhile
        fun e => e.2.time.lt from_)) := by
  induction n generalizing fuel i st with
  | zero =>
    have hend : i = pool.inPos := by rw [hin, Nat.add_zero, Nat.mod_eq_of_lt hi]
    have hdone : delete_old_loop pool from_ fuel i st = some st := by
      cases fuel <;> simp [delete_old_loop, hend]
    rw [hdone, walk, List.map_nil, List.takeWhile_nil, DeleteOld.removed_nil (hout ▸ hi)]
  | succ n ih =>
    obtain ⟨fuel, rfl⟩ : ∃ k, fuel = k + 1 := ⟨fuel - 1, by omega⟩
    have hne : i ≠ pool.inPos := by
      intro heq
      have hocc := occupancy_of_mod hi hn
      rw [← hin, ← heq, occupancy, if_pos rfl] at hocc
      omega
    subst hout
    rw [delete_old_loop, if_neg hne, walk, List.map_cons, List.takeWhile_cons]
    cases hlt : (st.slots st.out).time.lt from_ with
    | false => simp [hlt, DeleteOld.removed_nil hi]
    | true =>
      have hnodup : (walk pool.size st.out (n + 1)).Nodup := nodup_walk hi (by omega)
      rw [walk, List.nodup_cons] at hnodup
      -- what the turn changes is behind the loop
      have hlater : (walk pool.size (succIndex pool.size st.out) n).map (fun j =>
            (j, (st.removed pool.size [(st.out, st.slots st.out)]).slots j)) =
          (walk pool.size (succIndex pool.size st.out) n).map fun j => (j, st.slots j) := by
        apply List.map_congr_left
        intro j hj
        have hne' : j ≠ st.out := fun heq => hnodup.1 (heq ▸ hj)
        simp [DeleteOld.removed, hne']
      have hstep := @ih fuel (succIndex pool.size st.out)
        (st.removed pool.size [(st.out, st.slots st.out)]) (succIndex_lt hi)
        (succIndex_eq_mod hi).symm (by omega)
        (by rw [hin, succIndex_eq_mod hi, Nat.mod_add_mod, Nat.add_assoc, Nat.add_comm 1])
        (by omega)
      rw [hlater, DeleteOld.removed_append] at hstep
      simp only [hlt, if_true, DeleteOld.removed_one hi]
      exact hstep

/-- A job of a report visits its slots in a row and is the delete path for the
    records in them. -/
theorem update_reports_func_eq {R : Type*} (ops : ReportOps R) (record : Nat → StatsRecord)
    {size prefix_ count : Nat} (hstart_lt : prefix_ < size) (report : R) :
    update_reports_func ops record size prefix_ count report =
      (ops.delete_all ((walk size prefix_ count).map fun i => (i, record i)) report,
        walk size prefix_ count) := by
  have hstart : job_start size prefix_ = prefix_ := if_neg (by omega)
  unfold update_reports_func ReportOps.delete_all
  rw [forEach_eq, hstart]
  -- the loop also collects the slots that it visits
  have hfold : ∀ (slots visited : List Nat) (report : R),
      slots.foldl (fun (s : R × List Nat) tmp_id =>
        (if (ops.std s.1).cond.check (record tmp_id).data then
            ops.delete_func tmp_id s.1 (record tmp_id)
          else s.1,
          s.2 ++ [tmp_id])) (report, visited) =
        ((slots.map fun i => (i, record i)).foldl (fun report e =>
          if (ops.std report).cond.check e.2.data then ops.delete_func e.1 report e.2
          else report) report, visited ++ slots) := by
    intro slots
    induction slots with
    | nil => intro visited report; simp
    | cons i slots ih =>
      intro visited report
      rw [List.foldl_cons, ih, List.map_cons, List.foldl_cons, List.append_assoc,
        List.singleton_append]
  rw [hfold, List.nil_append]

theorem job_start_add {size prev accounted : Nat} :
    job_start size (prev + accounted) = advance size prev accounted := rfl

/-- The jobs share out the slots that are left: a job is as large as the others,
    or the last thread takes the rest, or one job has everything. -/
theorem flatMap_clear_jobs {size prev num job_size remaining accounted : Nat} (hprev : prev < size)
    (hnum : num ≤ size) (hthreads : 0 < remaining) (hacc : accounted ≤ num)
    (hsize : accounted + job_size * remaining ≤ num ∨ accounted + job_size = num) :
    (clear_jobs prev num job_size remaining accounted).flatMap (job_slots size) =
      walk size (advance size prev accounted) (num - accounted) := by
  induction remaining generalizing accounted with
  | zero => exact absurd hthreads (lt_irrefl 0)
  | succ remaining ih =>
    rw [clear_jobs]
    set l_job_size := if remaining = 0 then num - accounted else job_size with hl
    have hle : accounted + l_job_size ≤ num := by
      rw [hl]
      split
      · omega
      · rcases hsize with hsize | hsize
        · rw [Nat.mul_succ] at hsize
          omega
        · omega
    have hjob : job_slots size (prev + accounted, l_job_size) =
        walk size (advance size prev accounted) l_job_size := by
      rw [job_slots, job_start_add]
    rw [List.flatMap_cons, hjob]
    by_cases hdone : accounted + l_job_size = num
    · rw [if_pos hdone, List.flatMap_nil, List.append_nil]
      congr 1
      omega
    · rw [if_neg hdone]
      -- not the last thread, and not the only job
      have hrem : remaining ≠ 0 := by
        intro h0
        rw [hl, if_pos h0] at hdone
        omega
      have hfull : l_job_size = job_size := if_neg hrem
      have hshare : accounted + job_size * (remaining + 1) ≤ num := by
        rcases hsize with hsize | hsize
        · exact hsize
        · omega
      rw [Nat.mul_succ] at hshare
      have hadv := advance_lt hprev (show accounted ≤ size by omega)
      rw [ih (Nat.pos_of_ne_zero hrem) hle (by left; omega)]
      have hnext : advance size prev (accounted + l_job_size) =
          (advance size prev accounted + l_job_size) % size := by
        rw [advance_eq_mod hprev (by omega), advance_eq_mod hprev (by omega), Nat.mod_add_mod,
          Nat.add_assoc]
      rw [hnext, ← walk_add hadv]
      congr 1
      omega

theorem clear_jobs_partition {size prev num threads : Nat} (hprev : prev < size) (hnum : num ≤ size)
    (hthreads : 0 < threads) :
    (clear_jobs prev num (clear_job_size threads num) threads 0).flatMap (job_slots size) =
      walk size prev num := by
  have hzero : advance size prev 0 = prev := by
    rw [advance_eq_mod hprev (Nat.zero_le _), Nat.add_zero, Nat.mod_eq_of_lt hprev]
  rw [flatMap_clear_jobs hprev hnum hthreads (Nat.zero_le _), hzero, Nat.sub_zero]
  unfold clear_job_size
  split
  · right
    omega
  · left
    have := Nat.div_mul_le_self num threads
    omega

/-- Clear a timer and count its tags. -/
def clear_timer (s : (Nat → PoolTimer) × Nat) (id : Nat) : (Nat → PoolTimer) × Nat :=
  (Function.update s.1 id (s.1 id).cleared, s.2 + (s.1 id).tag_num)

theorem foldl_tag_num (data : Nat → PoolTimer) (ids : List Nat) (n : Nat) :
    ids.foldl (fun n id => n + (data id).tag_num) n = n + (ids.map fun id => (data id).tag_num).sum := by
  induction ids generalizing n with
  | nil => rfl
  | cons id ids ih => rw [List.foldl_cons, ih, List.map_cons, List.sum_cons, Nat.add_assoc]

/-- Timers that are different are cleared and counted independently. -/
theorem foldl_clear_timer {ids : List Nat} (hnodup : ids.Nodup) (s : (Nat → PoolTimer) × Nat) :
    ids.foldl clear_timer s =
      (fun i => if i ∈ ids then (s.1 i).cleared else s.1 i,
        s.2 + (ids.map fun id => (s.1 id).tag_num).sum) := by
  -- `clear_timer` counts in the second component
  have hswap : ids.foldl clear_timer s = (ids.foldl (fun (r : Nat × (Nat → PoolTimer)) i =>
      (r.1 + (r.2 i).tag_num, Function.update r.2 i (r.2 i).cleared)) s.swap).swap :=
    @List.foldl_hom _ _ _ Prod.swap _ clear_timer ids s.swap fun _ _ => rfl
  rw [hswap, Prod.swap, foldl_update_slots (fun n (timer : PoolTimer) => n + timer.tag_num)
    PoolTimer.cleared hnodup, foldl_tag_num]
  rfl

/-- The positions of a record's timers, as they are looked up. -/
def timer_ids (timers : CircularBuffer PoolTimer) (record : TimerOwner) : List Nat :=
  (List.range record.timers_cnt).map (record_get_timer_id timers record)

theorem clear_timers_eq (timers : CircularBuffer PoolTimer) (s : (Nat → PoolTimer) × Nat)
    (record : TimerOwner) :
    clear_timers timers s record = (timer_ids timers record).foldl clear_timer s := by
  rw [clear_timers, timer_ids, List.foldl_map]
  rfl

theorem clear_record_timers_job_eq (timers : CircularBuffer PoolTimer) (size : Nat)
    (slots : Nat → RingRecord) (s : (Nat → PoolTimer) × Nat) (job : Nat × Nat) :
    clear_record_timers_job timers size slots s job =
      ((job_slots size job).flatMap fun i => timer_ids timers (slots i).owner).foldl clear_timer s := by
  rw [clear_record_timers_job, forEach_eq, List.foldl_flatMap]
  congr 1
  funext s i
  exact clear_timers_eq timers s (slots i).owner

/-- The jobs together clear the timers of their slots, in whatever order they are
    done. -/
theorem foldl_clear_jobs {timers : CircularBuffer PoolTimer} {size : Nat} {slots : Nat → RingRecord}
    {jobs done : List (Nat × Nat)} (hdone : done.Perm jobs)
    (hnodup : ((jobs.flatMap (job_slots size)).flatMap fun i =>
      timer_ids timers (slots i).owner).Nodup) :
    let ids := (jobs.flatMap (job_slots size)).flatMap fun i => timer_ids timers (slots i).owner
    done.foldl (clear_record_timers_job timers size slots) (timers.data, 0) =
      (fun i => if i ∈ ids then (timers.data i).cleared else timers.data i,
        (ids.map fun id => (timers.data id).tag_num).sum) := by
  intro ids
  have hjobs : clear_record_timers_job timers size slots = fun s job =>
      ((job_slots size job).flatMap fun i => timer_ids timers (slots i).owner).foldl clear_timer s := by
    funext s job
    exact clear_record_timers_job_eq timers size slots s job
  -- the order of the jobs only permutes the timers
  have hperm : (done.flatMap fun job =>
      (job_slots size job).flatMap fun i => timer_ids timers (slots i).owner).Perm ids := by
    have hassoc : ids = jobs.flatMap fun job =>
        (job_slots size job).flatMap fun i => timer_ids timers (slots i).owner :=
      List.flatMap_assoc
    rw [hassoc]
    exact hdone.flatMap_right _
  rw [hjobs, ← List.foldl_flatMap, foldl_clear_timer (hperm.nodup_iff.mpr hnodup)]
  refine Prod.ext ?_ ?_
  · funext i
    simp only [hperm.mem_iff]
  · rw [Nat.zero_add]
    exact (hperm.map _).sum_eq

theorem words_release_append (d : Dictionary) (xs ys : List (Option Nat)) :
    (d.pinba_words_release xs).pinba_words_release ys = d.pinba_words_release (xs ++ ys) := by
  unfold Dictionary.pinba_words_release CountedHeap.releaseSlots
  rw [List.foldl_append]

theorem foldl_words_release (data : Nat → RingRecord) (slots : List Nat) (dictionary : Dictionary) :
    slots.foldl (fun d i => d.pinba_words_release (data i).references) dictionary =
      dictionary.pinba_words_release (slots.flatMap fun i => (data i).references) := by
  induction slots generalizing dictionary with
  | nil => rfl
  | cons slot slots ih => rw [List.foldl_cons, ih, words_release_append, List.flatMap_cons]

/-- The last loop of the pass, over the slots that it visits. -/
theorem foldl_release_words {slots : List Nat} (hnodup : slots.Nodup) (dictionary : Dictionary)
    (data : Nat → RingRecord) :
    slots.foldl (fun (r : Dictionary × (Nat → RingRecord)) expired_id =>
        (r.1.pinba_words_release (r.2 expired_id).references,
          Function.update r.2 expired_id (r.2 expired_id).release_words)) (dictionary, data) =
      (dictionary.pinba_words_release (slots.flatMap fun i => (data i).references),
        fun i => if i ∈ slots then (data i).release_words else data i) := by
  rw [foldl_update_slots (fun (d : Dictionary) record => d.pinba_words_release record.references)
    RingRecord.release_words hnodup, foldl_words_release]

end loops

/-! ## Section 6: What a pass does -/

namespace StatsThread

variable (s : StatsThread)

/-- The records that are older than the cut-off time, up to the first one that is
    not, with their slots. -/
def expired (from_ : Timeval) : List (Nat × RingRecord) :=
  s.request_pool.contents.takeWhile fun e => e.2.time.lt from_

/-- Records as the reports see them. -/
def entries (records : List (Nat × RingRecord)) : List Entry :=
  records.map fun e => (e.1, e.2.view s.timer_pool)

/-- The live records and where their timers are. -/
def owners : List (Nat × TimerOwner) := s.request_pool.contents.map fun e => (e.1, e.2.owner)

/-- The positions of the timers of some records. -/
def timers_of (records : List (Nat × RingRecord)) : List Nat :=
  records.flatMap fun e => timer_ids s.timer_pool e.2.owner

def timers_cnt (records : List (Nat × RingRecord)) : Nat :=
  (records.map fun e => e.2.owner.timers_cnt).sum

def tags_cnt (records : List (Nat × RingRecord)) : Nat :=
  (records.map fun e => e.2.data.tags.length).sum

/-- Sum of `tag_num` over the timers between two positions of the pool. -/
def live_tags (outPos : Nat) (timers : Nat → PoolTimer) : Nat :=
  ((walk s.timer_pool.size outPos (occupancy s.timer_pool.size s.timer_pool.inPos outPos)).map
    fun i => (timers i).tag_num).sum

/-- The pass has removed `records`, and every stage of it has dealt with these
    records only. -/
structure Removes (records : List (Nat × RingRecord)) (r : StatsPass) : Prop where
  request_out : r.request_out = (s.request_pool.outPos + records.length) % s.request_pool.size
  base_reports : r.base_reports = s.base_reports.map fun report =>
    (baseOps.delete_all (s.entries records) report, records.map Prod.fst)
  rtag_reports : r.rtag_reports = s.rtag_reports.map fun report =>
    if tags_cnt records = 0 then (report, [])
    else (⟨report.1, (rtagOps report.1).delete_all (s.entries records) report.2⟩,
      records.map Prod.fst)
  tag_reports : r.tag_reports = s.tag_reports.map fun report =>
    if timers_cnt records = 0 then (report, [])
    else (⟨report.1, (tagOps report.1).delete_all (s.entries records) report.2⟩,
      records.map Prod.fst)
  jobs : r.jobs.flatMap (job_slots s.request_pool.size) =
    if timers_cnt records = 0 then [] else records.map Prod.fst
  dictionary : r.dictionary =
    s.dictionary.pinba_words_release (records.flatMap fun e => e.2.references)
  owned : ∀ own, s.dictionary.Owned
    (CountedHeap.pointers (records.flatMap fun e => e.2.references) + own) → r.dictionary.Owned own
  slots : ∀ i, r.slots i =
    if i ∈ records.map Prod.fst then (s.request_pool.data i).deactivated.release_words
    else s.request_pool.data i

/-- The pass has cleared the timers of `records`, given them up and taken their
    tags off the total. The other records tile what is left of the pool. -/
structure Clears (records : List (Nat × RingRecord)) (stored : List (List TimerRecord))
    (r : StatsPass) : Prop where
  timer_out : r.timer_out = (s.timer_pool.outPos + timers_cnt records) % s.timer_pool.size
  timers : ∀ i, r.timers i =
    if i ∈ s.timers_of records then (s.timer_pool.data i).cleared else s.timer_pool.data i
  timertags_cnt : r.timertags_cnt = s.timertags_cnt -
    (((s.timers_of records).map fun i => (s.timer_pool.data i).tag_num).sum : Nat)
  timertags_live : s.timertags_cnt = s.live_tags s.timer_pool.outPos s.timer_pool.data →
    r.timertags_cnt = s.live_tags r.timer_out r.timers
  tiling : ∃ timers : CircularBuffer PoolTimer, timers.size = s.timer_pool.size ∧
    timers.inPos = s.timer_pool.inPos ∧ timers.outPos = r.timer_out ∧ timers.data = r.timers ∧
    Tiling timers (s.owners.drop records.length) (stored.drop records.length)

section stages
variable {s} {from_ : Timeval} {stored : List (List TimerRecord)}

theorem length_expired : (s.expired from_).length ≤ s.request_pool.count := by
  rw [← s.request_pool.length_contents]
  exact (List.takeWhile_prefix _).length_le

theorem expired_eq_take :
    s.expired from_ = s.request_pool.contents.take (s.expired from_).length := by
  have hsplit := List.takeWhile_append_dropWhile (p := fun e : Nat × RingRecord => e.2.time.lt from_)
    (l := s.request_pool.contents)
  conv_rhs => rw [← hsplit]
  exact (List.take_left' rfl).symm

theorem slots_expired : (s.expired from_).map Prod.fst =
    walk s.request_pool.size s.request_pool.outPos (s.expired from_).length := by
  have hle := @length_expired s from_
  obtain ⟨rest, hrest⟩ : ∃ k, s.request_pool.count = (s.expired from_).length + k :=
    ⟨s.request_pool.count - (s.expired from_).length, by omega⟩
  conv_lhs => rw [expired_eq_take]
  rw [List.map_take, CircularBuffer.map_fst_contents, CircularBuffer.live, hrest,
    walk_add s.request_pool.out_lt, List.take_left' length_walk]

theorem expired_eq_map : s.expired from_ =
    (walk s.request_pool.size s.request_pool.outPos (s.expired from_).length).map
      fun i => (i, s.request_pool.data i) := by
  rw [← slots_expired, List.map_map]
  have hid : ∀ e ∈ s.expired from_, (e.1, s.request_pool.data e.1) = e := by
    intro e he
    have hmem := (List.takeWhile_prefix _).subset he
    obtain ⟨i, -, rfl⟩ := List.mem_map.mp hmem
    rfl
  exact ((List.map_congr_left hid).trans (List.map_id _)).symm

/-- The loop removes the expired records. -/
theorem delete_old_eq : pinba_request_pool_delete_old s.request_pool from_ =
    some (DeleteOld.removed ⟨s.request_pool.outPos, s.request_pool.data, 0, 0⟩ s.request_pool.size
      (s.expired from_)) :=
  delete_old_loop_eq s.request_pool.out_lt rfl s.request_pool.count_lt s.request_pool.in_eq
    s.request_pool.count_lt.le

/-- What the loop leaves behind for the stages after it. -/
def removed (s : StatsThread) (from_ : Timeval) : DeleteOld :=
  DeleteOld.removed ⟨s.request_pool.outPos, s.request_pool.data, 0, 0⟩ s.request_pool.size
    (s.expired from_)

theorem deleted_timer_cnt_removed :
    (s.removed from_).deleted_timer_cnt = timers_cnt (s.expired from_) := Nat.zero_add _

theorem rtags_cnt_removed : (s.removed from_).rtags_cnt = tags_cnt (s.expired from_) :=
  Nat.zero_add _

/-- The distance of the two positions is the number of expired records. -/
theorem num_removed : occupancy s.request_pool.size (s.removed from_).out s.request_pool.outPos =
    (s.expired from_).length := by
  have hle := @length_expired s from_
  have hlt := s.request_pool.count_lt
  exact occupancy_of_mod s.request_pool.out_lt (by omega)

theorem slots_removed (i : Nat) : (s.removed from_).slots i =
    if i ∈ (s.expired from_).map Prod.fst then (s.request_pool.data i).deactivated
    else s.request_pool.data i := rfl

theorem owner_removed (i : Nat) :
    ((s.removed from_).slots i).owner = (s.request_pool.data i).owner := by
  rw [slots_removed]
  split <;> rfl

theorem view_removed (i : Nat) :
    ((s.removed from_).slots i).view s.timer_pool = (s.request_pool.data i).view s.timer_pool := by
  rw [slots_removed]
  split <;> rfl

/-- A job of a report visits the expired records. -/
theorem update_reports_removed {R : Type*} (ops : ReportOps R) (report : R) :
    update_reports_func ops (fun i => ((s.removed from_).slots i).view s.timer_pool)
        s.request_pool.size s.request_pool.outPos (s.expired from_).length report =
      (ops.delete_all (s.entries (s.expired from_)) report, (s.expired from_).map Prod.fst) := by
  have hentries : s.entries (s.expired from_) =
      (walk s.request_pool.size s.request_pool.outPos (s.expired from_).length).map fun i =>
        (i, ((s.removed from_).slots i).view s.timer_pool) := by
    unfold entries
    rw [expired_eq_map, List.map_map, List.length_map, length_walk]
    exact List.map_congr_left fun i _ => congrArg (i, ·) (view_removed i).symm
  rw [update_reports_func_eq ops _ s.request_pool.out_lt, hentries, slots_expired]

/-- The jobs that clear timers, if there are timers to clear. -/
def clearing_jobs (s : StatsThread) (from_ : Timeval) : List (Nat × Nat) :=
  if 0 < timers_cnt (s.expired from_) then
    clear_jobs s.request_pool.outPos (s.expired from_).length
      (clear_job_size s.threads (s.expired from_).length) s.threads 0
  else []

theorem flatMap_clearing_jobs :
    (s.clearing_jobs from_).flatMap (job_slots s.request_pool.size) =
      if timers_cnt (s.expired from_) = 0 then [] else (s.expired from_).map Prod.fst := by
  have hle := @length_expired s from_
  have hlt := s.request_pool.count_lt
  unfold clearing_jobs
  by_cases hnone : timers_cnt (s.expired from_) = 0
  · rw [if_neg (by omega), if_pos hnone, List.flatMap_nil]
  · rw [if_pos (by omega), if_neg hnone,
      clear_jobs_partition s.request_pool.out_lt (by omega) s.threads_pos, slots_expired]

/-- Their slots lead to the timers of the expired records. -/
theorem timers_of_clearing_jobs :
    ((s.clearing_jobs from_).flatMap (job_slots s.request_pool.size)).flatMap
        (fun i => timer_ids s.timer_pool ((s.removed from_).slots i).owner) =
      s.timers_of (s.expired from_) := by
  rw [flatMap_clearing_jobs]
  by_cases hnone : timers_cnt (s.expired from_) = 0
  · rw [if_pos hnone, List.flatMap_nil]
    apply (List.eq_nil_of_length_eq_zero _).symm
    rw [timers_of, List.length_flatMap]
    simpa [timer_ids, timers_cnt] using hnone
  · rw [if_neg hnone, timers_of]
    conv_rhs => rw [expired_eq_map]
    rw [slots_expired, List.flatMap_map]
    exact List.flatMap_congr fun i _ => by rw [owner_removed]

/-- The last loop of the pass. -/
theorem release_words_removed :
    s.release_words (s.removed from_) (s.expired from_).length =
      (s.dictionary.pinba_words_release ((s.expired from_).flatMap fun e => e.2.references),
        fun i => if i ∈ (s.expired from_).map Prod.fst then
            (s.request_pool.data i).deactivated.release_words
          else s.request_pool.data i) := by
  have hle := @length_expired s from_
  have hlt := s.request_pool.count_lt
  rw [release_words, forEach_eq,
    foldl_release_words (nodup_walk s.request_pool.out_lt (by omega)), ← slots_expired]
  refine Prod.ext ?_ ?_
  -- the records still hold their words when the last loop comes to them
  · have hwords : ((s.expired from_).map Prod.fst).flatMap
        (fun i => ((s.removed from_).slots i).references) =
        (s.expired from_).flatMap fun e => e.2.references := by
      conv_rhs => rw [expired_eq_map]
      rw [slots_expired, List.flatMap_map]
      apply List.flatMap_congr
      intro i _
      rw [slots_removed]
      split <;> rfl
    rw [hwords]
  · funext i
    by_cases hi : i ∈ (s.expired from_).map Prod.fst
    · simp only [slots_removed, if_pos hi]
    · simp only [slots_removed, if_neg hi]

/-! ### The timer pool -/

variable (from_) (h : Tiling s.timer_pool s.owners stored)
include h

/-- The expired records own the front of the live timers. -/
theorem timers_of_expired : s.timers_of (s.expired from_) =
    s.timer_pool.live.take (timers_cnt (s.expired from_)) := by
  have htake : (s.owners).take (s.expired from_).length =
      (s.expired from_).map fun e => (e.1, e.2.owner) := by
    conv_rhs => rw [expired_eq_take]
    rw [StatsThread.owners, ← List.map_take]
  have hflat := h.flatMap_take (s.expired from_).length
  rw [htake, List.flatMap_map, List.map_map] at hflat
  rw [timers_of]
  refine Eq.trans (List.flatMap_congr fun e he => ?_) hflat
  have hmem : (e.1, e.2.owner) ∈ s.owners :=
    List.mem_map_of_mem ((List.takeWhile_prefix _).subset he)
  exact h.timer_ids_eq hmem

theorem timers_cnt_le : timers_cnt (s.expired from_) ≤ s.timer_pool.count := by
  have hlen := congrArg List.length (timers_of_expired from_ h)
  rw [timers_of, List.length_flatMap, List.length_take, CircularBuffer.length_live] at hlen
  have hsum : timers_cnt (s.expired from_) =
      ((s.expired from_).map fun e => (timer_ids s.timer_pool e.2.owner).length).sum := by
    simp [timers_cnt, timer_ids]
  omega

theorem nodup_timers_of : (s.timers_of (s.expired from_)).Nodup := by
  rw [timers_of_expired from_ h]
  exact s.timer_pool.nodup_live.sublist (List.take_sublist _ _)

theorem notMem_timers_of {i : Nat}
    (hi : i ∈ s.timer_pool.live.drop (timers_cnt (s.expired from_))) :
    i ∉ s.timers_of (s.expired from_) := by
  have hnodup := s.timer_pool.nodup_live
  rw [← List.take_append_drop (timers_cnt (s.expired from_)) s.timer_pool.live] at hnodup
  rw [timers_of_expired from_ h]
  exact fun htake => (List.nodup_append'.mp hnodup).2.2 htake hi

/-- The clearing jobs clear the timers of the expired records, in whatever order
    they are done. -/
theorem clear_removed {order : List (Nat × Nat)} (horder : order.Perm (s.clearing_jobs from_)) :
    order.foldl (clear_record_timers_job s.timer_pool s.request_pool.size (s.removed from_).slots)
        (s.timer_pool.data, 0) =
      (fun i => if i ∈ s.timers_of (s.expired from_) then (s.timer_pool.data i).cleared
          else s.timer_pool.data i,
        ((s.timers_of (s.expired from_)).map fun i => (s.timer_pool.data i).tag_num).sum) := by
  have hnodup := nodup_timers_of from_ h
  rw [← timers_of_clearing_jobs] at hnodup ⊢
  exact foldl_clear_jobs horder hnodup

/-- The live timers after the pass. -/
theorem live_timers_removed :
    let out := (s.timer_pool.outPos + timers_cnt (s.expired from_)) % s.timer_pool.size
    walk s.timer_pool.size out (occupancy s.timer_pool.size s.timer_pool.inPos out) =
      s.timer_pool.live.drop (timers_cnt (s.expired from_)) := by
  have hle := timers_cnt_le from_ h
  have hlt := s.timer_pool.count_lt
  have hlive := s.timer_pool.live_dropFront hle
  rw [CircularBuffer.live, CircularBuffer.count] at hlive
  rw [← hlive]
  show walk _ _ _ = walk _ (advance _ _ _) (occupancy _ _ (advance _ _ _))
  rw [advance_eq_mod s.timer_pool.out_lt (by omega)]
  rfl

/-- The pass takes the tags of the expired records off, and leaves those of the
    other ones. -/
theorem live_tags_removed :
    s.live_tags s.timer_pool.outPos s.timer_pool.data =
      ((s.timers_of (s.expired from_)).map fun i => (s.timer_pool.data i).tag_num).sum +
      s.live_tags ((s.timer_pool.outPos + timers_cnt (s.expired from_)) % s.timer_pool.size)
        fun i => if i ∈ s.timers_of (s.expired from_) then (s.timer_pool.data i).cleared
          else s.timer_pool.data i := by
  have hkept : (s.timer_pool.live.drop (timers_cnt (s.expired from_))).map (fun i =>
        (if i ∈ s.timers_of (s.expired from_) then (s.timer_pool.data i).cleared
          else s.timer_pool.data i).tag_num) =
      (s.timer_pool.live.drop (timers_cnt (s.expired from_))).map fun i =>
        (s.timer_pool.data i).tag_num := by
    apply List.map_congr_left
    intro i hi
    rw [if_neg (notMem_timers_of from_ h hi)]
  have hwalk := live_timers_removed from_ h
  unfold live_tags
  simp only at hwalk
  rw [hwalk, hkept, timers_of_expired from_ h, ← List.sum_append, ← List.map_append,
    List.take_append_drop]
  rfl

end stages

theorem stats_pass_eq (from_ : Timeval) (order : List (Nat × Nat) → List (Nat × Nat)) :
    s.stats_pass from_ order = some (s.after_delete_old (s.removed from_) order) :=
  congrArg (Option.map fun d => s.after_delete_old d order) delete_old_eq

theorem jobs_removed (from_ : Timeval) (order : List (Nat × Nat) → List (Nat × Nat)) :
    (s.after_delete_old (s.removed from_) order).jobs = s.clearing_jobs from_ := by
  simp only [after_delete_old, num_removed, deleted_timer_cnt_removed]
  rfl

theorem removes_after_delete_old (from_ : Timeval) (order : List (Nat × Nat) → List (Nat × Nat)) :
    s.Removes (s.expired from_) (s.after_delete_old (s.removed from_) order) := by
  have hrelease : (s.after_delete_old (s.removed from_) order).dictionary = _ ∧
      (s.after_delete_old (s.removed from_) order).slots = _ :=
    Prod.ext_iff.mp ((congrArg (s.release_words (s.removed from_)) num_removed).trans
      release_words_removed)
  exact
    { request_out := rfl
      base_reports := by
        simp only [after_delete_old, num_removed, update_family, if_true]
        exact List.map_congr_left fun report _ => update_reports_removed baseOps report
      rtag_reports := by
        simp only [after_delete_old, num_removed, update_family, rtags_cnt_removed,
          update_reports_removed]
        by_cases hnone : tags_cnt (s.expired from_) = 0 <;> simp [hnone]
      tag_reports := by
        simp only [after_delete_old, num_removed, update_family, deleted_timer_cnt_removed,
          update_reports_removed]
        by_cases hnone : timers_cnt (s.expired from_) = 0 <;> simp [hnone, Nat.pos_iff_ne_zero]
      jobs := by rw [jobs_removed, flatMap_clearing_jobs]
      dictionary := hrelease.1
      owned := by
        intro own hown
        rw [hrelease.1]
        exact Dictionary.owned_words_release hown
      slots := fun i => congrFun hrelease.2 i }

theorem clears_after_delete_old (from_ : Timeval) {order : List (Nat × Nat) → List (Nat × Nat)}
    (horder : ∀ jobs, (order jobs).Perm jobs) {stored : List (List TimerRecord)}
    (h : Tiling s.timer_pool s.owners stored) :
    s.Clears (s.expired from_) stored (s.after_delete_old (s.removed from_) order) := by
  have hle := timers_cnt_le from_ h
  have hlt := s.timer_pool.count_lt
  have hout : (s.after_delete_old (s.removed from_) order).timer_out =
      advance s.timer_pool.size s.timer_pool.outPos (timers_cnt (s.expired from_)) := by
    simp only [after_delete_old, deleted_timer_cnt_removed]
    rfl
  have hmod := advance_eq_mod s.timer_pool.out_lt (n := timers_cnt (s.expired from_)) (by omega)
  have hcleared : (s.after_delete_old (s.removed from_) order).timers = _ ∧ _ :=
    Prod.ext_iff.mp (clear_removed from_ h ((horder _).trans (.of_eq (s.jobs_removed from_ order))))
  have htags : (s.after_delete_old (s.removed from_) order).timertags_cnt = s.timertags_cnt -
      (((s.timers_of (s.expired from_)).map fun i => (s.timer_pool.data i).tag_num).sum : Nat) :=
    congrArg (fun n : Nat => s.timertags_cnt - n) hcleared.2
  refine ⟨hout.trans hmod, fun i => congrFun hcleared.1 i, htags, ?_, ?_⟩
  -- the count of the tags stays the one of the live timers
  · intro hlive
    rw [htags, hlive, live_tags_removed from_ h, hout, hmod, hcleared.1, Nat.cast_add]
    exact add_sub_cancel_left _ _
  -- the records that stay tile what is left of the pool
  · have hcnt : ((s.owners.take (s.expired from_).length).map fun e => e.2.timers_cnt).sum =
        timers_cnt (s.expired from_) := by
      rw [timers_cnt, StatsThread.owners, ← List.map_take, ← expired_eq_take, List.map_map]
      rfl
    have hkept : ∀ i ∈ s.timer_pool.live.drop (timers_cnt (s.expired from_)),
        (s.after_delete_old (s.removed from_) order).timers i = s.timer_pool.data i := by
      intro i hi
      rw [hcleared.1]
      exact if_neg (notMem_timers_of from_ h hi)
    exact ⟨(s.timer_pool.setData (s.after_delete_old (s.removed from_) order).timers).dropFront
      (timers_cnt (s.expired from_)) hle, rfl, rfl, hout.symm, rfl, h.expire hcnt hkept hle⟩

/-- A pass removes the expired records from the ring, the reports and the
    dictionary, and their timers from the timer pool if the records tile it. The
    jobs that clear timers may be done in any order. -/
theorem pass_spec (from_ : Timeval) {order : List (Nat × Nat) → List (Nat × Nat)}
    (horder : ∀ jobs, (order jobs).Perm jobs) :
    ∃ r, s.stats_pass from_ order = some r ∧ s.Removes (s.expired from_) r ∧
      ∀ stored, Tiling s.timer_pool s.owners stored → s.Clears (s.expired from_) stored r :=
  ⟨s.after_delete_old (s.removed from_) order, s.stats_pass_eq from_ order,
    s.removes_after_delete_old from_ order, fun _ h => s.clears_after_delete_old from_ horder h⟩

/-! ### The pass as a step of the daemon -/

/-- The daemon whose records carry their timers themselves. -/
def daemon (counter : Nat) : Daemon where
  request_pool :=
    { s.request_pool with data := fun i => (s.request_pool.data i).view s.timer_pool }
  request_pool_counter := counter
  timer_pool := .ofPool s.timer_pool
  timertags_cnt := s.timertags_cnt
  base_reports := s.base_reports
  rtag_reports := s.rtag_reports
  tag_reports := s.tag_reports

theorem delete_old_daemon (counter : Nat) (from_ : Timeval) :
    (s.daemon counter).delete_old from_ = s.entries (s.expired from_) := by
  have hcontents : (s.daemon counter).request_pool.contents =
      s.request_pool.contents.map fun e => (e.1, e.2.view s.timer_pool) := by
    rw [CircularBuffer.contents, CircularBuffer.contents, List.map_map]
    rfl
  rw [Daemon.delete_old, hcontents, List.takeWhile_map]
  rfl

variable (records : List (Nat × RingRecord))

theorem timers_total_entries :
    Daemon.timers_total ((s.entries records).map Prod.snd) = timers_cnt records := by
  simp [Daemon.timers_total, entries, RingRecord.view, timers_cnt, Function.comp_def]

theorem rtags_total_entries :
    Daemon.rtags_total ((s.entries records).map Prod.snd) = tags_cnt records := by
  simp [Daemon.rtags_total, entries, RingRecord.view, tags_cnt, Function.comp_def]

theorem timertags_total_entries :
    Daemon.timertags_total ((s.entries records).map Prod.snd) =
      ((s.timers_of records).map fun i => (s.timer_pool.data i).tag_num).sum := by
  induction records with
  | nil => rfl
  | cons e records ih =>
    have hhead : ((e.2.view s.timer_pool).timers.map fun timer => timer.tags.length) =
        (timer_ids s.timer_pool e.2.owner).map fun i => (s.timer_pool.data i).tag_num := by
      rw [RingRecord.view, timer_ids, List.map_map, List.map_map]
      rfl
    rw [timers_of, List.flatMap_cons, List.map_append, List.sum_append, ← hhead, ← timers_of, ← ih]
    rfl

/-- What a pass does to the reports and the positions is what `Daemon.expire`
    does. -/
theorem pass_refines_expire {from_ : Timeval} {counter : Nat} {stored : List (List TimerRecord)}
    {order : List (Nat × Nat) → List (Nat × Nat)} (horder : ∀ jobs, (order jobs).Perm jobs)
    (h : Tiling s.timer_pool s.owners stored) {r : StatsPass}
    (hr : s.stats_pass from_ order = some r) :
    let d := (s.daemon counter).expire from_
    d.request_pool.outPos = r.request_out ∧ d.timer_pool.outPos = r.timer_out ∧
    d.timertags_cnt = r.timertags_cnt ∧ d.base_reports = r.base_reports.map Prod.fst ∧
    d.rtag_reports = r.rtag_reports.map Prod.fst ∧ d.tag_reports = r.tag_reports.map Prod.fst := by
  obtain rfl := Option.some.inj (hr.symm.trans (s.stats_pass_eq from_ order))
  have hremoves := s.removes_after_delete_old from_ order
  have hclears := s.clears_after_delete_old from_ horder h
  have htimers : timers_cnt (s.expired from_) ≤ s.timer_pool.size :=
    (timers_cnt_le from_ h).trans s.timer_pool.count_lt.le
  have hle := @length_expired s from_
  have hlt := s.request_pool.count_lt
  have hlength : (s.entries (s.expired from_)).length = (s.expired from_).length :=
    List.length_map _
  have hout : advance s.request_pool.size s.request_pool.outPos (s.expired from_).length =
      (s.after_delete_old (s.removed from_) order).request_out := by
    rw [hremoves.request_out, advance_eq_mod s.request_pool.out_lt (by omega)]
  simp only [Daemon.expire, delete_old_daemon, timers_total_entries, rtags_total_entries,
    timertags_total_entries]
  refine ⟨?_, ?_, hclears.timertags_cnt.symm, ?_, ?_, ?_⟩
  -- the two positions, then the three families
  · rw [← hout, ← hlength]
    rfl
  · rw [hclears.timer_out]
    exact advance_eq_mod s.timer_pool.out_lt htimers
  · rw [hremoves.base_reports, List.map_map]
    rfl
  · rw [hremoves.rtag_reports, List.map_map]
    by_cases hnone : tags_cnt (s.expired from_) = 0
    · simp [hnone, daemon, Function.comp_def]
    · simp [hnone, daemon, Function.comp_def]
  · rw [hremoves.tag_reports, List.map_map]
    by_cases hnone : timers_cnt (s.expired from_) = 0
    · simp [hnone, daemon, Function.comp_def]
    · simp [hnone, daemon, Function.comp_def]

/-- A record without tags. -/
def plain_record (tv_sec : Int) (owner : TimerOwner) : RingRecord :=
  ⟨default, ⟨tv_sec, 0⟩, 0, owner, true, []⟩

/-- Two records in a wrapped ring; the older one has the timer in the pool. -/
def wrapped : StatsThread where
  request_pool :=
    { size := 3, inPos := 1, outPos := 2, in_lt := by decide, out_lt := by decide
      data := fun i => if i = 2 then plain_record 1 ⟨1, 1⟩ else plain_record 5 ⟨0, 0⟩ }
  timer_pool :=
    { size := 2, inPos := 0, outPos := 1, in_lt := by decide, out_lt := by decide
      data := fun _ => ⟨2, ⟨default, default, default, 1, [(1, default)]⟩⟩ }
  timertags_cnt := 1
  dictionary := .init
  base_reports := []
  rtag_reports :=
    [⟨.rtag_info, .created .rtag_info .none ⟨1, fun _ _ => 0, fun _ _ => Nat.zero_lt_one⟩ [default]⟩]
  tag_reports := []
  threads := 2
  threads_pos := by decide

/-- The older record goes, and with it the only timer. -/
theorem pass_spec_wrapped :
    ∃ r, wrapped.stats_pass ⟨2, 0⟩ List.reverse = some r ∧ r.request_out = 0 ∧ r.timer_out = 0 ∧
      r.timertags_cnt = 0 := by
  obtain ⟨r, hr, hremoves, hclears⟩ := wrapped.pass_spec ⟨2, 0⟩ List.reverse_perm
  have htiling : Tiling wrapped.timer_pool wrapped.owners
      [[⟨default, default, default, 1, [(1, default)]⟩], []] := ⟨rfl, rfl, rfl⟩
  exact ⟨r, hr, hremoves.request_out, (hclears _ htiling).timer_out, (hclears _ htiling).timertags_cnt⟩

/-- The report of request tags is not visited: the record that goes has none. -/
theorem pass_skips_rtag_reports :
    ¬ ∃ r, wrapped.stats_pass ⟨2, 0⟩ id = some r ∧
      ∀ visited ∈ r.rtag_reports, visited.2 = (wrapped.expired ⟨2, 0⟩).map Prod.fst := by
  rintro ⟨r, hr, hvisited⟩
  obtain rfl := Option.some.inj (hr.symm.trans (wrapped.stats_pass_eq ⟨2, 0⟩ id))
  have hnone := hvisited _ List.mem_cons_self
  exact absurd hnone (by decide)

end StatsThread

end PinbaEngine
