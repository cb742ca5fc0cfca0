import PinbaEngine.Handover

/-! # Owners of request trees

    The pools hold every tree of the heap once in every reachable state of the
    handover. The pointers in a read pool are those from the next request to copy or
    to free up to `in`, those in a write pool are all up to `in`.
-/

namespace PinbaEngine

open CountedHeap (pointers)

/-! ## Section 1: The invariant -/

/-- Datagrams that are in a pool but not in the counters yet. -/
def CollectorThread.unpublished : CollectorThread → Nat
  | .filling _ _ _ tally => tally.enqueued
  | _ => 0

@[simp] theorem CollectorThread.unpublished_filling (req_pool : Bool) (num left : Nat) (tally : Tally) :
    (CollectorThread.filling req_pool num left tally).unpublished = tally.enqueued := rfl

@[simp] theorem CollectorThread.unpublished_polling : CollectorThread.polling.unpublished = 0 := rfl

/-- What the data thread and its workers do with the pools of one thread. -/
inductive ThreadPhase where
  | idle
  | staging
  | merging
  | clearing (n : Nat)
  | freeing (n : Nat)

def DataThread.phase_of (w : Nat) : DataThread → ThreadPhase
  | .staging => .staging
  | .merging => .merging
  | .clearing i n => if w < i then .idle else .clearing (if w = i then n else 0)
  | .freeing i n => if w < i then .idle else if w = i then .freeing n else .clearing 0
  | _ => .idle

@[simp] theorem DataThread.phase_of_sleep (w : Nat) :
    (DataThread.clearing 0 0).phase_of w = .clearing 0 := by
  simp [DataThread.phase_of]

/-- All pointers are in the slots from `lo` up to `hi`. -/
def PointerPool.Within (p : PointerPool) (lo hi : Nat) : Prop :=
  ∀ m request, p.slots[m]? = some (some request) → lo ≤ m ∧ m < hi

/-- The first `n` slots hold pointers. -/
def PointerPool.Stocked (p : PointerPool) (n : Nat) : Prop :=
  ∀ m < n, ∃ request, p.slots[m]? = some (some request)

/-- The staged records refer to trees of the read pool. -/
def PointerPool.Borrows (tmp read : PointerPool) : Prop :=
  ∀ request ∈ pointers tmp.slots, request ∈ pointers read.slots

/-- What a phase promises about the read pool and the staged records of its thread. -/
def ThreadPhase.Sound (read tmp : PointerPool) (job : TreeJob) : ThreadPhase → Prop
  | .idle => read.Holds 0 ∧ tmp.Within 0 0 ∧ tmp.inPos = 0
  | .staging => read.Holds 0 ∧ tmp.Within 0 job.tmp_records ∧ tmp.inPos ≤ tmp.slots.length ∧
      tmp.inPos ≤ job.tmp_records ∧ job.tmp_records ≤ tmp.inPos + 1 ∧ tmp.Stocked tmp.inPos ∧
      tmp.Borrows read ∧
      ∀ node ∈ job.todo, node.1 ∈ pointers read.slots
  | .merging => read.Holds 0 ∧ tmp.Within 0 job.tmp_records ∧ tmp.Stocked job.end_ ∧ tmp.Borrows read
  | .clearing n => read.Holds 0 ∧ tmp.Within n job.tmp_records
  | .freeing n => read.Holds n ∧ n ≤ read.inPos ∧ tmp.Within 0 0 ∧ tmp.inPos = 0

namespace Handover

/-- A quantity of all request pools. -/
def total {M : Type*} [AddCommMonoid M] (f : PointerPool → M) (s : Handover) : M :=
  ∑ b : Bool, ∑ w ∈ Finset.range s.threads, f (s.per_thread_request_pool b w)

/-- The pointers that own the trees. -/
def held (s : Handover) : Multiset Nat := s.total fun p => pointers p.slots

structure Inv (s : Handover) : Prop where
  apart : s.current_read_pool ≠ s.current_write_pool
  phases : ∀ w < s.threads, (s.data_thread.phase_of w).Sound (s.read_pool w)
    (s.per_thread_tmp_pool w) (s.job_data_arr w)
  write : ∀ w < s.threads, (s.per_thread_request_pool s.current_write_pool w).Holds 0
  owned : s.heap.Owned s.held
  filling : ∀ w req_pool num left tally, s.collectors w = .filling req_pool num left tally →
    w < s.threads ∧ req_pool = s.current_write_pool ∧ s.data_thread ≠ .swapping ∧
      tally.enqueued ≤ (s.per_thread_request_pool req_pool w).inPos
  queue : s.destroyed = false →
    s.udp.queue_live + ∑ w ∈ Finset.range s.threads, ((s.collectors w).unpublished : Int) =
      s.total fun p => (p.inPos : Int)
  gone : s.destroyed = true →
    s.data_thread = .returned ∧ ∀ w < s.threads, s.collectors w = .returned
  turn : ∀ i n, s.data_thread = .freeing i n → i < s.threads
  emptied : s.destroyed = true → s.held = 0

/-! ### Sums over the pools -/

section sums
variable {M : Type*} [AddCommMonoid M] {s : Handover} {b : Bool} {w : Nat}

theorem pool_set_pool (p : PointerPool) (b' : Bool) (w' : Nat) :
    (s.set_pool b w p).per_thread_request_pool b' w' =
      if b' = b ∧ w' = w then p else s.per_thread_request_pool b' w' := by
  show Function.update s.per_thread_request_pool b _ b' w' = _
  by_cases hb : b' = b
  · subst hb
    rw [Function.update_self, Function.update_apply]
    simp
  · rw [Function.update_of_ne hb, if_neg (fun h => hb h.1)]

/-- One pool changes its contribution. -/
theorem total_set_pool (f : PointerPool → M) (hw : w < s.threads) (p : PointerPool) :
    (s.set_pool b w p).total f + f (s.per_thread_request_pool b w) = s.total f + f p := by
  have hpool : ∀ b', (∑ i ∈ Finset.range s.threads, f ((s.set_pool b w p).per_thread_request_pool b' i)) =
      if b' = b then
        ∑ i ∈ Finset.range s.threads,
          Function.update (fun i => f (s.per_thread_request_pool b i)) w (f p) i
      else ∑ i ∈ Finset.range s.threads, f (s.per_thread_request_pool b' i) := by
    intro b'
    split
    · next hb =>
      subst hb
      refine Finset.sum_congr rfl fun i _ => ?_
      rw [pool_set_pool, Function.update_apply]
      by_cases hi : i = w <;> simp [hi]
    · next hb =>
      refine Finset.sum_congr rfl fun i _ => ?_
      rw [pool_set_pool, if_neg (fun h => hb h.1)]
  have hone := Threads.sum_update (fun i => f (s.per_thread_request_pool b i)) hw (f p)
  unfold total
  rw [Fintype.sum_bool, Fintype.sum_bool]
  show (∑ i ∈ Finset.range s.threads, _) + (∑ i ∈ Finset.range s.threads, _) + _ = _
  rw [hpool, hpool]
  rcases b with _ | _
  · rw [if_neg (by simp), if_pos rfl, add_assoc, hone, add_assoc]
  · rw [if_pos rfl, if_neg (by simp), add_right_comm, hone, add_right_comm]

end sums

section steps
variable {s : Handover} {b : Bool} {w request : Nat} {p q : PointerPool}

theorem held_set_pool_cons (hw : w < s.threads)
    (h : pointers q.slots = request ::ₘ pointers (s.per_thread_request_pool b w).slots) :
    (s.set_pool b w q).held = request ::ₘ s.held := by
  have hsum := total_set_pool (fun p => pointers p.slots) hw q (b := b)
  simp only [h, Multiset.add_cons, ← Multiset.cons_add] at hsum
  exact add_right_cancel hsum

theorem held_set_pool_of_cons (hw : w < s.threads)
    (h : request ::ₘ pointers q.slots = pointers (s.per_thread_request_pool b w).slots) :
    request ::ₘ (s.set_pool b w q).held = s.held := by
  have hsum := total_set_pool (fun p => pointers p.slots) hw q (b := b)
  simp only [← h, Multiset.add_cons, ← Multiset.cons_add] at hsum
  exact add_right_cancel hsum

theorem held_set_pool_same (hw : w < s.threads)
    (h : pointers q.slots = pointers (s.per_thread_request_pool b w).slots) :
    (s.set_pool b w q).held = s.held := by
  have hsum := total_set_pool (fun p => pointers p.slots) hw q (b := b)
  simp only [h] at hsum
  exact add_right_cancel hsum

theorem unpublished_set_collector (hw : w < s.threads) (c : CollectorThread) :
    ∑ i ∈ Finset.range s.threads, (((s.set_collector w c).collectors i).unpublished : Int) +
        (s.collectors w).unpublished =
      ∑ i ∈ Finset.range s.threads, ((s.collectors i).unpublished : Int) + c.unpublished :=
  Threads.sum_share_update (fun c : CollectorThread => (c.unpublished : Int)) s.collectors hw c

theorem collector_set (c : CollectorThread) (i : Nat) :
    (s.set_collector w c).collectors i = if i = w then c else s.collectors i :=
  Function.update_apply _ _ _ _

/-- A new tree is nobody's yet. -/
theorem notMem_held_of_fresh (h : s.Inv) (hnew : s.heap.get request = none) : request ∉ s.held := by
  intro hmem
  obtain ⟨tree, htree⟩ := h.owned.get_of_mem hmem
  rw [hnew] at htree
  cases htree

/-- A collector that is not through with its datagrams keeps the daemon from being torn down. -/
theorem not_destroyed {num left : Nat} {tally : Tally} (h : s.Inv)
    (hc : s.collectors w = .filling b num left tally) : s.destroyed = false := by
  cases hd : s.destroyed with
  | false => rfl
  | true =>
    have hreturned := (h.gone hd).2 w (h.filling w _ _ _ _ hc).1
    rw [hc] at hreturned
    cases hreturned

/-! ### Collectors -/

/-- A collector changes its own state only. -/
theorem inv_set_collector {c : CollectorThread} (h : s.Inv) (hw : w < s.threads)
    (hd : s.destroyed = true → c = .returned)
    (hfilling : ∀ req_pool num left tally, c = .filling req_pool num left tally →
      req_pool = s.current_write_pool ∧ s.data_thread ≠ .swapping ∧
        tally.enqueued ≤ (s.per_thread_request_pool req_pool w).inPos)
    (hqueue : c.unpublished = (s.collectors w).unpublished) : (s.set_collector w c).Inv := by
  refine ⟨h.apart, h.phases, h.write, h.owned, ?_, ?_, ?_, h.turn, h.emptied⟩
  · intro i req_pool num left tally hi
    rw [collector_set] at hi
    split at hi
    · next heq =>
      subst heq
      exact ⟨hw, hfilling req_pool num left tally hi⟩
    · exact h.filling i req_pool num left tally hi
  · intro hlive
    have hsum := Threads.sum_share_update_same (n := s.threads)
      (fun c : CollectorThread => (c.unpublished : Int)) s.collectors (congrArg _ hqueue)
    exact (congrArg (s.udp.queue_live + ·) hsum).trans (h.queue hlive)
  · intro hdead
    refine ⟨(h.gone hdead).1, fun i hi => ?_⟩
    rw [collector_set]
    split
    · exact hd hdead
    · exact (h.gone hdead).2 i hi

theorem inv_enter {num : Nat} (h : s.Inv) (he : (Event.enter w num).Enabled s) :
    (s.enter w num).Inv := by
  obtain ⟨hw, hpolling, hlock, -⟩ := he
  apply inv_set_collector h hw
  · intro hdead
    have hreturned := (h.gone hdead).2 w hw
    rw [hpolling] at hreturned
    cases hreturned
  · intro req_pool _ _ tally hc
    obtain ⟨rfl, -, -, rfl⟩ := CollectorThread.filling.inj hc
    exact ⟨rfl, hlock, Nat.zero_le _⟩
  · rw [hpolling]
    rfl

/-- The tree of a datagram goes to the collector's own pool. -/
theorem inv_pushed {num left : Nat} {tally : Tally} {tree : RequestTree} {memory : Bool}
    {pool : PointerPool} (h : s.Inv)
    (hc : s.collectors w = .filling s.current_write_pool num left tally)
    (hnew : s.heap.get request = none)
    (hpush : (s.per_thread_request_pool s.current_write_pool w).pinba_pool_push request memory =
      some pool) :
    (((s.set_pool s.current_write_pool w pool).set_heap (s.heap.alloc request tree)).set_collector w
      (.filling s.current_write_pool num (left - 1)
        { tally with enqueued := tally.enqueued + 1 })).Inv := by
  obtain ⟨hw, -, hlock, hle⟩ := h.filling w _ _ _ _ hc
  obtain ⟨hholds, hptr, hin⟩ := (h.write w hw).push hpush
  have hpool := @pool_set_pool s s.current_write_pool w pool
  have hheld := held_set_pool_cons hw hptr
  have hlive := not_destroyed h hc
  refine ⟨h.apart, fun i hi => ?_, fun i hi => ?_, ?_, ?_, ?_, ?_, h.turn, ?_⟩
  · have hread := hpool s.current_read_pool i
    rw [if_neg (fun hb => h.apart hb.1)] at hread
    have hphase := h.phases i hi
    unfold read_pool at hphase ⊢
    exact hread ▸ hphase
  · refine (congrArg (PointerPool.Holds · 0) (hpool _ i)).mpr ?_
    split
    · exact hholds
    · exact h.write i hi
  · exact hheld ▸ h.owned.alloc (notMem_held_of_fresh h hnew)
  · intro i req_pool num' left' tally' hi
    rw [collector_set] at hi
    split at hi
    · next heq =>
      subst heq
      obtain ⟨rfl, -, -, rfl⟩ := CollectorThread.filling.inj hi
      refine ⟨hw, rfl, hlock, ?_⟩
      have hin' := congrArg PointerPool.inPos (hpool s.current_write_pool i)
      rw [if_pos ⟨rfl, rfl⟩, hin] at hin'
      exact (Nat.succ_le_succ hle).trans hin'.ge
    · next hne =>
      obtain ⟨hi', rfl, hlock', hle'⟩ := h.filling i _ _ _ _ hi
      refine ⟨hi', rfl, hlock', ?_⟩
      have hin' := congrArg PointerPool.inPos (hpool s.current_write_pool i)
      rw [if_neg (fun hb => hne hb.2)] at hin'
      exact hle'.trans hin'.ge
  · intro _
    have hcount := unpublished_set_collector hw
      (.filling s.current_write_pool num (left - 1) { tally with enqueued := tally.enqueued + 1 })
    have htotal := total_set_pool (fun p => (p.inPos : Int)) hw pool (b := s.current_write_pool)
    have hold := h.queue hlive
    rw [hc] at hcount
    simp only [CollectorThread.unpublished_filling, hin, Nat.cast_add, Nat.cast_one] at hcount htotal
    have hnext : s.udp.queue_live + ∑ i ∈ Finset.range s.threads,
        (((s.set_collector w (.filling s.current_write_pool num (left - 1)
          { tally with enqueued := tally.enqueued + 1 })).collectors i).unpublished : Int) =
        (s.set_pool s.current_write_pool w pool).total fun p => (p.inPos : Int) := by
      omega
    exact hnext
  · exact fun hdead => absurd (hlive.symm.trans hdead) Bool.false_ne_true
  · exact fun hdead => absurd (hlive.symm.trans hdead) Bool.false_ne_true

theorem inv_eat_datagram {datagram : Option RequestTree} {memory : Bool} (h : s.Inv)
    (he : (Event.eat_datagram w request datagram memory).Enabled s) :
    (s.eat_datagram w request datagram memory).Inv := by
  obtain ⟨⟨req_pool, num, left, tally, hc⟩, hnew⟩ := he
  obtain ⟨hw, rfl, hlock, hle⟩ := h.filling w _ _ _ _ hc
  have hlive := not_destroyed h hc
  have hunpublished : (s.collectors w).unpublished = tally.enqueued := by
    rw [hc]
    rfl
  unfold eat_datagram
  rw [hc]
  cases datagram with
  | none =>
    apply inv_set_collector h hw (fun hdead => absurd (hlive.symm.trans hdead) Bool.false_ne_true)
    · intro _ _ _ tally' hc'
      obtain ⟨rfl, -, -, rfl⟩ := CollectorThread.filling.inj hc'
      exact ⟨rfl, hlock, hle⟩
    · exact hunpublished.symm
  | some tree =>
    have hfresh := notMem_held_of_fresh h hnew
    have halloc := h.owned.alloc (v := tree) hfresh
    dsimp only
    split
    · -- the pool could not grow: the tree is freed at once
      have hfreed : (s.set_heap ((s.heap.alloc request tree).free request)).Inv :=
        { h with owned := halloc.free }
      apply inv_set_collector hfreed hw (fun hdead => absurd (hlive.symm.trans hdead) Bool.false_ne_true)
      · intro _ _ _ tally' hc'
        obtain ⟨rfl, -, -, rfl⟩ := CollectorThread.filling.inj hc'
        exact ⟨rfl, hlock, hle⟩
      · exact hunpublished.symm
    · next pool hpush => exact inv_pushed h hc hnew hpush

theorem inv_leave (h : s.Inv) (he : (Event.leave w).Enabled s) : (s.leave w).Inv := by
  obtain ⟨req_pool, num, tally, hc⟩ := he
  have hw := (h.filling w _ _ _ _ hc).1
  have hlive := not_destroyed h hc
  unfold leave
  rw [hc]
  refine ⟨h.apart, h.phases, h.write, h.owned, ?_, ?_, ?_, h.turn, h.emptied⟩
  · intro i req_pool' num' left tally' hi
    rw [collector_set] at hi
    split at hi
    · cases hi
    · exact h.filling i _ _ _ _ hi
  · -- what was unpublished moves to the counter
    intro _
    have hcount := unpublished_set_collector hw .polling
    have hold := h.queue hlive
    rw [hc] at hcount
    simp only [CollectorThread.unpublished_filling, CollectorThread.unpublished_polling] at hcount
    have hnext : s.udp.queue_live + tally.enqueued + ∑ i ∈ Finset.range s.threads,
        (((s.set_collector w .polling).collectors i).unpublished : Int) =
        s.total fun p => (p.inPos : Int) := by
      omega
    exact hnext
  · exact fun hdead => absurd (hlive.symm.trans hdead) Bool.false_ne_true

theorem inv_collector_return (h : s.Inv) (he : (Event.collector_return w).Enabled s) :
    (s.set_collector w .returned).Inv := by
  refine ⟨h.apart, h.phases, h.write, h.owned, ?_, ?_, ?_, h.turn, h.emptied⟩
  · intro i req_pool num left tally hi
    rw [collector_set] at hi
    split at hi
    · cases hi
    · exact h.filling i _ _ _ _ hi
  · intro hlive
    have hsum := Threads.sum_share_update_same (n := s.threads) (x := CollectorThread.returned)
      (fun c : CollectorThread => (c.unpublished : Int)) s.collectors (w := w)
      (by rw [show s.collectors w = .polling from he]; rfl)
    exact (congrArg (s.udp.queue_live + ·) hsum).trans (h.queue hlive)
  · intro hdead
    refine ⟨(h.gone hdead).1, fun i hi => ?_⟩
    rw [collector_set]
    split
    · rfl
    · exact (h.gone hdead).2 i hi

/-! ### The data thread -/

theorem alive_of_data_thread (h : s.Inv) (hpc : s.data_thread ≠ .returned) : s.destroyed = false := by
  cases hd : s.destroyed with
  | false => rfl
  | true => exact absurd (h.gone hd).1 hpc

/-- The data thread moves on and leaves the request pools alone. -/
theorem inv_data {pc : DataThread} {tmp : Nat → PointerPool} {jobs : Nat → TreeJob} (h : s.Inv)
    (hpc : s.data_thread ≠ .returned)
    (hphases : ∀ w < s.threads, (pc.phase_of w).Sound (s.read_pool w) (tmp w) (jobs w))
    (hlock : pc = .swapping →
      ∀ w req_pool num left tally, s.collectors w ≠ .filling req_pool num left tally)
    (hturn : ∀ i n, pc = .freeing i n → i < s.threads) :
    Inv { s with data_thread := pc, per_thread_tmp_pool := tmp, job_data_arr := jobs } := by
  have hlive := alive_of_data_thread h hpc
  refine ⟨h.apart, hphases, h.write, h.owned, ?_, h.queue, ?_, hturn, h.emptied⟩
  · intro i req_pool num left tally hi
    obtain ⟨hi', hreq, -, hle⟩ := h.filling i _ _ _ _ hi
    exact ⟨hi', hreq, fun hswap => hlock hswap i _ _ _ _ hi, hle⟩
  · exact fun hdead => absurd (hlive.symm.trans hdead) Bool.false_ne_true

/-- A turn for one thread changes its staged records and its job. -/
theorem inv_move {pc : DataThread} {tmp : PointerPool} {job : TreeJob} (h : s.Inv)
    (hpc : s.data_thread ≠ .returned) (hpc' : pc ≠ .swapping)
    (hturn : ∀ i n, pc = .freeing i n → i < s.threads)
    (hself : w < s.threads → (pc.phase_of w).Sound (s.read_pool w) tmp job)
    (hother : ∀ i, i ≠ w → pc.phase_of i = s.data_thread.phase_of i) :
    Inv { (s.set_tmp w tmp).set_job w job with data_thread := pc } := by
  apply @inv_data s pc (Function.update s.per_thread_tmp_pool w tmp)
    (Function.update s.job_data_arr w job) h hpc _ (fun hswap => absurd hswap hpc') hturn
  intro i hi
  by_cases heq : i = w
  · subst heq
    rw [Function.update_self, Function.update_self]
    exact hself hi
  · rw [Function.update_of_ne heq, Function.update_of_ne heq, hother i heq]
    exact h.phases i hi

theorem set_tmp_self (w : Nat) : s.set_tmp w (s.per_thread_tmp_pool w) = s := by
  unfold set_tmp
  rw [Function.update_eq_self]

theorem set_job_self (w : Nat) : s.set_job w (s.job_data_arr w) = s := by
  unfold set_job
  rw [Function.update_eq_self]

theorem inv_lock_pools (h : s.Inv) (he : Event.lock_pools.Enabled s) :
    (s.step .lock_pools).Inv := by
  obtain ⟨hwait, hfree⟩ := he
  apply inv_data h (by simp [hwait]) _ (fun _ => hfree) (by simp)
  intro w hw
  have hphase := h.phases w hw
  rw [hwait] at hphase
  exact hphase

/-- The two arrays change places; no collector is in either of them. -/
theorem inv_swap_pools (h : s.Inv) (he : Event.swap_pools.Enabled s) : s.swap_pools.Inv := by
  have hidle : ∀ w < s.threads, (s.read_pool w).Holds 0 ∧ (s.per_thread_tmp_pool w).Within 0 0 ∧
      (s.per_thread_tmp_pool w).inPos = 0 := fun w hw => by
    have hphase := h.phases w hw
    rw [show s.data_thread = .swapping from he] at hphase
    exact hphase
  refine ⟨h.apart.symm, fun w hw => ⟨h.write w hw, (hidle w hw).2⟩, fun w hw => (hidle w hw).1,
    h.owned, ?_, h.queue, ?_, by simp [swap_pools], h.emptied⟩
  · intro w req_pool num left tally hw
    exact absurd he (h.filling w _ _ _ _ hw).2.2.1
  · intro hdead
    have hreturned := (h.gone hdead).1
    rw [show s.data_thread = .swapping from he] at hreturned
    cases hreturned

theorem inv_harvest (h : s.Inv) (he : Event.harvest.Enabled s) : s.harvest.Inv := by
  have hswapped : s.data_thread = .swapped := he
  have hidle : ∀ w < s.threads, (s.read_pool w).Holds 0 ∧ (s.per_thread_tmp_pool w).Within 0 0 ∧
      (s.per_thread_tmp_pool w).inPos = 0 := fun w hw => by
    have hphase := h.phases w hw
    rw [hswapped] at hphase
    exact hphase
  have hnone : ∀ w < s.threads, ∀ m request,
      (s.per_thread_tmp_pool w).slots[m]? ≠ some (some request) := fun w hw m request hm => by
    have hlt := ((hidle w hw).2.1 m request hm).2
    omega
  unfold harvest
  split
  · apply inv_data h (by simp [hswapped]) _ (by simp) (by simp)
    intro w hw
    rw [DataThread.phase_of_sleep]
    exact ⟨(hidle w hw).1, fun m request hm => absurd hm (hnone w hw m request)⟩
  · apply inv_data h (by simp [hswapped]) _ (by simp) (by simp)
    intro w hw
    obtain ⟨hread, hwithin, hin⟩ := hidle w hw
    refine ⟨hread, hwithin, by omega, hin.le, Nat.zero_le _, ?_, ?_, ?_⟩
    · intro m hm
      omega
    · intro request hmem
      obtain ⟨m, hm⟩ := List.mem_iff_getElem?.mp (OwnedHeap.mem_pointers.mp hmem)
      exact absurd hm (hnone w hw m request)
    · -- what is to be visited is in the slots
      intro node hnode
      obtain ⟨slot, hslot, hmem⟩ := List.mem_flatMap.mp hnode
      cases slot with
      | none => cases hmem
      | some request =>
        obtain ⟨_, -, rfl⟩ := List.mem_map.mp hmem
        exact OwnedHeap.mem_pointers.mpr (List.mem_of_mem_take hslot)

theorem mem_held (hw : w < s.threads) (hmem : request ∈ pointers (s.per_thread_request_pool b w).slots) :
    request ∈ s.held :=
  Multiset.mem_sum.mpr ⟨b, Finset.mem_univ b, Multiset.mem_sum.mpr ⟨w, Finset.mem_range.mpr hw, hmem⟩⟩

/-- A staged request is still part of the read pool's tree. -/
theorem sound_store {read tmp : PointerPool} {job : TreeJob} {tree : Nat} {todo : List (Nat × Request)}
    (hsound : ThreadPhase.staging.Sound read tmp job) {memory record : Bool}
    (hroom : tmp.make_room memory = some p) (htree : tree ∈ pointers read.slots)
    (htodo : ∀ node ∈ todo, node.1 ∈ pointers read.slots) :
    ThreadPhase.staging.Sound read
      (if record then { p.store tree with inPos := p.inPos + 1 } else p.store tree)
      { job with todo, tmp_records := p.inPos + 1 } := by
  obtain ⟨hread, hwithin, hfits, -, hrecords, hstocked, hborrows, -⟩ := hsound
  obtain ⟨more, rfl, hlt⟩ := PointerPool.make_room_eq hfits hroom
  have hslot : ∀ {m x : Nat}, (PointerPool.store
      { tmp with slots := tmp.slots ++ List.replicate more none } tree).slots[m]? = some (some x) ↔
      m = tmp.inPos ∧ x = tree ∨ m ≠ tmp.inPos ∧ tmp.slots[m]? = some (some x) := fun {m x} => by
    rw [PointerPool.getElem?_store hlt, PointerPool.getElem?_append_none]
  have hwithin' : ∀ m x, (PointerPool.store
      { tmp with slots := tmp.slots ++ List.replicate more none } tree).slots[m]? = some (some x) →
      0 ≤ m ∧ m < tmp.inPos + 1 := fun m x hm => by
    rcases hslot.mp hm with ⟨rfl, -⟩ | ⟨-, hold⟩
    · omega
    · have hlt' := (hwithin m x hold).2
      omega
  have hstocked' : ∀ m < tmp.inPos, ∃ x, (PointerPool.store
      { tmp with slots := tmp.slots ++ List.replicate more none } tree).slots[m]? = some (some x) :=
    fun m hm => by
      obtain ⟨x, hx⟩ := hstocked m hm
      exact ⟨x, hslot.mpr (.inr ⟨by omega, hx⟩)⟩
  have hborrows' : ∀ x ∈ pointers (PointerPool.store
      { tmp with slots := tmp.slots ++ List.replicate more none } tree).slots, x ∈ pointers read.slots :=
    fun x hx => by
      obtain ⟨m, hm⟩ := List.mem_iff_getElem?.mp (OwnedHeap.mem_pointers.mp hx)
      rcases hslot.mp hm with ⟨-, rfl⟩ | ⟨-, hold⟩
      · exact htree
      · exact hborrows x (OwnedHeap.mem_pointers_of_getElem? hold)
  have hfits' : tmp.inPos < (PointerPool.store
      { tmp with slots := tmp.slots ++ List.replicate more none } tree).slots.length := by
    show tmp.inPos < ((tmp.slots ++ List.replicate more none).set tmp.inPos (some tree)).length
    rw [List.length_set]
    exact hlt
  cases record with
  | false =>
    exact ⟨hread, hwithin', hfits'.le, Nat.le_succ _, le_rfl, hstocked', hborrows', htodo⟩
  | true =>
    refine ⟨hread, hwithin', hfits', le_rfl, Nat.le_succ _, ?_, hborrows', htodo⟩
    intro m hm
    rcases Nat.lt_succ_iff_lt_or_eq.mp hm with hlt' | rfl
    · exact hstocked' m hlt'
    · exact ⟨tree, hslot.mpr (.inl ⟨rfl, rfl⟩)⟩

theorem inv_stage {memory : NodeMemory} (h : s.Inv) (he : (Event.stage w memory).Enabled s) :
    (s.stage w memory).Inv := by
  obtain ⟨hstaging, hw⟩ := he
  have hsound := h.phases w hw
  rw [hstaging] at hsound
  -- only the worker's own records and job change
  have hmove : ∀ (tmp : PointerPool) (job : TreeJob),
      ThreadPhase.staging.Sound (s.read_pool w) tmp job → ((s.set_tmp w tmp).set_job w job).Inv :=
    fun tmp job hnew => by
      apply @inv_move s w s.data_thread tmp job h (by simp [hstaging]) (by simp [hstaging])
        (by simp [hstaging])
      · intro _
        rw [hstaging]
        exact hnew
      · exact fun _ _ => rfl
  unfold stage
  split
  · exact h
  · next tree request todo htodo =>
    obtain ⟨hread, hwithin, hfits, hin, hrecords, hstocked, hborrows, hnodes⟩ := hsound
    rw [htodo] at hnodes
    have htree := hnodes _ List.mem_cons_self
    have hrest : ∀ node ∈ todo, node.1 ∈ pointers (s.read_pool w).slots :=
      fun node hnode => hnodes node (List.mem_cons_of_mem _ hnode)
    have htouch : s.heap.touch tree = s.heap := h.owned.touch (mem_held hw htree)
    have hskip : (s.set_job w { s.job_data_arr w with todo }).Inv := by
      have hsame := hmove (s.per_thread_tmp_pool w) { s.job_data_arr w with todo }
        ⟨hread, hwithin, hfits, hin, hrecords, hstocked, hborrows, hrest⟩
      rwa [set_tmp_self] at hsame
    simp only [htouch]
    split
    · exact hskip
    · split
      · exact hskip
      · next hroom =>
        exact hmove _ _ (sound_store
          ⟨hread, hwithin, hfits, hin, hrecords, hstocked, hborrows, fun _ hnode =>
            (htodo ▸ hnodes) _ hnode⟩ hroom htree hrest)

/-- After `barrier1` every record that is copied has been staged. -/
theorem inv_post_copies {ends : Nat → Nat} (h : s.Inv) (he : (Event.post_copies ends).Enabled s) :
    (s.post_copies ends).Inv := by
  obtain ⟨hstaging, -, hends⟩ := he
  apply inv_data h (by simp [hstaging]) _ (by simp) (by simp)
  intro w hw
  have hphase := h.phases w hw
  rw [hstaging] at hphase
  obtain ⟨hread, hwithin, -, -, -, hstocked, hborrows, -⟩ := hphase
  exact ⟨hread, hwithin, fun m hm => hstocked m (hm.trans_le (hends w hw)), hborrows⟩

/-- A worker only reads trees that are there. -/
theorem inv_use {n : Nat} (h : s.Inv) (he : (Event.use w n).Enabled s) : (s.use w n).Inv := by
  obtain ⟨hmerging, hw, hn⟩ := he
  have hphase := h.phases w hw
  rw [hmerging] at hphase
  obtain ⟨-, -, hstocked, hborrows⟩ := hphase
  obtain ⟨request, hrequest⟩ := hstocked n hn
  have hheld := mem_held hw (hborrows request (OwnedHeap.mem_pointers_of_getElem? hrequest))
  unfold use
  rw [hrequest]
  show Inv { s with heap := s.heap.touch request }
  rw [h.owned.touch hheld]
  exact h

theorem inv_sleep (h : s.Inv) (he : Event.sleep.Enabled s) : (s.step .sleep).Inv := by
  have hpc : s.data_thread = .staging ∨ s.data_thread = .merging := he.imp And.left id
  apply inv_data h (by rcases hpc with hpc | hpc <;> simp [hpc]) _ (by simp) (by simp)
  intro w hw
  have hphase := h.phases w hw
  rw [DataThread.phase_of_sleep]
  rcases hpc with hpc | hpc <;> rw [hpc] at hphase
  · obtain ⟨hread, hwithin, -⟩ := hphase
    exact ⟨hread, hwithin⟩
  · obtain ⟨hread, hwithin, -⟩ := hphase
    exact ⟨hread, hwithin⟩

theorem inv_data_return (h : s.Inv) (he : Event.data_return.Enabled s) : (s.step .data_return).Inv := by
  have hwait : s.data_thread = .waiting := he
  apply inv_data h (by simp [hwait]) _ (by simp) (by simp)
  intro w hw
  have hphase := h.phases w hw
  rw [hwait] at hphase
  exact hphase

/-! ### The loops after `sleep` -/

variable {i n : Nat}

/-- Threads other than `i` are not concerned by a turn for thread `i`. -/
theorem phase_of_ne {pc pc' : DataThread} (hw : w ≠ i)
    (hpc : pc = .clearing i n ∨ pc = .freeing i n)
    (hpc' : (∃ m, pc' = .clearing i m) ∨ ∃ m, pc' = .freeing i m) :
    pc'.phase_of w = pc.phase_of w := by
  rcases hpc with rfl | rfl <;> rcases hpc' with ⟨m, rfl⟩ | ⟨m, rfl⟩ <;>
    simp [DataThread.phase_of, hw]

theorem within_forget {hi : Nat} (h : p.Within n hi) : (p.forget n).Within (n + 1) hi := by
  intro m request hm
  have hset : (p.slots.set n none)[m]? = some (some request) := hm
  rw [List.getElem?_set] at hset
  split at hset
  · split at hset <;> cases hset
  · next hne =>
    have hold := h m request hset
    omega

/-- A turn of the first loop. -/
theorem inv_clear (h : s.Inv) (hpc : s.data_thread = .clearing i n) : s.clean.Inv := by
  have hself : i < s.threads → ThreadPhase.Sound (s.read_pool i) (s.per_thread_tmp_pool i)
      (s.job_data_arr i) (.clearing n) := fun hi => by
    have hphase := h.phases i hi
    rw [hpc] at hphase
    simpa [DataThread.phase_of] using hphase
  unfold clean
  rw [hpc]
  dsimp only
  split
  · -- all threads are done
    next hdone =>
    apply inv_data h (by simp [hpc]) _ (by simp) (by simp)
    intro w hw
    have hphase := h.phases w hw
    rwa [hpc, DataThread.phase_of, if_pos (by omega)] at hphase
  · split
    · have hmove := @inv_move s i (.clearing i (n + 1)) ((s.per_thread_tmp_pool i).forget n)
        (s.job_data_arr i) h (by simp [hpc]) (by simp) (by simp)
      rw [show (s.set_tmp i ((s.per_thread_tmp_pool i).forget n)).set_job i (s.job_data_arr i) =
        s.set_tmp i ((s.per_thread_tmp_pool i).forget n) from set_job_self i] at hmove
      apply hmove
      · intro hi
        obtain ⟨hread, hwithin⟩ := hself hi
        rw [DataThread.phase_of, if_neg (lt_irrefl _), if_pos rfl]
        exact ⟨hread, within_forget hwithin⟩
      · exact fun w hw => phase_of_ne hw (.inl hpc) (.inl ⟨n + 1, rfl⟩)
    · next hi _ =>
      apply inv_move h (by simp [hpc]) (by simp)
      · rintro _ _ ⟨⟩
        omega
      · intro hi
        obtain ⟨hread, hwithin⟩ := hself hi
        rw [DataThread.phase_of, if_neg (lt_irrefl _), if_pos rfl]
        refine ⟨hread, Nat.zero_le _, fun m request hm => ?_, rfl⟩
        have hlt := hwithin m request hm
        omega
      · exact fun w hw => phase_of_ne hw (.inl hpc) (.inr ⟨0, rfl⟩)

/-- The data thread changes the read pool of thread `i`. -/
theorem inv_set_read_pool {pc : DataThread} {heap : OwnedHeap RequestTree} {udp : UdpMetrics}
    (h : s.Inv) (hi : i < s.threads) (hlive : s.destroyed = false)
    (hpc : pc ≠ .swapping) (hturn : ∀ j m, pc = .freeing j m → j < s.threads)
    (hself : (pc.phase_of i).Sound p (s.per_thread_tmp_pool i) (s.job_data_arr i))
    (hother : ∀ w, w ≠ i → pc.phase_of w = s.data_thread.phase_of w)
    (howned : heap.Owned (s.set_pool s.current_read_pool i p).held)
    (hqueue : udp.queue_live + (s.read_pool i).inPos = s.udp.queue_live + p.inPos) :
    Inv { s.set_pool s.current_read_pool i p with heap, udp, data_thread := pc } := by
  have hread : ∀ w, s.per_thread_request_pool s.current_read_pool w = s.read_pool w := fun _ => rfl
  have hwrite : ∀ w, (s.set_pool s.current_read_pool i p).per_thread_request_pool
      s.current_write_pool w = s.per_thread_request_pool s.current_write_pool w := fun w =>
    (pool_set_pool _ _ _).trans (if_neg fun hb => h.apart hb.1.symm)
  refine ⟨h.apart, fun w hw => ?_, fun w hw => ?_, howned, ?_, ?_, ?_, hturn, ?_⟩
  · refine (congrArg (fun read => ThreadPhase.Sound read _ _ _) (pool_set_pool p _ w)).mpr ?_
    by_cases heq : w = i
    · subst heq
      rw [if_pos ⟨rfl, rfl⟩]
      exact hself
    · rw [if_neg (fun hb => heq hb.2)]
      show ThreadPhase.Sound _ _ _ (pc.phase_of w)
      rw [hother w heq]
      exact h.phases w hw
  · exact (congrArg (PointerPool.Holds · 0) (hwrite w)).mpr (h.write w hw)
  · intro w req_pool num left tally hw
    obtain ⟨hw', rfl, -, hle⟩ := h.filling w _ _ _ _ hw
    exact ⟨hw', rfl, hpc, hle.trans (congrArg PointerPool.inPos (hwrite w)).ge⟩
  · intro _
    have htotal := total_set_pool (fun p => (p.inPos : Int)) hi p (b := s.current_read_pool)
    have hold := h.queue hlive
    rw [hread] at htotal
    have hnext : udp.queue_live + ∑ w ∈ Finset.range s.threads, ((s.collectors w).unpublished : Int) =
        (s.set_pool s.current_read_pool i p).total fun p => (p.inPos : Int) := by
      omega
    exact hnext
  · exact fun hdead => absurd (hlive.symm.trans hdead) Bool.false_ne_true
  · exact fun hdead => absurd (hlive.symm.trans hdead) Bool.false_ne_true

/-- A turn of the second loop. -/
theorem inv_free (h : s.Inv) (hpc : s.data_thread = .freeing i n) : s.clean.Inv := by
  have hi := h.turn i n hpc
  have hlive := alive_of_data_thread h (by simp [hpc])
  have hphase := h.phases i hi
  rw [hpc, DataThread.phase_of, if_neg (lt_irrefl _), if_pos rfl] at hphase
  obtain ⟨hholds, hle, hwithin, hzero⟩ := hphase
  unfold clean
  rw [hpc]
  dsimp only
  split
  · next hn =>
    obtain ⟨request, hrequest, hptr, hforget⟩ := hholds.forget hn
    rw [hrequest]
    apply inv_set_read_pool h hi hlive (by simp)
    · rintro _ _ ⟨⟩
      exact hi
    · rw [DataThread.phase_of, if_neg (lt_irrefl _), if_pos rfl]
      exact ⟨hforget, hn, hwithin, hzero⟩
    · exact fun w hw => phase_of_ne hw (.inr hpc) (.inr ⟨n + 1, rfl⟩)
    · have howned := h.owned
      rw [← held_set_pool_of_cons hi hptr] at howned
      exact howned.free
    · rfl
  · next hn =>
    apply inv_set_read_pool h hi hlive (by simp) (by simp)
    · rw [DataThread.phase_of, if_pos (Nat.lt_succ_self i)]
      exact ⟨hholds.clear (by omega), hwithin, hzero⟩
    · intro w hw
      rw [hpc, DataThread.phase_of, DataThread.phase_of]
      by_cases hlt : w < i
      · rw [if_pos hlt, if_pos (by omega)]
      · rw [if_neg hlt, if_neg hw, if_neg (by omega)]
        simp
    · have hheld := @held_set_pool_same s s.current_read_pool i (s.read_pool i).clear hi rfl
      exact hheld.symm ▸ h.owned
    · -- the datagrams leave the pool and the counter
      show s.udp.queue_live - ((s.read_pool i).inPos : Int) + (s.read_pool i).inPos =
        s.udp.queue_live + (0 : Nat)
      omega

theorem inv_clean (h : s.Inv) (he : Event.clean.Enabled s) : s.clean.Inv := by
  rcases he with ⟨i, n, hpc⟩ | ⟨i, n, hpc⟩
  · exact inv_clear h hpc
  · exact inv_free h hpc

/-- The destructors free what the pools of the first `k` threads own. -/
theorem owned_freeSlots_range (pools : Bool → Nat → PointerPool) (k : Nat) {heap : OwnedHeap RequestTree}
    {own : Multiset Nat}
    (ho : heap.Owned (∑ w ∈ Finset.range k,
      (pointers (pools false w).slots + pointers (pools true w).slots) + own)) :
    ((List.range k).foldl (fun heap w =>
      (heap.freeSlots (pools false w).slots).freeSlots (pools true w).slots) heap).Owned own := by
  induction k generalizing own with
  | zero =>
    rwa [Finset.sum_range_zero, zero_add] at ho
  | succ k ih =>
    rw [List.range_succ, List.foldl_append, List.foldl_cons, List.foldl_nil]
    rw [Finset.sum_range_succ, add_assoc, add_assoc] at ho
    exact (ih ho).freeSlots.freeSlots

theorem inv_destroy (h : s.Inv) (he : Event.destroy.Enabled s) : s.destroy.Inv := by
  obtain ⟨hreturned, hcollectors, -⟩ := he
  have hempty : ∀ p : PointerPool, p.destroyed.Holds 0 := fun p => by
    refine ⟨le_rfl, fun m => ?_⟩
    show (∃ request, ([] : List (Option Nat))[m]? = some (some request)) ↔ 0 ≤ m ∧ m < 0
    simp
  have hheld : s.destroy.held = 0 := by
    show ∑ _b : Bool, ∑ w ∈ Finset.range s.threads, pointers [] = 0
    simp
  refine ⟨h.apart, fun w hw => ?_, fun w hw => hempty _, ?_, ?_, by simp [destroy], ?_, h.turn,
    fun _ => hheld⟩
  · have hphase := h.phases w hw
    rw [hreturned] at hphase
    show ThreadPhase.Sound _ _ _ (s.data_thread.phase_of w)
    rw [hreturned]
    exact ⟨hempty _, hphase.2⟩
  · rw [hheld]
    apply owned_freeSlots_range
    have howned := h.owned
    unfold held total at howned
    rwa [Fintype.sum_bool, add_comm, ← Finset.sum_add_distrib, ← add_zero (Finset.sum _ _)] at howned
  · intro w req_pool num left tally hw
    have hw' := (h.filling w _ _ _ _ hw).1
    rw [show s.destroy.collectors w = s.collectors w from rfl, hcollectors w hw'] at hw
    cases hw
  · exact fun _ => ⟨hreturned, hcollectors⟩

theorem inv_step {e : Event} (h : s.Inv) (he : e.Enabled s) : (s.step e).Inv := by
  cases e with
  | enter w num => exact inv_enter h he
  | eat_datagram w request datagram memory => exact inv_eat_datagram h he
  | leave w => exact inv_leave h he
  | lock_pools => exact inv_lock_pools h he
  | swap_pools => exact inv_swap_pools h he
  | harvest => exact inv_harvest h he
  | stage w memory => exact inv_stage h he
  | post_copies ends => exact inv_post_copies h he
  | use w n => exact inv_use h he
  | sleep => exact inv_sleep h he
  | clean => exact inv_clean h he
  | collector_return w => exact inv_collector_return h he
  | data_return => exact inv_data_return h he
  | destroy => exact inv_destroy h he

theorem inv_init (threads : Nat) (data tmp : PointerPool) : (init threads data tmp).Inv := by
  have hnone : ∀ (p : PointerPool) (m request : Nat), p.blank.slots[m]? ≠ some (some request) :=
    fun p m request hm => by
      have hlt := ((PointerPool.Holds.blank p).iff m).mp ⟨request, hm⟩
      exact absurd hlt.2 (Nat.not_lt_zero m)
  have hheld : (init threads data tmp).held = 0 := by
    show ∑ _b : Bool, ∑ w ∈ Finset.range threads,
      pointers (List.replicate data.slots.length none) = 0
    simp [OwnedHeap.pointers_replicate_none]
  refine ⟨Bool.false_ne_true, fun w _ => ⟨.blank data, ?_, rfl⟩, fun w _ => .blank data, ?_, ?_, ?_,
    ?_, ?_, fun _ => hheld⟩
  · exact fun m request hm => absurd hm (hnone tmp m request)
  · rw [hheld]
    exact OwnedHeap.owned_empty
  · rintro _ _ _ _ _ ⟨⟩
  · intro _
    show (0 : Int) + ∑ w ∈ Finset.range threads, ((0 : Nat) : Int) =
      ∑ _b : Bool, ∑ w ∈ Finset.range threads, ((0 : Nat) : Int)
    simp
  · rintro ⟨⟩
  · rintro _ _ ⟨⟩

theorem inv_of_reachable {threads : Nat} {data tmp : PointerPool} (hs : Reachable threads data tmp s) :
    s.Inv := by
  induction hs with
  | init => exact inv_init threads data tmp
  | step e _ he ih => exact inv_step ih he

/-! ## Section 2: Owners and counters -/

variable {threads : Nat} {data tmp : PointerPool}

/-- However the threads take turns, no tree is used or freed after it was freed. Each tree
    belongs to exactly one slot of the pools, which the collectors and the data thread
    never share, and the destructors leave no tree behind. -/
theorem trees_freed_once (hs : Reachable threads data tmp s) :
    s.heap.broken = false ∧ (s.heap.blocks.keys : Multiset Nat) = s.held ∧ s.held.Nodup ∧
      (∀ w req_pool num left tally, s.collectors w = .filling req_pool num left tally →
        req_pool ≠ s.current_read_pool) ∧
      (s.destroyed = true → s.heap.blocks = ∅) := by
  have h := inv_of_reachable hs
  refine ⟨h.owned.sound, h.owned.blocks, h.owned.nodup, ?_, ?_⟩
  · intro w req_pool num left tally hw
    rw [(h.filling w _ _ _ _ hw).2.1]
    exact h.apart.symm
  · intro hdead
    have howned := h.owned
    rw [h.emptied hdead] at howned
    exact howned.blocks_eq_empty

/-- The daemon goes down with a tree in a pool. -/
theorem trees_freed_once_at_shutdown :
    let s := ((((((init 1 ⟨[none], 0, 1, 0⟩ ⟨[none], 0, 1, 0⟩).step (.enter 0 1)).step
      (.eat_datagram 0 7 (some Pipeline.nested_request) true)).step (.leave 0)).step .data_return).step
        (.collector_return 0)).step .destroy
    s.destroyed = true ∧ s.heap.blocks = ∅ := by
  intro s
  have hreach : Reachable 1 ⟨[none], 0, 1, 0⟩ ⟨[none], 0, 1, 0⟩ s := by
    refine .step _ (.step _ (.step _ (.step _ (.step _ (.step _ .init ?_) ?_) ?_) ?_) ?_) ?_
    · exact ⟨Nat.one_pos, rfl, by simp [init], Nat.one_pos, by decide⟩
    · exact ⟨⟨true, 1, 0, ⟨0, 0, 0⟩, rfl⟩, rfl⟩
    · exact ⟨true, 1, ⟨0, 0, 1⟩, rfl⟩
    · rfl
    · rfl
    · refine ⟨rfl, fun w hw => ?_, rfl⟩
      obtain rfl : w = 0 := by
        have hlt : w < 1 := hw
        omega
      rfl
  exact ⟨rfl, (trees_freed_once hreach).2.2.2.2 rfl⟩

/-- At every moment the counter of queued datagrams is what the pools hold, up to what
    collectors have not published yet. So it covers all that the data thread may take
    off it, and the unsigned counter never wraps. -/
theorem queue_live_covers_batch (hs : Reachable threads data tmp s) (hlive : s.destroyed = false) :
    s.udp.queue_live + ∑ w ∈ Finset.range s.threads, ((s.collectors w).unpublished : Int) =
        (s.total fun p => (p.inPos : Int)) ∧
      ∑ w ∈ Finset.range s.threads, ((s.read_pool w).inPos : Int) ≤ s.udp.queue_live := by
  have h := inv_of_reachable hs
  have hqueue := h.queue hlive
  refine ⟨hqueue, ?_⟩
  -- a collector has pushed all that it has not published
  have hwrite : ∑ w ∈ Finset.range s.threads, ((s.collectors w).unpublished : Int) ≤
      ∑ w ∈ Finset.range s.threads,
        ((s.per_thread_request_pool s.current_write_pool w).inPos : Int) := by
    apply Finset.sum_le_sum
    intro w _
    cases hc : s.collectors w with
    | filling req_pool num left tally =>
      obtain ⟨-, rfl, -, hle⟩ := h.filling w _ _ _ _ hc
      exact Int.ofNat_le.mpr hle
    | polling => exact Int.natCast_nonneg _
    | returned => exact Int.natCast_nonneg _
  have htotal : (s.total fun p => (p.inPos : Int)) =
      ∑ w ∈ Finset.range s.threads, ((s.read_pool w).inPos : Int) +
        ∑ w ∈ Finset.range s.threads,
          ((s.per_thread_request_pool s.current_write_pool w).inPos : Int) := by
    unfold total read_pool
    rw [Fintype.sum_bool]
    have hapart := h.apart
    rcases hread : s.current_read_pool with _ | _ <;> rcases hwrite : s.current_write_pool with _ | _
    · exact absurd (hread.trans hwrite.symm) hapart
    · exact add_comm _ _
    · rfl
    · exact absurd (hread.trans hwrite.symm) hapart
  omega

/-- A datagram is in its pool before the counter tells. -/
theorem queue_live_covers_unpublished :
    let s := ((init 1 ⟨[none], 0, 1, 0⟩ ⟨[none], 0, 1, 0⟩).step (.enter 0 1)).step
      (.eat_datagram 0 7 (some Pipeline.nested_request) true)
    s.udp.queue_live = 0 ∧ (s.total fun p => (p.inPos : Int)) = 1 ∧
      ∑ w ∈ Finset.range s.threads, ((s.read_pool w).inPos : Int) ≤ s.udp.queue_live := by
  intro s
  have hreach : Reachable 1 ⟨[none], 0, 1, 0⟩ ⟨[none], 0, 1, 0⟩ s := by
    refine .step _ (.step _ .init ?_) ?_
    · exact ⟨Nat.one_pos, rfl, by simp [init], Nat.one_pos, by decide⟩
    · exact ⟨⟨true, 1, 0, ⟨0, 0, 0⟩, rfl⟩, rfl⟩
  exact ⟨rfl, rfl, (queue_live_covers_batch hreach rfl).2⟩

end steps

end Handover

end PinbaEngine
