import Mathlib.Algebra.BigOperators.Pi
import PinbaEngine.CollectorSections
import PinbaEngine.Lib.OwnedHeap

/-! # The handover of request trees

    A collector decodes datagrams into trees on the heap and pushes pointers to them
    into its pool of `current_write_pool`. The data thread exchanges the two arrays of
    pools, lets its workers stage the requests of the read pools, and frees the trees
    one by one. Only the exchange is under the write lock of `per_thread_pools_lock`;
    everything after it runs while collectors fill the other array.

    Here the threads take turns after each datagram, each staged request and each
    freed tree. The heap remembers every misuse, and the pools belong to nobody but
    the two pointers.

    `pinba_per_thread_tmp_pool_dtor` frees a tree if `can_free` is set, which never
    happens; `free` of the pools' own memory is left out.
-/

namespace PinbaEngine

open CountedHeap (pointers)

/-! ## Section 1: Pools of pointers -/

/-- A linear `pinba_pool` of pointers with all of its slots, also those behind `in`. -/
structure PointerPool where
  slots : List (Option Nat)
  inPos : Nat
  grow_size : Nat
  limit_size : Nat

namespace PointerPool

variable (p : PointerPool)

/-- What `pinba_pool_new_size` reads. -/
def sizes : Pool Unit := ⟨p.slots.length, p.grow_size, p.limit_size, []⟩

/-- `pinba_pool_grow`; the new slots are zeroed. -/
def pinba_pool_grow (memory : Bool) : Option PointerPool :=
  (p.sizes.grow memory).map fun grown =>
    { p with slots := p.slots ++ List.replicate (grown.size - p.slots.length) none }

def make_room (memory : Bool) : Option PointerPool :=
  if p.inPos = p.slots.length then p.pinba_pool_grow memory else some p

/-- Store a pointer in the next slot. -/
def store (request : Nat) : PointerPool := { p with slots := p.slots.set p.inPos (some request) }

def pinba_pool_push (request : Nat) (memory : Bool) : Option PointerPool :=
  (p.make_room memory).map fun p => { p.store request with inPos := p.inPos + 1 }

def forget (n : Nat) : PointerPool := { p with slots := p.slots.set n none }

def clear : PointerPool := { p with inPos := 0 }

/-- The pool after `pinba_pool_init`. -/
def blank : PointerPool := { p with slots := List.replicate p.slots.length none, inPos := 0 }

/-- The pool after `pinba_pool_destroy`. -/
def destroyed : PointerPool := { p with slots := [], inPos := 0 }

/-- The slots with a pointer are those from `n` up to `in`. -/
structure Holds (n : Nat) : Prop where
  fits : p.inPos ≤ p.slots.length
  iff : ∀ m, (∃ request, p.slots[m]? = some (some request)) ↔ n ≤ m ∧ m < p.inPos

variable {p} {q : PointerPool} {memory : Bool} {request n m : Nat}

theorem pinba_pool_grow_eq (h : p.pinba_pool_grow memory = some q) :
    ∃ more, 0 < more ∧ q = { p with slots := p.slots ++ List.replicate more none } := by
  obtain ⟨grown, hgrown, rfl⟩ := Option.map_eq_some_iff.mp h
  unfold Pool.grow at hgrown
  split at hgrown
  · cases hgrown
  · next hbad =>
    split at hgrown
    · obtain rfl := Option.some.inj hgrown
      refine ⟨p.sizes.new_size - p.slots.length, ?_, rfl⟩
      have hsize : p.sizes.size = p.slots.length := rfl
      omega
    · cases hgrown

/-- Making room adds null slots, so that the next slot is there. -/
theorem make_room_eq (hfits : p.inPos ≤ p.slots.length) (h : p.make_room memory = some q) :
    ∃ more, q = { p with slots := p.slots ++ List.replicate more none } ∧
      q.inPos < q.slots.length := by
  unfold make_room at h
  split at h
  · next hfull =>
    obtain ⟨more, hpos, rfl⟩ := pinba_pool_grow_eq h
    refine ⟨more, rfl, ?_⟩
    show p.inPos < (p.slots ++ List.replicate more none).length
    rw [List.length_append, List.length_replicate]
    omega
  · next hroom =>
    obtain rfl := Option.some.inj h
    refine ⟨0, ?_, by omega⟩
    rw [List.replicate_zero, List.append_nil]

theorem pointers_append_none (slots : List (Option Nat)) (more : Nat) :
    pointers (slots ++ List.replicate more none) = pointers slots := by
  rw [CountedHeap.pointers_append, OwnedHeap.pointers_replicate_none, add_zero]

theorem getElem?_append_none {slots : List (Option Nat)} {more : Nat} :
    (slots ++ List.replicate more none)[m]? = some (some request) ↔
      slots[m]? = some (some request) := by
  rw [List.getElem?_append]
  split
  · rfl
  · next hlt =>
    rw [List.getElem?_eq_none (l := slots) (by omega), List.getElem?_replicate]
    split <;> simp

/-- What the slots hold after a pointer was stored. -/
theorem getElem?_store (hlt : p.inPos < p.slots.length) {x : Nat} :
    (p.store request).slots[m]? = some (some x) ↔
      m = p.inPos ∧ x = request ∨ m ≠ p.inPos ∧ p.slots[m]? = some (some x) := by
  show (p.slots.set p.inPos (some request))[m]? = some (some x) ↔ _
  by_cases hm : m = p.inPos
  · subst hm
    simp [hlt, eq_comm]
  · rw [List.getElem?_set_ne (Ne.symm hm)]
    simp [hm]

namespace Holds

theorem getElem?_in (h : p.Holds n) (hlt : p.inPos < p.slots.length) :
    p.slots[p.inPos]? = some none := by
  rw [List.getElem?_eq_getElem hlt]
  cases hslot : p.slots[p.inPos] with
  | none => rfl
  | some request =>
    have hmem : p.slots[p.inPos]? = some (some request) := by
      rw [List.getElem?_eq_getElem hlt, hslot]
    exact absurd ((h.iff p.inPos).mp ⟨request, hmem⟩).2 (lt_irrefl _)

theorem make_room (h : p.Holds n) (hroom : p.make_room memory = some q) :
    q.Holds n ∧ pointers q.slots = pointers p.slots ∧ q.inPos = p.inPos ∧
      q.inPos < q.slots.length := by
  obtain ⟨more, rfl, hlt⟩ := make_room_eq h.fits hroom
  refine ⟨⟨hlt.le, fun m => ?_⟩, pointers_append_none _ _, rfl, hlt⟩
  rw [← h.iff m]
  exact exists_congr fun request => getElem?_append_none

/-- A push adds one pointer behind the others. -/
theorem push (h : p.Holds 0) (hpush : p.pinba_pool_push request memory = some q) :
    q.Holds 0 ∧ pointers q.slots = request ::ₘ pointers p.slots ∧ q.inPos = p.inPos + 1 := by
  obtain ⟨r, hr, rfl⟩ := Option.map_eq_some_iff.mp hpush
  obtain ⟨hholds, hptr, hin, hlt⟩ := h.make_room hr
  refine ⟨⟨?_, fun m => ?_⟩, ?_, ?_⟩
  · show r.inPos + 1 ≤ (r.slots.set r.inPos (some request)).length
    rw [List.length_set]
    exact hlt
  · show (∃ x, (r.slots.set r.inPos (some request))[m]? = some (some x)) ↔ 0 ≤ m ∧ m < r.inPos + 1
    have hold := hholds.iff m
    by_cases hm : m = r.inPos
    · subst hm
      simp [hlt]
    · rw [List.getElem?_set_ne (Ne.symm hm), hold]
      omega
  · rw [← hptr]
    exact OwnedHeap.pointers_set_some (hholds.getElem?_in hlt)
  · show r.inPos + 1 = p.inPos + 1
    rw [hin]

/-- The first pointer that is left may be taken out. -/
theorem forget (h : p.Holds n) (hn : n < p.inPos) :
    ∃ request, p.slots[n]? = some (some request) ∧
      request ::ₘ pointers (p.forget n).slots = pointers p.slots ∧ (p.forget n).Holds (n + 1) := by
  obtain ⟨request, hrequest⟩ := (h.iff n).mpr ⟨le_rfl, hn⟩
  refine ⟨request, hrequest, OwnedHeap.pointers_set_none hrequest, ?_, fun m => ?_⟩
  · show p.inPos ≤ (p.slots.set n none).length
    rw [List.length_set]
    exact h.fits
  · show (∃ x, (p.slots.set n none)[m]? = some (some x)) ↔ n + 1 ≤ m ∧ m < p.inPos
    by_cases hm : m = n
    · subst hm
      rw [List.getElem?_set_self (by have := h.fits; omega)]
      simp
    · rw [List.getElem?_set_ne (Ne.symm hm), h.iff m]
      omega

/-- With all pointers taken out the pool may be used again. -/
theorem clear (h : p.Holds n) (hn : p.inPos ≤ n) : p.clear.Holds 0 := by
  refine ⟨Nat.zero_le _, fun m => ?_⟩
  show (∃ x, p.slots[m]? = some (some x)) ↔ 0 ≤ m ∧ m < 0
  rw [h.iff m]
  omega

theorem blank (p : PointerPool) : p.blank.Holds 0 := by
  refine ⟨Nat.zero_le _, fun m => ?_⟩
  show (∃ x, (List.replicate p.slots.length none)[m]? = some (some x)) ↔ 0 ≤ m ∧ m < 0
  rw [List.getElem?_replicate]
  split <;> simp

end Holds

end PointerPool

/-! ## Section 2: Threads -/

mutual

/-- The requests of a tree in the order in which `process` of `data_job_func` meets them. -/
def RequestTree.preorder : RequestTree → List Request
  | .node request requests => request :: RequestTree.preorder_all requests

def RequestTree.preorder_all : List RequestTree → List Request
  | [] => []
  | tree :: trees => tree.preorder ++ RequestTree.preorder_all trees

end

/-- A collector thread. -/
inductive CollectorThread where
  /-- Without the lock: in `epoll_wait` or `recvmmsg`. -/
  | polling
  /-- With the read lock; `left` datagrams of the call are still to be decoded. -/
  | filling (req_pool : Bool) (num left : Nat) (tally : Tally)
  | returned

/-- Where the data thread is in its loop. -/
inductive DataThread where
  | waiting
  /-- With the write lock. -/
  | swapping
  | swapped
  /-- Workers run `data_job_func`, up to the wait on `barrier1`. -/
  | staging
  /-- Workers run `request_copy_job_func` and `merge_timers_func`. -/
  | merging
  /-- After the label `sleep`, in the first loop for thread `i`. -/
  | clearing (i n : Nat)
  /-- In the second loop for thread `i`. -/
  | freeing (i n : Nat)
  | returned
deriving DecidableEq

/-- The part of `job_data_arr` for one thread. -/
structure TreeJob where
  /-- What `process` has still to visit: requests, with the tree they are part of. -/
  todo : List (Nat × Request)
  tmp_records : Nat
  end_ : Nat

structure Handover where
  threads : Nat
  heap : OwnedHeap RequestTree
  per_thread_request_pool : Bool → Nat → PointerPool
  /-- The field `request` of the staged records. -/
  per_thread_tmp_pool : Nat → PointerPool
  current_read_pool : Bool
  current_write_pool : Bool
  job_data_arr : Nat → TreeJob
  collectors : Nat → CollectorThread
  data_thread : DataThread
  udp : UdpMetrics
  destroyed : Bool

namespace Handover

variable (s : Handover)

/-! ### Updates -/

def set_pool (b : Bool) (w : Nat) (p : PointerPool) : Handover :=
  { s with per_thread_request_pool :=
      Function.update s.per_thread_request_pool b (Function.update (s.per_thread_request_pool b) w p) }

def set_tmp (w : Nat) (p : PointerPool) : Handover :=
  { s with per_thread_tmp_pool := Function.update s.per_thread_tmp_pool w p }

def set_job (w : Nat) (job : TreeJob) : Handover :=
  { s with job_data_arr := Function.update s.job_data_arr w job }

def set_collector (w : Nat) (c : CollectorThread) : Handover :=
  { s with collectors := Function.update s.collectors w c }

def set_heap (heap : OwnedHeap RequestTree) : Handover := { s with heap }

def read_pool (w : Nat) : PointerPool := s.per_thread_request_pool s.current_read_pool w

/-! ### Collectors -/

/-- Take the read lock after `recvmmsg` returned `num` datagrams. -/
def enter (w num : Nat) : Handover :=
  s.set_collector w (.filling s.current_write_pool num num ⟨0, 0, 0⟩)

/-- One datagram; a tree that decodes is allocated at `request`. -/
def eat_datagram (w request : Nat) (datagram : Option RequestTree) (memory : Bool) : Handover :=
  match s.collectors w with
  | .filling req_pool num left tally =>
    match datagram with
    | none =>
      s.set_collector w
        (.filling req_pool num (left - 1) { tally with decode_errors := tally.decode_errors + 1 })
    | some tree =>
      let heap := s.heap.alloc request tree
      match (s.per_thread_request_pool req_pool w).pinba_pool_push request memory with
      | none =>
        (s.set_heap (heap.free request)).set_collector w
          (.filling req_pool num (left - 1) { tally with drops := tally.drops + 1 })
      | some pool =>
        ((s.set_pool req_pool w pool).set_heap heap).set_collector w
          (.filling req_pool num (left - 1) { tally with enqueued := tally.enqueued + 1 })
  | _ => s

/-- Publish the counters and give the lock back. -/
def leave (w : Nat) : Handover :=
  match s.collectors w with
  | .filling _ num _ tally =>
    { s with udp := { s.udp with
        udp_received := s.udp.udp_received + num
        udp_decode_errors := s.udp.udp_decode_errors + tally.decode_errors
        udp_queue_drops := s.udp.udp_queue_drops + tally.drops
        udp_enqueued := s.udp.udp_enqueued + tally.enqueued
        queue_live := s.udp.queue_live + tally.enqueued } }.set_collector w .polling
  | _ => s

/-! ### The data thread and its workers -/

def swap_pools : Handover :=
  { s with
    current_write_pool := s.current_read_pool
    current_read_pool := s.current_write_pool
    data_thread := .swapped }

/-- Post the data jobs, or go to `sleep` if no datagram has arrived. -/
def harvest : Handover :=
  if ∑ w ∈ Finset.range s.threads, (s.read_pool w).inPos = 0 then
    { s with data_thread := .clearing 0 0 }
  else
    { s with
      job_data_arr := fun w =>
        { todo := ((s.read_pool w).slots.take (s.read_pool w).inPos).flatMap fun slot =>
            slot.elim [] fun request => ((s.heap.get request).elim [] RequestTree.preorder).map (request, ·)
          tmp_records := 0
          end_ := 0 }
      data_thread := .staging }

/-- The lambda `stage` of `data_job_func` for the next request of a worker. -/
def stage (w : Nat) (memory : NodeMemory) : Handover :=
  match (s.job_data_arr w).todo with
  | [] => s
  | (tree, request) :: todo =>
    let s := { s with heap := s.heap.touch tree }
    let job := { s.job_data_arr w with todo }
    if pinba_validate_request request ≠ .none then s.set_job w job
    else
      match (s.per_thread_tmp_pool w).make_room memory.grow with
      | none => s.set_job w job
      | some tmp =>
        let stored := tmp.store tree
        (s.set_tmp w (if memory.record then { stored with inPos := tmp.inPos + 1 } else stored)).set_job
          w { job with tmp_records := tmp.inPos + 1 }

/-- Hand out the staged records that fit into the ring; `tmp_pool->in` goes back to zero. -/
def post_copies (ends : Nat → Nat) : Handover :=
  { s with
    per_thread_tmp_pool := fun w => (s.per_thread_tmp_pool w).clear
    job_data_arr := fun w => { s.job_data_arr w with end_ := ends w }
    data_thread := .merging }

/-- A worker reads `record_ex->request` of one of its staged records. -/
def use (w n : Nat) : Handover :=
  match (s.per_thread_tmp_pool w).slots[n]? with
  | some (some request) => { s with heap := s.heap.touch request }
  | _ => { s with heap := { s.heap with broken := true } }

/-- The next statement of the loops after `sleep`. -/
def clean : Handover :=
  match s.data_thread with
  | .clearing i n =>
    if s.threads ≤ i then { s with data_thread := .waiting }
    else if n < (s.job_data_arr i).tmp_records then
      { s.set_tmp i ((s.per_thread_tmp_pool i).forget n) with data_thread := .clearing i (n + 1) }
    else
      { (s.set_tmp i (s.per_thread_tmp_pool i).clear).set_job i
          { s.job_data_arr i with tmp_records := 0 } with data_thread := .freeing i 0 }
  | .freeing i n =>
    if n < (s.read_pool i).inPos then
      let heap := match (s.read_pool i).slots[n]? with
        | some (some request) => s.heap.free request
        | _ => s.heap
      { s.set_pool s.current_read_pool i ((s.read_pool i).forget n) with
        heap, data_thread := .freeing i (n + 1) }
    else
      { s.set_pool s.current_read_pool i (s.read_pool i).clear with
        udp := { s.udp with
          udp_completed := s.udp.udp_completed + (s.read_pool i).inPos
          queue_live := s.udp.queue_live - (s.read_pool i).inPos }
        data_thread := .clearing (i + 1) 0 }
  | _ => s

/-- `pinba_per_thread_request_pool_dtor` on the pools of all threads. -/
def destroy : Handover :=
  { s with
    heap := (List.range s.threads).foldl (fun heap w =>
      (heap.freeSlots (s.per_thread_request_pool false w).slots).freeSlots
        (s.per_thread_request_pool true w).slots) s.heap
    per_thread_request_pool := fun b w => (s.per_thread_request_pool b w).destroyed
    destroyed := true }

/-! ## Section 3: Runs -/

/-- One turn of a thread. -/
inductive Event where
  | enter (w num : Nat)
  | eat_datagram (w request : Nat) (datagram : Option RequestTree) (memory : Bool)
  | leave (w : Nat)
  | lock_pools
  | swap_pools
  | harvest
  | stage (w : Nat) (memory : NodeMemory)
  | post_copies (ends : Nat → Nat)
  | use (w n : Nat)
  /-- A `goto sleep`, or the end of the batch. -/
  | sleep
  | clean
  | collector_return (w : Nat)
  | data_return
  | destroy

def step : Event → Handover
  | .enter w num => s.enter w num
  | .eat_datagram w request datagram memory => s.eat_datagram w request datagram memory
  | .leave w => s.leave w
  | .lock_pools => { s with data_thread := .swapping }
  | .swap_pools => s.swap_pools
  | .harvest => s.harvest
  | .stage w memory => s.stage w memory
  | .post_copies ends => s.post_copies ends
  | .use w n => s.use w n
  | .sleep => { s with data_thread := .clearing 0 0 }
  | .clean => s.clean
  | .collector_return w => s.set_collector w .returned
  | .data_return => { s with data_thread := .returned }
  | .destroy => s.destroy

/-- No worker has a request to stage. -/
def jobs_done : Prop := ∀ w < s.threads, (s.job_data_arr w).todo = []

/-- When a turn can be taken. A new block is not in use; a reader waits for the writer, and
    the writer for all readers. -/
def Event.Enabled : Event → Prop
  | .enter w num => w < s.threads ∧ s.collectors w = .polling ∧ s.data_thread ≠ .swapping ∧ 0 < num ∧
    num ≤ PINBA_VLEN
  | .eat_datagram w request _ _ =>
    (∃ req_pool num left tally, s.collectors w = .filling req_pool num (left + 1) tally) ∧
      s.heap.get request = none
  | .leave w => ∃ req_pool num tally, s.collectors w = .filling req_pool num 0 tally
  | .lock_pools => s.data_thread = .waiting ∧
      ∀ w req_pool num left tally, s.collectors w ≠ .filling req_pool num left tally
  | .swap_pools => s.data_thread = .swapping
  | .harvest => s.data_thread = .swapped
  | .stage w _ => s.data_thread = .staging ∧ w < s.threads
  | .post_copies ends => s.data_thread = .staging ∧ s.jobs_done ∧
      ∀ w < s.threads, ends w ≤ (s.per_thread_tmp_pool w).inPos
  | .use w n => s.data_thread = .merging ∧ w < s.threads ∧ n < (s.job_data_arr w).end_
  | .sleep => s.data_thread = .staging ∧ s.jobs_done ∨ s.data_thread = .merging
  | .clean => (∃ i n, s.data_thread = .clearing i n) ∨ ∃ i n, s.data_thread = .freeing i n
  | .collector_return w => s.collectors w = .polling
  | .data_return => s.data_thread = .waiting
  | .destroy => s.data_thread = .returned ∧ (∀ w < s.threads, s.collectors w = .returned) ∧
      s.destroyed = false

/-- The daemon at start-up. -/
def init (threads : Nat) (data tmp : PointerPool) : Handover where
  threads := threads
  heap := .empty
  per_thread_request_pool _ _ := data.blank
  per_thread_tmp_pool _ := tmp.blank
  current_read_pool := false
  current_write_pool := true
  job_data_arr _ := ⟨[], 0, 0⟩
  collectors _ := .polling
  data_thread := .waiting
  udp := ⟨0, 0, 0, 0, 0, 0⟩
  destroyed := false

/-- The states of all runs. -/
inductive Reachable (threads : Nat) (data tmp : PointerPool) : Handover → Prop
  | init : Reachable threads data tmp (init threads data tmp)
  | step {s : Handover} (e : Event) (hs : Reachable threads data tmp s) (he : e.Enabled s) :
    Reachable threads data tmp (s.step e)

end Handover

end PinbaEngine
