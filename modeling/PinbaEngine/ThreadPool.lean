import PinbaEngine.Lib.Intrusive

/-! # The worker pool

    `threadpool.cc`: jobs are posted to a queue under the mutex of the pool, taken
    by workers under the same mutex, and counted by barriers under a mutex of their
    own. The steps of the model are the sections under these mutexes and what a
    worker does between two of them, in any order that the threads may run in.

    Nodes of the queue move between two intrusive lists, the jobs and the free
    nodes. Jobs are posted and taken at the same end. Nodes are never given back
    before the pool is destroyed, and memory for new ones is assumed to be
    available.

    Counters are unbounded; a batch of 2^31 jobs would overflow those of a barrier.
-/

namespace PinbaEngine

open Intrusive

/-! ## Section 1: The job queue -/

/-- What `th_pool_dispatch_with_cleanup` is given. The ticket numbers the calls; the
    code has no such field. -/
structure Job where
  ticket : Nat
  func_to_dispatch : Nat
  func_arg : Nat
  cleanup_func : Option Nat
  cleanup_arg : Nat
  barrier : Option Nat
deriving DecidableEq, Inhabited

def MAX_QUEUE_MEMORY_SIZE : Nat := 65536

/-- `sizeof(queue_node_t)`: seven pointers. -/
def queue_node_size : Nat := 56

/-- `queue_head_t`, with the memory of its nodes. -/
structure JobQueue where
  head : Option Nat
  tail : Option Nat
  freeHead : Option Nat
  freeTail : Option Nat
  capacity : Nat
  max_capacity : Nat
  posted : Nat
  nodes : Memory Nat Job
  /-- All nodes that were ever allocated. -/
  allocated : List Nat

namespace JobQueue

/-- One turn of the loop of `queue_create`. -/
def add_free_node (q : JobQueue) (temp : Nat) : JobQueue :=
  let nodes := setPrev (setNext q.nodes temp q.freeHead) temp none
  { q with
    nodes := q.freeHead.elim nodes fun freeHead => setPrev nodes freeHead (some temp)
    freeHead := some temp
    allocated := temp :: q.allocated }

/-- `queue_create` with a capacity that is not zero: the first node and those of the
    loop. -/
def queue_create (initial_cap first : Nat) (rest : List Nat) (nodes : Memory Nat Job) : JobQueue :=
  let max_cap := MAX_QUEUE_MEMORY_SIZE / queue_node_size
  let q : JobQueue :=
    { head := none
      tail := none
      freeHead := some first
      freeTail := some first
      capacity := min initial_cap max_cap
      max_capacity := max_cap
      posted := 0
      nodes := setPrev (setNext nodes first none) first none
      allocated := [first] }
  rest.foldl add_free_node q

variable (q : JobQueue)

/-- A new node, when there is no free one. -/
def grow (temp : Nat) : JobQueue :=
  { q with
    nodes := setPrev (setNext q.nodes temp none) temp none
    freeHead := some temp
    freeTail := some temp
    capacity := q.capacity + 1
    allocated := temp :: q.allocated }

/-- Take the last free node `temp` off its list. -/
def take_free (temp : Nat) : JobQueue :=
  match (q.nodes temp).prev with
  | none => { q with freeTail := none, freeHead := none }
  -- the code clears the `next` pointer of the new tail twice
  | some p => { q with nodes := setNext (setNext q.nodes p none) p none, freeTail := some p }

/-- Fill the node and put it after the last job. -/
def append_job (job : Job) (temp : Nat) : JobQueue :=
  let nodes := setNext (setPrev (setPayload q.nodes temp job) temp q.tail) temp none
  match q.tail with
  | some tail =>
    { q with posted := q.posted + 1, nodes := setNext nodes tail (some temp), tail := some temp }
  | none => { q with posted := q.posted + 1, nodes := nodes, head := some temp, tail := some temp }

/-- `queue_post_job` without the count of the barrier; `node` is what `malloc`
    returns if it is called. A job without a node is dropped. -/
def queue_post_job (job : Job) (node : Option Nat) : JobQueue :=
  match q.freeTail, node with
  | some temp, _ => (q.take_free temp).append_job job temp
  | none, none => q
  | none, some temp => ((q.grow temp).take_free temp).append_job job temp

/-- Take the last job `temp` off its list. -/
def take_job (temp : Nat) : JobQueue :=
  match (q.nodes temp).prev with
  | some p => { q with nodes := setNext q.nodes p none, tail := some p }
  | none => { q with head := none, tail := none }

/-- Put the node before the first free one. -/
def release_node (temp : Nat) : JobQueue :=
  let nodes := setPrev (setNext q.nodes temp none) temp none
  match q.freeHead with
  | none => { q with nodes := nodes, freeTail := some temp, freeHead := some temp }
  | some freeHead =>
    { q with
      nodes := setPrev (setNext nodes temp (some freeHead)) freeHead (some temp)
      freeHead := some temp }

/-- `queue_fetch_job`. -/
def queue_fetch_job : Option Job × JobQueue :=
  match q.tail with
  | none => (none, q)
  | some temp => (some (q.nodes temp).payload, (q.take_job temp).release_node temp)

/-- `queue_can_accept_order`. -/
def queue_can_accept_order : Bool := q.freeTail.isSome || decide (q.capacity ≤ q.max_capacity)

/-- `queue_is_job_available`. -/
def queue_is_job_available : Bool := q.tail.isSome

/-! ## Section 2: Well-formed queues -/

/-- The jobs `js` and the free nodes `fs` are lists; the nodes in `loose` are in
    neither, no node is in two places, and there are no other nodes. -/
structure Parts (q : JobQueue) (js fs loose : List Nat) : Prop where
  jobs : IsList q.nodes q.head q.tail js
  free : IsList q.nodes q.freeHead q.freeTail fs
  nodup : (js ++ fs ++ loose).Nodup
  all : (js ++ fs ++ loose).Perm q.allocated

/-- The jobs and the free nodes are two lists without a common node, and there are
    no other nodes. -/
abbrev Lists (q : JobQueue) (js fs : List Nat) : Prop := Parts q js fs []

/-- The jobs in the queue, oldest first, given the nodes they are in. -/
def contents (q : JobQueue) (js : List Nat) : List Job := js.map fun a => (q.nodes a).payload

variable {q} {js fs loose : List Nat} {job : Job} {temp : Nat}

namespace Parts

theorem disjoint (h : Parts q js fs loose) : js.Disjoint fs ∧ js.Disjoint loose ∧ fs.Disjoint loose := by
  obtain ⟨hjf, -, hloose⟩ := List.nodup_append'.mp h.nodup
  obtain ⟨-, -, hdisj⟩ := List.nodup_append'.mp hjf
  exact ⟨hdisj, fun a ha hl => hloose (List.mem_append_left _ ha) hl,
    fun a ha hl => hloose (List.mem_append_right _ ha) hl⟩

/-- The same nodes in another place. -/
theorem of_perm {q' : JobQueue} {js' fs' loose' : List Nat} (h : Parts q js fs loose)
    (hjobs : IsList q'.nodes q'.head q'.tail js') (hfree : IsList q'.nodes q'.freeHead q'.freeTail fs')
    (hall : q'.allocated = q.allocated)
    (hperm : (js' ++ fs' ++ loose').Perm (js ++ fs ++ loose)) : Parts q' js' fs' loose' := by
  refine ⟨hjobs, hfree, hperm.nodup_iff.mpr h.nodup, ?_⟩
  rw [hall]
  exact hperm.trans h.all

end Parts

/-! ### One pointer operation at a time -/

theorem parts_take_free (h : Parts q js (fs ++ [temp]) []) : Parts (q.take_free temp) js fs [temp] := by
  have hprev := h.free.prev_last
  have hperm : (js ++ fs ++ [temp]).Perm (js ++ (fs ++ [temp]) ++ []) := by simp
  unfold take_free
  cases hp : (q.nodes temp).prev with
  | none =>
    rw [hp] at hprev
    obtain rfl : fs = [] := List.getLast?_eq_none_iff.mp hprev.symm
    exact h.of_perm h.jobs .nil rfl hperm
  | some p =>
    rw [hp] at hprev
    have hjobs : p ∉ js := fun hmem =>
      h.disjoint.1 hmem (List.mem_append_left _ (List.mem_of_getLast? hprev.symm))
    simp only [setNext_setNext]
    exact h.of_perm (h.jobs.frame_setNext hjobs) (h.free.popBack_setNext hp) rfl hperm

theorem ne_of_notMem {a b : Nat} {xs : List Nat} (ha : a ∉ xs) (hb : b ∈ xs) : b ≠ a :=
  fun heq => ha (heq ▸ hb)

theorem parts_append_job (h : Parts q js fs [temp]) :
    Parts (q.append_job job temp) (js ++ [temp]) fs [] := by
  have hjs : temp ∉ js := fun hmem => h.disjoint.2.1 hmem (List.mem_singleton_self _)
  have hfs : temp ∉ fs := fun hmem => h.disjoint.2.2 hmem (List.mem_singleton_self _)
  have hperm : (js ++ [temp] ++ fs ++ []).Perm (js ++ fs ++ [temp]) := by
    rw [List.append_nil, List.append_assoc, List.append_assoc]
    exact List.Perm.append_left _ List.perm_append_comm
  unfold append_job
  cases htail : q.tail with
  | none =>
    -- the first job
    obtain rfl : js = [] := (htail ▸ h.jobs).eq_nil_of_tail
    refine h.of_perm ⟨rfl, rfl, ⟨by simp, trivial⟩, ⟨by simp, trivial⟩, List.nodup_singleton _⟩
      (h.free.frame ?_ ?_) rfl hperm
    · intro b hb
      simp [ne_of_notMem hfs hb]
    · intro b hb
      simp [ne_of_notMem hfs hb]
  | some tail =>
    -- behind the last job, whose `next` pointer is the only one that changes
    have hmem : tail ∈ js := List.mem_of_getLast? (h.jobs.tail.symm.trans htail)
    have htt : temp ≠ tail := fun heq => hjs (heq ▸ hmem)
    have hhead : q.head.or (some temp) = q.head := by
      obtain ⟨first, rest, rfl⟩ := List.exists_cons_of_ne_nil (List.ne_nil_of_mem hmem)
      rw [h.jobs.head]
      rfl
    have hfree : tail ∉ fs := h.disjoint.1 hmem
    have hpush := @IsList.pushBack _ _ q.nodes (setNext (setNext (setPrev (setPayload q.nodes temp job)
      temp (some tail)) temp none) tail (some temp)) q.head q.tail js temp h.jobs hjs
      (by simp [htail]) (by simp [htt])
      (by
        rw [htail]
        intro b hb
        obtain rfl : tail = b := Option.some.inj hb
        simp)
      (by
        intro b hb
        simp [ne_of_notMem hjs hb])
      (by
        rw [htail]
        intro b hb hne
        have hbt : b ≠ tail := fun heq => hne (by rw [heq])
        simp [ne_of_notMem hjs hb, hbt])
    rw [hhead] at hpush
    refine h.of_perm hpush (h.free.frame ?_ ?_) rfl hperm
    · intro b hb
      simp [ne_of_notMem hfs hb, ne_of_notMem hfree hb]
    · intro b hb
      simp [ne_of_notMem hfs hb]

theorem parts_take_job (h : Parts q (js ++ [temp]) fs []) : Parts (q.take_job temp) js fs [temp] := by
  have hprev := h.jobs.prev_last
  have hperm : (js ++ fs ++ [temp]).Perm (js ++ [temp] ++ fs ++ []) := by
    rw [List.append_nil, List.append_assoc, List.append_assoc]
    exact List.Perm.append_left _ List.perm_append_comm
  unfold take_job
  cases hp : (q.nodes temp).prev with
  | none =>
    rw [hp] at hprev
    obtain rfl : js = [] := List.getLast?_eq_none_iff.mp hprev.symm
    exact h.of_perm .nil h.free rfl hperm
  | some p =>
    rw [hp] at hprev
    have hfree : p ∉ fs := fun hmem =>
      h.disjoint.1 (List.mem_append_left _ (List.mem_of_getLast? hprev.symm)) hmem
    exact h.of_perm (h.jobs.popBack_setNext hp) (h.free.frame_setNext hfree) rfl hperm

/-- A loose node is put before the first free one, `first`. -/
theorem parts_push_free {first : Nat} {nodes : Memory Nat Job} (h : Parts q js fs [temp])
    (hfirst : q.freeHead = some first)
    (hnext : ∀ b, (nodes b).next = if b = temp then some first else (q.nodes b).next)
    (hprev : ∀ b, (nodes b).prev =
      if b = first then some temp else if b = temp then none else (q.nodes b).prev) :
    Parts { q with nodes := nodes, freeHead := some temp } js (temp :: fs) [] := by
  have hjs : temp ∉ js := fun hmem => h.disjoint.2.1 hmem (List.mem_singleton_self _)
  have hfs : temp ∉ fs := fun hmem => h.disjoint.2.2 hmem (List.mem_singleton_self _)
  have hmem : first ∈ fs := List.mem_of_mem_head? (h.free.head.symm.trans hfirst)
  have htf : temp ≠ first := (ne_of_notMem hfs hmem).symm
  have hjobs : first ∉ js := fun hj => h.disjoint.1 hj hmem
  have htail : q.freeTail.or (some temp) = q.freeTail := by
    rw [h.free.tail]
    cases hl : fs.getLast? with
    | none => exact absurd hmem (by rw [List.getLast?_eq_none_iff.mp hl]; exact List.not_mem_nil)
    | some l => rfl
  have hpush := @IsList.pushFront _ _ q.nodes nodes q.freeHead q.freeTail fs temp h.free hfs
    (by rw [hnext, if_pos rfl, hfirst]) (by rw [hprev, if_neg htf, if_pos rfl])
    (by
      rw [hfirst]
      intro b hb
      obtain rfl : first = b := Option.some.inj hb
      rw [hprev, if_pos rfl])
    (by
      intro b hb
      rw [hnext, if_neg (ne_of_notMem hfs hb)])
    (by
      rw [hfirst]
      intro b hb hne
      rw [hprev, if_neg fun heq => hne (by rw [heq]), if_neg (ne_of_notMem hfs hb)])
  rw [htail] at hpush
  refine h.of_perm (h.jobs.frame ?_ ?_) hpush rfl ?_
  · intro b hb
    rw [hnext, if_neg (ne_of_notMem hjs hb)]
  · intro b hb
    rw [hprev, if_neg (ne_of_notMem hjobs hb), if_neg (ne_of_notMem hjs hb)]
  · rw [List.append_nil, List.append_assoc]
    exact List.Perm.append_left _ (List.perm_append_singleton temp fs).symm

theorem parts_release_node (h : Parts q js fs [temp]) :
    Parts (q.release_node temp) js (temp :: fs) [] := by
  have hjs : temp ∉ js := fun hmem => h.disjoint.2.1 hmem (List.mem_singleton_self _)
  unfold release_node
  cases hfirst : q.freeHead with
  | none =>
    -- the only free node
    obtain rfl : fs = [] := (hfirst ▸ h.free).eq_nil_of_head
    refine h.of_perm (h.jobs.frame ?_ ?_)
      ⟨rfl, rfl, ⟨by simp, trivial⟩, ⟨by simp, trivial⟩, List.nodup_singleton _⟩ rfl (by simp)
    · intro b hb
      simp [ne_of_notMem hjs hb]
    · intro b hb
      simp [ne_of_notMem hjs hb]
  | some first =>
    refine parts_push_free h hfirst ?_ ?_
    · intro b
      by_cases hb : b = temp <;> simp [hb]
    · intro b
      by_cases hb : b = temp <;> simp [hb]

/-- `malloc` returns a node that is not in use. -/
theorem parts_alloc (h : Lists q js fs) (hnew : temp ∉ q.allocated) :
    Parts { q with allocated := temp :: q.allocated } js fs [temp] := by
  have hnot : temp ∉ js ++ fs ++ [] := fun hmem => hnew (h.all.subset hmem)
  rw [List.append_nil] at hnot
  refine ⟨h.jobs, h.free, ?_, ?_⟩
  · have hnd := h.nodup
    rw [List.append_nil] at hnd
    exact List.nodup_append'.mpr
      ⟨hnd, List.nodup_singleton _, List.disjoint_singleton.mpr hnot⟩
  · refine (List.perm_append_singleton temp (js ++ fs)).trans (List.Perm.cons temp ?_)
    simpa using h.all

theorem lists_add_free_node (h : Lists q js fs) (hne : fs ≠ []) (hnew : temp ∉ q.allocated) :
    Lists (q.add_free_node temp) js (temp :: fs) := by
  obtain ⟨first, rest, rfl⟩ := List.exists_cons_of_ne_nil hne
  have hfirst : q.freeHead = some first := h.free.head
  unfold add_free_node
  simp only [hfirst, Option.elim_some]
  refine parts_push_free (parts_alloc h hnew) hfirst ?_ ?_
  · intro b
    by_cases hb : b = temp <;> simp [hb]
  · intro b
    by_cases hb : b = temp <;> simp [hb]

theorem lists_grow (h : Lists q js []) (hnew : temp ∉ q.allocated) :
    Lists (q.grow temp) js ([] ++ [temp]) := by
  have hjs : temp ∉ js := fun hmem => hnew (h.all.subset (by simpa using hmem))
  have halloc := parts_alloc h hnew
  refine ⟨h.jobs.frame ?_ ?_, ?_, ?_, ?_⟩
  · intro b hb
    simp [grow, ne_of_notMem hjs hb]
  · intro b hb
    simp [grow, ne_of_notMem hjs hb]
  · exact ⟨rfl, rfl, ⟨by simp [grow], trivial⟩, ⟨by simp [grow], trivial⟩, List.nodup_singleton _⟩
  · simpa using halloc.nodup
  · simpa [grow] using halloc.all

/-! ### Whole operations -/

theorem lists_queue_create (initial_cap : Nat) {first : Nat} {rest : List Nat}
    (nodes : Memory Nat Job) (hnd : (first :: rest).Nodup) :
    ∃ fs, Lists (queue_create initial_cap first rest nodes) [] fs := by
  -- the free list is never empty in the loop, so that `freeHead->prev` exists
  have hloop : ∀ (rest : List Nat) {q : JobQueue} {fs : List Nat}, Lists q [] fs → fs ≠ [] →
      rest.Nodup → (∀ a ∈ rest, a ∉ q.allocated) → ∃ fs, Lists (rest.foldl add_free_node q) [] fs := by
    intro rest
    induction rest with
    | nil => exact fun h _ _ _ => ⟨_, h⟩
    | cons temp rest ih =>
      intro q fs h hne hnd hnew
      rw [List.nodup_cons] at hnd
      refine ih (lists_add_free_node h hne (hnew temp List.mem_cons_self)) (List.cons_ne_nil _ _)
        hnd.2 ?_
      intro a ha hmem
      rcases List.mem_cons.mp hmem with rfl | hold
      · exact hnd.1 ha
      · exact hnew a (List.mem_cons_of_mem _ ha) hold
  rw [List.nodup_cons] at hnd
  refine @hloop rest _ [first] ⟨.nil, ?_, by simp, by simp⟩ (List.cons_ne_nil _ _) hnd.2 ?_
  · exact ⟨rfl, rfl, ⟨by simp, trivial⟩, ⟨by simp, trivial⟩, List.nodup_singleton _⟩
  · intro a ha hmem
    exact hnd.1 (List.mem_singleton.mp hmem ▸ ha)

/-- Payloads of nodes that an operation does not fill. -/
@[simp] theorem payload_take_free (a : Nat) :
    ((q.take_free temp).nodes a).payload = (q.nodes a).payload := by
  unfold take_free
  split <;> simp

@[simp] theorem payload_grow (a : Nat) : ((q.grow temp).nodes a).payload = (q.nodes a).payload := by
  simp [grow]

@[simp] theorem payload_append_job (a : Nat) : ((q.append_job job temp).nodes a).payload =
    if a = temp then job else (q.nodes a).payload := by
  unfold append_job
  split <;> simp

@[simp] theorem payload_take_job (a : Nat) :
    ((q.take_job temp).nodes a).payload = (q.nodes a).payload := by
  unfold take_job
  split <;> simp

@[simp] theorem payload_release_node (a : Nat) :
    ((q.release_node temp).nodes a).payload = (q.nodes a).payload := by
  unfold release_node
  split <;> simp

/-- Post a job in the last free node. -/
theorem lists_post_in (job : Job) (h : Lists q js (fs ++ [temp])) :
    Lists ((q.take_free temp).append_job job temp) (js ++ [temp]) fs ∧
      ((q.take_free temp).append_job job temp).contents (js ++ [temp]) = q.contents js ++ [job] := by
  have htaken := parts_take_free h
  have hjs : temp ∉ js := fun hmem => htaken.disjoint.2.1 hmem (List.mem_singleton_self _)
  refine ⟨parts_append_job htaken, ?_⟩
  unfold contents
  rw [List.map_append, List.map_singleton]
  congr 1
  · apply List.map_congr_left
    intro a ha
    simp [ne_of_notMem hjs ha]
  · simp

/-- `queue_post_job` appends a job. -/
theorem queue_post_job_spec (job : Job) {node : Option Nat} (h : Lists q js fs)
    (hnode : q.freeTail = none → ∃ a, node = some a ∧ a ∉ q.allocated) :
    ∃ js' fs', Lists (q.queue_post_job job node) js' fs' ∧
      (q.queue_post_job job node).contents js' = q.contents js ++ [job] := by
  unfold queue_post_job
  cases htail : q.freeTail with
  | none =>
    -- no free node: a new one is on the free list for a moment
    obtain ⟨a, rfl, ha⟩ := hnode htail
    obtain rfl : fs = [] := (htail ▸ h.free).eq_nil_of_tail
    obtain ⟨hlists, hcontents⟩ := lists_post_in job (lists_grow h ha)
    exact ⟨_, _, hlists, hcontents.trans (by simp [contents])⟩
  | some temp =>
    obtain ⟨fs, rfl⟩ := (htail ▸ h.free).eq_snoc
    obtain ⟨hlists, hcontents⟩ := lists_post_in job h
    cases node <;> exact ⟨_, _, hlists, hcontents⟩

/-- `queue_fetch_job` takes the job that was posted last. -/
theorem queue_fetch_job_spec (h : Lists q js fs) (havail : q.queue_is_job_available = true) :
    ∃ js' fs' job, q.queue_fetch_job.1 = some job ∧ Lists q.queue_fetch_job.2 js' fs' ∧
      q.contents js = q.queue_fetch_job.2.contents js' ++ [job] := by
  obtain ⟨temp, htail⟩ := Option.isSome_iff_exists.mp havail
  obtain ⟨js, rfl⟩ := (htail ▸ h.jobs).eq_snoc
  unfold queue_fetch_job
  rw [htail]
  refine ⟨js, temp :: fs, _, rfl, parts_release_node (parts_take_job h), ?_⟩
  unfold contents
  rw [List.map_append, List.map_singleton]
  congr 1
  apply List.map_congr_left
  intro a _
  simp

/-- Without a job available there is none. -/
theorem contents_of_unavailable (h : Lists q js fs) (havail : q.queue_is_job_available = false) :
    js = [] := by
  have htail : q.tail = none := by simpa [queue_is_job_available] using havail
  exact (htail ▸ h.jobs).eq_nil_of_tail

end JobQueue

/-! ## Section 3: Workers, barriers and callers -/

/-- Where a worker is in `th_do_work`. -/
inductive WorkerState where
  /-- At the wait, under the mutex of the pool. -/
  | idle
  /-- In `myjob` or `mycleaner`. -/
  | running (job : Job)
  /-- Before `th_pool_barrier_signal`, which is for jobs with a barrier. -/
  | finished (job : Job)
  | exited
deriving DecidableEq

/-- `thread_pool_barrier_t`. -/
structure Barrier where
  posted_count : Nat
  done_count : Nat

/-- `thread_pool_t` with its workers and the barriers of its callers. The last
    fields record what happened; the code has none of them. -/
structure ThreadPool where
  job_queue : JobQueue
  workers : List WorkerState
  shutdown : Bool
  live : Nat
  barriers : Nat → Barrier
  /-- The jobs that were accepted, last one first. -/
  dispatched : List Job
  /-- The jobs whose functions have returned, last one first. -/
  executed : List Job
  /-- A wait on the barrier has returned after the last dispatch on it. -/
  waited : Nat → Bool
  /-- `th_pool_destroy` has returned. -/
  destroyed : Bool

namespace ThreadPool

/-- `th_pool_create`. -/
def th_pool_create (num_threads_in_pool first : Nat) (rest : List Nat) (nodes : Memory Nat Job) :
    ThreadPool where
  job_queue := .queue_create num_threads_in_pool first rest nodes
  workers := List.replicate num_threads_in_pool .idle
  shutdown := false
  live := num_threads_in_pool
  barriers _ := ⟨0, 0⟩
  dispatched := []
  executed := []
  waited _ := true
  destroyed := false

/-- One section under a mutex, or what a worker does between two. -/
inductive Event where
  /-- A caller posts a job; `malloc` would return `node`. -/
  | dispatch (func arg : Nat) (cleaner : Option Nat) (cleaner_arg : Nat) (barrier : Option Nat)
    (node : Option Nat)
  | fetch (w : Nat)
  /-- The functions of the job return. -/
  | finish (w : Nat)
  | signal (w : Nat)
  | exit (w : Nat)
  | barrier_start (b : Nat)
  /-- `th_pool_barrier_wait` returns. -/
  | barrier_wait (b : Nat)
  /-- `th_pool_destroy` sets the flag. -/
  | destroy
  /-- `th_pool_destroy` has joined all workers and returns. -/
  | joined

variable (p : ThreadPool)

/-- A worker moves on. -/
def set_worker (w : Nat) (state : WorkerState) : ThreadPool := { p with workers := p.workers.set w state }

/-- `th_pool_dispatch_with_cleanup` once the queue accepts the job. -/
def th_pool_dispatch_with_cleanup (func arg : Nat) (cleaner : Option Nat) (cleaner_arg : Nat)
    (barrier : Option Nat) (node : Option Nat) : ThreadPool :=
  let job : Job := ⟨p.dispatched.length, func, arg, cleaner, cleaner_arg, barrier⟩
  if p.job_queue.freeTail = none ∧ node = none then p
  else
    { p with
      job_queue := p.job_queue.queue_post_job job node
      barriers := barrier.elim p.barriers fun b => Function.update p.barriers b
        { p.barriers b with posted_count := (p.barriers b).posted_count + 1 }
      waited := barrier.elim p.waited fun b => Function.update p.waited b false
      dispatched := job :: p.dispatched }

/-- A worker takes a job. -/
def fetch (w : Nat) : ThreadPool :=
  match p.job_queue.queue_fetch_job with
  | (none, _) => p
  | (some job, q) => { p with job_queue := q }.set_worker w (.running job)

/-- The functions of the job return. -/
def finish (w : Nat) (job : Job) : ThreadPool :=
  { p with executed := job :: p.executed }.set_worker w (.finished job)

/-- `th_pool_barrier_signal`. -/
def th_pool_barrier_signal (b : Nat) : Nat → Barrier :=
  Function.update p.barriers b
    { p.barriers b with done_count := (p.barriers b).done_count + 1 }

/-- The job is signalled if it has a barrier, and the worker is back at the wait. -/
def signal (w : Nat) (job : Job) : ThreadPool :=
  { p with barriers := job.barrier.elim p.barriers p.th_pool_barrier_signal }.set_worker w .idle

/-- `th_pool_barrier_start`; `th_pool_barrier_init` sets the same counts. -/
def th_pool_barrier_start (b : Nat) : ThreadPool :=
  { p with barriers := Function.update p.barriers b ⟨0, 0⟩ }

def step : Event → ThreadPool
  | .dispatch func arg cleaner cleaner_arg barrier node =>
    p.th_pool_dispatch_with_cleanup func arg cleaner cleaner_arg barrier node
  | .fetch w => p.fetch w
  | .finish w =>
    match p.workers[w]? with
    | some (.running job) => p.finish w job
    | _ => p
  | .signal w =>
    match p.workers[w]? with
    | some (.finished job) => p.signal w job
    | _ => p
  | .exit w => { p with live := p.live - 1 }.set_worker w .exited
  | .barrier_start b => p.th_pool_barrier_start b
  | .barrier_wait b => { p with waited := Function.update p.waited b true }
  | .destroy => { p with shutdown := true }
  | .joined => { p with destroyed := true }

/-- The predicate of `th_pool_barrier_wait`. -/
def barrier_open (b : Nat) : Prop := (p.barriers b).posted_count ≤ (p.barriers b).done_count

/-- When a step can happen. Callers keep to the life cycle of a barrier, start and
    wait by turns, and post nothing once `th_pool_destroy` has seen the last worker
    leave; `malloc` returns nodes that are not in use. -/
def Event.Enabled : Event → Prop
  | .dispatch _ _ _ _ _ node =>
      (p.shutdown = true → ∃ worker ∈ p.workers, worker ≠ .exited) ∧
      p.job_queue.queue_can_accept_order = true ∧
      (p.job_queue.freeTail = none → ∃ a, node = some a ∧ a ∉ p.job_queue.allocated)
  | .fetch w => p.workers[w]? = some .idle ∧ p.job_queue.queue_is_job_available = true
  | .finish w => ∃ job, p.workers[w]? = some (.running job)
  | .signal w => ∃ job, p.workers[w]? = some (.finished job)
  | .exit w => p.workers[w]? = some .idle ∧ p.shutdown = true ∧
      p.job_queue.queue_is_job_available = false
  | .barrier_start b => p.waited b = true
  | .barrier_wait b => p.barrier_open b
  | .destroy => True
  | .joined => p.shutdown = true ∧ ∀ worker ∈ p.workers, worker = .exited

/-- The states of a pool with some number of workers. -/
inductive Reachable : ThreadPool → Prop
  | create (num_threads_in_pool first : Nat) (rest : List Nat) (nodes : Memory Nat Job)
    (hpos : 0 < num_threads_in_pool) (hnodes : (first :: rest).Nodup) :
    Reachable (th_pool_create num_threads_in_pool first rest nodes)
  | step {p : ThreadPool} (e : Event) (hp : Reachable p) (he : e.Enabled p) : Reachable (p.step e)

/-! ## Section 4: The invariant -/

/-- The job whose functions the worker is running. -/
def runs : WorkerState → Option Job
  | .running job => some job
  | _ => none

/-- The job that the worker has not signalled yet. -/
def owes : WorkerState → Option Job
  | .running job | .finished job => some job
  | _ => none

/-- The jobs of a barrier. -/
def on_barrier (b : Nat) (jobs : List Job) : Nat := jobs.countP fun job => job.barrier = some b

/-- Every accepted job is in the queue, with a worker or executed; every barrier
    counts the jobs that are queued or not yet signalled; the last worker leaves an
    empty queue. -/
structure InvAt (p : ThreadPool) (js fs : List Nat) : Prop where
  lists : p.job_queue.Lists js fs
  balance : (p.job_queue.contents js ++ p.workers.filterMap runs ++ p.executed).Perm p.dispatched
  numbered : ∀ job ∈ p.dispatched, job.ticket < p.dispatched.length
  nodup : p.dispatched.Nodup
  counts : ∀ b, (p.barriers b).posted_count = (p.barriers b).done_count +
    on_barrier b (p.job_queue.contents js ++ p.workers.filterMap owes)
  waited : ∀ b, p.waited b = true → p.barrier_open b
  exits : .exited ∈ p.workers → p.shutdown = true
  staffed : js ≠ [] → ∃ worker ∈ p.workers, worker ≠ .exited
  pool : p.workers ≠ []
  joined : p.destroyed = true → ∀ worker ∈ p.workers, worker = .exited

/-- The invariant. -/
def Inv (p : ThreadPool) : Prop := ∃ js fs, InvAt p js fs

section workers
variable {α β : Type*} {f : α → Option β} {l : List α} {w : Nat} {x y : α} {z : β}

/-- A worker among the others. -/
theorem exists_split_of_getElem? (h : l[w]? = some x) :
    ∃ before after, l = before ++ x :: after ∧ l.set w y = before ++ y :: after := by
  obtain ⟨hw, hx⟩ := List.getElem?_eq_some_iff.mp h
  refine ⟨l.take w, l.drop (w + 1), ?_, List.set_eq_take_append_cons_drop.trans (if_pos hw)⟩
  rw [← hx, List.cons_getElem_drop_succ, List.take_append_drop]

theorem filterMap_set_same (h : l[w]? = some x) (hf : f y = f x) :
    (l.set w y).filterMap f = l.filterMap f := by
  obtain ⟨before, after, hl, hset⟩ := exists_split_of_getElem? (y := y) h
  rw [hset, hl]
  simp [List.filterMap_cons, hf]

theorem filterMap_set_gain (h : l[w]? = some x) (hx : f x = none) (hy : f y = some z) :
    ((l.set w y).filterMap f).Perm (z :: l.filterMap f) := by
  obtain ⟨before, after, hl, hset⟩ := exists_split_of_getElem? (y := y) h
  rw [hset, hl, List.filterMap_append, List.filterMap_append, List.filterMap_cons_none hx,
    List.filterMap_cons_some hy]
  exact List.perm_middle

theorem filterMap_set_loss (h : l[w]? = some x) (hx : f x = some z) (hy : f y = none) :
    (l.filterMap f).Perm (z :: (l.set w y).filterMap f) := by
  obtain ⟨before, after, hl, hset⟩ := exists_split_of_getElem? (y := y) h
  rw [hset, hl, List.filterMap_append, List.filterMap_append, List.filterMap_cons_none hy,
    List.filterMap_cons_some hx]
  exact List.perm_middle

end workers

variable {p} {js fs : List Nat} {w b : Nat} {job : Job}

theorem on_barrier_perm {jobs jobs' : List Job} (h : jobs.Perm jobs') (b : Nat) :
    on_barrier b jobs = on_barrier b jobs' := h.countP_eq _

theorem on_barrier_cons (job : Job) (jobs : List Job) (b : Nat) :
    on_barrier b (job :: jobs) = on_barrier b jobs + if job.barrier = some b then 1 else 0 := by
  unfold on_barrier
  rw [List.countP_cons]
  simp

/-- A worker that is not leaving moves on. -/
theorem exited_of_set {state : WorkerState} (hstate : state ≠ .exited)
    (h : WorkerState.exited ∈ p.workers.set w state) : WorkerState.exited ∈ p.workers := by
  rcases List.mem_or_eq_of_mem_set h with hold | heq
  · exact hold
  · exact absurd heq.symm hstate

theorem staffed_of_set {worker state : WorkerState} (hworker : p.workers[w]? = some worker)
    (hstate : state ≠ .exited) : ∃ worker ∈ p.workers.set w state, worker ≠ .exited := by
  obtain ⟨hw, -⟩ := List.getElem?_eq_some_iff.mp hworker
  exact ⟨state, List.mem_set hw state, hstate⟩

/-- A worker that has not left keeps `th_pool_destroy` waiting. -/
theorem not_destroyed {worker : WorkerState} (h : InvAt p js fs) (hworker : p.workers[w]? = some worker)
    (hstate : worker ≠ .exited) : p.destroyed ≠ true :=
  fun hdone => hstate (h.joined hdone worker (List.mem_of_getElem? hworker))

theorem inv_create {num_threads_in_pool first : Nat} {rest : List Nat} {nodes : Memory Nat Job}
    (hpos : 0 < num_threads_in_pool) (hnodes : (first :: rest).Nodup) :
    (th_pool_create num_threads_in_pool first rest nodes).Inv := by
  obtain ⟨fs, hlists⟩ := JobQueue.lists_queue_create num_threads_in_pool nodes hnodes
  have hruns : ∀ n, (List.replicate n WorkerState.idle).filterMap runs = [] := by
    intro n
    rw [List.filterMap_replicate_of_none rfl]
  have howes : ∀ n, (List.replicate n WorkerState.idle).filterMap owes = [] := by
    intro n
    rw [List.filterMap_replicate_of_none rfl]
  refine ⟨[], fs, hlists, ?_, fun job hjob => absurd hjob List.not_mem_nil, .nil, ?_,
    fun _ _ => le_refl 0, ?_, fun hne => absurd rfl hne, ?_,
    fun h => absurd h (by simp [th_pool_create])⟩
  · simp [th_pool_create, JobQueue.contents, hruns]
  · intro b
    simp [th_pool_create, JobQueue.contents, howes, on_barrier]
  · intro h
    exact absurd (List.eq_of_mem_replicate h) (by simp)
  · simp [th_pool_create]
    omega

/-- A new job is counted by its barrier. -/
theorem inv_posted {q : JobQueue} {js' fs' : List Nat} (h : InvAt p js fs)
    (hticket : job.ticket = p.dispatched.length)
    (hstaff : ∃ worker ∈ p.workers, worker ≠ .exited)
    (hlists : q.Lists js' fs') (hcontents : q.contents js' = p.job_queue.contents js ++ [job]) :
    InvAt { p with
      job_queue := q
      barriers := job.barrier.elim p.barriers fun b => Function.update p.barriers b
        { p.barriers b with posted_count := (p.barriers b).posted_count + 1 }
      waited := job.barrier.elim p.waited fun b => Function.update p.waited b false
      dispatched := job :: p.dispatched } js' fs' := by
  -- the order of the jobs does not matter for the balance
  have hnew : ∀ rest, (p.job_queue.contents js ++ [job] ++ rest).Perm
      (job :: (p.job_queue.contents js ++ rest)) := by
    intro rest
    rw [List.append_assoc]
    exact List.perm_middle
  refine ⟨hlists, ?_, ?_, ?_, ?_, ?_, h.exits, fun _ => hstaff, h.pool, h.joined⟩
  · rw [hcontents, List.append_assoc]
    refine (hnew _).trans (List.Perm.cons job ?_)
    rw [← List.append_assoc]
    exact h.balance
  · intro job' hjob'
    rw [List.length_cons]
    rcases List.mem_cons.mp hjob' with rfl | hold
    · omega
    · have := h.numbered job' hold
      omega
  · -- the ticket is new
    refine List.nodup_cons.mpr ⟨fun hmem => ?_, h.nodup⟩
    have := h.numbered job hmem
    omega
  · intro b
    have hold := h.counts b
    rw [hcontents, on_barrier_perm (hnew _) b, on_barrier_cons]
    cases hb : job.barrier with
    | none => simpa using hold
    | some b' =>
      by_cases hbb : b = b'
      · subst hbb
        simp only [Option.elim_some, Function.update_self, if_true]
        omega
      · have hne : ¬ some b' = some b := fun heq => hbb (Option.some.inj heq).symm
        simp only [Option.elim_some, Function.update_of_ne hbb, if_neg hne]
        exact hold
  · intro b hb
    have hold := h.waited b
    unfold barrier_open at hold ⊢
    cases hbar : job.barrier with
    | none =>
      rw [hbar] at hb
      exact hold hb
    | some b' =>
      rw [hbar] at hb
      by_cases hbb : b = b'
      · subst hbb
        simp at hb
      · simp only [Option.elim_some, Function.update_of_ne hbb] at hb ⊢
        exact hold hb

theorem inv_dispatch {func arg : Nat} {cleaner : Option Nat} {cleaner_arg : Nat}
    {barrier node : Option Nat} (h : InvAt p js fs)
    (he : (Event.dispatch func arg cleaner cleaner_arg barrier node).Enabled p) :
    (p.step (.dispatch func arg cleaner cleaner_arg barrier node)).Inv := by
  obtain ⟨hshutdown, -, hnode⟩ := he
  -- an accepted job has a worker: the last one has not left
  have hstaff : ∃ worker ∈ p.workers, worker ≠ .exited := by
    by_contra hnone
    push Not at hnone
    obtain ⟨worker, hworker⟩ := List.exists_mem_of_ne_nil _ h.pool
    have hdown := h.exits (hnone worker hworker ▸ hworker)
    obtain ⟨other, hother, hhere⟩ := hshutdown hdown
    exact hhere (hnone other hother)
  have hmem : ¬ (p.job_queue.freeTail = none ∧ node = none) := by
    rintro ⟨htail, rfl⟩
    obtain ⟨a, ha, -⟩ := hnode htail
    cases ha
  show (p.th_pool_dispatch_with_cleanup func arg cleaner cleaner_arg barrier node).Inv
  unfold th_pool_dispatch_with_cleanup
  simp only [if_neg hmem]
  obtain ⟨js', fs', hlists, hcontents⟩ := JobQueue.queue_post_job_spec
    ⟨p.dispatched.length, func, arg, cleaner, cleaner_arg, barrier⟩ h.lists hnode
  exact ⟨js', fs', inv_posted h rfl hstaff hlists hcontents⟩

/-- A worker that stays moves on to `state`. -/
theorem inv_moved {q : JobQueue} {executed : List Job} {barriers : Nat → Barrier}
    {js' fs' : List Nat} {worker state : WorkerState} (h : InvAt p js fs)
    (hworker : p.workers[w]? = some worker) (hhere : worker ≠ .exited) (hstate : state ≠ .exited)
    (hlists : q.Lists js' fs')
    (hbalance : (q.contents js' ++ (p.workers.set w state).filterMap runs ++ executed).Perm
      p.dispatched)
    (hcounts : ∀ b, (barriers b).posted_count = (barriers b).done_count +
      on_barrier b (q.contents js' ++ (p.workers.set w state).filterMap owes))
    (hopen : ∀ b, p.barrier_open b → (barriers b).posted_count ≤ (barriers b).done_count) :
    InvAt ({ p with job_queue := q, executed := executed, barriers := barriers }.set_worker w state)
      js' fs' where
  lists := hlists
  balance := hbalance
  numbered := h.numbered
  nodup := h.nodup
  counts := hcounts
  waited b hb := hopen b (h.waited b hb)
  exits hexit := h.exits (exited_of_set hstate hexit)
  staffed _ := staffed_of_set hworker hstate
  pool := by simp [set_worker, h.pool]
  joined hdone := (not_destroyed h hworker hhere hdone).elim

theorem inv_fetch (h : InvAt p js fs) (he : (Event.fetch w).Enabled p) : (p.step (.fetch w)).Inv := by
  obtain ⟨hidle, havail⟩ := he
  obtain ⟨js', fs', job, hjob, hlists, hcontents⟩ :=
    JobQueue.queue_fetch_job_spec h.lists havail
  have hruns : ((p.workers.set w (.running job)).filterMap runs).Perm
      (job :: p.workers.filterMap runs) := filterMap_set_gain hidle rfl rfl
  have howes : ((p.workers.set w (.running job)).filterMap owes).Perm
      (job :: p.workers.filterMap owes) := filterMap_set_gain hidle rfl rfl
  have hstep : p.step (.fetch w) =
      { p with job_queue := p.job_queue.queue_fetch_job.2 }.set_worker w (.running job) := by
    show p.fetch w = _
    unfold fetch
    rw [show p.job_queue.queue_fetch_job = (some job, p.job_queue.queue_fetch_job.2) from
      Prod.ext hjob rfl]
  -- the job moves from the end of the queue into the hands of the worker
  have hmove : ∀ {taken rest : List Job}, taken.Perm (job :: rest) →
      (p.job_queue.queue_fetch_job.2.contents js' ++ taken).Perm
        (p.job_queue.contents js ++ rest) := by
    intro taken rest htaken
    rw [hcontents, List.append_assoc]
    exact List.Perm.append_left _ htaken
  rw [hstep]
  refine ⟨js', fs', inv_moved h hidle (by simp) (by simp) hlists ?_ ?_ fun b hb => hb⟩
  · exact ((hmove hruns).append_right _).trans h.balance
  · intro b
    rw [on_barrier_perm (hmove howes) b]
    exact h.counts b

theorem inv_finish (h : InvAt p js fs) (he : (Event.finish w).Enabled p) :
    (p.step (.finish w)).Inv := by
  obtain ⟨job, hworker⟩ := he
  have hstep : p.step (.finish w) = p.finish w job := by
    show (match p.workers[w]? with
      | some (.running job) => p.finish w job
      | _ => p) = _
    rw [hworker]
  rw [hstep]
  -- the job moves from the hands of the worker to the executed ones
  have hbalance : ∀ {state}, runs state = none →
      (p.job_queue.contents js ++ (p.workers.set w state).filterMap runs ++
        job :: p.executed).Perm p.dispatched := by
    intro state hstate
    have hruns := filterMap_set_loss hworker (f := runs) rfl hstate
    refine List.perm_middle.trans (List.Perm.trans ?_ h.balance)
    rw [← List.cons_append]
    refine List.Perm.append_right _ (List.perm_middle.symm.trans ?_)
    exact List.Perm.append_left _ hruns.symm
  refine ⟨js, fs, inv_moved h hworker (by simp) (by simp) h.lists (hbalance rfl) ?_ fun b hb => hb⟩
  intro b
  rw [filterMap_set_same (f := owes) (y := .finished job) hworker rfl]
  exact h.counts b

/-- A signalled job is no longer counted. -/
theorem done_count_signal (b : Nat) :
    (job.barrier.elim p.barriers p.th_pool_barrier_signal b).done_count =
      (p.barriers b).done_count + if job.barrier = some b then 1 else 0 := by
  cases hbar : job.barrier with
  | none => simp
  | some b' =>
    by_cases hb : b = b'
    · subst hb
      simp [th_pool_barrier_signal]
    · have hne : ¬ some b' = some b := fun heq => hb (Option.some.inj heq).symm
      simp [th_pool_barrier_signal, hb, hne]

theorem posted_count_signal (b : Nat) :
    (job.barrier.elim p.barriers p.th_pool_barrier_signal b).posted_count =
      (p.barriers b).posted_count := by
  cases job.barrier with
  | none => rfl
  | some b' =>
    by_cases hb : b = b'
    · subst hb
      simp [th_pool_barrier_signal]
    · simp [th_pool_barrier_signal, hb]

theorem inv_signal (h : InvAt p js fs) (he : (Event.signal w).Enabled p) :
    (p.step (.signal w)).Inv := by
  obtain ⟨job, hworker⟩ := he
  have hstep : p.step (.signal w) = p.signal w job := by
    show (match p.workers[w]? with
      | some (.finished job) => p.signal w job
      | _ => p) = _
    rw [hworker]
  rw [hstep]
  refine ⟨js, fs, inv_moved h hworker (by simp) (by simp) h.lists ?_ ?_ ?_⟩
  · rw [filterMap_set_same (f := runs) (y := .idle) hworker rfl]
    exact h.balance
  · intro b
    have howes := filterMap_set_loss hworker (f := owes) (y := .idle) rfl rfl
    have hcount := on_barrier_perm (List.Perm.append_left (p.job_queue.contents js) howes) b
    rw [on_barrier_perm List.perm_middle b, on_barrier_cons] at hcount
    have hold := h.counts b
    rw [posted_count_signal, done_count_signal]
    omega
  · intro b hb
    unfold barrier_open at hb
    rw [posted_count_signal, done_count_signal]
    omega

/-- A worker leaves an empty queue. -/
theorem inv_exit (h : InvAt p js fs) (he : (Event.exit w).Enabled p) : (p.step (.exit w)).Inv := by
  obtain ⟨hidle, hdown, havail⟩ := he
  have hempty := JobQueue.contents_of_unavailable h.lists havail
  refine ⟨js, fs, h.lists, ?_, h.numbered, h.nodup, ?_, h.waited, fun _ => hdown,
    fun hne => absurd hempty hne, ?_, fun hdone => (not_destroyed h hidle (by simp) hdone).elim⟩
  · show (_ ++ (p.workers.set w .exited).filterMap runs ++ _).Perm _
    rw [filterMap_set_same (f := runs) (y := .exited) hidle rfl]
    exact h.balance
  · intro b
    show _ = _ + on_barrier b (_ ++ (p.workers.set w .exited).filterMap owes)
    rw [filterMap_set_same (f := owes) (y := .exited) hidle rfl]
    exact h.counts b
  · simp [step, set_worker, h.pool]

/-- An open barrier has no job that is queued or not signalled. -/
theorem on_barrier_of_open (h : InvAt p js fs) (hopen : p.barrier_open b) :
    on_barrier b (p.job_queue.contents js ++ p.workers.filterMap owes) = 0 := by
  have hcounts := h.counts b
  unfold barrier_open at hopen
  omega

theorem inv_barrier_start (h : InvAt p js fs) (he : (Event.barrier_start b).Enabled p) :
    (p.step (.barrier_start b)).Inv := by
  -- no job of the barrier is under way, so that the counts may start again
  have hnone := on_barrier_of_open h (h.waited b he)
  refine ⟨js, fs, h.lists, h.balance, h.numbered, h.nodup, ?_, ?_, h.exits, h.staffed, h.pool, h.joined⟩
  · intro b'
    show (Function.update p.barriers b ⟨0, 0⟩ b').posted_count =
      (Function.update p.barriers b ⟨0, 0⟩ b').done_count + _
    by_cases hb : b' = b
    · subst hb
      rw [Function.update_self]
      exact ((Nat.zero_add _).trans hnone).symm
    · rw [Function.update_of_ne hb]
      exact h.counts b'
  · intro b' hb'
    show (Function.update p.barriers b ⟨0, 0⟩ b').posted_count ≤
      (Function.update p.barriers b ⟨0, 0⟩ b').done_count
    by_cases hb : b' = b
    · subst hb
      rw [Function.update_self]
    · rw [Function.update_of_ne hb]
      exact h.waited b' hb'

theorem inv_barrier_wait (h : InvAt p js fs) (he : (Event.barrier_wait b).Enabled p) :
    (p.step (.barrier_wait b)).Inv := by
  refine ⟨js, fs, h.lists, h.balance, h.numbered, h.nodup, h.counts, ?_, h.exits, h.staffed, h.pool,
    h.joined⟩
  intro b' hb'
  by_cases hb : b' = b
  · subst hb
    exact he
  · exact h.waited b' (by simpa [step, hb] using hb')

/-- The invariant is preserved by every step. -/
theorem inv_step {e : Event} (h : p.Inv) (he : e.Enabled p) : (p.step e).Inv := by
  obtain ⟨js, fs, h⟩ := h
  cases e with
  | dispatch func arg cleaner cleaner_arg barrier node => exact inv_dispatch h he
  | fetch w => exact inv_fetch h he
  | finish w => exact inv_finish h he
  | signal w => exact inv_signal h he
  | exit w => exact inv_exit h he
  | barrier_start b => exact inv_barrier_start h he
  | barrier_wait b => exact inv_barrier_wait h he
  | destroy => exact ⟨js, fs, { h with exits := fun _ => rfl }⟩
  | joined => exact ⟨js, fs, { h with joined := fun _ => he.2 }⟩

/-- The invariant holds in every run. -/
theorem inv_of_reachable (hp : Reachable p) : p.Inv := by
  induction hp with
  | create num_threads_in_pool first rest nodes hpos hnodes => exact inv_create hpos hnodes
  | step e hp he ih => exact inv_step ih he

/-! ## Section 5: Every job is executed once -/

/-- What a worker does with a job. -/
def WorkerStep (p p' : ThreadPool) : Prop :=
  ∃ e w, (e = .fetch w ∨ e = .finish w ∨ e = .signal w) ∧ e.Enabled p ∧ p' = p.step e

/-- A sequence of such steps. -/
abbrev WorkerRun : ThreadPool → ThreadPool → Prop := Relation.ReflTransGen WorkerStep

theorem reachable_of_workerRun {p' : ThreadPool} (hp : Reachable p) (hrun : WorkerRun p p') :
    Reachable p' := by
  induction hrun with
  | refl => exact hp
  | tail _ hstep ih =>
    obtain ⟨e, _, -, he, rfl⟩ := hstep
    exact .step e ih he

/-- Some worker brings one more job to its end. -/
def Executes (p : ThreadPool) : Prop :=
  ∃ p', WorkerRun p p' ∧ p'.dispatched = p.dispatched ∧ p'.executed.length = p.executed.length + 1

theorem executes_of_running (hworker : p.workers[w]? = some (.running job)) : p.Executes := by
  refine ⟨p.step (.finish w), .single ⟨_, w, .inr (.inl rfl), ⟨job, hworker⟩, rfl⟩, ?_, ?_⟩
  · simp [step, hworker, finish, set_worker]
  · simp [step, hworker, finish, set_worker]

/-- A run that leaves the record alone comes first. -/
theorem Executes.after {p' : ThreadPool} {e : Event} (h : p'.Executes)
    (he : e = .fetch w ∨ e = .finish w ∨ e = .signal w) (henabled : e.Enabled p)
    (hp' : p' = p.step e) (hdispatched : p'.dispatched = p.dispatched)
    (hexecuted : p'.executed = p.executed) : p.Executes := by
  obtain ⟨p'', hrun, hd, hx⟩ := h
  exact ⟨p'', .head ⟨e, w, he, henabled, hp'⟩ hrun, hd.trans hdispatched, by rw [hx, hexecuted]⟩

theorem executes_of_idle (hworker : p.workers[w]? = some .idle)
    (havail : p.job_queue.queue_is_job_available = true) : p.Executes := by
  obtain ⟨hw, -⟩ := List.getElem?_eq_some_iff.mp hworker
  obtain ⟨temp, htail⟩ := Option.isSome_iff_exists.mp havail
  have hstep : p.step (.fetch w) = { p with job_queue := (p.job_queue.queue_fetch_job).2 }.set_worker
      w (.running (p.job_queue.nodes temp).payload) := by
    simp [step, fetch, JobQueue.queue_fetch_job, htail]
  have hrunning : (p.step (.fetch w)).workers[w]? =
      some (.running (p.job_queue.nodes temp).payload) := by
    rw [hstep]
    simp [set_worker, hw]
  exact (executes_of_running hrunning).after (.inl rfl) ⟨hworker, havail⟩ rfl
    (by rw [hstep]; rfl) (by rw [hstep]; rfl)

theorem executes_of_finished (hworker : p.workers[w]? = some (.finished job))
    (havail : p.job_queue.queue_is_job_available = true) : p.Executes := by
  obtain ⟨hw, -⟩ := List.getElem?_eq_some_iff.mp hworker
  have hstep : p.step (.signal w) = p.signal w job := by simp [step, hworker]
  have hidle : (p.step (.signal w)).workers[w]? = some .idle := by
    rw [hstep]
    simp [signal, set_worker, hw]
  refine Executes.after (executes_of_idle hidle ?_) (.inr (.inr rfl)) ⟨job, hworker⟩ rfl ?_ ?_
  · rw [hstep]
    exact havail
  · rw [hstep]
    rfl
  · rw [hstep]
    rfl

/-- As long as a job is not executed, some worker can bring one to its end. -/
theorem executes_of_pending (h : InvAt p js fs) (hlt : p.executed.length < p.dispatched.length) :
    p.Executes := by
  rcases hruns : p.workers.filterMap runs with _ | ⟨job, rest⟩
  · -- nobody is running a job, so that there is one in the queue
    have hlen := h.balance.length_eq
    rw [hruns] at hlen
    have hne : js ≠ [] := by
      rintro rfl
      simp [JobQueue.contents] at hlen
      omega
    have havail : p.job_queue.queue_is_job_available = true := by
      by_contra hnot
      exact hne (JobQueue.contents_of_unavailable h.lists (by simpa using hnot))
    obtain ⟨worker, hmem, hhere⟩ := h.staffed hne
    obtain ⟨w, hworker⟩ := List.getElem?_of_mem hmem
    cases worker with
    | idle => exact executes_of_idle hworker havail
    | running job => exact executes_of_running hworker
    | finished job => exact executes_of_finished hworker havail
    | exited => exact absurd rfl hhere
  · -- the functions of a running job return
    have hmem : job ∈ p.workers.filterMap runs := hruns ▸ List.mem_cons_self
    obtain ⟨worker, hworker, hjob⟩ := List.mem_filterMap.mp hmem
    obtain ⟨w, hw⟩ := List.getElem?_of_mem hworker
    cases worker with
    | running job' => exact executes_of_running hw
    | idle => cases hjob
    | finished job' => cases hjob
    | exited => cases hjob

theorem executed_length_le (h : InvAt p js fs) : p.executed.length ≤ p.dispatched.length := by
  have hlen := h.balance.length_eq
  simp only [List.length_append] at hlen
  omega

/-- When as many jobs are executed as were accepted, they are the same. -/
theorem executed_perm_of_length (h : InvAt p js fs)
    (hlen : p.executed.length = p.dispatched.length) : p.executed.Perm p.dispatched := by
  have hall := h.balance.length_eq
  rw [List.length_append, hlen] at hall
  have hnil : p.job_queue.contents js ++ p.workers.filterMap runs = [] :=
    List.eq_nil_of_length_eq_zero (by omega)
  have hbalance := h.balance
  rw [hnil] at hbalance
  exact hbalance

/-- The workers can always bring every accepted job to its end. -/
theorem exists_workerRun (hp : Reachable p) :
    ∃ p', WorkerRun p p' ∧ p'.dispatched = p.dispatched ∧ p'.executed.Perm p.dispatched := by
  -- induction on the number of jobs that are not executed
  obtain ⟨n, hn⟩ : ∃ n, p.dispatched.length - p.executed.length = n := ⟨_, rfl⟩
  induction n generalizing p with
  | zero =>
    obtain ⟨js, fs, h⟩ := inv_of_reachable hp
    have hle := executed_length_le h
    exact ⟨p, .refl, rfl, executed_perm_of_length h (by omega)⟩
  | succ n ih =>
    obtain ⟨js, fs, h⟩ := inv_of_reachable hp
    obtain ⟨p', hrun, hdispatched, hexecuted⟩ := executes_of_pending h (by omega)
    obtain ⟨p'', hrun', hdispatched', hperm⟩ :=
      ih (reachable_of_workerRun hp hrun) (by rw [hdispatched, hexecuted]; omega)
    exact ⟨p'', hrun.trans hrun', hdispatched'.trans hdispatched, hdispatched ▸ hperm⟩

/-- A worker owes the job that it runs. -/
theorem owes_of_runs {worker : WorkerState} (h : runs worker = some job) : owes worker = some job := by
  cases worker with
  | running job' => exact h
  | idle => cases h
  | finished job' => cases h
  | exited => cases h

/-- The jobs of an open barrier are executed. -/
theorem executed_of_open (h : InvAt p js fs) (hopen : p.barrier_open b) (hjob : job ∈ p.dispatched)
    (hbar : job.barrier = some b) : job ∈ p.executed := by
  have hnone : job ∉ p.job_queue.contents js ++ p.workers.filterMap owes := by
    intro hmem
    exact List.countP_eq_zero.mp (on_barrier_of_open h hopen) job hmem (by simpa using hbar)
  rw [List.mem_append, not_or] at hnone
  rcases List.mem_append.mp (h.balance.mem_iff.mpr hjob) with hpending | hdone
  · rcases List.mem_append.mp hpending with hqueued | hruns
    · exact absurd hqueued hnone.1
    · obtain ⟨worker, hworker, hrun⟩ := List.mem_filterMap.mp hruns
      exact absurd (List.mem_filterMap.mpr ⟨worker, hworker, owes_of_runs hrun⟩) hnone.2
  · exact hdone

/-- After `th_pool_destroy` every accepted job has been executed. -/
theorem executed_of_destroyed (h : InvAt p js fs) (hdone : p.destroyed = true) :
    p.executed.Perm p.dispatched := by
  have hleft := h.joined hdone
  -- somebody would be left for a queued job
  have hqueue : js = [] := by
    by_contra hne
    obtain ⟨worker, hworker, hhere⟩ := h.staffed hne
    exact hhere (hleft worker hworker)
  have hruns : p.workers.filterMap runs = [] := by
    rw [List.filterMap_eq_nil_iff]
    intro worker hworker
    rw [hleft worker hworker]
    rfl
  have hbalance := h.balance
  rw [hqueue, hruns] at hbalance
  exact hbalance

/-- What the pool guarantees in every state of every run: its nodes are in two
    well-formed lists; every accepted job is either waiting in the queue, with one
    worker or executed, once; a wait on a barrier returns only when all jobs that
    were dispatched on it are executed; no job is left when the pool is destroyed,
    and up to then the workers can always bring all jobs to their end. -/
theorem th_pool_executes_every_job {p : ThreadPool} (hp : Reachable p) :
    (∃ js fs,
      IsList p.job_queue.nodes p.job_queue.head p.job_queue.tail js ∧
      IsList p.job_queue.nodes p.job_queue.freeHead p.job_queue.freeTail fs ∧
      js.Disjoint fs ∧
      (js ++ fs).Perm p.job_queue.allocated ∧
      (p.job_queue.contents js ++ p.workers.filterMap runs ++ p.executed).Perm p.dispatched) ∧
    p.dispatched.Nodup ∧
    (∀ b, (Event.barrier_wait b).Enabled p →
      ∀ job ∈ p.dispatched, job.barrier = some b → job ∈ p.executed) ∧
    (p.destroyed = true → p.executed.Perm p.dispatched) ∧
    ∃ p', WorkerRun p p' ∧ p'.dispatched = p.dispatched ∧ p'.executed.Perm p.dispatched := by
  obtain ⟨js, fs, h⟩ := inv_of_reachable hp
  have hall := h.lists.all
  rw [List.append_nil] at hall
  refine ⟨⟨js, fs, h.lists.jobs, h.lists.free, h.lists.disjoint.1, hall, h.balance⟩, h.nodup, ?_,
    executed_of_destroyed h, exists_workerRun hp⟩
  intro b hwait job hjob hbar
  exact executed_of_open h hwait hjob hbar

/-- Two workers with two jobs of one barrier, which finish in the other order, while a job
    without a barrier is queued. -/
def three_job_pool : ThreadPool :=
  [Event.barrier_start 0, .dispatch 1 2 none 0 (some 0) none, .dispatch 1 3 none 0 (some 0) none,
    .fetch 0, .fetch 1, .dispatch 4 5 none 0 none none, .finish 1, .signal 1, .finish 0, .signal 0].foldl
    step (th_pool_create 2 10 [11] fun _ => ⟨default, none, none⟩)

theorem th_pool_executes_every_job_of_three : Reachable three_job_pool ∧
    (Event.barrier_wait 0).Enabled three_job_pool ∧
    (⟨0, 1, 2, none, 0, some 0⟩ : Job) ∈ three_job_pool.executed ∧
    (⟨1, 1, 3, none, 0, some 0⟩ : Job) ∈ three_job_pool.executed ∧
    ∃ p', WorkerRun three_job_pool p' ∧
      p'.executed.Perm [⟨2, 4, 5, none, 0, none⟩, ⟨1, 1, 3, none, 0, some 0⟩, ⟨0, 1, 2, none, 0, some 0⟩] := by
  have hposted : Reachable ([Event.barrier_start 0, .dispatch 1 2 none 0 (some 0) none,
      .dispatch 1 3 none 0 (some 0) none].foldl step
        (th_pool_create 2 10 [11] fun _ => ⟨default, none, none⟩)) := by
    refine .step (.dispatch 1 3 none 0 (some 0) none) (.step (.dispatch 1 2 none 0 (some 0) none)
      (.step (.barrier_start 0) (.create 2 10 [11] _ (by decide) (by decide)) rfl) ?_) ?_
    · exact ⟨fun h => absurd h (by decide), rfl, fun h => absurd h (by decide)⟩
    · exact ⟨fun h => absurd h (by decide), rfl, fun h => absurd h (by decide)⟩
  have hp : Reachable three_job_pool := by
    refine .step (.signal 0) (.step (.finish 0) (.step (.signal 1) (.step (.finish 1) (.step
      (.dispatch 4 5 none 0 none none) (.step (.fetch 1) (.step (.fetch 0) hposted ?_) ?_) ?_) ?_) ?_) ?_) ?_
    · exact ⟨rfl, rfl⟩
    · exact ⟨rfl, rfl⟩
    · exact ⟨fun h => absurd h (by decide), rfl, fun h => absurd h (by decide)⟩
    all_goals exact ⟨_, rfl⟩
  have hwait : (Event.barrier_wait 0).Enabled three_job_pool := by
    show 2 ≤ 2
    exact le_refl 2
  obtain ⟨-, -, hexecuted, -, p', hrun, -, hall⟩ := th_pool_executes_every_job hp
  refine ⟨hp, hwait, hexecuted 0 hwait _ ?_ rfl, hexecuted 0 hwait _ ?_ rfl, p', hrun, hall⟩
  · exact List.mem_cons_of_mem _ (List.mem_cons_of_mem _ List.mem_cons_self)
  · exact List.mem_cons_of_mem _ List.mem_cons_self

end ThreadPool

end PinbaEngine
