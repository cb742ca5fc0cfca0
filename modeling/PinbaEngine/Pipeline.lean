import PinbaEngine.Lib.Circular
import PinbaEngine.RequestValidation

/-! # The pipeline counters

    A datagram passes four stages: a collector thread decodes it and pushes it into
    its pool (`pinba_eat_udp`), the data thread swaps the pools and lets workers
    stage the requests of each tree (`data_job_func`), the staged requests are copied
    to the request ring (`pinba_data_main`), and an expiry pass removes them
    (`pinba_stats_main`). Each stage counts what it lets through and what it drops.

    Collectors hold `per_thread_pools_lock` while they fill a pool and publish their
    counters; batches and expiry passes hold `collector_lock`. Here such a section is
    one step, and datagrams may arrive between any two steps of the data thread. That
    the end of a batch waits for no section is left out: `CollectorSections` has the
    turns of the collectors inside theirs, and `BatchEnds` every single counter.

    Of the ring only the positions matter, and the counters do not overflow.
-/

namespace PinbaEngine

/-! ## Section 1: Pools -/

/-- A linear `pinba_pool`; `in` is the length of `data`. -/
structure Pool (α : Type) where
  size : Nat
  grow_size : Nat
  /-- Zero means no limit. -/
  limit_size : Nat
  data : List α

namespace Pool

variable {α : Type} (p : Pool α)

/-- `pinba_pool_new_size` without an explicit growth. -/
def new_size : Nat :=
  let new_size := p.size + p.grow_size
  if 0 < p.limit_size ∧ p.limit_size < new_size then p.limit_size else new_size

/-- `pinba_pool_grow`; `memory` says whether the reallocation succeeds. -/
def grow (memory : Bool) : Option (Pool α) :=
  if p.new_size = p.size ∨ p.new_size ≤ 0 ∨ p.new_size < p.size then none
  else if memory then some { p with size := p.new_size }
  else none

/-- A pool with a free slot, grown if there is none. -/
def make_room (memory : Bool) : Option (Pool α) :=
  if p.data.length = p.size then p.grow memory else some p

/-- `pinba_pool_push`. -/
def push (a : α) (memory : Bool) : Option (Pool α) :=
  (p.make_room memory).map fun p => { p with data := p.data ++ [a] }

def clear : Pool α := { p with data := [] }

end Pool

/-! ## Section 2: Counters -/

@[ext] structure UdpMetrics where
  udp_received : Nat
  udp_decode_errors : Nat
  udp_queue_drops : Nat
  udp_enqueued : Nat
  udp_completed : Nat
  queue_live : Int

structure RequestMetrics where
  requests_checked : Nat
  requests_invalid : Nat
  bad_timer_arrays : Nat
  bad_flattened_tags : Nat
  bad_dictionary_index : Nat
  bad_representation : Nat
  requests_valid : Nat
  stage_rejects : Nat
  resource_rejects : Nat
  requests_staged : Nat

structure RawMetrics where
  raw_admitted : Nat
  raw_capacity_drops : Nat
  raw_allocation_drops : Nat
  raw_expired : Nat

/-! ## Section 3: State -/

/-- The pools of one thread, and its part of `job_data_arr`. -/
structure Worker where
  write : Pool RequestTree
  read : Pool RequestTree
  tmp : Pool Request
  invalid_packets : Nat

/-- Where the data thread is in its loop. -/
inductive Phase where
  /-- Between two batches. -/
  | idle
  | swapped
  | staged
  /-- At the label `sleep`. -/
  | published
deriving DecidableEq

structure Pipeline where
  udp : UdpMetrics
  requests : RequestMetrics
  raw : RawMetrics
  workers : List Worker
  request_pool : CircularBuffer Unit
  phase : Phase
  /-- `D->stats`. -/
  invalid_request_data : Nat
  lost_tmp_records : Nat
  /-- All trees whose batch is over. -/
  completed : List RequestTree

/-! ## Section 4: Collectors -/

/-- What a collector has seen of the datagrams of one call. -/
structure Tally where
  decode_errors : Nat
  drops : Nat
  enqueued : Nat

/-- One datagram of `pinba_eat_udp`: its tree if it decodes, and whether the pool
    could grow. -/
def eat_datagram (r : Pool RequestTree × Tally) (datagram : Option RequestTree × Bool) :
    Pool RequestTree × Tally :=
  match datagram.1 with
  | none => (r.1, { r.2 with decode_errors := r.2.decode_errors + 1 })
  | some request =>
    match r.1.push request datagram.2 with
    | none => (r.1, { r.2 with drops := r.2.drops + 1 })
    | some pool => (pool, { r.2 with enqueued := r.2.enqueued + 1 })

namespace Pipeline

variable (s : Pipeline)

/-- The datagrams of one `recvmmsg` in `pinba_eat_udp`. -/
def pinba_eat_udp (thread_num : Nat) (datagrams : List (Option RequestTree × Bool)) : Pipeline :=
  match s.workers[thread_num]? with
  | none => s
  | some w =>
    let (pool, tally) := datagrams.foldl eat_datagram (w.write, ⟨0, 0, 0⟩)
    { s with
      udp := { s.udp with
        udp_received := s.udp.udp_received + datagrams.length
        udp_decode_errors := s.udp.udp_decode_errors + tally.decode_errors
        udp_queue_drops := s.udp.udp_queue_drops + tally.drops
        udp_enqueued := s.udp.udp_enqueued + tally.enqueued
        queue_live := s.udp.queue_live + tally.enqueued }
      workers := s.workers.set thread_num { w with write := pool } }

end Pipeline

/-! ## Section 5: Staging -/

/-- What a node finds: can the pool grow, and does `request_to_record` succeed. -/
structure NodeMemory where
  grow : Bool
  record : Bool

/-- What a worker changes while it stages requests. -/
structure StageJob where
  metrics : RequestMetrics
  tmp : Pool Request
  invalid_packets : Nat

namespace RequestMetrics

variable (m : RequestMetrics)

/-- The counter of an error; the first entry of the table in the code is never used. -/
def count_reason : RequestError → RequestMetrics
  | .none => { m with requests_valid := m.requests_valid + 1 }
  | .timer_arrays => { m with bad_timer_arrays := m.bad_timer_arrays + 1 }
  | .flattened_tags => { m with bad_flattened_tags := m.bad_flattened_tags + 1 }
  | .dictionary_index => { m with bad_dictionary_index := m.bad_dictionary_index + 1 }
  | .representation_limit => { m with bad_representation := m.bad_representation + 1 }

def count_checked : RequestMetrics := { m with requests_checked := m.requests_checked + 1 }

def count_invalid : RequestMetrics := { m with requests_invalid := m.requests_invalid + 1 }

def count_valid : RequestMetrics := { m with requests_valid := m.requests_valid + 1 }

def count_stage_reject : RequestMetrics := { m with stage_rejects := m.stage_rejects + 1 }

def count_resource_reject : RequestMetrics := { m with resource_rejects := m.resource_rejects + 1 }

def count_staged : RequestMetrics := { m with requests_staged := m.requests_staged + 1 }

end RequestMetrics

namespace StageJob

variable (job : StageJob)

/-- The lambda `stage` of `data_job_func`. -/
def stage (memory : NodeMemory) (request : Request) : StageJob :=
  let metrics := job.metrics.count_checked
  let error := pinba_validate_request request
  if error ≠ .none then
    { job with
      metrics := metrics.count_invalid.count_reason error
      invalid_packets := job.invalid_packets + 1 }
  else
    let metrics := metrics.count_valid
    match job.tmp.make_room memory.grow with
    | none => { job with metrics := metrics.count_stage_reject }
    | some tmp =>
      if memory.record then
        { job with metrics := metrics.count_staged, tmp := { tmp with data := tmp.data ++ [request] } }
      else { job with metrics := metrics.count_resource_reject, tmp := tmp }

mutual

/-- The lambda `process` of `data_job_func`: a request, then the requests in it. -/
def process (memory : Nat → NodeMemory) (job : StageJob) : RequestTree → StageJob
  | .node request requests =>
    process_all memory (job.stage (memory job.metrics.requests_checked) request) requests

/-- Several trees, one after the other. -/
def process_all (memory : Nat → NodeMemory) (job : StageJob) : List RequestTree → StageJob
  | [] => job
  | tree :: trees => process_all memory (process memory job tree) trees

end

end StageJob

mutual

/-- The number of requests in a tree. -/
def RequestTree.nodes : RequestTree → Nat
  | .node _ requests => 1 + RequestTree.nodes_all requests

def RequestTree.nodes_all : List RequestTree → Nat
  | [] => 0
  | tree :: trees => tree.nodes + RequestTree.nodes_all trees

end

/-- `data_job_func` for one worker; a worker without datagrams gets no job. -/
def Worker.data_job_func (memory : Nat → NodeMemory) (metrics : RequestMetrics) (w : Worker) :
    RequestMetrics × Worker :=
  let job := StageJob.process_all memory ⟨metrics, w.tmp, w.invalid_packets⟩ w.read.data
  (job.metrics, { w with tmp := job.tmp, invalid_packets := job.invalid_packets })

/-- All workers; the counters are shared. -/
def stage_workers (memory : Nat → NodeMemory) (metrics : RequestMetrics) :
    List Worker → RequestMetrics × List Worker
  | [] => (metrics, [])
  | w :: workers =>
    let (metrics, w) := w.data_job_func memory metrics
    let (metrics, workers) := stage_workers memory metrics workers
    (metrics, w :: workers)

/-! ## Section 6: Copying to the ring -/

/-- `job_data_arr[i].end` for all threads: what is staged, cut down to what is left. -/
def shares : List Nat → Nat → List Nat
  | [], _ => []
  | staged :: rest, records_to_copy =>
    let share := if records_to_copy < staged then records_to_copy else staged
    share :: shares rest (records_to_copy - share)

/-- `res_cnt` of `request_copy_job_func`: the copies that did not fail. -/
def request_copy_job_func (copied : Nat → Bool) (share : Nat) : Nat :=
  (List.range share).countP copied

/-- The copies of all threads. -/
def copy_jobs (copied : Nat → Nat → Bool) : Nat → List Nat → Nat
  | _, [] => 0
  | thread, share :: rest =>
    request_copy_job_func (copied thread) share + copy_jobs copied (thread + 1) rest

theorem sum_shares (staged : List Nat) (records_to_copy : Nat) :
    (shares staged records_to_copy).sum = min staged.sum records_to_copy := by
  induction staged generalizing records_to_copy with
  | nil => simp [shares]
  | cons n rest ih =>
    simp only [shares, List.sum_cons, ih]
    split <;> omega

theorem copy_jobs_le (copied : Nat → Nat → Bool) (thread : Nat) (ends : List Nat) :
    copy_jobs copied thread ends ≤ ends.sum := by
  induction ends generalizing thread with
  | nil => exact le_rfl
  | cons share rest ih =>
    rw [copy_jobs, List.sum_cons]
    have hone : request_copy_job_func (copied thread) share ≤ share := by
      have hle := List.countP_le_length (p := copied thread) (l := List.range share)
      rwa [List.length_range] at hle
    exact Nat.add_le_add hone (ih (thread + 1))

namespace Pipeline

variable (s : Pipeline)

/-- `tmp_pool->in` of all threads. -/
def staged : List Nat := s.workers.map fun w => w.tmp.data.length

/-- `records_to_copy` after it was cut down to the free slots. -/
def records_to_copy : Nat :=
  if s.request_pool.free < s.staged.sum then s.request_pool.free else s.staged.sum

theorem records_to_copy_eq : s.records_to_copy = min s.staged.sum s.request_pool.free := by
  unfold records_to_copy
  split <;> omega

/-- The shares hand out exactly what is to be copied. -/
theorem sum_shares_staged : (shares s.staged s.records_to_copy).sum = s.records_to_copy := by
  rw [sum_shares, records_to_copy_eq]
  omega

/-- `records_created`. -/
def records_created (copied : Nat → Nat → Bool) : Nat :=
  copy_jobs copied 0 (shares s.staged s.records_to_copy)

theorem records_created_le_copy (copied : Nat → Nat → Bool) :
    s.records_created copied ≤ s.records_to_copy := by
  have hle := copy_jobs_le copied 0 (shares s.staged s.records_to_copy)
  rwa [sum_shares_staged] at hle

theorem records_created_le (copied : Nat → Nat → Bool) :
    s.records_created copied ≤ s.request_pool.free := by
  have hle := s.records_created_le_copy copied
  rw [records_to_copy_eq] at hle
  omega

/-- The section of `pinba_data_main` under `collector_lock`. -/
def publish (job_buffers : Bool) (copied : Nat → Nat → Bool) : Pipeline :=
  let records_to_copy := s.staged.sum
  if records_to_copy = 0 then { s with phase := .published }
  else if !job_buffers then
    { s with
      raw := { s.raw with raw_allocation_drops := s.raw.raw_allocation_drops + records_to_copy }
      phase := .published }
  else
    let free_slots := s.request_pool.free
    let lost_tmp_records := if free_slots < records_to_copy then records_to_copy - free_slots else 0
    let accounted := (shares s.staged s.records_to_copy).sum
    let records_created := s.records_created copied
    { s with
      raw := { s.raw with
        raw_admitted := s.raw.raw_admitted + records_created
        raw_capacity_drops := s.raw.raw_capacity_drops + lost_tmp_records
        raw_allocation_drops := s.raw.raw_allocation_drops +
          if records_created < accounted then accounted - records_created else 0 }
      workers := s.workers.map fun w => { w with tmp := w.tmp.clear }
      request_pool := s.request_pool.publish records_created (s.records_created_le copied)
      lost_tmp_records := s.lost_tmp_records + lost_tmp_records
      phase := .published }

/-! ## Section 7: The data thread and the stats thread -/

/-- Exchange `current_read_pool` and `current_write_pool`. -/
def swap : Pipeline :=
  { s with
    workers := s.workers.map fun w => { w with write := w.read, read := w.write }
    phase := .swapped }

/-- Run the data jobs, unless no datagram has arrived. -/
def stage (memory : Nat → NodeMemory) : Pipeline :=
  if (s.workers.map fun w => w.read.data.length).sum = 0 then { s with phase := .published }
  else
    let (requests, workers) := stage_workers memory s.requests s.workers
    { s with requests, workers, phase := .staged }

/-- The datagrams of the batch. -/
def batch : List RequestTree := s.workers.flatMap fun w => w.read.data

/-- From the label `sleep` on: the batch is over. -/
def finish : Pipeline :=
  { s with
    udp := { s.udp with
      udp_completed := s.udp.udp_completed + s.batch.length
      queue_live := s.udp.queue_live - s.batch.length }
    workers := s.workers.map fun w =>
      { w with tmp := w.tmp.clear, read := w.read.clear, invalid_packets := 0 }
    invalid_request_data := s.invalid_request_data + (s.workers.map Worker.invalid_packets).sum
    completed := s.batch ++ s.completed
    phase := .idle }

/-- `num` of an expiry pass, from the positions before and after it. -/
def expired_num (prev_request_id new_request_id : Nat) : Nat :=
  Circular.occupancy s.request_pool.size new_request_id prev_request_id

/-- An expiry pass of `pinba_stats_main` that finds `n` old records. -/
def expire (n : Nat) (h : n ≤ s.request_pool.count) : Pipeline :=
  let request_pool := s.request_pool.dropFront n h
  { s with
    raw := { s.raw with
      raw_expired := s.raw.raw_expired +
        s.expired_num s.request_pool.outPos request_pool.outPos }
    request_pool := request_pool }

/-! ## Section 8: Runs -/

/-- The daemon at start-up, with empty pools. -/
def init (threads requests : Nat) (data : Pool RequestTree) (tmp : Pool Request) : Pipeline where
  udp := ⟨0, 0, 0, 0, 0, 0⟩
  requests := ⟨0, 0, 0, 0, 0, 0, 0, 0, 0, 0⟩
  raw := ⟨0, 0, 0, 0⟩
  workers := List.replicate threads ⟨data.clear, data.clear, tmp.clear, 0⟩
  request_pool := .blank requests ()
  phase := .idle
  invalid_request_data := 0
  lost_tmp_records := 0
  completed := []

/-- One critical section. The steps of the data thread come in the order of its
    loop, everything else at any time. -/
inductive Step (s : Pipeline) : Pipeline → Prop
  | pinba_eat_udp (thread_num : Nat) (datagrams : List (Option RequestTree × Bool)) :
    Step s (s.pinba_eat_udp thread_num datagrams)
  | swap (h : s.phase = .idle) : Step s s.swap
  | stage (h : s.phase = .swapped) (memory : Nat → NodeMemory) : Step s (s.stage memory)
  | publish (h : s.phase = .staged) (job_buffers : Bool) (copied : Nat → Nat → Bool) :
    Step s (s.publish job_buffers copied)
  | finish (h : s.phase = .published) : Step s s.finish
  | expire (n : Nat) (h : n ≤ s.request_pool.count) : Step s (s.expire n h)

/-- The states that the daemon can reach. -/
inductive Reachable (threads requests : Nat) (data : Pool RequestTree) (tmp : Pool Request) :
    Pipeline → Prop
  | init : Reachable threads requests data tmp (init threads requests data tmp)
  | step {s s' : Pipeline} (hs : Reachable threads requests data tmp s) (h : Step s s') :
    Reachable threads requests data tmp s'

end Pipeline

/-! ## Section 9: One request, one tree, one worker -/

/-- The counters of the first stages add up. -/
structure RequestMetrics.Balanced (m : RequestMetrics) : Prop where
  checked : m.requests_checked = m.requests_invalid + m.requests_valid
  invalid : m.requests_invalid = m.bad_timer_arrays + m.bad_flattened_tags +
    m.bad_dictionary_index + m.bad_representation
  valid : m.requests_valid = m.stage_rejects + m.resource_rejects + m.requests_staged

/-- What staging `n` requests does to a job. -/
structure StageJob.Stages (n : Nat) (job job' : StageJob) : Prop where
  balanced : job.metrics.Balanced → job'.metrics.Balanced
  checked : job'.metrics.requests_checked = job.metrics.requests_checked + n
  staged : job'.metrics.requests_staged + job.tmp.data.length =
    job.metrics.requests_staged + job'.tmp.data.length
  invalid : job'.metrics.requests_invalid + job.invalid_packets =
    job.metrics.requests_invalid + job'.invalid_packets

namespace StageJob

variable {job job' job'' : StageJob} {n m : Nat}

theorem Stages.refl (job : StageJob) : Stages 0 job job := ⟨id, rfl, rfl, rfl⟩

theorem Stages.trans (h : Stages n job job') (h' : Stages m job' job'') :
    Stages (n + m) job job'' where
  balanced hb := h'.balanced (h.balanced hb)
  checked := by
    rw [h'.checked, h.checked, add_assoc]
  staged := by
    have h₁ := h.staged
    have h₂ := h'.staged
    omega
  invalid := by
    have h₁ := h.invalid
    have h₂ := h'.invalid
    omega

/-- Making room keeps what is in the pool. -/
theorem data_make_room {p p' : Pool Request} {memory : Bool} (h : p.make_room memory = some p') :
    p'.data = p.data := by
  unfold Pool.make_room at h
  split at h
  · unfold Pool.grow at h
    split at h
    · exact absurd h (by simp)
    · split at h
      · rw [← Option.some.inj h]
      · exact absurd h (by simp)
  · rw [← Option.some.inj h]

theorem balanced_invalid {metrics : RequestMetrics} {error : RequestError}
    (herror : error ≠ .none) (h : metrics.Balanced) :
    (metrics.count_checked.count_invalid.count_reason error).Balanced := by
  obtain ⟨hc, hi, hv⟩ := h
  cases error with
  | none => exact absurd rfl herror
  | timer_arrays | flattened_tags | dictionary_index | representation_limit =>
    refine ⟨?_, ?_, hv⟩ <;>
      simp only [RequestMetrics.count_checked, RequestMetrics.count_invalid,
        RequestMetrics.count_reason] <;> omega

/-- A valid request is rejected in one of two ways, or staged. -/
theorem balanced_valid {metrics : RequestMetrics} (h : metrics.Balanced) :
    metrics.count_checked.count_valid.count_stage_reject.Balanced ∧
      metrics.count_checked.count_valid.count_resource_reject.Balanced ∧
      metrics.count_checked.count_valid.count_staged.Balanced := by
  obtain ⟨hc, hi, hv⟩ := h
  refine ⟨⟨?_, hi, ?_⟩, ⟨?_, hi, ?_⟩, ⟨?_, hi, ?_⟩⟩ <;>
    simp only [RequestMetrics.count_checked, RequestMetrics.count_valid,
      RequestMetrics.count_stage_reject, RequestMetrics.count_resource_reject,
      RequestMetrics.count_staged] <;> omega

theorem count_reason_eq (metrics : RequestMetrics) {error : RequestError} (herror : error ≠ .none) :
    (metrics.count_reason error).requests_checked = metrics.requests_checked ∧
      (metrics.count_reason error).requests_staged = metrics.requests_staged ∧
      (metrics.count_reason error).requests_invalid = metrics.requests_invalid := by
  cases error with
  | none => exact absurd rfl herror
  | timer_arrays | flattened_tags | dictionary_index | representation_limit =>
    exact ⟨rfl, rfl, rfl⟩

/-- One request is counted once, whatever becomes of it. -/
theorem stages_stage (job : StageJob) (memory : NodeMemory) (request : Request) :
    Stages 1 job (job.stage memory request) := by
  unfold stage
  by_cases herror : pinba_validate_request request ≠ .none
  · -- a request that is not valid
    obtain ⟨hchecked, hstaged, hinvalid⟩ :=
      count_reason_eq job.metrics.count_checked.count_invalid herror
    simp only [if_pos herror]
    refine ⟨balanced_invalid herror, hchecked, ?_, ?_⟩
    · show (RequestMetrics.count_reason _ _).requests_staged + _ = _
      rw [hstaged]
      rfl
    · show (RequestMetrics.count_reason _ _).requests_invalid + _ = _
      rw [hinvalid]
      show job.metrics.requests_invalid + 1 + _ = _ + (job.invalid_packets + 1)
      omega
  · simp only [if_neg herror]
    cases hroom : job.tmp.make_room memory.grow with
    -- no room in the buffer of the worker
    | none => exact ⟨fun h => (balanced_valid h).1, rfl, rfl, rfl⟩
    | some tmp =>
      have hdata := data_make_room hroom
      cases memory.record with
      | false =>
        refine ⟨fun h => (balanced_valid h).2.1, rfl, ?_, rfl⟩
        show job.metrics.requests_staged + _ = _ + tmp.data.length
        rw [hdata]
      | true =>
        refine ⟨fun h => (balanced_valid h).2.2, rfl, ?_, rfl⟩
        show job.metrics.requests_staged + 1 + _ = _ + (tmp.data ++ [request]).length
        rw [List.length_append, hdata, List.length_singleton]
        omega

mutual

/-- A tree is counted once for each of its requests. -/
theorem stages_process (memory : Nat → NodeMemory) (job : StageJob) :
    ∀ tree : RequestTree, Stages tree.nodes job (process memory job tree)
  | .node request requests => by
    rw [process, RequestTree.nodes]
    exact (stages_stage job _ request).trans (stages_process_all memory _ requests)

theorem stages_process_all (memory : Nat → NodeMemory) (job : StageJob) :
    ∀ trees : List RequestTree,
      Stages (RequestTree.nodes_all trees) job (process_all memory job trees)
  | [] => by
    rw [process_all, RequestTree.nodes_all]
    exact .refl job
  | tree :: trees => by
    rw [process_all, RequestTree.nodes_all]
    exact (stages_process memory job tree).trans (stages_process_all memory _ trees)

end

end StageJob

theorem RequestTree.nodes_all_eq (trees : List RequestTree) :
    RequestTree.nodes_all trees = (trees.map RequestTree.nodes).sum := by
  induction trees with
  | nil => rw [RequestTree.nodes_all, List.map_nil, List.sum_nil]
  | cons tree trees ih => rw [RequestTree.nodes_all, ih, List.map_cons, List.sum_cons]

/-- The requests in some datagrams. -/
def nodes_total (trees : List RequestTree) : Nat := (trees.map RequestTree.nodes).sum

theorem nodes_total_append (xs ys : List RequestTree) :
    nodes_total (xs ++ ys) = nodes_total xs + nodes_total ys := by
  simp [nodes_total]

/-- What staging does to the workers, as seen from the counters. -/
structure StagesAll (workers workers' : List Worker) (m m' : RequestMetrics) : Prop where
  balanced : m.Balanced → m'.Balanced
  checked : m'.requests_checked =
    m.requests_checked + nodes_total (workers.flatMap fun w => w.read.data)
  staged : m'.requests_staged + (workers.map fun w => w.tmp.data.length).sum =
    m.requests_staged + (workers'.map fun w => w.tmp.data.length).sum
  invalid : m'.requests_invalid + (workers.map Worker.invalid_packets).sum =
    m.requests_invalid + (workers'.map Worker.invalid_packets).sum
  read : workers'.map Worker.read = workers.map Worker.read

theorem stagesAll_stage_workers (memory : Nat → NodeMemory) (m : RequestMetrics)
    (workers : List Worker) :
    StagesAll workers (stage_workers memory m workers).2 m (stage_workers memory m workers).1 := by
  induction workers generalizing m with
  | nil => exact ⟨id, rfl, rfl, rfl, rfl⟩
  | cons w workers ih =>
    -- one worker, then the others
    have hone := StageJob.stages_process_all memory ⟨m, w.tmp, w.invalid_packets⟩ w.read.data
    have hrest := ih (w.data_job_func memory m).1
    rw [stage_workers]
    refine ⟨fun hb => hrest.balanced (hone.balanced hb), ?_, ?_, ?_, ?_⟩
    · rw [hrest.checked, List.flatMap_cons, nodes_total_append, ← add_assoc]
      rw [show (w.data_job_func memory m).1.requests_checked = _ from hone.checked,
        RequestTree.nodes_all_eq]
      rfl
    · have h₁ : (w.data_job_func memory m).1.requests_staged + w.tmp.data.length =
        m.requests_staged + (w.data_job_func memory m).2.tmp.data.length := hone.staged
      have h₂ := hrest.staged
      simp only [List.map_cons, List.sum_cons]
      omega
    · have h₁ : (w.data_job_func memory m).1.requests_invalid + w.invalid_packets =
        m.requests_invalid + (w.data_job_func memory m).2.invalid_packets := hone.invalid
      have h₂ := hrest.invalid
      simp only [List.map_cons, List.sum_cons]
      omega
    · rw [List.map_cons, List.map_cons, hrest.read]
      rfl

/-! ## Section 10: Conservation -/

theorem tally_eat_datagrams (datagrams : List (Option RequestTree × Bool))
    (r : Pool RequestTree × Tally) :
    (datagrams.foldl eat_datagram r).2.decode_errors + (datagrams.foldl eat_datagram r).2.drops +
        (datagrams.foldl eat_datagram r).2.enqueued =
      r.2.decode_errors + r.2.drops + r.2.enqueued + datagrams.length := by
  induction datagrams generalizing r with
  | nil => rfl
  | cons datagram datagrams ih =>
    have hone : (eat_datagram r datagram).2.decode_errors + (eat_datagram r datagram).2.drops +
        (eat_datagram r datagram).2.enqueued =
        r.2.decode_errors + r.2.drops + r.2.enqueued + 1 := by
      unfold eat_datagram
      split
      · simp only
        omega
      · split <;> simp only <;> omega
    rw [List.foldl_cons, ih, hone, List.length_cons]
    omega

namespace Pipeline

variable {s s' : Pipeline}

/-- Requests that are checked although their batch is not over. -/
def in_flight (s : Pipeline) : Nat :=
  match s.phase with
  | .idle | .swapped => 0
  | .staged | .published => nodes_total s.batch

/-- Requests that are staged and not yet on their way to the ring. -/
def waiting (s : Pipeline) : Nat :=
  match s.phase with
  | .staged => s.staged.sum
  | .idle | .swapped | .published => 0

/-- The balance of the counters at every step. -/
structure Inv (s : Pipeline) : Prop where
  received : s.udp.udp_received =
    s.udp.udp_decode_errors + s.udp.udp_queue_drops + s.udp.udp_enqueued
  enqueued : (s.udp.udp_enqueued : Int) = s.udp.udp_completed + s.udp.queue_live
  completed : s.udp.udp_completed = s.completed.length
  balanced : s.requests.Balanced
  nodes : s.requests.requests_checked = nodes_total s.completed + s.in_flight
  staged : s.requests.requests_staged = s.raw.raw_admitted + s.raw.raw_capacity_drops +
    s.raw.raw_allocation_drops + s.waiting
  /-- The staging pools are empty when a batch begins. -/
  empty : s.phase = .idle ∨ s.phase = .swapped → s.staged.sum = 0
  ring : s.raw.raw_admitted = s.raw.raw_expired + s.request_pool.count
  invalid : s.requests.requests_invalid =
    s.invalid_request_data + (s.workers.map Worker.invalid_packets).sum
  lost : s.lost_tmp_records = s.raw.raw_capacity_drops

theorem sum_map_eq_zero {α : Type} (f : α → Nat) {xs : List α} (h : ∀ x ∈ xs, f x = 0) :
    (xs.map f).sum = 0 := by
  apply List.sum_eq_zero
  intro n hn
  obtain ⟨x, hx, rfl⟩ := List.mem_map.mp hn
  exact h x hx

theorem inv_init (threads requests : Nat) (data : Pool RequestTree) (tmp : Pool Request) :
    (init threads requests data tmp).Inv := by
  have hstaged : (init threads requests data tmp).staged.sum = 0 := by
    apply sum_map_eq_zero
    intro w hw
    rw [List.eq_of_mem_replicate hw]
    rfl
  refine ⟨rfl, rfl, rfl, ⟨rfl, rfl, rfl⟩, rfl, rfl, fun _ => hstaged, ?_, ?_, rfl⟩
  · show 0 = 0 + (CircularBuffer.blank requests ()).count
    rfl
  · show 0 = 0 + ((List.replicate threads _).map Worker.invalid_packets).sum
    rw [zero_add]
    symm
    apply sum_map_eq_zero
    intro w hw
    rw [List.eq_of_mem_replicate hw]

/-- What does not look at the write pool does not see a collector. -/
theorem map_set_write {β : Type} {workers : List Worker} {thread_num : Nat} {w w' : Worker}
    (f : Worker → β) (hw : workers[thread_num]? = some w) (hf : f w' = f w) :
    (workers.set thread_num w').map f = workers.map f := by
  apply List.ext_getElem?
  intro i
  rw [List.getElem?_map, List.getElem?_map, List.getElem?_set]
  by_cases hi : thread_num = i
  · subst hi
    obtain ⟨hlt, -⟩ := List.getElem?_eq_some_iff.mp hw
    rw [if_pos rfl, if_pos hlt, hw, Option.map_some, Option.map_some, hf]
  · rw [if_neg hi]

/-- The batch and the staged records as seen by the balance. -/
theorem batch_eq (s : Pipeline) : s.batch = ((s.workers.map Worker.read).map Pool.data).flatten := by
  unfold batch
  rw [List.flatMap_def, List.map_map]
  rfl

/-- A collector may publish a tally of all its datagrams with a new write pool. -/
theorem inv_received {thread_num n : Nat} {w : Worker} {pool : Pool RequestTree} {tally : Tally}
    (hs : s.Inv) (hw : s.workers[thread_num]? = some w)
    (htally : tally.decode_errors + tally.drops + tally.enqueued = n) :
    { s with
      udp := { s.udp with
        udp_received := s.udp.udp_received + n
        udp_decode_errors := s.udp.udp_decode_errors + tally.decode_errors
        udp_queue_drops := s.udp.udp_queue_drops + tally.drops
        udp_enqueued := s.udp.udp_enqueued + tally.enqueued
        queue_live := s.udp.queue_live + tally.enqueued }
      workers := s.workers.set thread_num { w with write := pool } }.Inv := by
  have hread := @map_set_write _ _ _ _ { w with write := pool } Worker.read hw rfl
  have htmp := @map_set_write _ _ _ _ { w with write := pool } (fun w => w.tmp.data.length) hw rfl
  have hinvalid := @map_set_write _ _ _ _ { w with write := pool } Worker.invalid_packets hw rfl
  refine ⟨?_, ?_, hs.completed, hs.balanced, ?_, ?_, ?_, hs.ring, ?_, hs.lost⟩
  · have hold := hs.received
    simp only
    omega
  · have hold := hs.enqueued
    simp only
    push_cast
    omega
  · simp only [in_flight, batch_eq, hread]
    simpa only [in_flight, batch_eq] using hs.nodes
  · simp only [waiting, Pipeline.staged, htmp]
    simpa only [waiting, Pipeline.staged] using hs.staged
  · simp only [Pipeline.staged, htmp]
    exact hs.empty
  · simp only [hinvalid]
    exact hs.invalid

theorem inv_eat_udp {thread_num : Nat} {datagrams : List (Option RequestTree × Bool)} (hs : s.Inv) :
    (s.pinba_eat_udp thread_num datagrams).Inv := by
  unfold pinba_eat_udp
  cases hw : s.workers[thread_num]? with
  | none => exact hs
  | some w =>
    refine inv_received hs hw ?_
    have htally := tally_eat_datagrams datagrams (w.write, ⟨0, 0, 0⟩)
    simpa only [zero_add] using htally

theorem inv_swap (hs : s.Inv) (hphase : s.phase = .idle) : s.swap.Inv := by
  have hstaged : s.swap.staged = s.staged := by
    unfold staged swap
    rw [List.map_map]
    rfl
  refine ⟨hs.received, hs.enqueued, hs.completed, hs.balanced, ?_, ?_, ?_, hs.ring, ?_, hs.lost⟩
  · have hold := hs.nodes
    rwa [show s.in_flight = 0 by rw [in_flight, hphase]] at hold
  · have hold := hs.staged
    rwa [show s.waiting = 0 by rw [waiting, hphase]] at hold
  · intro _
    rw [hstaged]
    exact hs.empty (.inl hphase)
  · have hold := hs.invalid
    unfold swap
    simp only [List.map_map]
    exact hold

theorem nodes_of_begun (hs : s.Inv) (hphase : s.phase = .idle ∨ s.phase = .swapped) :
    s.requests.requests_checked = nodes_total s.completed := by
  rw [hs.nodes, in_flight]
  rcases hphase with h | h <;> rw [h, add_zero]

theorem staged_of_begun (hs : s.Inv) (hphase : s.phase ≠ .staged) :
    s.requests.requests_staged =
      s.raw.raw_admitted + s.raw.raw_capacity_drops + s.raw.raw_allocation_drops := by
  rw [hs.staged, waiting]
  cases h : s.phase with
  | staged => exact absurd h hphase
  | idle | swapped | published => rw [add_zero]

/-- All requests of the batch are counted, and what was staged waits. -/
theorem inv_staged {m : RequestMetrics} {workers : List Worker} (hs : s.Inv)
    (hphase : s.phase = .swapped) (hall : StagesAll s.workers workers s.requests m) :
    { s with requests := m, workers := workers, phase := .staged }.Inv := by
  refine ⟨hs.received, hs.enqueued, hs.completed, hall.balanced hs.balanced, ?_, ?_, ?_, hs.ring,
    ?_, hs.lost⟩
  · simp only [in_flight, batch_eq, hall.read]
    rw [← batch_eq, hall.checked, nodes_of_begun hs (.inr hphase)]
    rfl
  · have hsum := hall.staged
    have hempty : (s.workers.map fun w => w.tmp.data.length).sum = 0 := hs.empty (.inr hphase)
    rw [hempty, add_zero, staged_of_begun hs (by simp [hphase])] at hsum
    simp only [waiting, Pipeline.staged]
    exact hsum
  · rintro (h | h) <;> exact absurd h (by simp)
  · have hsum := hall.invalid
    have hold := hs.invalid
    simp only
    omega

theorem inv_stage {memory : Nat → NodeMemory} (hs : s.Inv) (hphase : s.phase = .swapped) :
    (s.stage memory).Inv := by
  unfold stage
  by_cases hnone : (s.workers.map fun w => w.read.data.length).sum = 0
  · -- no datagrams: there is nothing to count
    have hnodes := nodes_of_begun hs (.inr hphase)
    have hstaged := staged_of_begun hs (by simp [hphase])
    rw [if_pos hnone]
    refine ⟨hs.received, hs.enqueued, hs.completed, hs.balanced, ?_, hstaged, ?_, hs.ring,
      hs.invalid, hs.lost⟩
    · have hbatch : s.batch = [] := by
        rw [← List.length_eq_zero_iff, batch, List.length_flatMap]
        exact hnone
      have hflight : nodes_total s.batch = 0 := by
        rw [hbatch]
        rfl
      show _ = _ + nodes_total s.batch
      rw [hflight]
      exact hnodes
    · rintro (h | h) <;> exact absurd h (by simp)
  · rw [if_neg hnone]
    exact inv_staged hs hphase (stagesAll_stage_workers memory s.requests s.workers)

/-- Every staged record is admitted, or lost for one of two reasons. -/
theorem inv_publish {job_buffers : Bool} {copied : Nat → Nat → Bool} (hs : s.Inv)
    (hphase : s.phase = .staged) : (s.publish job_buffers copied).Inv := by
  have hnodes := hs.nodes
  have hstaged := hs.staged
  rw [show s.in_flight = nodes_total s.batch by rw [in_flight, hphase]] at hnodes
  rw [show s.waiting = s.staged.sum by rw [waiting, hphase]] at hstaged
  unfold publish
  by_cases hnone : s.staged.sum = 0
  · -- nothing to publish
    rw [if_pos hnone]
    refine ⟨hs.received, hs.enqueued, hs.completed, hs.balanced, hnodes, ?_, ?_, hs.ring,
      hs.invalid, hs.lost⟩
    · rw [hnone] at hstaged
      exact hstaged
    · rintro (h | h) <;> exact absurd h (by simp)
  rw [if_neg hnone]
  cases job_buffers with
  | false =>
    -- without the job buffers all staged records are dropped
    rw [if_pos (by simp)]
    refine ⟨hs.received, hs.enqueued, hs.completed, hs.balanced, hnodes, ?_, ?_, hs.ring,
      hs.invalid, hs.lost⟩
    · show s.requests.requests_staged = s.raw.raw_admitted + s.raw.raw_capacity_drops +
        (s.raw.raw_allocation_drops + s.staged.sum) + 0
      omega
    · rintro (h | h) <;> exact absurd h (by simp)
  | true =>
    -- capacity drops, then allocation drops
    have hcreated := s.records_created_le_copy copied
    have hcopy := s.records_to_copy_eq
    rw [if_neg (by simp), sum_shares_staged]
    refine ⟨hs.received, hs.enqueued, hs.completed, hs.balanced, ?_, ?_, ?_, ?_, ?_, ?_⟩
    · simp only [in_flight, batch, List.flatMap_map]
      exact hnodes
    · show s.requests.requests_staged = s.raw.raw_admitted + s.records_created copied +
        (s.raw.raw_capacity_drops + if s.request_pool.free < s.staged.sum then
          s.staged.sum - s.request_pool.free else 0) +
        (s.raw.raw_allocation_drops + if s.records_created copied < s.records_to_copy then
          s.records_to_copy - s.records_created copied else 0) + 0
      split <;> split <;> omega
    · rintro (h | h) <;> exact absurd h (by simp)
    · have hold := hs.ring
      show s.raw.raw_admitted + s.records_created copied =
        s.raw.raw_expired + (s.request_pool.publish _ (s.records_created_le copied)).count
      rw [CircularBuffer.count_publish]
      omega
    · simp only [List.map_map]
      exact hs.invalid
    · have hold := hs.lost
      show s.lost_tmp_records + _ = s.raw.raw_capacity_drops + _
      rw [hold]

theorem inv_finish (hs : s.Inv) (hphase : s.phase = .published) : s.finish.Inv := by
  have hnodes := hs.nodes
  rw [show s.in_flight = nodes_total s.batch by rw [in_flight, hphase]] at hnodes
  have hstaged := staged_of_begun hs (by simp [hphase])
  refine ⟨hs.received, ?_, ?_, hs.balanced, ?_, ?_, ?_, hs.ring, ?_, hs.lost⟩
  · have hold := hs.enqueued
    show (s.udp.udp_enqueued : Int) =
      (s.udp.udp_completed + s.batch.length : Nat) + (s.udp.queue_live - s.batch.length)
    push_cast
    omega
  · show s.udp.udp_completed + s.batch.length = (s.batch ++ s.completed).length
    rw [List.length_append, hs.completed, add_comm]
  · show s.requests.requests_checked = nodes_total (s.batch ++ s.completed) + 0
    rw [nodes_total_append, hnodes]
    omega
  · exact hstaged
  · -- the workers are cleared
    intro _
    apply sum_map_eq_zero
    intro w hw
    obtain ⟨w', -, rfl⟩ := List.mem_map.mp hw
    rfl
  · have hcleared : (s.finish.workers.map Worker.invalid_packets).sum = 0 := by
      apply sum_map_eq_zero
      intro w hw
      obtain ⟨w', -, rfl⟩ := List.mem_map.mp hw
      rfl
    rw [hcleared, add_zero]
    exact hs.invalid

/-- The positions of the ring tell how many records went. -/
theorem expired_num_eq {n : Nat} (h : n ≤ s.request_pool.count) :
    s.expired_num s.request_pool.outPos (s.request_pool.dropFront n h).outPos = n := by
  have hlt := s.request_pool.count_lt
  show Circular.occupancy _ (Circular.advance _ _ n) _ = n
  rw [Circular.advance_eq_mod s.request_pool.out_lt (by omega)]
  exact Circular.occupancy_of_mod s.request_pool.out_lt (by omega)

theorem inv_expire {n : Nat} (hs : s.Inv) (h : n ≤ s.request_pool.count) : (s.expire n h).Inv := by
  refine ⟨hs.received, hs.enqueued, hs.completed, hs.balanced, hs.nodes, hs.staged, hs.empty, ?_,
    hs.invalid, hs.lost⟩
  have hold := hs.ring
  have hcount := s.request_pool.count_dropFront h
  show s.raw.raw_admitted = s.raw.raw_expired + s.expired_num _ _ +
    (s.request_pool.dropFront n h).count
  rw [expired_num_eq h]
  omega

theorem inv_step (hs : s.Inv) (h : Step s s') : s'.Inv := by
  cases h with
  | pinba_eat_udp => exact inv_eat_udp hs
  | swap h => exact inv_swap hs h
  | stage h => exact inv_stage hs h
  | publish h => exact inv_publish hs h
  | finish h => exact inv_finish hs h
  | expire n h => exact inv_expire hs h

theorem inv_of_reachable {threads requests : Nat} {data : Pool RequestTree} {tmp : Pool Request}
    (h : Reachable threads requests data tmp s) : s.Inv := by
  induction h with
  | init => exact inv_init threads requests data tmp
  | step _ h ih => exact inv_step ih h

/-- Every datagram is accounted for. -/
structure DatagramsCounted (s : Pipeline) : Prop where
  received : s.udp.udp_received =
    s.udp.udp_decode_errors + s.udp.udp_queue_drops + s.udp.udp_enqueued
  enqueued : (s.udp.udp_enqueued : Int) = s.udp.udp_completed + s.udp.queue_live
  completed : s.udp.udp_completed = s.completed.length

/-- Every request of the batches that are over is accounted for. -/
structure RequestsCounted (s : Pipeline) : Prop where
  checked : s.requests.requests_checked = s.requests.requests_invalid + s.requests.requests_valid
  nodes : s.requests.requests_checked = nodes_total s.completed
  valid : s.requests.requests_valid =
    s.requests.stage_rejects + s.requests.resource_rejects + s.requests.requests_staged
  staged : s.requests.requests_staged =
    s.raw.raw_admitted + s.raw.raw_capacity_drops + s.raw.raw_allocation_drops

/-- Every record of the ring is accounted for. -/
def RecordsCounted (s : Pipeline) : Prop :=
  (s.raw.raw_admitted : Int) - s.raw.raw_expired = s.request_pool.count

theorem Inv.datagrams_counted (hs : s.Inv) : s.DatagramsCounted :=
  ⟨hs.received, hs.enqueued, hs.completed⟩

/-- Between two batches no request is on its way. -/
theorem Inv.requests_counted (hs : s.Inv) (hphase : s.phase = .idle) : s.RequestsCounted :=
  ⟨hs.balanced.checked, nodes_of_begun hs (.inl hphase), hs.balanced.valid,
    staged_of_begun hs (by simp [hphase])⟩

theorem Inv.records_counted (hs : s.Inv) : s.RecordsCounted := by
  have hring := hs.ring
  unfold RecordsCounted
  omega

/-- A request without timers and tags. -/
def bare_request : Request := ⟨[], 0, [], [], [], [], [], 0⟩

/-- A datagram with one nested request. -/
def nested_request : RequestTree := .node bare_request [.node bare_request []]

end Pipeline

end PinbaEngine
