import PinbaEngine.Lib.Threads
import PinbaEngine.Pipeline

/-! # The sections of the collectors

    `pinba_eat_udp` comes in two builds. With `recvmmsg` a collector takes a batch of
    datagrams, pushes them under `per_thread_pools_lock` and publishes all counters
    before it gives the lock back. Without it the collector takes one datagram at a
    time, and counts it in `udp_received` before it asks for the lock.

    Here collectors and the data thread take turns after every datagram, and only the
    exchange of the pools waits for the collectors inside. Both builds are shown to do
    what `Pipeline` does with whole sections: a state in which no collector is between
    its datagrams is one that `Pipeline` reaches.
-/

namespace PinbaEngine

/-! ## Section 1: Pools put back -/

/-- The worker with another write pool. -/
def Worker.restore (w : Worker) : Option (Pool RequestTree) → Worker
  | none => w
  | some pool => { w with write := pool }

namespace Worker

variable (w : Worker) (o : Option (Pool RequestTree))

@[simp] theorem restore_none : w.restore none = w := rfl

@[simp] theorem read_restore : (w.restore o).read = w.read := by cases o <;> rfl

@[simp] theorem tmp_restore : (w.restore o).tmp = w.tmp := by cases o <;> rfl

@[simp] theorem invalid_packets_restore : (w.restore o).invalid_packets = w.invalid_packets := by
  cases o <;> rfl

/-- The data jobs do not look at write pools. -/
theorem data_job_func_restore (memory : Nat → NodeMemory) (metrics : RequestMetrics) :
    (w.restore o).data_job_func memory metrics =
      ((w.data_job_func memory metrics).1, (w.data_job_func memory metrics).2.restore o) := by
  cases o <;> rfl

end Worker

namespace Pipeline

variable (s : Pipeline)

def set_worker (w : Nat) (worker : Worker) : Pipeline := { s with workers := s.workers.set w worker }

/-- The pipeline with other write pools and another number of received datagrams. -/
def rewind (old : Nat → Option (Pool RequestTree)) (received : Nat) : Pipeline :=
  { s with
    udp := { s.udp with udp_received := received }
    workers := s.workers.mapIdx fun i w => w.restore (old i) }

variable {s} {old : Nat → Option (Pool RequestTree)} {received : Nat}

theorem rewind_none : s.rewind (fun _ => none) s.udp.udp_received = s := by
  unfold rewind
  rw [show s.workers.mapIdx (fun i w => w.restore none) = s.workers from List.mapIdx_eq_iff.mpr
    fun i => by simp]

theorem getElem?_rewind (i : Nat) :
    (s.rewind old received).workers[i]? = s.workers[i]?.map fun w => w.restore (old i) :=
  List.getElem?_mapIdx

/-- What does not depend on the write pools is the same for all workers. -/
theorem map_restore {β : Type} (f : Worker → β) (hf : ∀ w o, f (w.restore o) = f w) :
    (s.rewind old received).workers.map f = s.workers.map f := by
  apply List.ext_getElem?
  intro i
  rw [List.getElem?_map, List.getElem?_map, getElem?_rewind, Option.map_map]
  congr 1
  exact funext fun w => hf w _

theorem stage_workers_restore (memory : Nat → NodeMemory) (metrics : RequestMetrics)
    (workers : List Worker) (old : Nat → Option (Pool RequestTree)) :
    stage_workers memory metrics (workers.mapIdx fun i w => w.restore (old i)) =
      ((stage_workers memory metrics workers).1,
        (stage_workers memory metrics workers).2.mapIdx fun i w => w.restore (old i)) := by
  induction workers generalizing metrics old with
  | nil => rfl
  | cons w workers ih =>
    rw [List.mapIdx_cons]
    simp only [stage_workers, Worker.data_job_func_restore]
    rw [ih _ fun i => old (i + 1)]
    rw [List.mapIdx_cons]

/-- What a collector inside does to its pool is not seen. -/
theorem rewind_set_write {w : Nat} {worker : Worker} {pool : Pool RequestTree}
    (hworker : s.workers[w]? = some worker) (hpool : old w = some pool) (write : Pool RequestTree) :
    (s.set_worker w { worker with write }).rewind old received = s.rewind old received := by
  have hw := (List.getElem?_eq_some_iff.mp hworker).1
  unfold rewind set_worker
  congr 1
  apply List.ext_getElem?
  intro i
  rw [List.getElem?_mapIdx, List.getElem?_mapIdx]
  by_cases heq : i = w
  · subst heq
    rw [List.getElem?_set_self hw, hworker, hpool]
    rfl
  · rw [List.getElem?_set_ne (Ne.symm heq)]

/-! ### The steps of the data thread on rewound states -/

theorem stage_rewind (memory : Nat → NodeMemory) :
    (s.rewind old received).stage memory = (s.stage memory).rewind old received := by
  have hsum : ((s.rewind old received).workers.map fun w => w.read.data.length) =
      s.workers.map fun w => w.read.data.length :=
    map_restore _ fun w o => by rw [Worker.read_restore]
  unfold stage
  rw [hsum]
  split
  · rfl
  · show _ = rewind _ _ _
    have hworkers := stage_workers_restore memory s.requests s.workers old
    simp only [rewind, hworkers]

theorem staged_rewind : (s.rewind old received).staged = s.staged :=
  map_restore _ fun w o => by rw [Worker.tmp_restore]

theorem clear_rewind (s : Pipeline) (old : Nat → Option (Pool RequestTree)) (received : Nat)
    (f : Worker → Worker) (hf : ∀ w o, f (w.restore o) = (f w).restore o) :
    (s.rewind old received).workers.map f =
      (s.workers.map f).mapIdx fun i w => w.restore (old i) := by
  apply List.ext_getElem?
  intro i
  rw [List.getElem?_map, getElem?_rewind, List.getElem?_mapIdx, List.getElem?_map, Option.map_map,
    Option.map_map]
  congr 1
  exact funext fun w => hf w _

theorem finish_rewind :
    (s.rewind old received).finish = s.finish.rewind old received := by
  have hbatch : (s.rewind old received).batch = s.batch := by
    unfold batch
    rw [List.flatMap_def, List.flatMap_def, map_restore _ fun w o => by rw [Worker.read_restore]]
  have hinvalid : (s.rewind old received).workers.map Worker.invalid_packets =
      s.workers.map Worker.invalid_packets :=
    map_restore _ fun w o => by rw [Worker.invalid_packets_restore]
  have hworkers := clear_rewind s old received
    (fun w => { w with tmp := w.tmp.clear, read := w.read.clear, invalid_packets := 0 })
    fun w o => by cases o <;> rfl
  unfold finish
  rw [hbatch, hinvalid, hworkers]
  rfl

theorem publish_rewind (job_buffers : Bool) (copied : Nat → Nat → Bool) :
    (s.rewind old received).publish job_buffers copied =
      (s.publish job_buffers copied).rewind old received := by
  have hstaged : (s.rewind old received).staged = s.staged := staged_rewind
  have hcopy : (s.rewind old received).records_to_copy = s.records_to_copy := by
    unfold records_to_copy
    rw [hstaged]
    rfl
  have hcreated : (s.rewind old received).records_created copied = s.records_created copied := by
    unfold records_created
    rw [hstaged, hcopy]
  have hworkers := clear_rewind s old received
    (fun w => { w with tmp := w.tmp.clear }) fun w o => by cases o <;> rfl
  unfold publish
  simp only [hstaged, hcopy, hcreated, hworkers]
  split
  · rfl
  · split
    · rfl
    · rfl

/-- Without collectors inside, the exchange does not see the rewinding. -/
theorem swap_rewind : (s.rewind (fun _ => none) received).swap = s.swap.rewind (fun _ => none) received := by
  have hid : ∀ workers : List Worker,
      workers.mapIdx (fun i w => w.restore ((fun _ => none : Nat → Option (Pool RequestTree)) i)) =
        workers := fun workers =>
    List.mapIdx_eq_iff.mpr fun i => by simp
  unfold swap rewind
  simp only [hid]

end Pipeline

/-! ## Section 2: Turns -/

/-- The size of a batch for `recvmmsg`. -/
def PINBA_VLEN : Nat := 64

/-- A collector between two calls of `recvmmsg` or `recvmsg`. -/
inductive Receiver where
  | polling
  /-- The datagram is counted, and the collector waits for the lock (`recvmsg` only). -/
  | received
  /-- With the read lock; `left` of `num` datagrams are still to be decoded. -/
  | filling (num left : Nat) (tally : Tally)

/-- The pipeline, and where its collectors are. -/
structure Interleaving where
  pipeline : Pipeline
  receivers : Nat → Receiver

namespace Interleaving

variable (s : Interleaving)

def on_pipeline (p : Pipeline) : Interleaving := { s with pipeline := p }

def set_receiver (w : Nat) (r : Receiver) : Interleaving :=
  { s with receivers := Function.update s.receivers w r }

/-- `pinba_udp_record_receive(1)` before the lock. -/
def receive (w : Nat) : Interleaving :=
  { s with pipeline := { s.pipeline with
      udp := { s.pipeline.udp with udp_received := s.pipeline.udp.udp_received + 1 } } }.set_receiver w
    .received

def enter (w num : Nat) : Interleaving := s.set_receiver w (.filling num num ⟨0, 0, 0⟩)

/-- One datagram goes to the collector's pool. -/
def eat (w : Nat) (datagram : Option RequestTree × Bool) : Interleaving :=
  match s.receivers w, s.pipeline.workers[w]? with
  | .filling num left tally, some worker =>
    let (pool, tally) := eat_datagram (worker.write, tally) datagram
    (s.on_pipeline (s.pipeline.set_worker w { worker with write := pool })).set_receiver w
      (.filling num (left - 1) tally)
  | _, _ => s

/-- Publish the counters of a section. -/
def leave (recvmmsg : Bool) (w : Nat) : Interleaving :=
  match s.receivers w with
  | .filling num _ tally =>
    { s with pipeline := { s.pipeline with
        udp := { s.pipeline.udp with
          udp_received := s.pipeline.udp.udp_received + if recvmmsg then num else 0
          udp_decode_errors := s.pipeline.udp.udp_decode_errors + tally.decode_errors
          udp_queue_drops := s.pipeline.udp.udp_queue_drops + tally.drops
          udp_enqueued := s.pipeline.udp.udp_enqueued + tally.enqueued
          queue_live := s.pipeline.udp.queue_live + tally.enqueued } } }.set_receiver w .polling
  | _ => s

/-- One turn, in the build with or without `recvmmsg`. -/
inductive Step (recvmmsg : Bool) (s : Interleaving) : Interleaving → Prop
  | recvmmsg (w num : Nat) (hbuild : recvmmsg = true) (hw : w < s.pipeline.workers.length)
    (hpolling : s.receivers w = .polling) (hnum : 0 < num) (hmost : num ≤ PINBA_VLEN) :
    Step recvmmsg s (s.enter w num)
  | recvmsg (w : Nat) (hbuild : recvmmsg = false) (hw : w < s.pipeline.workers.length)
    (hpolling : s.receivers w = .polling) : Step recvmmsg s (s.receive w)
  | lock (w : Nat) (hw : w < s.pipeline.workers.length) (hreceived : s.receivers w = .received) :
    Step recvmmsg s (s.enter w 1)
  | eat (w : Nat) (datagram : Option RequestTree × Bool) {num left : Nat} {tally : Tally}
    (hfilling : s.receivers w = .filling num (left + 1) tally) : Step recvmmsg s (s.eat w datagram)
  | leave (w : Nat) {num : Nat} {tally : Tally} (hfilling : s.receivers w = .filling num 0 tally) :
    Step recvmmsg s (s.leave recvmmsg w)
  /-- The writer waits for all readers. -/
  | swap (h : s.pipeline.phase = .idle)
    (hout : ∀ w num left tally, s.receivers w ≠ .filling num left tally) :
    Step recvmmsg s (s.on_pipeline s.pipeline.swap)
  | stage (h : s.pipeline.phase = .swapped) (memory : Nat → NodeMemory) :
    Step recvmmsg s (s.on_pipeline (s.pipeline.stage memory))
  | publish (h : s.pipeline.phase = .staged) (job_buffers : Bool) (copied : Nat → Nat → Bool) :
    Step recvmmsg s (s.on_pipeline (s.pipeline.publish job_buffers copied))
  | finish (h : s.pipeline.phase = .published) : Step recvmmsg s (s.on_pipeline s.pipeline.finish)
  | expire (n : Nat) (h : n ≤ s.pipeline.request_pool.count) :
    Step recvmmsg s (s.on_pipeline (s.pipeline.expire n h))

/-- The states of all runs of one build. -/
inductive Reachable (recvmmsg : Bool) (threads requests : Nat) (data : Pool RequestTree)
    (tmp : Pool Request) : Interleaving → Prop
  | init : Reachable recvmmsg threads requests data tmp
    ⟨.init threads requests data tmp, fun _ => .polling⟩
  | step {s s' : Interleaving} (hs : Reachable recvmmsg threads requests data tmp s)
    (h : Step recvmmsg s s') : Reachable recvmmsg threads requests data tmp s'

/-! ## Section 3: Sections that are not over -/

/-- What a collector has added to `udp_received` for a section that is not over. -/
def early (recvmmsg : Bool) : Receiver → Nat
  | .polling => 0
  | .received => if recvmmsg then 0 else 1
  | .filling num _ _ => if recvmmsg then 0 else num

theorem early_polling (recvmmsg : Bool) : early recvmmsg .polling = 0 := rfl

theorem early_filling (recvmmsg : Bool) (num left : Nat) (tally : Tally) :
    early recvmmsg (.filling num left tally) = if recvmmsg then 0 else num := rfl

/-- How far a run with whole sections lags behind: `old` are the pools of the collectors
    inside as they found them, and `received` what is counted for the others. -/
structure Lags (recvmmsg : Bool) (s : Interleaving) (old : Nat → Option (Pool RequestTree))
    (received : Nat) : Prop where
  outside : ∀ w, (∀ num left tally, s.receivers w ≠ .filling num left tally) → old w = none
  inside : ∀ w num left tally, s.receivers w = .filling num left tally →
    ∃ (pool : Pool RequestTree) (worker : Worker) (eaten : List (Option RequestTree × Bool)),
      old w = some pool ∧ s.pipeline.workers[w]? = some worker ∧
      eaten.foldl eat_datagram (pool, ⟨0, 0, 0⟩) = (worker.write, tally) ∧ eaten.length + left = num
  early : received + ∑ w ∈ Finset.range s.pipeline.workers.length, early recvmmsg (s.receivers w) =
    s.pipeline.udp.udp_received

section steps
variable {recvmmsg : Bool} {s : Interleaving} {old : Nat → Option (Pool RequestTree)} {received w : Nat}

theorem receiver_set (r : Receiver) (i : Nat) :
    (s.set_receiver w r).receivers i = if i = w then r else s.receivers i :=
  Function.update_apply _ _ _ _

theorem lt_of_filling {num left : Nat} {tally : Tally} (h : Lags recvmmsg s old received)
    (hw : s.receivers w = .filling num left tally) : w < s.pipeline.workers.length := by
  obtain ⟨_, worker, _, -, hworker, -⟩ := h.inside w _ _ _ hw
  exact (List.getElem?_eq_some_iff.mp hworker).1

/-- A collector that is outside and stays there. -/
theorem lags_of_outside {r : Receiver} {p : Pipeline} (h : Lags recvmmsg s old received)
    (hw : w < s.pipeline.workers.length)
    (hold : ∀ num left tally, s.receivers w ≠ .filling num left tally)
    (hnew : ∀ num left tally, r ≠ .filling num left tally)
    (hworkers : p.workers = s.pipeline.workers)
    (hearly : p.udp.udp_received + early recvmmsg (s.receivers w) =
      s.pipeline.udp.udp_received + early recvmmsg r) :
    Lags recvmmsg ((s.on_pipeline p).set_receiver w r) old received := by
  refine ⟨fun i hi => ?_, fun i num left tally hi => ?_, ?_⟩
  · apply h.outside
    intro num left tally hfilling
    have hset := hi num left tally
    rw [receiver_set] at hset
    split at hset
    · next heq => exact hold num left tally (heq ▸ hfilling)
    · exact hset hfilling
  · rw [receiver_set] at hi
    split at hi
    · exact absurd hi (hnew num left tally)
    · obtain ⟨pool, worker, eaten, hpool, hworker, hrest⟩ := h.inside i _ _ _ hi
      exact ⟨pool, worker, eaten, hpool, hworkers ▸ hworker, hrest⟩
  · have hsum := Threads.sum_share_update (early recvmmsg) s.receivers hw r
    have hbefore := h.early
    show received + ∑ i ∈ Finset.range p.workers.length,
      early recvmmsg (Function.update s.receivers w r i) = p.udp.udp_received
    rw [hworkers]
    omega

/-- A collector goes in; its pool is remembered as it is. -/
theorem lags_enter (num : Nat) (h : Lags recvmmsg s old received)
    (hw : w < s.pipeline.workers.length)
    (hout : ∀ num left tally, s.receivers w ≠ .filling num left tally)
    (hearly : early recvmmsg (.filling num num ⟨0, 0, 0⟩) = early recvmmsg (s.receivers w)) :
    ∃ old', Lags recvmmsg (s.enter w num) old' received ∧
      s.pipeline.rewind old' received = s.pipeline.rewind old received := by
  have hworker := List.getElem?_eq_getElem hw
  refine ⟨Function.update old w (some s.pipeline.workers[w].write), ⟨fun i hi => ?_,
    fun i num' left tally hi => ?_, ?_⟩, ?_⟩
  · by_cases heq : i = w
    · subst heq
      have hset := hi num num ⟨0, 0, 0⟩
      rw [show (s.enter i num).receivers i = .filling num num ⟨0, 0, 0⟩ from
        (receiver_set _ _).trans (if_pos rfl)] at hset
      exact absurd rfl hset
    · rw [Function.update_of_ne heq]
      apply h.outside
      intro num' left tally hfilling
      exact hi num' left tally (((receiver_set _ _).trans (if_neg heq)).trans hfilling)
  · rw [show (s.enter w num).receivers i = _ from receiver_set _ _] at hi
    split at hi
    · next heq =>
      subst heq
      obtain ⟨rfl, rfl, rfl⟩ := Receiver.filling.inj hi
      exact ⟨_, _, [], Function.update_self _ _ _, hworker, rfl, Nat.zero_add _⟩
    · next hne =>
      obtain ⟨pool, worker, eaten, hpool, hrest⟩ := h.inside i _ _ _ hi
      exact ⟨pool, worker, eaten, (Function.update_of_ne hne _ _).trans hpool, hrest⟩
  · have hsum := Threads.sum_share_update_same (n := s.pipeline.workers.length) (early recvmmsg)
      s.receivers hearly
    exact (congrArg (received + ·) hsum).trans h.early
  · -- a worker with its own pool is the worker itself
    unfold Pipeline.rewind
    congr 1
    apply List.ext_getElem?
    intro i
    rw [List.getElem?_mapIdx, List.getElem?_mapIdx]
    by_cases heq : i = w
    · subst heq
      rw [Function.update_self, h.outside i hout, hworker]
      rfl
    · rw [Function.update_of_ne heq]

/-- One more datagram of a section changes nothing for the run with whole sections. -/
theorem lags_eat {num left : Nat} {tally : Tally} (datagram : Option RequestTree × Bool)
    (h : Lags recvmmsg s old received) (hfilling : s.receivers w = .filling num (left + 1) tally) :
    Lags recvmmsg (s.eat w datagram) old received ∧
      (s.eat w datagram).pipeline.rewind old received = s.pipeline.rewind old received := by
  obtain ⟨pool, worker, eaten, hpool, hworker, heaten, hlength⟩ := h.inside w _ _ _ hfilling
  have hw := lt_of_filling h hfilling
  unfold eat
  rw [hfilling, hworker]
  dsimp only
  refine ⟨⟨fun i hi => ?_, fun i num' left' tally' hi => ?_, ?_⟩, ?_⟩
  · apply h.outside
    intro num' left' tally' hold
    have hset := hi num' left' tally'
    rw [receiver_set] at hset
    split at hset
    · next heq =>
      subst heq
      exact hi _ _ _ ((receiver_set _ _).trans (if_pos rfl))
    · exact hset hold
  · rw [receiver_set] at hi
    split at hi
    · next heq =>
      subst heq
      obtain ⟨rfl, rfl, rfl⟩ := Receiver.filling.inj hi
      refine ⟨pool, _, eaten ++ [datagram], hpool, List.getElem?_set_self hw, ?_, ?_⟩
      · rw [List.foldl_append, heaten]
        rfl
      · rw [List.length_append, List.length_singleton]
        omega
    · next hne =>
      obtain ⟨pool', worker', eaten', hpool', hworker', hrest⟩ := h.inside i _ _ _ hi
      exact ⟨pool', worker', eaten', hpool', (List.getElem?_set_ne (Ne.symm hne)).trans hworker', hrest⟩
  · have hsum := Threads.sum_share_update_same (n := s.pipeline.workers.length)
      (x := .filling num (left + 1 - 1) (eat_datagram (worker.write, tally) datagram).2)
      (early recvmmsg) s.receivers (w := w) (by rw [hfilling]; rfl)
    show received + ∑ i ∈ Finset.range (s.pipeline.workers.set w _).length,
      early recvmmsg (Function.update s.receivers w _ i) = s.pipeline.udp.udp_received
    rw [List.length_set, hsum]
    exact h.early
  · exact Pipeline.rewind_set_write hworker hpool _

/-- At its end a section is made up for in one step. -/
theorem lags_leave {num : Nat} {tally : Tally} (h : Lags recvmmsg s old received)
    (hfilling : s.receivers w = .filling num 0 tally) :
    ∃ old' eaten, Lags recvmmsg (s.leave recvmmsg w) old' (received + num) ∧
      (s.leave recvmmsg w).pipeline.rewind old' (received + num) =
        (s.pipeline.rewind old received).pinba_eat_udp w eaten := by
  obtain ⟨pool, worker, eaten, hpool, hworker, heaten, rfl⟩ := h.inside w _ _ _ hfilling
  have hw := lt_of_filling h hfilling
  refine ⟨Function.update old w none, eaten, ?_, ?_⟩
  · unfold leave
    rw [hfilling]
    refine ⟨fun i hi => ?_, fun i num' left' tally' hi => ?_, ?_⟩
    · by_cases heq : i = w
      · subst heq
        exact Function.update_self _ _ _
      · rw [Function.update_of_ne heq]
        apply h.outside
        intro num' left' tally' hold
        exact hi num' left' tally' (((receiver_set _ _).trans (if_neg heq)).trans hold)
    · rw [receiver_set] at hi
      split at hi
      · cases hi
      · next hne =>
        obtain ⟨pool', worker', eaten', hpool', hrest⟩ := h.inside i _ _ _ hi
        exact ⟨pool', worker', eaten', (Function.update_of_ne hne _ _).trans hpool', hrest⟩
    · have hsum := Threads.sum_share_update (early recvmmsg) s.receivers hw .polling
      have hbefore := h.early
      rw [hfilling] at hsum
      show received + (eaten.length + 0) + ∑ i ∈ Finset.range s.pipeline.workers.length,
        early recvmmsg (Function.update s.receivers w .polling i) =
          s.pipeline.udp.udp_received + if recvmmsg then eaten.length + 0 else 0
      cases recvmmsg with
      | false =>
        rw [early_polling, early_filling, if_neg Bool.false_ne_true] at hsum
        rw [if_neg Bool.false_ne_true]
        omega
      | true =>
        rw [early_polling, early_filling, if_pos rfl] at hsum
        rw [if_pos rfl]
        omega
  · have hfound : (s.pipeline.rewind old received).workers[w]? = some { worker with write := pool } := by
      rw [Pipeline.getElem?_rewind, hworker, hpool]
      rfl
    unfold leave Pipeline.pinba_eat_udp
    rw [hfilling, hfound]
    dsimp only
    rw [heaten]
    unfold Pipeline.rewind
    congr 1
    apply List.ext_getElem?
    intro i
    rw [List.getElem?_mapIdx]
    by_cases heq : i = w
    · subst heq
      rw [Function.update_self, List.getElem?_set_self (by rw [List.length_mapIdx]; exact hw)]
      exact (congrArg (Option.map _) hworker).trans rfl
    · rw [Function.update_of_ne heq, List.getElem?_set_ne (Ne.symm heq), List.getElem?_mapIdx]
      rfl

/-- The data thread does not touch the write pools while collectors may be inside. -/
theorem lags_data {p : Pipeline} (h : Lags recvmmsg s old received)
    (hwrite : p.workers.map Worker.write = s.pipeline.workers.map Worker.write)
    (hreceived : p.udp.udp_received = s.pipeline.udp.udp_received) :
    Lags recvmmsg (s.on_pipeline p) old received := by
  refine ⟨h.outside, fun w num left tally hw => ?_, ?_⟩
  · obtain ⟨pool, worker, eaten, hpool, hworker, heaten, hlength⟩ := h.inside w _ _ _ hw
    have hmap := congrArg (·[w]?) hwrite
    simp only [List.getElem?_map, hworker, Option.map_some] at hmap
    obtain ⟨worker', hworker', hsame⟩ := Option.map_eq_some_iff.mp hmap
    exact ⟨pool, worker', eaten, hpool, hworker', hsame ▸ heaten, hlength⟩
  · have hlen : p.workers.length = s.pipeline.workers.length := by
      have hmap := congrArg List.length hwrite
      rwa [List.length_map, List.length_map] at hmap
    show received + ∑ i ∈ Finset.range p.workers.length, early recvmmsg (s.receivers i) =
      p.udp.udp_received
    rw [hlen, hreceived]
    exact h.early

/-! ## Section 4: Whole sections -/

/-- A run with whole sections has come as far as the sections that are over. -/
def Atomic (threads requests : Nat) (data : Pool RequestTree) (tmp : Pool Request) (recvmmsg : Bool)
    (s : Interleaving) : Prop :=
  ∃ old received, Lags recvmmsg s old received ∧
    Pipeline.Reachable threads requests data tmp (s.pipeline.rewind old received)

variable {threads requests : Nat} {data : Pool RequestTree} {tmp : Pool Request} {s' : Interleaving}

theorem write_stage_workers (memory : Nat → NodeMemory) (metrics : RequestMetrics)
    (workers : List Worker) :
    (stage_workers memory metrics workers).2.map Worker.write = workers.map Worker.write := by
  induction workers generalizing metrics with
  | nil => rfl
  | cons w workers ih =>
    simp only [stage_workers, List.map_cons, ih]
    rfl

theorem write_stage (p : Pipeline) (memory : Nat → NodeMemory) :
    (p.stage memory).workers.map Worker.write = p.workers.map Worker.write := by
  unfold Pipeline.stage
  split
  · rfl
  · exact write_stage_workers memory _ _

theorem write_publish (p : Pipeline) (job_buffers : Bool) (copied : Nat → Nat → Bool) :
    (p.publish job_buffers copied).workers.map Worker.write = p.workers.map Worker.write := by
  unfold Pipeline.publish
  dsimp only
  split
  · rfl
  · split
    · rfl
    · exact List.map_map

/-- Outside of all sections nothing lags behind. -/
theorem old_eq_none (h : Lags recvmmsg s old received)
    (hout : ∀ w num left tally, s.receivers w ≠ .filling num left tally) : old = fun _ => none :=
  funext fun w => h.outside w (hout w)

theorem atomic_step (h : Atomic threads requests data tmp recvmmsg s) (hstep : Step recvmmsg s s') :
    Atomic threads requests data tmp recvmmsg s' := by
  obtain ⟨old, received, hlags, hreach⟩ := h
  cases hstep with
  | recvmmsg w num hbuild hw hpolling =>
    obtain ⟨old', hlags', hsame⟩ := lags_enter num hlags hw (by simp [hpolling])
      (by rw [early_filling, hpolling, hbuild]; rfl)
    exact ⟨old', received, hlags', hsame ▸ hreach⟩
  | lock w hw hreceived =>
    obtain ⟨old', hlags', hsame⟩ := lags_enter 1 hlags hw (by simp [hreceived])
      (by rw [early_filling, hreceived]; rfl)
    exact ⟨old', received, hlags', hsame ▸ hreach⟩
  | recvmsg w hbuild hw hpolling =>
    refine ⟨old, received, lags_of_outside hlags hw (by simp [hpolling]) (by simp) rfl ?_, hreach⟩
    rw [hpolling, hbuild]
    rfl
  | eat w datagram hfilling =>
    obtain ⟨hlags', hsame⟩ := lags_eat datagram hlags hfilling
    exact ⟨old, received, hlags', hsame ▸ hreach⟩
  | leave w hfilling =>
    obtain ⟨old', eaten, hlags', hsame⟩ := lags_leave hlags hfilling
    exact ⟨old', _, hlags', hsame ▸ .step hreach (.pinba_eat_udp w eaten)⟩
  | swap hphase hout =>
    obtain rfl := old_eq_none hlags hout
    refine ⟨_, received, ⟨hlags.outside, fun w _ _ _ hw => absurd hw (hout w _ _ _), ?_⟩, ?_⟩
    · show received + ∑ i ∈ Finset.range (s.pipeline.workers.map _).length, _ =
        s.pipeline.udp.udp_received
      rw [List.length_map]
      exact hlags.early
    · exact Pipeline.swap_rewind ▸ .step hreach (.swap hphase)
  | stage hphase memory =>
    have hlags' := lags_data hlags (write_stage s.pipeline memory) (by
      unfold Pipeline.stage
      split <;> rfl)
    exact ⟨old, received, hlags', Pipeline.stage_rewind memory ▸
      .step hreach (@Pipeline.Step.stage (s.pipeline.rewind old received) hphase memory)⟩
  | publish hphase job_buffers copied =>
    have hlags' := lags_data hlags (write_publish s.pipeline job_buffers copied) (by
      unfold Pipeline.publish
      dsimp only
      split
      · rfl
      · split <;> rfl)
    exact ⟨old, received, hlags', Pipeline.publish_rewind job_buffers copied ▸ .step hreach
      (@Pipeline.Step.publish (s.pipeline.rewind old received) hphase job_buffers copied)⟩
  | finish hphase =>
    have hlags' := @lags_data _ _ _ _ s.pipeline.finish hlags List.map_map rfl
    exact ⟨old, received, hlags', Pipeline.finish_rewind ▸ .step hreach (.finish hphase)⟩
  | expire n hn =>
    have hlags' := @lags_data _ _ _ _ (s.pipeline.expire n hn) hlags rfl rfl
    exact ⟨old, received, hlags', .step hreach
      (@Pipeline.Step.expire (s.pipeline.rewind old received) n hn)⟩

theorem atomic_of_reachable (hs : Reachable recvmmsg threads requests data tmp s) :
    Atomic threads requests data tmp recvmmsg s := by
  induction hs with
  | init =>
    refine ⟨fun _ => none, 0, ⟨fun _ _ => rfl, fun _ _ _ _ hw => (by cases hw), ?_⟩, ?_⟩
    · show 0 + ∑ i ∈ Finset.range _, 0 = 0
      simp
    · have hsame := Pipeline.rewind_none (s := .init threads requests data tmp)
      exact hsame.symm ▸ .init
  | step _ hstep ih => exact atomic_step ih hstep

/-- Once all collectors are outside, the state is one of a run with whole sections. -/
theorem pipeline_reachable (hs : Reachable recvmmsg threads requests data tmp s)
    (hout : ∀ w, s.receivers w = .polling) : Pipeline.Reachable threads requests data tmp s.pipeline := by
  obtain ⟨old, received, hlags, hreach⟩ := atomic_of_reachable hs
  obtain rfl := old_eq_none hlags (by simp [hout])
  have hearly := hlags.early
  simp only [hout, early_polling, Finset.sum_const_zero, add_zero] at hearly
  rwa [hearly, Pipeline.rewind_none] at hreach

/-! ## Section 5: Sections of one datagram -/

theorem eat_datagram_tally (pool : Pool RequestTree) (tally : Tally)
    (datagram : Option RequestTree × Bool) :
    eat_datagram (pool, tally) datagram =
      ((eat_datagram (pool, ⟨0, 0, 0⟩) datagram).1,
        ⟨tally.decode_errors + (eat_datagram (pool, ⟨0, 0, 0⟩) datagram).2.decode_errors,
          tally.drops + (eat_datagram (pool, ⟨0, 0, 0⟩) datagram).2.drops,
          tally.enqueued + (eat_datagram (pool, ⟨0, 0, 0⟩) datagram).2.enqueued⟩) := by
  rcases datagram with ⟨_ | request, memory⟩
  · rfl
  · show (match pool.push request memory with | none => _ | some pool => _) = _
    cases hpush : pool.push request memory with
    | none => simp [eat_datagram, hpush]
    | some pool' => simp [eat_datagram, hpush]

/-- What was counted before only adds up. -/
theorem foldl_eat_datagram (pool : Pool RequestTree) (tally : Tally)
    (datagrams : List (Option RequestTree × Bool)) :
    datagrams.foldl eat_datagram (pool, tally) =
      ((datagrams.foldl eat_datagram (pool, ⟨0, 0, 0⟩)).1,
        ⟨tally.decode_errors + (datagrams.foldl eat_datagram (pool, ⟨0, 0, 0⟩)).2.decode_errors,
          tally.drops + (datagrams.foldl eat_datagram (pool, ⟨0, 0, 0⟩)).2.drops,
          tally.enqueued + (datagrams.foldl eat_datagram (pool, ⟨0, 0, 0⟩)).2.enqueued⟩) := by
  induction datagrams generalizing pool tally with
  | nil => rfl
  | cons datagram datagrams ih =>
    rw [List.foldl_cons, List.foldl_cons, eat_datagram_tally pool tally]
    rw [ih _ ⟨tally.decode_errors + _, _, _⟩]
    rw [show eat_datagram (pool, ⟨0, 0, 0⟩) datagram =
      ((eat_datagram (pool, ⟨0, 0, 0⟩) datagram).1, (eat_datagram (pool, ⟨0, 0, 0⟩) datagram).2)
      from rfl]
    rw [ih _ (eat_datagram (pool, ⟨0, 0, 0⟩) datagram).2]
    simp only [Nat.add_assoc]

/-- A batch may be cut after its first datagram. -/
theorem pinba_eat_udp_cons (p : Pipeline) (w : Nat) (datagram : Option RequestTree × Bool)
    (datagrams : List (Option RequestTree × Bool)) :
    p.pinba_eat_udp w (datagram :: datagrams) =
      (p.pinba_eat_udp w [datagram]).pinba_eat_udp w datagrams := by
  unfold Pipeline.pinba_eat_udp
  cases hworker : p.workers[w]? with
  | none => simp [hworker]
  | some worker =>
    have hw := (List.getElem?_eq_some_iff.mp hworker).1
    have hsplit := foldl_eat_datagram (eat_datagram (worker.write, ⟨0, 0, 0⟩) datagram).1
      (eat_datagram (worker.write, ⟨0, 0, 0⟩) datagram).2 datagrams
    simp only [List.foldl_cons, List.foldl_nil, List.getElem?_set_self hw, List.set_set,
      List.length_cons, List.length_nil, Nat.zero_add]
    rw [show eat_datagram (worker.write, ⟨0, 0, 0⟩) datagram =
      ((eat_datagram (worker.write, ⟨0, 0, 0⟩) datagram).1,
        (eat_datagram (worker.write, ⟨0, 0, 0⟩) datagram).2) from rfl, hsplit]
    simp only [Nat.cast_add, Nat.add_assoc, Int.add_assoc, Nat.add_comm 1]

theorem pinba_eat_udp_nil (p : Pipeline) (w : Nat) : p.pinba_eat_udp w [] = p := by
  unfold Pipeline.pinba_eat_udp
  cases hworker : p.workers[w]? with
  | none => rfl
  | some worker =>
    have hset : p.workers.set w worker = p.workers := by
      obtain ⟨hw, rfl⟩ := List.getElem?_eq_some_iff.mp hworker
      exact List.set_getElem_self hw
    simp [hset]

/-- All collectors are outside. -/
def quiet (p : Pipeline) : Interleaving := ⟨p, fun _ => .polling⟩

/-- Both builds can take a single datagram through a section of its own. -/
theorem reachable_one {p : Pipeline} (datagram : Option RequestTree × Bool)
    (hs : Reachable recvmmsg threads requests data tmp (quiet p)) :
    Reachable recvmmsg threads requests data tmp (quiet (p.pinba_eat_udp w [datagram])) := by
  cases hworker : p.workers[w]? with
  | none =>
    unfold Pipeline.pinba_eat_udp
    rwa [hworker]
  | some worker =>
    have hw := (List.getElem?_eq_some_iff.mp hworker).1
    -- the collector goes in, perhaps after it has counted the datagram
    have henter : ∃ p' : Pipeline, Reachable recvmmsg threads requests data tmp
          ((quiet p').set_receiver w (.filling 1 1 ⟨0, 0, 0⟩)) ∧
        p' = { p with udp := { p.udp with
          udp_received := p.udp.udp_received + if recvmmsg then 0 else 1 } } := by
      cases recvmmsg with
      | true => exact ⟨p, .step hs (.recvmmsg w 1 rfl hw rfl Nat.one_pos (by decide)), rfl⟩
      | false =>
        have hreceived := Reachable.step hs (.recvmsg w rfl hw rfl)
        have hlock := Reachable.step hreceived (.lock w hw (Function.update_self _ _ _))
        refine ⟨_, ?_, rfl⟩
        unfold enter receive set_receiver at hlock
        rwa [Function.update_idem] at hlock
    obtain ⟨p', hfilling, hp'⟩ := henter
    have hworker' : p'.workers[w]? = some worker := by rw [hp', hworker]
    have heat := Reachable.step hfilling (.eat w datagram (Function.update_self _ _ _))
    have heaten : eat ((quiet p').set_receiver w (.filling 1 1 ⟨0, 0, 0⟩)) w datagram =
        (quiet (p'.set_worker w
          { worker with write := (eat_datagram (worker.write, ⟨0, 0, 0⟩) datagram).1 })).set_receiver w
          (.filling 1 0 (eat_datagram (worker.write, ⟨0, 0, 0⟩) datagram).2) := by
      simp [eat, quiet, set_receiver, on_pipeline, hworker']
    rw [heaten] at heat
    have hleave := Reachable.step heat (.leave w (Function.update_self _ _ _))
    have hleft : ((quiet (p'.set_worker w
          { worker with write := (eat_datagram (worker.write, ⟨0, 0, 0⟩) datagram).1 })).set_receiver w
          (.filling 1 0 (eat_datagram (worker.write, ⟨0, 0, 0⟩) datagram).2)).leave recvmmsg w =
        quiet (p.pinba_eat_udp w [datagram]) := by
      subst hp'
      cases recvmmsg <;>
        simp [leave, quiet, set_receiver, Pipeline.set_worker, Pipeline.pinba_eat_udp, hworker]
    rwa [hleft] at hleave

theorem reachable_eat_udp {p : Pipeline} (datagrams : List (Option RequestTree × Bool))
    (hs : Reachable recvmmsg threads requests data tmp (quiet p)) :
    Reachable recvmmsg threads requests data tmp (quiet (p.pinba_eat_udp w datagrams)) := by
  induction datagrams generalizing p with
  | nil => rwa [pinba_eat_udp_nil]
  | cons datagram datagrams ih =>
    rw [pinba_eat_udp_cons]
    exact ih (reachable_one datagram hs)

theorem reachable_quiet {p : Pipeline} (hp : Pipeline.Reachable threads requests data tmp p) :
    Reachable recvmmsg threads requests data tmp (quiet p) := by
  induction hp with
  | init => exact .init
  | step _ hstep ih =>
    cases hstep with
    | pinba_eat_udp w datagrams => exact reachable_eat_udp datagrams ih
    | swap hphase => exact .step ih (.swap hphase (fun _ _ _ _ hw => by cases hw))
    | stage hphase memory => exact .step ih (.stage hphase memory)
    | publish hphase job_buffers copied => exact .step ih (.publish hphase job_buffers copied)
    | finish hphase => exact .step ih (.finish hphase)
    | expire n hn => exact .step ih (.expire n hn)

end steps

/-- Both builds of `pinba_eat_udp`, whatever turns the threads take, come with all
    collectors outside exactly to the states of the pipeline with whole sections. -/
theorem quiet_states (recvmmsg : Bool) (threads requests : Nat) (data : Pool RequestTree)
    (tmp : Pool Request) (p : Pipeline) :
    (∃ s, Reachable recvmmsg threads requests data tmp s ∧ s.pipeline = p ∧
        ∀ w, s.receivers w = .polling) ↔
      Pipeline.Reachable threads requests data tmp p := by
  constructor
  · rintro ⟨s, hs, rfl, hout⟩
    exact pipeline_reachable hs hout
  · intro hp
    exact ⟨quiet p, reachable_quiet hp, rfl, fun _ => rfl⟩

end Interleaving

end PinbaEngine
