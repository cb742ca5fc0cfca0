import PinbaEngine.Lib.Threads
import PinbaEngine.ThreadPool

/-! # Waiting in the worker pool

    Workers sleep on `job_posted` until there is a job, callers of
    `th_pool_dispatch` on `job_taken` until there is room, and callers of
    `th_pool_barrier_wait` on the barrier until its jobs are done. A condition
    variable forgets a notification that nobody waits for, `notify_one` wakes any one
    of those who wait, and sleepers may wake for no reason.

    The pool of the steps under the mutexes gets a place for every thread: at the
    mutex, asleep, or, for a worker that has signalled a barrier, before the
    notification that follows after the mutex is given back.

    The contract of the callers is in `Event.Enabled`: a barrier has one waiter at a
    time and is started again only after its wait, `th_pool_destroy` is called when no
    call is under way, and after it nothing is; queue nodes get memory. `pinba_data_main`
    and `pinba_stats_main` post their jobs and wait for them on barriers of their own, and
    the pool is destroyed when both threads have been joined.
-/

namespace PinbaEngine

/-! ## Section 1: Threads that sleep -/

/-- Where a worker is between its sections. -/
inductive Seat where
  /-- At the mutex of the pool, on its way there, or running a job. -/
  | at_mutex
  /-- In `job_posted.wait`. -/
  | asleep
  /-- In `th_pool_barrier_signal`, before `notify_one`. -/
  | notifying (b : Nat)
deriving DecidableEq

/-- The arguments of `th_pool_dispatch_with_cleanup`. -/
structure Order where
  dispatch_to_here : Nat
  arg : Nat
  cleaner_func : Option Nat
  cleaner_arg : Nat
  barrier : Option Nat

/-- A thread that uses the pool. -/
inductive Caller where
  | away
  /-- In `th_pool_dispatch_with_cleanup`. -/
  | posting (order : Order) (asleep : Bool)
  /-- In `th_pool_barrier_wait`. -/
  | waiting (b : Nat) (asleep : Bool)

/-- The caller at the mutex again. -/
def Caller.awake : Caller → Caller
  | .away => .away
  | .posting order _ => .posting order false
  | .waiting b _ => .waiting b false

/-- The barrier it waits for. -/
def Caller.barrier : Caller → Option Nat
  | .waiting b _ => some b
  | _ => none

/-- The pool with its threads and those of its callers. -/
structure WaitingPool where
  pool : ThreadPool
  seats : Nat → Seat
  clients : Nat
  callers : Nat → Caller
  /-- `th_pool_destroy` has called `notify_all`. -/
  told : Bool

namespace WaitingPool

def th_pool_create (clients num_threads_in_pool first : Nat) (rest : List Nat)
    (nodes : Intrusive.Memory Nat Job) : WaitingPool where
  pool := ThreadPool.th_pool_create num_threads_in_pool first rest nodes
  seats _ := .at_mutex
  clients := clients
  callers _ := .away
  told := false

/-- One section under a mutex, a notification after one, or a change outside. -/
inductive Event where
  /-- A caller comes to `th_pool_dispatch_with_cleanup`. -/
  | call (c : Nat) (order : Order)
  /-- A caller comes to `th_pool_barrier_wait`. -/
  | await (c b : Nat)
  | barrier_start (b : Nat)
  | destroy
  /-- The job is posted; `malloc` would return `node`, and `notify_one` wakes `woken`. -/
  | post (c : Nat) (node woken : Option Nat)
  /-- There is no room for the job. -/
  | post_sleep (c : Nat)
  /-- `th_pool_barrier_wait` returns. -/
  | barrier_wait (c : Nat)
  /-- The barrier is not open. -/
  | barrier_sleep (c : Nat)
  | fetch (w : Nat) (woken : Option Nat)
  /-- There is no job. -/
  | sleep (w : Nat)
  | exit (w : Nat) (woken : Option Nat)
  | finish (w : Nat)
  | signal (w : Nat)
  /-- The notification after the signal. -/
  | notify (w : Nat) (woken : Option Nat)
  /-- The notification after the flag is set. -/
  | notify_all
  | joined
  /-- A worker wakes for no reason. -/
  | wake_worker (w : Nat)
  /-- A caller wakes for no reason. -/
  | wake_caller (c : Nat)

/-- What the threads of the program do, given time. -/
def Event.Inside : Event → Prop
  | .call .. | .await .. | .barrier_start _ | .destroy | .wake_worker _ | .wake_caller _ => False
  | _ => True

variable (s : WaitingPool)

def set_seat (w : Nat) (seat : Seat) : WaitingPool :=
  { s with seats := Function.update s.seats w seat }

def set_caller (c : Nat) (caller : Caller) : WaitingPool :=
  { s with callers := Function.update s.callers c caller }

@[simp] theorem callers_set_caller_self (c : Nat) (caller : Caller) :
    (s.set_caller c caller).callers c = caller := Function.update_self _ _ _

theorem callers_set_caller_of_ne {c c' : Nat} (h : c' ≠ c) (caller : Caller) :
    (s.set_caller c caller).callers c' = s.callers c' := Function.update_of_ne h _ _

/-- `job_posted.notify_one`. -/
def notify_worker (woken : Option Nat) : WaitingPool :=
  woken.elim s fun w => s.set_seat w .at_mutex

/-- `notify_one` on a condition variable of callers. -/
def notify_caller (woken : Option Nat) : WaitingPool :=
  woken.elim s fun c => s.set_caller c (s.callers c).awake

/-- `notify_one` wakes one of those who sleep. -/
def Picks (Asleep : Nat → Prop) : Option Nat → Prop
  | none => ∀ x, ¬ Asleep x
  | some x => Asleep x

def worker_asleep (w : Nat) : Prop := s.seats w = .asleep

/-- Asleep on `job_taken`. -/
def poster_asleep (c : Nat) : Prop := ∃ order, s.callers c = .posting order true

/-- Asleep on the barrier. -/
def waiter_asleep (b c : Nat) : Prop := s.callers c = .waiting b true

/-- The step of the pool when an order is posted. -/
def dispatch (order : Order) (node : Option Nat) : ThreadPool.Event :=
  .dispatch order.dispatch_to_here order.arg order.cleaner_func order.cleaner_arg order.barrier node

def step : Event → WaitingPool
  | .call c order => s.set_caller c (.posting order false)
  | .await c b => s.set_caller c (.waiting b false)
  | .barrier_start b => { s with pool := s.pool.step (.barrier_start b) }
  | .destroy => { s with pool := s.pool.step .destroy }
  | .post c node woken =>
    match s.callers c with
    | .posting order _ =>
      ({ s with pool := s.pool.step (dispatch order node) }.set_caller c .away).notify_worker woken
    | _ => s
  | .post_sleep c =>
    match s.callers c with
    | .posting order _ => s.set_caller c (.posting order true)
    | _ => s
  | .barrier_wait c =>
    match s.callers c with
    | .waiting b _ => { s with pool := s.pool.step (.barrier_wait b) }.set_caller c .away
    | _ => s
  | .barrier_sleep c =>
    match s.callers c with
    | .waiting b _ => s.set_caller c (.waiting b true)
    | _ => s
  | .fetch w woken => { s with pool := s.pool.step (.fetch w) }.notify_caller woken
  | .sleep w => s.set_seat w .asleep
  | .exit w woken => { s with pool := s.pool.step (.exit w) }.notify_caller woken
  | .finish w => { s with pool := s.pool.step (.finish w) }
  | .signal w =>
    match s.pool.workers[w]? with
    | some (.finished job) => { s with pool := s.pool.step (.signal w) }.set_seat w
        (job.barrier.elim .at_mutex .notifying)
    | _ => s
  | .notify w woken => (s.set_seat w .at_mutex).notify_caller woken
  | .notify_all =>
    { s with seats := fun w => if s.seats w = .asleep then .at_mutex else s.seats w, told := true }
  | .joined => { s with pool := s.pool.step .joined }
  | .wake_worker w => s.set_seat w .at_mutex
  | .wake_caller c => s.set_caller c (s.callers c).awake

section steps
variable {s} {c w b : Nat} {order : Order} {asleep : Bool} {job : Job} {node woken : Option Nat}

theorem step_post (h : s.callers c = .posting order asleep) : s.step (.post c node woken) =
    ({ s with pool := s.pool.step (dispatch order node) }.set_caller c .away).notify_worker
      woken := by
  simp only [step, h]

theorem step_post_sleep (h : s.callers c = .posting order asleep) :
    s.step (.post_sleep c) = s.set_caller c (.posting order true) := by
  simp only [step, h]

theorem step_barrier_wait (h : s.callers c = .waiting b asleep) : s.step (.barrier_wait c) =
    { s with pool := s.pool.step (.barrier_wait b) }.set_caller c .away := by
  simp only [step, h]

theorem step_barrier_sleep (h : s.callers c = .waiting b asleep) :
    s.step (.barrier_sleep c) = s.set_caller c (.waiting b true) := by
  simp only [step, h]

theorem step_signal (h : s.pool.workers[w]? = some (.finished job)) : s.step (.signal w) =
    { s with pool := s.pool.step (.signal w) }.set_seat w
      (job.barrier.elim .at_mutex .notifying) := by
  simp only [step, h]

end steps

/-- When a step can happen. -/
def Event.Enabled (s : WaitingPool) : Event → Prop
  | .call c _ => c < s.clients ∧ s.callers c = .away ∧ s.pool.shutdown = false
  | .await c b => c < s.clients ∧ s.callers c = .away ∧ s.pool.shutdown = false ∧
      ∀ c', (s.callers c').barrier ≠ some b
  | .barrier_start b => (ThreadPool.Event.barrier_start b).Enabled s.pool
  | .destroy => ∀ c, s.callers c = .away
  | .post c node woken => ∃ order, s.callers c = .posting order false ∧
      (dispatch order node).Enabled s.pool ∧ Picks s.worker_asleep woken
  | .post_sleep c => ∃ order, s.callers c = .posting order false ∧
      s.pool.job_queue.queue_can_accept_order = false
  | .barrier_wait c => ∃ b, s.callers c = .waiting b false ∧ s.pool.barrier_open b
  | .barrier_sleep c => ∃ b, s.callers c = .waiting b false ∧ ¬ s.pool.barrier_open b
  | .fetch w woken => s.seats w = .at_mutex ∧ (ThreadPool.Event.fetch w).Enabled s.pool ∧
      Picks s.poster_asleep woken
  | .sleep w => s.seats w = .at_mutex ∧ s.pool.workers[w]? = some .idle ∧
      s.pool.shutdown = false ∧ s.pool.job_queue.queue_is_job_available = false
  | .exit w woken => s.seats w = .at_mutex ∧ (ThreadPool.Event.exit w).Enabled s.pool ∧
      Picks s.poster_asleep woken
  | .finish w => (ThreadPool.Event.finish w).Enabled s.pool
  | .signal w => (ThreadPool.Event.signal w).Enabled s.pool
  | .notify w woken => ∃ b, s.seats w = .notifying b ∧ Picks (s.waiter_asleep b) woken
  | .notify_all => s.pool.shutdown = true ∧ s.told = false
  | .joined => s.told = true ∧ ThreadPool.Event.joined.Enabled s.pool ∧ s.pool.destroyed = false
  | .wake_worker w => s.seats w = .asleep
  | .wake_caller c => c < s.clients

/-- The states that the threads may reach. -/
inductive Reachable : WaitingPool → Prop
  | create (clients num_threads_in_pool first : Nat) (rest : List Nat)
    (nodes : Intrusive.Memory Nat Job) (hpos : 0 < num_threads_in_pool)
    (hnodes : (first :: rest).Nodup) :
    Reachable (th_pool_create clients num_threads_in_pool first rest nodes)
  | step {s : WaitingPool} (e : Event) (hs : Reachable s) (he : e.Enabled s) : Reachable (s.step e)

/-! ## Section 2: Shares of the threads -/

/-- What a worker does and where it is. -/
def worker (w : Nat) : WorkerState × Seat := (s.pool.workers.getD w .exited, s.seats w)

/-- A sum over the workers. -/
def over_workers (share : WorkerState × Seat → Nat) : Nat :=
  ∑ w ∈ Finset.range s.pool.workers.length, share (s.worker w)

/-- A sum over the callers. -/
def over_callers (share : Caller → Nat) : Nat := ∑ c ∈ Finset.range s.clients, share (s.callers c)

/-- A worker that will look for a job before it sleeps. -/
def looking : WorkerState × Seat → Nat
  | (.idle, .asleep) => 0
  | (.idle, _) => 1
  | _ => 0

def working : WorkerState × Seat → Nat
  | (.running _, _) => 1
  | _ => 0

/-- A caller that will look for room before it sleeps. -/
def ordering : Caller → Nat
  | .posting _ false => 1
  | _ => 0

section shares
variable {s} {s' : WaitingPool} {w c : Nat} {share : WorkerState × Seat → Nat} {state : WorkerState}

theorem worker_of_getElem? (h : s.pool.workers[w]? = some state) :
    s.worker w = (state, s.seats w) := by
  unfold worker
  rw [List.getD_eq_getElem?_getD, h, Option.getD_some]

theorem lt_of_worker (h : s.pool.workers[w]? = some state) : w < s.pool.workers.length :=
  (List.getElem?_eq_some_iff.mp h).1

/-- A worker moves on. -/
theorem over_workers_move (share : WorkerState × Seat → Nat) (s' : WaitingPool) {state' : WorkerState}
    {seat : Seat} (h : s.pool.workers[w]? = some state)
    (hworkers : s'.pool.workers = s.pool.workers.set w state')
    (hseats : s'.seats = Function.update s.seats w seat) :
    s'.over_workers share + share (state, s.seats w) = s.over_workers share + share (state', seat) := by
  have hw := lt_of_worker h
  have hview : s'.worker = Function.update s.worker w (state', seat) := by
    funext i
    unfold worker
    rw [hworkers, hseats, List.getD_eq_getElem?_getD, List.getElem?_set]
    by_cases hi : i = w
    · subst hi
      simp [hw]
    · simp [hi, Ne.symm hi]
  unfold over_workers
  rw [hview, hworkers, List.length_set, ← worker_of_getElem? h]
  exact Threads.sum_share_update share s.worker hw (state', seat)

/-- A worker changes its seat. -/
theorem over_workers_set_seat (share : WorkerState × Seat → Nat)
    (h : s.pool.workers[w]? = some state) (seat : Seat) :
    (s.set_seat w seat).over_workers share + share (state, s.seats w) =
      s.over_workers share + share (state, seat) := by
  refine over_workers_move share _ h ?_ rfl
  obtain ⟨hw, hget⟩ := List.getElem?_eq_some_iff.mp h
  rw [← hget, List.set_getElem_self hw]
  rfl

theorem over_callers_set_caller (share : Caller → Nat) (hc : c < s.clients) (x : Caller) :
    (s.set_caller c x).over_callers share + share (s.callers c) =
      s.over_callers share + share x :=
  Threads.sum_share_update share s.callers hc x

/-- The working ones have the jobs that are being run. -/
theorem over_workers_working (s : WaitingPool) :
    s.over_workers working = (s.pool.workers.filterMap ThreadPool.runs).length := by
  have hshare : ∀ w, working (s.worker w) =
      (fun state => (ThreadPool.runs state).toList.length) (s.pool.workers.getD w .exited) := by
    intro w
    unfold worker
    cases s.pool.workers.getD w .exited <;> rfl
  unfold over_workers
  rw [Finset.sum_congr rfl fun w _ => hshare w,
    Threads.sum_range_getD (fun state => (ThreadPool.runs state).toList.length)]
  induction s.pool.workers with
  | nil => rfl
  | cons state rest ih =>
    rw [List.map_cons, List.sum_cons, ih, List.filterMap_cons]
    cases ThreadPool.runs state with
    | none => exact Nat.zero_add _
    | some job => exact Nat.add_comm _ _

end shares

/-! ## Section 3: The invariant -/

/-- While a worker sleeps, every job that is not executed has a worker of its own, one
    that runs it or one that will look for it. While a caller sleeps for want of room,
    every free node has a caller that will look for it. Who waits for a barrier waits
    for its jobs or will be notified.

    Between a section and its notification `jobs_more` jobs and `room_more` nodes may
    have nobody, and nobody needs to be told of the barrier `told_of`. -/
structure InvUpTo (jobs_more room_more : Nat) (told_of : Option Nat) (s : WaitingPool) : Prop where
  pool : ThreadPool.Reachable s.pool
  seat : ∀ w, s.seats w ≠ .at_mutex → s.pool.workers[w]? = some .idle
  away : ∀ c, s.clients ≤ c → s.callers c = .away
  closed : s.pool.shutdown = true → ∀ c, s.callers c = .away
  told : s.told = true → s.pool.shutdown = true ∧ ∀ w, ¬ s.worker_asleep w
  jobs : (∃ w, s.worker_asleep w) → s.pool.dispatched.length ≤
    s.pool.executed.length + s.over_workers working + s.over_workers looking + jobs_more
  room : (∃ c, s.poster_asleep c) → s.pool.job_queue.max_capacity < s.pool.job_queue.capacity ∧
    s.pool.job_queue.allocated.length + s.pool.executed.length + s.over_workers working ≤
      s.pool.dispatched.length + s.over_callers ordering + room_more
  nodes : s.pool.job_queue.allocated ≠ []
  signals : ∀ c b, s.waiter_asleep b c →
    ¬ s.pool.barrier_open b ∨ (∃ w, s.seats w = .notifying b) ∨ told_of = some b
  single : ∀ c c' b, (s.callers c).barrier = some b → (s.callers c').barrier = some b → c = c'

abbrev Inv (s : WaitingPool) : Prop := InvUpTo 0 0 none s

variable {s} {s' : WaitingPool} {c w b j r r' : Nat} {x : Caller} {told_of : Option Nat}

theorem inv_create {num_threads_in_pool first : Nat} {rest : List Nat}
    {nodes : Intrusive.Memory Nat Job} (clients : Nat) (hpos : 0 < num_threads_in_pool)
    (hnodes : (first :: rest).Nodup) :
    (th_pool_create clients num_threads_in_pool first rest nodes).Inv where
  pool := .create _ _ _ _ hpos hnodes
  seat w hw := absurd rfl hw
  away _ _ := rfl
  closed _ _ := rfl
  told h := by cases h
  jobs := fun ⟨w, hw⟩ => by cases hw
  room := fun ⟨c, order, hc⟩ => by cases hc
  nodes := by
    have hloop : ∀ (rest : List Nat) (q : JobQueue), q.allocated ≠ [] →
        (rest.foldl JobQueue.add_free_node q).allocated ≠ [] := by
      intro rest
      induction rest with
      | nil => exact fun q hq => hq
      | cons temp rest ih => exact fun q _ => ih _ (List.cons_ne_nil _ _)
    exact hloop rest _ (List.cons_ne_nil _ _)
  signals c b hc := by cases hc
  single c c' b hc := by cases hc

/-! ### Callers -/

section callers

/-- A caller goes on outside the pool. Either there is no free node, or it leaves no more
    of them behind. -/
theorem inv_set_caller (h : InvUpTo j r told_of s) (hc : c < s.clients)
    (hclosed : s.pool.shutdown = true → x = .away)
    (hroom : (s.pool.job_queue.max_capacity < s.pool.job_queue.capacity ∧
        s.pool.job_queue.allocated.length + s.pool.executed.length + s.over_workers working ≤
          s.pool.dispatched.length) ∨
      (∀ order, x ≠ .posting order true) ∧ ordering (s.callers c) + r ≤ ordering x + r')
    (hsignals : ∀ b, x = .waiting b true → ¬ s.pool.barrier_open b)
    (hsingle : ∀ b c', x.barrier = some b → (s.callers c').barrier = some b → c' = c) :
    InvUpTo j r' told_of (s.set_caller c x) where
  pool := h.pool
  seat := h.seat
  away c' hc' := by
    have hne : c' ≠ c := by
      rintro rfl
      exact absurd hc (not_lt.mpr hc')
    exact (callers_set_caller_of_ne s hne x).trans (h.away c' hc')
  closed hdown c' := by
    by_cases heq : c' = c
    · subst heq
      exact (callers_set_caller_self s c' x).trans (hclosed hdown)
    · exact (callers_set_caller_of_ne s heq x).trans (h.closed hdown c')
  told := h.told
  jobs := h.jobs
  room := by
    rintro ⟨c', order, hc'⟩
    rcases hroom with ⟨hfull, hle⟩ | ⟨hawake, hmore⟩
    · exact ⟨hfull, hle.trans (Nat.le_add_right_of_le (Nat.le_add_right _ _))⟩
    · have hne : c' ≠ c := by
        rintro rfl
        exact hawake order ((callers_set_caller_self s c' x).symm.trans hc')
      obtain ⟨hfull, hle⟩ := h.room ⟨c', order, (callers_set_caller_of_ne s hne x).symm.trans hc'⟩
      have hsum := over_callers_set_caller ordering hc x
      refine ⟨hfull, hle.trans ?_⟩
      show _ ≤ s.pool.dispatched.length + (s.set_caller c x).over_callers ordering + r'
      omega
  nodes := h.nodes
  signals c' b hc' := by
    by_cases heq : c' = c
    · subst heq
      exact .inl (hsignals b ((callers_set_caller_self s c' x).symm.trans hc'))
    · exact h.signals c' b ((callers_set_caller_of_ne s heq x).symm.trans hc')
  single c₁ c₂ b h₁ h₂ := by
    by_cases heq₁ : c₁ = c
    · by_cases heq₂ : c₂ = c
      · rw [heq₁, heq₂]
      · subst heq₁
        rw [callers_set_caller_self] at h₁
        rw [callers_set_caller_of_ne s heq₂] at h₂
        exact (hsingle b c₂ h₁ h₂).symm
    · by_cases heq₂ : c₂ = c
      · subst heq₂
        rw [callers_set_caller_of_ne s heq₁] at h₁
        rw [callers_set_caller_self] at h₂
        exact hsingle b c₁ h₂ h₁
      · rw [callers_set_caller_of_ne s heq₁] at h₁
        rw [callers_set_caller_of_ne s heq₂] at h₂
        exact h.single c₁ c₂ b h₁ h₂

/-- A caller leaves. -/
theorem inv_set_away (h : InvUpTo j r told_of s) (hc : c < s.clients)
    (hordering : ordering (s.callers c) + r ≤ r') :
    InvUpTo j r' told_of (s.set_caller c .away) :=
  inv_set_caller h hc (fun _ => rfl) (.inr ⟨by simp, by simpa [ordering] using hordering⟩)
    (fun b hb => by cases hb) (fun b c' hb => by cases hb)

/-- Who is not away is a client. -/
theorem lt_clients (h : InvUpTo j r told_of s) (hc : s.callers c ≠ .away) : c < s.clients := by
  by_contra hle
  exact hc (h.away c (not_lt.mp hle))

theorem not_shutdown (h : InvUpTo j r told_of s) (hc : s.callers c ≠ .away) :
    s.pool.shutdown = false := by
  by_contra hdown
  exact hc (h.closed (by simpa using hdown) c)

@[simp] theorem barrier_awake (x : Caller) : x.awake.barrier = x.barrier := by cases x <;> rfl

/-- A caller wakes up. -/
theorem inv_awake (h : InvUpTo j r told_of s) (hc : c < s.clients) :
    InvUpTo j r told_of (s.set_caller c (s.callers c).awake) := by
  refine inv_set_caller h hc ?_ (.inr ⟨?_, ?_⟩) ?_ ?_
  · intro hdown
    rw [h.closed hdown c]
    rfl
  · intro order
    cases s.callers c <;> simp [Caller.awake]
  · rcases s.callers c with _ | ⟨order, _ | _⟩ | ⟨b, _ | _⟩ <;> simp [Caller.awake, ordering]
  · intro b hb
    cases hcase : s.callers c <;> rw [hcase] at hb <;> cases hb
  · intro b c' hx hc'
    rw [barrier_awake] at hx
    exact h.single c' c b hc' hx

/-- The caller that was asleep for want of room looks for it. -/
theorem inv_notify_poster {woken : Option Nat} (h : InvUpTo j 1 none s)
    (hpick : Picks s.poster_asleep woken) : InvUpTo j 0 none (s.notify_caller woken) := by
  rcases woken with _ | c
  · -- nobody is asleep
    exact { h with room := fun ⟨c, hc⟩ => absurd hc (hpick c) }
  · obtain ⟨order, hasleep⟩ := hpick
    have hc : c < s.clients := lt_clients h (by rw [hasleep]; simp)
    obtain ⟨hfull, hle⟩ := h.room ⟨c, order, hasleep⟩
    have hsum := over_callers_set_caller ordering hc (s.callers c).awake
    have hold : ordering (s.callers c) = 0 := by rw [hasleep]; rfl
    have hnew : ordering (s.callers c).awake = 1 := by rw [hasleep]; rfl
    refine { inv_awake h hc with room := fun _ => ⟨hfull, ?_⟩ }
    show s.pool.job_queue.allocated.length + s.pool.executed.length + s.over_workers working ≤
      s.pool.dispatched.length + (s.set_caller c (s.callers c).awake).over_callers ordering + 0
    omega

/-- The one that waits for the barrier is told. -/
theorem inv_notify_waiter {woken : Option Nat} (h : InvUpTo j r (some b) s)
    (hpick : Picks (s.waiter_asleep b) woken) : InvUpTo j r none (s.notify_caller woken) := by
  rcases woken with _ | c
  · refine { h with signals := fun c b' hc => ?_ }
    rcases h.signals c b' hc with hclosed | hsoon | hb
    · exact .inl hclosed
    · exact .inr (.inl hsoon)
    · obtain rfl := Option.some.inj hb
      exact absurd hc (hpick c)
  · have hasleep : s.callers c = .waiting b true := hpick
    have hc : c < s.clients := lt_clients h (by rw [hasleep]; simp)
    refine { inv_awake h hc with signals := fun c' b' hc' => ?_ }
    rcases (inv_awake h hc).signals c' b' hc' with hclosed | hsoon | hb
    · exact .inl hclosed
    · exact .inr (.inl hsoon)
    · -- nobody else waits for the barrier
      obtain rfl := Option.some.inj hb
      have hwaits : ((s.set_caller c (s.callers c).awake).callers c').barrier = some b := by
        show ((s.notify_caller (some c)).callers c').barrier = some b
        rw [show (s.notify_caller (some c)).callers c' = .waiting b true from hc']
        rfl
      have hself : ((s.set_caller c (s.callers c).awake).callers c).barrier = some b := by
        rw [callers_set_caller_self, barrier_awake, hasleep]
        rfl
      obtain rfl := (inv_awake h hc).single c' c b hwaits hself
      have hnot : (s.set_caller c' (s.callers c').awake).callers c' = .waiting b true := hc'
      rw [callers_set_caller_self, hasleep] at hnot
      cases hnot

end callers

/-! ### Workers -/

section workers
variable {state state' : WorkerState} {seat : Seat} {p' : ThreadPool} {j' : Nat}
  {told_of' : Option Nat}

@[simp] theorem seats_set_seat_self : (s.set_seat w seat).seats w = seat :=
  Function.update_self _ _ _

theorem seats_set_seat_of_ne {w' : Nat} (h : w' ≠ w) :
    (s.set_seat w seat).seats w' = s.seats w' := Function.update_of_ne h _ _

/-- A worker moves on, in the pool or on its seat. Either it leaves no more jobs behind,
    or there is no job in the queue. -/
theorem inv_move (h : InvUpTo j r told_of s) (hworker : s.pool.workers[w]? = some state)
    (hp : ThreadPool.Reachable p') (hworkers : p'.workers = s.pool.workers.set w state')
    (hallocated : p'.job_queue.allocated = s.pool.job_queue.allocated)
    (hcapacity : p'.job_queue.capacity = s.pool.job_queue.capacity)
    (hmax : p'.job_queue.max_capacity = s.pool.job_queue.max_capacity)
    (hdispatched : p'.dispatched = s.pool.dispatched) (hshutdown : p'.shutdown = s.pool.shutdown)
    (hidle : seat ≠ .at_mutex → state' = .idle) (htold : s.told = true → seat ≠ .asleep)
    (hkeep : s.pool.executed.length + working (state, s.seats w) ≤
      p'.executed.length + working (state', seat))
    (hjobs : (seat ≠ .asleep ∧
        s.pool.executed.length + working (state, s.seats w) + looking (state, s.seats w) + j ≤
          p'.executed.length + working (state', seat) + looking (state', seat) + j') ∨
      s.pool.dispatched.length ≤ s.pool.executed.length + s.over_workers working)
    (hroom : p'.executed.length + working (state', seat) + r ≤
      s.pool.executed.length + working (state, s.seats w) + r')
    (hopen : ∀ b, p'.barrier_open b → s.pool.barrier_open b ∨ seat = .notifying b)
    (hseat : ∀ b, s.seats w = .notifying b → told_of' = some b)
    (htold_of : ∀ b, told_of = some b → told_of' = some b) :
    InvUpTo j' r' told_of' ({ s with pool := p' }.set_seat w seat) := by
  have hw := lt_of_worker hworker
  have hworking := over_workers_move working ({ s with pool := p' }.set_seat w seat) hworker hworkers rfl
  have hlooking := over_workers_move looking ({ s with pool := p' }.set_seat w seat) hworker hworkers rfl
  refine ⟨hp, ?_, h.away, ?_, ?_, ?_, ?_, ?_, ?_, h.single⟩
  · intro w' hw'
    show p'.workers[w']? = some .idle
    rw [hworkers]
    by_cases heq : w' = w
    · subst heq
      rw [seats_set_seat_self] at hw'
      rw [List.getElem?_set_self hw, hidle hw']
    · rw [seats_set_seat_of_ne heq] at hw'
      rw [List.getElem?_set_ne (Ne.symm heq)]
      exact h.seat w' hw'
  · intro hdown
    exact h.closed (hshutdown ▸ hdown)
  · intro htold'
    refine ⟨hshutdown.trans (h.told htold').1, fun w' hasleep => ?_⟩
    have hasleep : ({ s with pool := p' }.set_seat w seat).seats w' = .asleep := hasleep
    by_cases heq : w' = w
    · subst heq
      exact htold htold' (seats_set_seat_self.symm.trans hasleep)
    · exact (h.told htold').2 w' ((seats_set_seat_of_ne heq).symm.trans hasleep)
  · rintro ⟨w', hasleep⟩
    have hasleep : ({ s with pool := p' }.set_seat w seat).seats w' = .asleep := hasleep
    show p'.dispatched.length ≤ p'.executed.length + _ + _ + _
    rw [hdispatched]
    rcases hjobs with ⟨hawake, hmore⟩ | hempty
    · -- another worker was asleep before
      have hne : w' ≠ w := by
        rintro rfl
        exact hawake (seats_set_seat_self.symm.trans hasleep)
      have hold := h.jobs ⟨w', (seats_set_seat_of_ne hne).symm.trans hasleep⟩
      omega
    · omega
  · intro hasleep
    obtain ⟨hfull, hle⟩ := h.room hasleep
    show p'.job_queue.max_capacity < p'.job_queue.capacity ∧
      p'.job_queue.allocated.length + p'.executed.length + _ ≤
        p'.dispatched.length + s.over_callers ordering + _
    rw [hallocated, hcapacity, hmax, hdispatched]
    exact ⟨hfull, by omega⟩
  · show p'.job_queue.allocated ≠ []
    rw [hallocated]
    exact h.nodes
  · intro c b hc
    show ¬ p'.barrier_open b ∨ _
    by_cases hb : seat = .notifying b
    · exact .inr (.inl ⟨w, by rw [seats_set_seat_self, hb]⟩)
    · rcases h.signals c b hc with hclosed | ⟨w', hw'⟩ | htold'
      · exact .inl fun hopen' => (hopen b hopen').elim hclosed hb
      · by_cases heq : w' = w
        · subst heq
          exact .inr (.inr (hseat b hw'))
        · exact .inr (.inl ⟨w', by rw [seats_set_seat_of_ne heq]; exact hw'⟩)
      · exact .inr (.inr (htold_of b htold'))

/-- A worker leaves its seat and does nothing else. -/
theorem inv_set_seat (seat : Seat) (h : InvUpTo j r told_of s) (hworker : s.pool.workers[w]? = some state)
    (hidle : seat ≠ .at_mutex → state = .idle) (htold : s.told = true → seat ≠ .asleep)
    (hjobs : (seat ≠ .asleep ∧ looking (state, s.seats w) ≤ looking (state, seat)) ∨
      s.pool.dispatched.length ≤ s.pool.executed.length + s.over_workers working)
    (hseat : ∀ b, s.seats w = .notifying b → told_of' = some b)
    (htold_of : ∀ b, told_of = some b → told_of' = some b) :
    InvUpTo j r told_of' (s.set_seat w seat) := by
  have hworking : working (state, s.seats w) = working (state, seat) := by cases state <;> rfl
  obtain ⟨hw, hget⟩ := List.getElem?_eq_some_iff.mp hworker
  refine inv_move h hworker h.pool ?_ rfl rfl rfl rfl rfl hidle htold (by rw [hworking])
    (hjobs.imp (fun hjobs => ⟨hjobs.1, by omega⟩) id) (by rw [hworking]) (fun b hb => .inl hb) hseat
    htold_of
  rw [← hget, List.set_getElem_self hw]

/-- The worker that was asleep looks for the job. -/
theorem inv_notify_worker {woken : Option Nat} (h : InvUpTo 1 r none s)
    (hpick : Picks s.worker_asleep woken) : InvUpTo 0 r none (s.notify_worker woken) := by
  rcases woken with _ | w
  · -- nobody is asleep
    exact { h with jobs := fun ⟨w, hw⟩ => absurd hw (hpick w) }
  · have hasleep : s.seats w = .asleep := hpick
    have hidle := h.seat w (by rw [hasleep]; simp)
    have hset := inv_set_seat .at_mutex h hidle (by simp) (by simp)
      (.inl ⟨by simp, by rw [hasleep]; exact Nat.zero_le _⟩) (fun b hb => by rw [hasleep] at hb; cases hb)
      (fun b hb => hb)
    refine { hset with jobs := fun _ => ?_ }
    have hold := h.jobs ⟨w, hasleep⟩
    have hworking := over_workers_set_seat working hidle Seat.at_mutex
    have hlooking := over_workers_set_seat looking hidle Seat.at_mutex
    rw [hasleep] at hworking hlooking
    have hw₀ : working (.idle, .asleep) = 0 := rfl
    have hw₁ : working (.idle, .at_mutex) = 0 := rfl
    have hl₀ : looking (.idle, .asleep) = 0 := rfl
    have hl₁ : looking (.idle, .at_mutex) = 1 := rfl
    show s.pool.dispatched.length ≤ s.pool.executed.length +
      (s.set_seat w .at_mutex).over_workers working + (s.set_seat w .at_mutex).over_workers looking + 0
    omega

end workers

end WaitingPool

/-! ### The sizes of the queue -/

namespace JobQueue

variable {q : JobQueue} {job : Job} {temp : Nat} {node : Option Nat}

/-- The same nodes in the same number. -/
def SameSize (q q' : JobQueue) : Prop :=
  q'.allocated = q.allocated ∧ q'.capacity = q.capacity ∧ q'.max_capacity = q.max_capacity

theorem sameSize_take_free (q : JobQueue) (temp : Nat) : q.SameSize (q.take_free temp) := by
  unfold take_free
  split <;> exact ⟨rfl, rfl, rfl⟩

theorem sameSize_append_job (q : JobQueue) (job : Job) (temp : Nat) :
    q.SameSize (q.append_job job temp) := by
  unfold append_job
  split <;> exact ⟨rfl, rfl, rfl⟩

theorem SameSize.trans {q q' q'' : JobQueue} (h : q.SameSize q') (h' : q'.SameSize q'') :
    q.SameSize q'' := ⟨h'.1.trans h.1, h'.2.1.trans h.2.1, h'.2.2.trans h.2.2⟩

theorem sameSize_fetch (q : JobQueue) : q.SameSize q.queue_fetch_job.2 := by
  unfold queue_fetch_job
  cases q.tail with
  | none => exact ⟨rfl, rfl, rfl⟩
  | some temp =>
    have htake : q.SameSize (q.take_job temp) := by
      unfold take_job
      split <;> exact ⟨rfl, rfl, rfl⟩
    refine htake.trans ?_
    show (q.take_job temp).SameSize ((q.take_job temp).release_node temp)
    unfold release_node
    split <;> exact ⟨rfl, rfl, rfl⟩

/-- A free node is used. -/
theorem sameSize_post (job : Job) (node : Option Nat) (h : q.freeTail = some temp) : q.SameSize (q.queue_post_job job node) := by
  unfold queue_post_job
  rw [h]
  have hpost := (sameSize_take_free q temp).trans (sameSize_append_job _ job temp)
  cases node <;> exact hpost

/-- A new node is used. -/
theorem allocated_post (h : q.freeTail = none) (node : Nat) :
    (q.queue_post_job job (some node)).allocated = node :: q.allocated := by
  unfold queue_post_job
  rw [h]
  exact ((sameSize_take_free (q.grow node) node).trans (sameSize_append_job _ job node)).1

end JobQueue

namespace ThreadPool

variable {p : ThreadPool} {w b : Nat} {job : Job} {order : Order} {node : Option Nat}

theorem step_fetch (he : (Event.fetch w).Enabled p) : ∃ job, p.step (.fetch w) =
    { p with job_queue := p.job_queue.queue_fetch_job.2 }.set_worker w (.running job) := by
  obtain ⟨temp, htail⟩ := Option.isSome_iff_exists.mp he.2
  refine ⟨(p.job_queue.nodes temp).payload, ?_⟩
  simp [step, fetch, JobQueue.queue_fetch_job, htail]

theorem step_finish (h : p.workers[w]? = some (.running job)) :
    p.step (.finish w) = p.finish w job := by
  simp [step, h]

theorem step_signal (h : p.workers[w]? = some (.finished job)) :
    p.step (.signal w) = p.signal w job := by
  simp [step, h]

/-- The job of an order. -/
def ordered (p : ThreadPool) (order : Order) : Job :=
  ⟨p.dispatched.length, order.dispatch_to_here, order.arg, order.cleaner_func, order.cleaner_arg,
    order.barrier⟩

theorem step_dispatch (he : (WaitingPool.dispatch order node).Enabled p) :
    p.step (WaitingPool.dispatch order node) =
      { p with
        job_queue := p.job_queue.queue_post_job (p.ordered order) node
        barriers := order.barrier.elim p.barriers fun b => Function.update p.barriers b
          { p.barriers b with posted_count := (p.barriers b).posted_count + 1 }
        waited := order.barrier.elim p.waited fun b => Function.update p.waited b false
        dispatched := p.ordered order :: p.dispatched } := by
  have hmem : ¬ (p.job_queue.freeTail = none ∧ node = none) := by
    rintro ⟨htail, rfl⟩
    obtain ⟨a, ha, -⟩ := he.2.2 htail
    cases ha
  exact if_neg hmem

/-- A dispatch opens no barrier. -/
theorem open_of_open_dispatch (he : (WaitingPool.dispatch order node).Enabled p)
    (h : (p.step (WaitingPool.dispatch order node)).barrier_open b) : p.barrier_open b := by
  rw [step_dispatch he] at h
  unfold barrier_open at h ⊢
  cases hb : order.barrier with
  | none =>
    rw [hb] at h
    exact h
  | some b' =>
    rw [hb] at h
    by_cases heq : b = b'
    · subst heq
      simp only [Option.elim_some, Function.update_self] at h
      omega
    · simp only [Option.elim_some, Function.update_of_ne heq] at h
      exact h

/-- A signal opens no other barrier. -/
theorem open_of_open_signal (h : (p.signal w job).barrier_open b) :
    p.barrier_open b ∨ job.barrier = some b := by
  by_cases hb : job.barrier = some b
  · exact .inr hb
  · have hposted : (job.barrier.elim p.barriers p.th_pool_barrier_signal b).posted_count =
        (p.barriers b).posted_count := posted_count_signal b
    have hdone : (job.barrier.elim p.barriers p.th_pool_barrier_signal b).done_count = _ :=
      done_count_signal b
    rw [if_neg hb] at hdone
    unfold barrier_open at h ⊢
    change (job.barrier.elim p.barriers p.th_pool_barrier_signal b).posted_count ≤
      (job.barrier.elim p.barriers p.th_pool_barrier_signal b).done_count at h
    exact .inl (by omega)

/-- With an empty queue all jobs are executed or being run. -/
theorem dispatched_of_unavailable (hp : Reachable p)
    (h : p.job_queue.queue_is_job_available = false) :
    p.dispatched.length = p.executed.length + (p.workers.filterMap runs).length := by
  obtain ⟨js, fs, hinv⟩ := inv_of_reachable hp
  obtain rfl := JobQueue.contents_of_unavailable hinv.lists h
  have hlen := hinv.balance.length_eq
  rw [← hlen, List.length_append, List.length_append]
  exact Nat.add_comm _ _ |>.trans (congrArg _ (Nat.zero_add _))

/-- Without room for a job all nodes have one. -/
theorem allocated_of_full (hp : Reachable p)
    (h : p.job_queue.queue_can_accept_order = false) :
    p.job_queue.max_capacity < p.job_queue.capacity ∧
      p.job_queue.allocated.length + p.executed.length + (p.workers.filterMap runs).length =
        p.dispatched.length := by
  obtain ⟨js, fs, hinv⟩ := inv_of_reachable hp
  unfold JobQueue.queue_can_accept_order at h
  rw [Bool.or_eq_false_iff, Option.isSome_eq_false_iff, Option.isNone_iff_eq_none,
    decide_eq_false_iff_not, not_le] at h
  obtain rfl : fs = [] := (h.1 ▸ hinv.lists.free).eq_nil_of_tail
  refine ⟨h.2, ?_⟩
  have hall := hinv.lists.all.length_eq
  have hlen := hinv.balance.length_eq
  rw [List.append_nil, List.append_nil] at hall
  rw [← hlen, ← hall, List.length_append, List.length_append, JobQueue.contents, List.length_map]
  omega

end ThreadPool

/-! ## Section 4: Every step -/

namespace WaitingPool

variable {s : WaitingPool} {c w b j r : Nat} {node woken : Option Nat} {order : Order}

/-- An empty queue leaves no job without a worker. -/
theorem jobs_of_unavailable (h : InvUpTo j r none s)
    (hempty : s.pool.job_queue.queue_is_job_available = false) :
    s.pool.dispatched.length ≤ s.pool.executed.length + s.over_workers working := by
  rw [over_workers_working]
  exact (ThreadPool.dispatched_of_unavailable h.pool hempty).le

/-- The queue has one more job, and maybe one free node less. -/
theorem inv_dispatch (h : InvUpTo 0 1 none s) (he : (dispatch order node).Enabled s.pool) :
    InvUpTo 1 0 none { s with pool := s.pool.step (dispatch order node) } := by
  have hp := ThreadPool.Reachable.step _ h.pool he
  have hopen := fun b => ThreadPool.open_of_open_dispatch (b := b) he
  have hcases : (∃ temp, s.pool.job_queue.freeTail = some temp) ∨
      s.pool.job_queue.freeTail = none := by
    cases s.pool.job_queue.freeTail with
    | none => exact .inr rfl
    | some temp => exact .inl ⟨temp, rfl⟩
  rw [ThreadPool.step_dispatch he] at hp hopen ⊢
  refine { h with pool := hp, jobs := ?_, room := ?_, nodes := ?_, signals := ?_ }
  · intro hasleep
    have hold := h.jobs hasleep
    show s.pool.dispatched.length + 1 ≤
      s.pool.executed.length + s.over_workers working + s.over_workers looking + 1
    omega
  · intro hasleep
    obtain ⟨hfull, hle⟩ := h.room hasleep
    -- the queue has a free node, for it may not grow
    obtain ⟨temp, htail⟩ : ∃ temp, s.pool.job_queue.freeTail = some temp := by
      rcases hcases with htail | hnone
      · exact htail
      · have haccept := he.2.1
        simp only [JobQueue.queue_can_accept_order, hnone, Option.isSome_none, Bool.false_or,
          decide_eq_true_eq] at haccept
        omega
    obtain ⟨hallocated, hcapacity, hmax⟩ :=
      JobQueue.sameSize_post (s.pool.ordered order) node htail
    show (s.pool.job_queue.queue_post_job _ node).max_capacity <
        (s.pool.job_queue.queue_post_job _ node).capacity ∧
      (s.pool.job_queue.queue_post_job _ node).allocated.length + s.pool.executed.length +
        s.over_workers working ≤ s.pool.dispatched.length + 1 + s.over_callers ordering + 0
    rw [hallocated, hcapacity, hmax]
    exact ⟨hfull, by omega⟩
  · show (s.pool.job_queue.queue_post_job _ node).allocated ≠ []
    rcases hcases with ⟨temp, htail⟩ | hnone
    · rw [(JobQueue.sameSize_post _ _ htail).1]
      exact h.nodes
    · obtain ⟨a, rfl, -⟩ := he.2.2 hnone
      rw [JobQueue.allocated_post hnone a]
      exact List.cons_ne_nil _ _
  · intro c b hc
    exact (h.signals c b hc).imp (fun hclosed hopen' => hclosed (hopen b hopen')) id

theorem inv_post (h : Inv s) (he : (Event.post c node woken).Enabled s) :
    (s.step (.post c node woken)).Inv := by
  obtain ⟨order, hposting, hdispatch, hpick⟩ := he
  have hc : c < s.clients := lt_clients h (by rw [hposting]; simp)
  have hleft : InvUpTo 0 1 none (s.set_caller c .away) :=
    inv_set_away h hc (by rw [hposting]; exact le_refl 1)
  rw [step_post hposting]
  exact inv_notify_worker (inv_dispatch hleft hdispatch) hpick

/-- The caller that goes to sleep leaves no free node behind. -/
theorem inv_post_sleep (h : Inv s) (he : (Event.post_sleep c).Enabled s) :
    (s.step (.post_sleep c)).Inv := by
  obtain ⟨order, hposting, hfull⟩ := he
  have hhere : s.callers c ≠ .away := by rw [hposting]; simp
  obtain ⟨hmax, hsizes⟩ := ThreadPool.allocated_of_full h.pool hfull
  rw [← over_workers_working] at hsizes
  rw [step_post_sleep hposting]
  refine inv_set_caller h (lt_clients h hhere) ?_ (.inl ⟨hmax, hsizes.le⟩) ?_ ?_
  · intro hdown
    exact absurd (h.closed hdown c) hhere
  · intro b hb
    cases hb
  · intro b c' hb
    cases hb

theorem inv_barrier_wait (h : Inv s) (he : (Event.barrier_wait c).Enabled s) :
    (s.step (.barrier_wait c)).Inv := by
  obtain ⟨b, hwaiting, hopen⟩ := he
  have hc : c < s.clients := lt_clients h (by rw [hwaiting]; simp)
  have hleft : Inv (s.set_caller c .away) :=
    inv_set_away h hc (by rw [hwaiting]; exact le_refl 0)
  rw [step_barrier_wait hwaiting]
  exact { hleft with pool := .step (.barrier_wait b) h.pool hopen }

/-- The caller goes to sleep under the mutex of the barrier. -/
theorem inv_barrier_sleep (h : Inv s) (he : (Event.barrier_sleep c).Enabled s) :
    (s.step (.barrier_sleep c)).Inv := by
  obtain ⟨b, hwaiting, hclosed⟩ := he
  have hhere : s.callers c ≠ .away := by rw [hwaiting]; simp
  rw [step_barrier_sleep hwaiting]
  refine inv_set_caller h (lt_clients h hhere) ?_ (.inr ⟨by simp, ?_⟩) ?_ ?_
  · intro hdown
    exact absurd (h.closed hdown c) hhere
  · rw [hwaiting]
    exact le_refl 0
  · intro b' hb'
    obtain rfl : b = b' := (Caller.waiting.inj hb').1
    exact hclosed
  · intro b' c' hb' hc'
    exact h.single c' c b' hc' (by rw [hwaiting]; exact hb')

theorem inv_call (h : Inv s) (he : (Event.call c order).Enabled s) :
    (s.step (.call c order)).Inv := by
  obtain ⟨hc, haway, hup⟩ := he
  refine inv_set_caller h hc ?_ (.inr ⟨by simp, ?_⟩) ?_ ?_
  · intro hdown
    rw [hup] at hdown
    cases hdown
  · rw [haway]
    exact Nat.zero_le 1
  · intro b hb
    cases hb
  · intro b c' hb
    cases hb

theorem inv_await (h : Inv s) (he : (Event.await c b).Enabled s) : (s.step (.await c b)).Inv := by
  obtain ⟨hc, haway, hup, halone⟩ := he
  refine inv_set_caller h hc ?_ (.inr ⟨by simp, ?_⟩) ?_ ?_
  · intro hdown
    rw [hup] at hdown
    cases hdown
  · rw [haway]
    exact le_refl 0
  · intro b' hb'
    cases hb'
  · intro b' c' hb' hc'
    obtain rfl : b = b' := Option.some.inj hb'
    exact absurd hc' (halone c')

/-- An open barrier starts again; who still waits for it will be notified. -/
theorem inv_barrier_start (h : Inv s) (he : (Event.barrier_start b).Enabled s) :
    (s.step (.barrier_start b)).Inv := by
  refine { h with pool := .step (.barrier_start b) h.pool he, signals := fun c b' hc => ?_ }
  rcases h.signals c b' hc with hclosed | hsoon
  · refine .inl fun hopen => hclosed ?_
    by_cases hb : b' = b
    · subst hb
      obtain ⟨js, fs, hinv⟩ := ThreadPool.inv_of_reachable h.pool
      exact hinv.waited b' he
    · change (Function.update s.pool.barriers b ⟨0, 0⟩ b').posted_count ≤
        (Function.update s.pool.barriers b ⟨0, 0⟩ b').done_count at hopen
      rw [Function.update_of_ne hb] at hopen
      exact hopen
  · exact .inr hsoon

/-! ### Steps of the workers -/

theorem set_seat_at_mutex (p' : ThreadPool) (h : s.seats w = .at_mutex) :
    { s with pool := p' }.set_seat w .at_mutex = { s with pool := p' } := by
  unfold set_seat
  rw [← h, Function.update_eq_self]

theorem inv_fetch (h : Inv s) (he : (Event.fetch w woken).Enabled s) :
    (s.step (.fetch w woken)).Inv := by
  obtain ⟨hseat, hfetch, hpick⟩ := he
  obtain ⟨job, hstep⟩ := ThreadPool.step_fetch hfetch
  obtain ⟨hallocated, hcapacity, hmax⟩ := JobQueue.sameSize_fetch s.pool.job_queue
  have hp := ThreadPool.Reachable.step _ h.pool hfetch
  rw [hstep] at hp
  have hmove : InvUpTo 0 1 none ({ s with pool := { s.pool with
      job_queue := s.pool.job_queue.queue_fetch_job.2 }.set_worker w (.running job) }.set_seat w
        .at_mutex) := by
    refine inv_move h hfetch.1 hp rfl hallocated hcapacity hmax rfl rfl (by simp) (by simp) ?_
      (.inl ⟨by simp, ?_⟩) ?_ (fun b hb => .inl hb) ?_ (fun b hb => hb)
    · rw [hseat]
      exact Nat.le_succ _
    · rw [hseat]
      exact le_refl _
    · rw [hseat]
      exact le_refl _
    · intro b hb
      rw [hseat] at hb
      cases hb
  rw [set_seat_at_mutex _ hseat] at hmove
  show ({ s with pool := s.pool.step (.fetch w) }.notify_caller woken).Inv
  rw [hstep]
  exact inv_notify_poster hmove hpick

/-- A worker leaves an empty queue. -/
theorem inv_exit (h : Inv s) (he : (Event.exit w woken).Enabled s) :
    (s.step (.exit w woken)).Inv := by
  obtain ⟨hseat, hexit, hpick⟩ := he
  have hmove : Inv ({ s with pool := s.pool.step (.exit w) }.set_seat w .at_mutex) := by
    refine inv_move h hexit.1 (.step _ h.pool hexit) rfl rfl rfl rfl rfl rfl (by simp) (by simp)
      (le_refl _) (.inr (jobs_of_unavailable h hexit.2.2)) (le_refl _) (fun b hb => .inl hb) ?_
      (fun b hb => hb)
    intro b hb
    rw [hseat] at hb
    cases hb
  rw [set_seat_at_mutex _ hseat] at hmove
  have hslack : InvUpTo 0 1 none { s with pool := s.pool.step (.exit w) } :=
    { hmove with room := fun hasleep => ⟨(hmove.room hasleep).1, Nat.le_succ_of_le (hmove.room hasleep).2⟩ }
  exact inv_notify_poster hslack hpick

/-- A worker that has a job has no other seat. -/
theorem seat_of_busy {state : WorkerState} (h : Inv s) (hworker : s.pool.workers[w]? = some state)
    (hbusy : state ≠ .idle) : s.seats w = .at_mutex := by
  by_contra hseat
  exact hbusy (Option.some.inj (hworker.symm.trans (h.seat w hseat)))

theorem inv_finish (h : Inv s) (he : (Event.finish w).Enabled s) : (s.step (.finish w)).Inv := by
  obtain ⟨job, hworker⟩ := he
  have hseat := seat_of_busy h hworker (by simp)
  have hp := ThreadPool.Reachable.step (.finish w) h.pool ⟨job, hworker⟩
  rw [ThreadPool.step_finish hworker] at hp
  have hmove : Inv ({ s with pool := s.pool.finish w job }.set_seat w .at_mutex) := by
    refine inv_move h hworker hp rfl rfl rfl rfl rfl rfl (by simp) (by simp) (le_refl _)
      (.inl ⟨by simp, le_refl _⟩) (le_refl _) (fun b hb => .inl hb) ?_ (fun b hb => hb)
    intro b hb
    rw [hseat] at hb
    cases hb
  rw [set_seat_at_mutex _ hseat] at hmove
  show Inv { s with pool := s.pool.step (.finish w) }
  rw [ThreadPool.step_finish hworker]
  exact hmove

/-- The barrier may be open, but the worker will tell. -/
theorem inv_signal (h : Inv s) (he : (Event.signal w).Enabled s) : (s.step (.signal w)).Inv := by
  obtain ⟨job, hworker⟩ := he
  have hseat := seat_of_busy h hworker (by simp)
  have hp := ThreadPool.Reachable.step (.signal w) h.pool ⟨job, hworker⟩
  rw [step_signal hworker]
  rw [ThreadPool.step_signal hworker] at hp ⊢
  have hawake : (job.barrier.elim Seat.at_mutex Seat.notifying) ≠ .asleep := by
    cases job.barrier <;> simp
  have hlooking : looking (.idle, job.barrier.elim Seat.at_mutex Seat.notifying) = 1 := by
    cases job.barrier <;> rfl
  refine inv_move h hworker hp rfl rfl rfl rfl rfl rfl (fun _ => rfl) (fun _ => hawake) (le_refl _)
    (.inl ⟨hawake, ?_⟩) (le_refl _) ?_ ?_ (fun b hb => hb)
  · rw [hlooking]
    exact Nat.le_succ _
  · intro b hb
    refine (ThreadPool.open_of_open_signal hb).imp id fun hbar => ?_
    rw [hbar]
    rfl
  · intro b hb
    rw [hseat] at hb
    cases hb

theorem inv_sleep (h : Inv s) (he : (Event.sleep w).Enabled s) : (s.step (.sleep w)).Inv := by
  obtain ⟨hseat, hidle, hup, hempty⟩ := he
  refine inv_set_seat .asleep h hidle (fun _ => rfl) ?_ (.inr (jobs_of_unavailable h hempty)) ?_ (fun b hb => hb)
  · intro htold
    have hdown := (h.told htold).1
    rw [hup] at hdown
    cases hdown
  · intro b hb
    rw [hseat] at hb
    cases hb

theorem inv_notify (h : Inv s) (he : (Event.notify w woken).Enabled s) :
    (s.step (.notify w woken)).Inv := by
  obtain ⟨b, hseat, hpick⟩ := he
  have hidle := h.seat w (by rw [hseat]; simp)
  refine inv_notify_waiter (b := b) (inv_set_seat .at_mutex h hidle (by simp) (by simp) (.inl ⟨by simp, ?_⟩) ?_
    (fun b' hb' => by cases hb')) hpick
  · rw [hseat]
    exact le_refl _
  · intro b' hb'
    exact congrArg some (Seat.notifying.inj (hseat.symm.trans hb'))

theorem inv_wake_worker (h : Inv s) (he : (Event.wake_worker w).Enabled s) :
    (s.step (.wake_worker w)).Inv := by
  have hseat : s.seats w = .asleep := he
  have hidle := h.seat w (by rw [hseat]; simp)
  refine inv_set_seat .at_mutex h hidle (by simp) (by simp) (.inl ⟨by simp, ?_⟩) ?_ (fun b hb => hb)
  · rw [hseat]
    exact Nat.zero_le _
  · intro b hb
    rw [hseat] at hb
    cases hb

/-- Nobody is asleep on `job_posted` any more. -/
theorem inv_notify_all (h : Inv s) (he : Event.notify_all.Enabled s) : (s.step .notify_all).Inv := by
  have hawake : ∀ w, (s.step .notify_all).seats w ≠ .asleep := by
    intro w
    show (if s.seats w = .asleep then Seat.at_mutex else s.seats w) ≠ .asleep
    split
    · simp
    · next hne => exact hne
  have hworking : (s.step .notify_all).over_workers working = s.over_workers working := by
    rw [over_workers_working, over_workers_working]
    rfl
  refine ⟨h.pool, ?_, h.away, h.closed, fun _ => ⟨he.1, hawake⟩, fun ⟨w, hw⟩ => absurd hw (hawake w), ?_,
    h.nodes, ?_, h.single⟩
  · intro w hw
    refine h.seat w fun hseat => hw ?_
    show (if s.seats w = .asleep then Seat.at_mutex else s.seats w) = .at_mutex
    rw [hseat]
    rfl
  · rw [hworking]
    exact h.room
  · intro c b hc
    refine (h.signals c b hc).imp id (Or.imp_left fun ⟨w, hw⟩ => ⟨w, ?_⟩)
    show (if s.seats w = .asleep then Seat.at_mutex else s.seats w) = .notifying b
    rw [hw]
    rfl

/-- Every step keeps the invariant. -/
theorem inv_step {e : Event} (h : Inv s) (he : e.Enabled s) : (s.step e).Inv := by
  cases e with
  | call c order => exact inv_call h he
  | await c b => exact inv_await h he
  | barrier_start b => exact inv_barrier_start h he
  | destroy =>
    exact { h with
      pool := .step .destroy h.pool trivial
      closed := fun _ => he
      told := fun htold => ⟨rfl, (h.told htold).2⟩ }
  | post c node woken => exact inv_post h he
  | post_sleep c => exact inv_post_sleep h he
  | barrier_wait c => exact inv_barrier_wait h he
  | barrier_sleep c => exact inv_barrier_sleep h he
  | fetch w woken => exact inv_fetch h he
  | sleep w => exact inv_sleep h he
  | exit w woken => exact inv_exit h he
  | finish w => exact inv_finish h he
  | signal w => exact inv_signal h he
  | notify w woken => exact inv_notify h he
  | notify_all => exact inv_notify_all h he
  | joined => exact { h with pool := .step .joined h.pool he.2.1 }
  | wake_worker w => exact inv_wake_worker h he
  | wake_caller c => exact inv_awake h he

theorem inv_of_reachable (hs : Reachable s) : s.Inv := by
  induction hs with
  | create clients n first rest nodes hpos hnodes => exact inv_create clients hpos hnodes
  | step e _ he ih => exact inv_step ih he

end WaitingPool

end PinbaEngine
