import PinbaEngine.WakeUps

/-! # Every call of the worker pool returns

    What follows from the invariant for whole runs: where no thread of the program has
    a step left, everything that was asked for is done, and the threads cannot take
    steps for ever. A step takes something off the work that is left, also where it
    wakes another thread.

    Spurious wake-ups and new calls are steps from outside.
-/

namespace PinbaEngine

namespace WaitingPool

variable {s : WaitingPool} {c w b j r : Nat} {node woken told_of : Option Nat} {order : Order}

/-! ## Section 1: No step left -/

/-- A step that the threads of the program take. -/
def InsideStep (s s' : WaitingPool) : Prop := ∃ e : Event, e.Inside ∧ e.Enabled s ∧ s' = s.step e

/-- All calls have returned, all jobs are executed and no worker owes a signal. -/
structure Done (s : WaitingPool) : Prop where
  callers : ∀ c, s.callers c = .away
  executed : s.pool.executed.Perm s.pool.dispatched
  workers : ∀ state ∈ s.pool.workers, state = .idle ∨ state = .exited
  destroyed : s.pool.shutdown = true → s.pool.destroyed = true

section stuck
variable {state : WorkerState}

theorem exists_pick (Asleep : Nat → Prop) : ∃ woken, Picks Asleep woken := by
  by_cases h : ∃ x, Asleep x
  · obtain ⟨x, hx⟩ := h
    exact ⟨some x, hx⟩
  · exact ⟨none, fun x hx => h ⟨x, hx⟩⟩

variable (hstuck : ∀ e : Event, e.Inside → ¬ e.Enabled s)
include hstuck

/-- No worker is on its way. -/
theorem worker_of_stuck (hworker : s.pool.workers[w]? = some state) :
    state = .exited ∨ (state = .idle ∧ s.seats w = .asleep) := by
  obtain ⟨woken, hwoken⟩ := exists_pick s.poster_asleep
  rcases state with _ | job | job | _
  · right
    refine ⟨rfl, ?_⟩
    cases hseat : s.seats w with
    | asleep => rfl
    | notifying b =>
      obtain ⟨woken, hwoken⟩ := exists_pick (s.waiter_asleep b)
      exact absurd ⟨b, hseat, hwoken⟩ (hstuck (.notify w woken) trivial)
    | at_mutex =>
      cases havail : s.pool.job_queue.queue_is_job_available with
      | true => exact absurd ⟨hseat, ⟨hworker, havail⟩, hwoken⟩ (hstuck (.fetch w woken) trivial)
      | false =>
        cases hdown : s.pool.shutdown with
        | true =>
          exact absurd ⟨hseat, ⟨hworker, hdown, havail⟩, hwoken⟩ (hstuck (.exit w woken) trivial)
        | false => exact absurd ⟨hseat, hworker, hdown, havail⟩ (hstuck (.sleep w) trivial)
  · exact absurd ⟨job, hworker⟩ (hstuck (.finish w) trivial)
  · exact absurd ⟨job, hworker⟩ (hstuck (.signal w) trivial)
  · exact .inl rfl

theorem shares_of_stuck : s.over_workers working = 0 ∧ s.over_workers looking = 0 := by
  have hzero : ∀ w ∈ Finset.range s.pool.workers.length,
      working (s.worker w) = 0 ∧ looking (s.worker w) = 0 := by
    intro w hw
    have hget := List.getElem?_eq_getElem (Finset.mem_range.mp hw)
    rcases worker_of_stuck hstuck hget with hexit | ⟨hidle, hasleep⟩
    · rw [hexit] at hget
      rw [worker_of_getElem? hget]
      exact ⟨rfl, rfl⟩
    · rw [hidle] at hget
      rw [worker_of_getElem? hget, hasleep]
      exact ⟨rfl, rfl⟩
  exact ⟨Finset.sum_eq_zero fun w hw => (hzero w hw).1, Finset.sum_eq_zero fun w hw => (hzero w hw).2⟩

/-- A caller that is not away is asleep. -/
theorem caller_of_stuck (h : Inv s) (c : Nat) :
    s.callers c = .away ∨ s.poster_asleep c ∨ ∃ b, s.waiter_asleep b c := by
  rcases hcase : s.callers c with _ | ⟨order, _ | _⟩ | ⟨b, _ | _⟩
  · exact .inl rfl
  · -- it would find room or go to sleep
    cases haccept : s.pool.job_queue.queue_can_accept_order with
    | false => exact absurd ⟨order, hcase, haccept⟩ (hstuck (.post_sleep c) trivial)
    | true =>
      obtain ⟨woken, hwoken⟩ := exists_pick s.worker_asleep
      obtain ⟨a, ha⟩ := Infinite.exists_notMem_finset s.pool.job_queue.allocated.toFinset
      rw [List.mem_toFinset] at ha
      have hup := not_shutdown h (c := c) (by rw [hcase]; simp)
      refine absurd ⟨order, hcase, ⟨?_, haccept, fun _ => ⟨a, rfl, ha⟩⟩, hwoken⟩
        (hstuck (.post c (some a) woken) trivial)
      intro hdown
      rw [hup] at hdown
      cases hdown
  · exact .inr (.inl ⟨order, hcase⟩)
  · by_cases hopen : s.pool.barrier_open b
    · exact absurd ⟨b, hcase, hopen⟩ (hstuck (.barrier_wait c) trivial)
    · exact absurd ⟨b, hcase, hopen⟩ (hstuck (.barrier_sleep c) trivial)
  · exact .inr (.inr ⟨b, hcase⟩)

/-- Where nothing is left to do, nothing is left undone. -/
theorem done_of_stuck (h : Inv s) : s.Done := by
  obtain ⟨js, fs, hpool⟩ := ThreadPool.inv_of_reachable h.pool
  obtain ⟨hworking, hlooking⟩ := shares_of_stuck hstuck
  have hidle : ∀ state ∈ s.pool.workers, state = .idle ∨ state = .exited := by
    intro state hmem
    obtain ⟨w, hw⟩ := List.getElem?_of_mem hmem
    exact (worker_of_stuck hstuck hw).symm.imp And.left id
  have hruns : s.pool.workers.filterMap ThreadPool.runs = [] := by
    rw [over_workers_working] at hworking
    exact List.eq_nil_of_length_eq_zero hworking
  have howes : s.pool.workers.filterMap ThreadPool.owes = [] := by
    rw [List.filterMap_eq_nil_iff]
    intro state hmem
    rcases hidle state hmem with rfl | rfl <;> rfl
  -- a job in the queue would have a worker that looks for it
  have hempty : js = [] := by
    by_contra hne
    obtain ⟨state, hmem, hhere⟩ := hpool.staffed hne
    obtain ⟨w, hw⟩ := List.getElem?_of_mem hmem
    rcases worker_of_stuck hstuck hw with hexit | ⟨-, hasleep⟩
    · exact hhere hexit
    · have hjobs := h.jobs ⟨w, hasleep⟩
      have hlen := hpool.balance.length_eq
      have hpos := List.length_pos_of_ne_nil hne
      rw [hruns, List.append_nil, List.length_append, JobQueue.contents, List.length_map] at hlen
      omega
  have hexecuted : s.pool.executed.Perm s.pool.dispatched := by
    have hbalance := hpool.balance
    rw [hruns, hempty] at hbalance
    exact hbalance
  -- all nodes are free, and nobody looks for them
  have hroom : ∀ c, ¬ s.poster_asleep c := by
    intro c hasleep
    have hordering : s.over_callers ordering = 0 := by
      refine Finset.sum_eq_zero fun c' _ => ?_
      rcases caller_of_stuck hstuck h c' with haway | ⟨order, hposting⟩ | ⟨b, hwaiting⟩
      · rw [haway]
        rfl
      · rw [hposting]
        rfl
      · rw [show s.callers c' = .waiting b true from hwaiting]
        rfl
    have hle := (h.room ⟨c, hasleep⟩).2
    have hpos := List.length_pos_of_ne_nil h.nodes
    have hlen := hexecuted.length_eq
    omega
  -- no job of a barrier is left, and no worker has to tell
  have hwait : ∀ b c, ¬ s.waiter_asleep b c := by
    intro b c hasleep
    rcases h.signals c b hasleep with hclosed | ⟨w, hseat⟩ | hnone
    · have hcounts := hpool.counts b
      rw [hempty, howes] at hcounts
      exact hclosed hcounts.le
    · rcases worker_of_stuck hstuck (h.seat w (by rw [hseat]; simp)) with hexit | ⟨-, hsleep⟩
      · cases hexit
      · rw [hseat] at hsleep
        cases hsleep
    · cases hnone
  refine ⟨fun c => ?_, hexecuted, hidle, fun hdown => ?_⟩
  · rcases caller_of_stuck hstuck h c with haway | hposting | ⟨b, hwaiting⟩
    · exact haway
    · exact absurd hposting (hroom c)
    · exact absurd hwaiting (hwait b c)
  · by_contra hnot
    have htold : s.told = true := by
      by_contra hnone
      exact hstuck .notify_all trivial ⟨hdown, by simpa using hnone⟩
    refine hstuck .joined trivial ⟨htold, ⟨hdown, fun state hmem => ?_⟩, by simpa using hnot⟩
    obtain ⟨w, hw⟩ := List.getElem?_of_mem hmem
    rcases worker_of_stuck hstuck hw with hexit | ⟨-, hasleep⟩
    · exact hexit
    · exact absurd hasleep ((h.told htold).2 w)

end stuck

/-! ## Section 2: No run without an end -/

/-- What a worker may still do for what it has. -/
def worker_work : WorkerState × Seat → Nat
  | (.idle, .asleep) => 0
  | (.idle, .at_mutex) => 2
  | (.idle, .notifying _) => 4
  | (.finished _, _) => 5
  | _ => 0

/-- What a caller may still do. -/
def caller_work : Caller → Nat
  | .away => 0
  | .posting _ asleep => if asleep then 13 else 14
  | .waiting _ asleep => if asleep then 1 else 2

/-- What is left of `th_pool_destroy`. -/
def destroyer_work (s : WaitingPool) : Nat :=
  (if s.pool.shutdown = true ∧ s.told = false then 2 * s.pool.workers.length + 1 else 0) +
    if s.pool.destroyed = true then 0 else 1

/-- Every step inside takes something off it. -/
def work (s : WaitingPool) : Nat :=
  10 * (s.pool.dispatched.length - s.pool.executed.length) + s.over_workers worker_work +
    s.over_callers caller_work + s.destroyer_work

section work
variable {state state' : WorkerState} {seat : Seat} {p' : ThreadPool}

theorem caller_work_awake (x : Caller) : caller_work x.awake ≤ caller_work x + 1 := by
  rcases x with _ | ⟨order, _ | _⟩ | ⟨b, _ | _⟩ <;> simp [Caller.awake, caller_work]

/-- A caller that wakes up makes little work. -/
theorem work_notify_caller {Asleep : Nat → Prop} (hpick : Picks Asleep woken)
    (hclient : ∀ c, Asleep c → c < s.clients) : (s.notify_caller woken).work ≤ s.work + 1 := by
  rcases woken with _ | c
  · exact Nat.le_succ _
  · have hsum := over_callers_set_caller caller_work (hclient c hpick)
      (s.callers c).awake
    have hawake := caller_work_awake (s.callers c)
    show 10 * (s.pool.dispatched.length - s.pool.executed.length) + s.over_workers worker_work +
      (s.set_caller c (s.callers c).awake).over_callers caller_work + s.destroyer_work ≤ _
    unfold work
    omega

theorem work_notify_worker (woken : Option Nat) (h : InvUpTo j r told_of s) (hpick : Picks s.worker_asleep woken) :
    (s.notify_worker woken).work ≤ s.work + 2 := by
  rcases woken with _ | w
  · exact Nat.le_add_right _ _
  · have hasleep : s.seats w = .asleep := hpick
    have hsum := over_workers_set_seat worker_work
      (h.seat w (by rw [hasleep]; simp)) Seat.at_mutex
    rw [hasleep] at hsum
    have hold : worker_work (.idle, .asleep) = 0 := rfl
    have hnew : worker_work (.idle, .at_mutex) = 2 := rfl
    show 10 * (s.pool.dispatched.length - s.pool.executed.length) +
      (s.set_seat w .at_mutex).over_workers worker_work + s.over_callers caller_work +
        s.destroyer_work ≤ _
    unfold work
    omega

/-- The work after a worker has moved on. -/
theorem work_move (p' : ThreadPool) (state' : WorkerState) (seat : Seat)
    (hworker : s.pool.workers[w]? = some state)
    (hworkers : p'.workers = s.pool.workers.set w state') (hshutdown : p'.shutdown = s.pool.shutdown)
    (hdestroyed : p'.destroyed = s.pool.destroyed) :
    ({ s with pool := p' }.set_seat w seat).work +
        10 * (s.pool.dispatched.length - s.pool.executed.length) + worker_work (state, s.seats w) =
      s.work + 10 * (p'.dispatched.length - p'.executed.length) + worker_work (state', seat) := by
  have hsum := over_workers_move worker_work ({ s with pool := p' }.set_seat w seat) hworker hworkers rfl
  have hdestroyer : ({ s with pool := p' }.set_seat w seat).destroyer_work = s.destroyer_work := by
    show (if p'.shutdown = true ∧ s.told = false then 2 * p'.workers.length + 1 else 0) + (if p'.destroyed = true then 0 else 1) = _
    rw [hshutdown, hdestroyed, hworkers, List.length_set]
    rfl
  show 10 * (p'.dispatched.length - p'.executed.length) +
    ({ s with pool := p' }.set_seat w seat).over_workers worker_work + s.over_callers caller_work +
      ({ s with pool := p' }.set_seat w seat).destroyer_work + _ + _ = _
  rw [hdestroyer]
  unfold work
  omega

/-- The work after a worker has changed its seat. -/
theorem work_set_seat (seat : Seat) (hworker : s.pool.workers[w]? = some state) :
    (s.set_seat w seat).work + worker_work (state, s.seats w) =
      s.work + worker_work (state, seat) := by
  have hsum := over_workers_set_seat worker_work hworker seat
  show 10 * (s.pool.dispatched.length - s.pool.executed.length) +
    (s.set_seat w seat).over_workers worker_work + s.over_callers caller_work + s.destroyer_work +
      _ = _
  unfold work
  omega

/-- The work after a caller has gone on. -/
theorem work_set_caller {x : Caller} (hc : c < s.clients) :
    (s.set_caller c x).work + caller_work (s.callers c) = s.work + caller_work x := by
  have hsum := over_callers_set_caller caller_work hc x
  show 10 * (s.pool.dispatched.length - s.pool.executed.length) + s.over_workers worker_work +
    (s.set_caller c x).over_callers caller_work + s.destroyer_work + _ = _
  unfold work
  omega

theorem work_dispatch (he : (dispatch order node).Enabled s.pool) :
    { s with pool := s.pool.step (dispatch order node) }.work ≤ s.work + 10 := by
  rw [ThreadPool.step_dispatch he]
  show 10 * (s.pool.dispatched.length + 1 - s.pool.executed.length) + s.over_workers worker_work +
    s.over_callers caller_work + s.destroyer_work ≤ _
  unfold work
  omega

theorem work_post (h : Inv s) (he : (Event.post c node woken).Enabled s) :
    (s.step (.post c node woken)).work < s.work := by
  obtain ⟨order, hposting, hdispatch, hpick⟩ := he
  have hc : c < s.clients := lt_clients h (by rw [hposting]; simp)
  have hleft : InvUpTo 0 1 none (s.set_caller c .away) :=
    inv_set_away h hc (by rw [hposting]; exact le_refl 1)
  rw [step_post hposting]
  have hnotified := work_notify_worker woken (inv_dispatch hleft hdispatch) hpick
  have hposted := work_dispatch (s := s.set_caller c .away) hdispatch
  have haway := work_set_caller (x := .away) hc
  have hold : caller_work (s.callers c) = 14 := by rw [hposting]; rfl
  have hnew : caller_work .away = 0 := rfl
  show ({ s.set_caller c .away with
    pool := s.pool.step (dispatch order node) }.notify_worker woken).work < s.work
  have hnotified : ({ s.set_caller c .away with
    pool := s.pool.step (dispatch order node) }.notify_worker woken).work ≤
      { s.set_caller c .away with pool := s.pool.step (dispatch order node) }.work + 2 := hnotified
  have hposted : { s.set_caller c .away with pool := s.pool.step (dispatch order node) }.work ≤
    (s.set_caller c .away).work + 10 := hposted
  omega

theorem lt_clients_of_poster (h : Inv s) (hasleep : s.poster_asleep c) : c < s.clients := by
  obtain ⟨order, hposting⟩ := hasleep
  exact lt_clients h (by rw [hposting]; simp)

theorem lt_clients_of_waiter (h : Inv s) (hasleep : s.waiter_asleep b c) : c < s.clients :=
  lt_clients h (by rw [show s.callers c = .waiting b true from hasleep]; simp)

theorem work_fetch (h : Inv s) (he : (Event.fetch w woken).Enabled s) :
    (s.step (.fetch w woken)).work < s.work := by
  obtain ⟨hseat, hfetch, hpick⟩ := he
  obtain ⟨job, hstep⟩ := ThreadPool.step_fetch hfetch
  have hmove := work_move (s.pool.step (.fetch w)) (.running job) .at_mutex
    hfetch.1 (by rw [hstep]; rfl) (by rw [hstep]; rfl)
    (by rw [hstep]; rfl)
  rw [set_seat_at_mutex _ hseat, hseat] at hmove
  have hclient : ∀ c, s.poster_asleep c → c < s.clients := fun c => lt_clients_of_poster h
  have hnotified := work_notify_caller (s := { s with pool := s.pool.step (.fetch w) }) hpick hclient
  have hdispatched : (s.pool.step (.fetch w)).dispatched = s.pool.dispatched := by rw [hstep]; rfl
  have hexecuted : (s.pool.step (.fetch w)).executed = s.pool.executed := by rw [hstep]; rfl
  rw [hdispatched, hexecuted] at hmove
  have hold : worker_work (.idle, .at_mutex) = 2 := rfl
  have hnew : worker_work (.running job, .at_mutex) = 0 := rfl
  show ({ s with pool := s.pool.step (.fetch w) }.notify_caller woken).work < s.work
  omega

theorem work_exit (h : Inv s) (he : (Event.exit w woken).Enabled s) :
    (s.step (.exit w woken)).work < s.work := by
  obtain ⟨hseat, hexit, hpick⟩ := he
  have hmove := work_move (s.pool.step (.exit w)) .exited .at_mutex
    hexit.1 rfl rfl rfl
  rw [set_seat_at_mutex _ hseat, hseat] at hmove
  have hclient : ∀ c, s.poster_asleep c → c < s.clients := fun c => lt_clients_of_poster h
  have hnotified := work_notify_caller (s := { s with pool := s.pool.step (.exit w) }) hpick hclient
  have hdispatched : (s.pool.step (.exit w)).dispatched = s.pool.dispatched := rfl
  have hexecuted : (s.pool.step (.exit w)).executed = s.pool.executed := rfl
  rw [hdispatched, hexecuted] at hmove
  have hold : worker_work (.idle, .at_mutex) = 2 := rfl
  have hnew : worker_work (.exited, .at_mutex) = 0 := rfl
  show ({ s with pool := s.pool.step (.exit w) }.notify_caller woken).work < s.work
  omega

theorem work_finish (h : Inv s) (he : (Event.finish w).Enabled s) :
    (s.step (.finish w)).work < s.work := by
  obtain ⟨job, hworker⟩ := he
  have hseat := seat_of_busy h hworker (by simp)
  have hmove := work_move (s.pool.finish w job) _ .at_mutex hworker rfl rfl rfl
  rw [set_seat_at_mutex _ hseat, hseat] at hmove
  -- the job was not executed before
  obtain ⟨js, fs, hpool⟩ := ThreadPool.inv_of_reachable h.pool
  have hrun : job ∈ s.pool.workers.filterMap ThreadPool.runs :=
    List.mem_filterMap.mpr ⟨_, List.mem_of_getElem? hworker, rfl⟩
  have hlen := hpool.balance.length_eq
  have hpos := List.length_pos_of_mem hrun
  rw [List.length_append, List.length_append] at hlen
  have hdispatched : (s.pool.finish w job).dispatched = s.pool.dispatched := rfl
  have hexecuted : (s.pool.finish w job).executed.length = s.pool.executed.length + 1 := rfl
  rw [hdispatched, hexecuted] at hmove
  have hold : worker_work (.running job, .at_mutex) = 0 := rfl
  have hnew : worker_work (.finished job, .at_mutex) = 5 := rfl
  show { s with pool := s.pool.step (.finish w) }.work < s.work
  rw [ThreadPool.step_finish hworker]
  omega

theorem work_signal (h : Inv s) (he : (Event.signal w).Enabled s) :
    (s.step (.signal w)).work < s.work := by
  obtain ⟨job, hworker⟩ := he
  have hseat := seat_of_busy h hworker (by simp)
  have hmove := work_move (s.pool.signal w job) _ (job.barrier.elim Seat.at_mutex Seat.notifying)
    hworker rfl rfl rfl
  rw [hseat] at hmove
  have hdispatched : (s.pool.signal w job).dispatched = s.pool.dispatched := rfl
  have hexecuted : (s.pool.signal w job).executed = s.pool.executed := rfl
  rw [hdispatched, hexecuted] at hmove
  have hold : worker_work (.finished job, .at_mutex) = 5 := rfl
  have hnew : worker_work (.idle, job.barrier.elim Seat.at_mutex Seat.notifying) ≤ 4 := by
    cases job.barrier <;> simp [worker_work]
  rw [step_signal hworker, ThreadPool.step_signal hworker]
  omega

theorem work_notify (h : Inv s) (he : (Event.notify w woken).Enabled s) :
    (s.step (.notify w woken)).work < s.work := by
  obtain ⟨b, hseat, hpick⟩ := he
  have hset := work_set_seat .at_mutex (h.seat w (by rw [hseat]; simp))
  rw [hseat] at hset
  have hclient : ∀ c, s.waiter_asleep b c → c < s.clients := fun c => lt_clients_of_waiter h
  have hnotified := work_notify_caller (s := s.set_seat w .at_mutex) hpick hclient
  have hold : worker_work (.idle, .notifying b) = 4 := rfl
  have hnew : worker_work (.idle, .at_mutex) = 2 := rfl
  show ((s.set_seat w .at_mutex).notify_caller woken).work < s.work
  omega

/-- Waking all workers costs less than the call of `notify_all` was worth. -/
theorem work_notify_all (he : Event.notify_all.Enabled s) : (s.step .notify_all).work < s.work := by
  have hcalled : s.pool.shutdown = true ∧ s.told = false := he
  have hworkers : (s.step .notify_all).over_workers worker_work ≤
      s.over_workers worker_work + 2 * s.pool.workers.length := by
    have hconst : ∑ _w ∈ Finset.range s.pool.workers.length, 2 = 2 * s.pool.workers.length := by
      rw [Finset.sum_const, Finset.card_range, smul_eq_mul, Nat.mul_comm]
    rw [← hconst, over_workers, over_workers, ← Finset.sum_add_distrib]
    refine Finset.sum_le_sum fun w _ => ?_
    show worker_work (s.pool.workers.getD w .exited, if s.seats w = .asleep then .at_mutex else s.seats w) ≤
      worker_work (s.pool.workers.getD w .exited, s.seats w) + 2
    cases hseat : s.seats w <;> cases s.pool.workers.getD w .exited <;> simp [worker_work]
  have hold : s.destroyer_work = 2 * s.pool.workers.length + 1 +
      if s.pool.destroyed = true then 0 else 1 := by
    unfold destroyer_work
    rw [if_pos hcalled]
  have hnew : (s.step .notify_all).destroyer_work = if s.pool.destroyed = true then 0 else 1 := by
    show (if s.pool.shutdown = true ∧ true = false then _ else 0) + _ = _
    rw [if_neg (by simp), Nat.zero_add]
    rfl
  show 10 * (s.pool.dispatched.length - s.pool.executed.length) +
    (s.step .notify_all).over_workers worker_work + s.over_callers caller_work +
      (s.step .notify_all).destroyer_work < _
  unfold work
  omega

theorem work_joined (he : Event.joined.Enabled s) : (s.step .joined).work < s.work := by
  have hold : s.destroyer_work = (if s.pool.shutdown = true ∧ s.told = false then
      2 * s.pool.workers.length + 1 else 0) + 1 := by
    unfold destroyer_work
    rw [if_neg (c := s.pool.destroyed = true) (by rw [he.2.2]; simp)]
  show 10 * (s.pool.dispatched.length - s.pool.executed.length) + s.over_workers worker_work +
    s.over_callers caller_work + ((if s.pool.shutdown = true ∧ s.told = false then
      2 * s.pool.workers.length + 1 else 0) + 0) < _
  unfold work
  omega

/-- Every step inside takes something off the work. -/
theorem work_step {e : Event} (h : Inv s) (hin : e.Inside) (he : e.Enabled s) :
    (s.step e).work < s.work := by
  cases e with
  | call c order => exact hin.elim
  | await c b => exact hin.elim
  | barrier_start b => exact hin.elim
  | destroy => exact hin.elim
  | wake_worker w => exact hin.elim
  | wake_caller c => exact hin.elim
  | post c node woken => exact work_post h he
  | post_sleep c =>
    obtain ⟨order, hposting, -⟩ := he
    have hset := work_set_caller (x := .posting order true)
      (lt_clients h (c := c) (by rw [hposting]; simp))
    rw [hposting] at hset
    have hold : caller_work (.posting order false) = 14 := rfl
    have hnew : caller_work (.posting order true) = 13 := rfl
    rw [step_post_sleep hposting]
    omega
  | barrier_wait c =>
    obtain ⟨b, hwaiting, -⟩ := he
    have hset := work_set_caller (x := .away) (lt_clients h (c := c) (by rw [hwaiting]; simp))
    rw [hwaiting] at hset
    have hold : caller_work (.waiting b false) = 2 := rfl
    have hnew : caller_work .away = 0 := rfl
    rw [step_barrier_wait hwaiting]
    show (s.set_caller c .away).work < s.work
    omega
  | barrier_sleep c =>
    obtain ⟨b, hwaiting, -⟩ := he
    have hset := work_set_caller (x := .waiting b true)
      (lt_clients h (c := c) (by rw [hwaiting]; simp))
    rw [hwaiting] at hset
    have hold : caller_work (.waiting b false) = 2 := rfl
    have hnew : caller_work (.waiting b true) = 1 := rfl
    rw [step_barrier_sleep hwaiting]
    omega
  | fetch w woken => exact work_fetch h he
  | sleep w =>
    obtain ⟨hseat, hidle, -⟩ := he
    have hset := work_set_seat .asleep hidle
    rw [hseat] at hset
    have hold : worker_work (.idle, .at_mutex) = 2 := rfl
    have hnew : worker_work (.idle, .asleep) = 0 := rfl
    show (s.set_seat w .asleep).work < s.work
    omega
  | exit w woken => exact work_exit h he
  | finish w => exact work_finish h he
  | signal w => exact work_signal h he
  | notify w woken => exact work_notify h he
  | notify_all => exact work_notify_all he
  | joined => exact work_joined he

/-- No run of steps inside goes on for ever. -/
theorem acc_of_inv (h : Inv s) : Acc (fun s₂ s₁ => InsideStep s₁ s₂) s := by
  induction hn : s.work using Nat.strong_induction_on generalizing s with
  | h n ih =>
    refine .intro s ?_
    rintro s' ⟨e, hin, he, rfl⟩
    exact ih _ (hn ▸ work_step h hin he) (inv_step h he) rfl

theorem reachable_of_inside {s' : WaitingPool} (hs : Reachable s)
    (hrun : Relation.ReflTransGen InsideStep s s') : Reachable s' := by
  induction hrun with
  | refl => exact hs
  | tail _ hstep ih =>
    obtain ⟨e, -, he, rfl⟩ := hstep
    exact .step e ih he

/-- No wake-up is lost among callers that keep the contract. From every reachable state the
    threads of the program, left to themselves, come to an end, however they take turns,
    and then all callers have returned, `th_pool_destroy` too, all jobs are executed, and
    no worker has a barrier to tell. -/
theorem every_call_returns (hs : Reachable s) :
    Acc (fun s₂ s₁ => InsideStep s₁ s₂) s ∧
      ∀ s', Relation.ReflTransGen InsideStep s s' → (∀ s'', ¬ InsideStep s' s'') → s'.Done := by
  refine ⟨acc_of_inv (inv_of_reachable hs), fun s' hrun hend => ?_⟩
  refine done_of_stuck (fun e hin he => ?_) (inv_of_reachable (reachable_of_inside hs hrun))
  exact hend _ ⟨e, hin, he, rfl⟩

/-- One worker is asleep when an order comes. -/
theorem every_call_returns_one_order :
    let s := (((th_pool_create 1 1 10 [11] fun _ => ⟨default, none, none⟩).step (.sleep 0)).step
      (.barrier_start 0)).step (.call 0 ⟨1, 2, none, 0, some 0⟩)
    s.worker_asleep 0 ∧ s.callers 0 = .posting ⟨1, 2, none, 0, some 0⟩ false ∧
      Acc (fun s₂ s₁ => InsideStep s₁ s₂) s := by
  intro s
  have hs : Reachable s := by
    refine .step _ (.step _ (.step _ (.create 1 1 10 [11] _ (by decide) (by decide)) ?_) ?_) ?_
    · exact ⟨rfl, rfl, rfl, rfl⟩
    · rfl
    · exact ⟨Nat.one_pos, rfl, rfl⟩
  exact ⟨rfl, rfl, (every_call_returns hs).1⟩

/-- Threads sleep only while there is nothing for them, if the callers keep the contract.
    While a worker sleeps on `job_posted`, every job in the queue has a worker that is awake
    and will look for it; while a caller sleeps on `job_taken`, the queue may not grow and
    every free node has a caller that will look for it; who sleeps on an open barrier is
    about to be notified. -/
theorem sleep_only_without_work (hs : Reachable s) :
    (∃ js fs, s.pool.job_queue.Lists js fs ∧
      ((∃ w, s.worker_asleep w) → js.length ≤ s.over_workers looking) ∧
      ((∃ c, s.poster_asleep c) → s.pool.job_queue.max_capacity < s.pool.job_queue.capacity ∧
        fs.length ≤ s.over_callers ordering)) ∧
    ∀ c b, s.waiter_asleep b c → s.pool.barrier_open b → ∃ w, s.seats w = .notifying b := by
  have h := inv_of_reachable hs
  obtain ⟨js, fs, hpool⟩ := ThreadPool.inv_of_reachable h.pool
  have hall := hpool.lists.all.length_eq
  have hlen := hpool.balance.length_eq
  rw [List.append_nil, List.length_append] at hall
  rw [List.length_append, List.length_append, ← over_workers_working, JobQueue.contents,
    List.length_map] at hlen
  refine ⟨⟨js, fs, hpool.lists, fun hasleep => ?_, fun hasleep => ?_⟩, fun c b hasleep hopen => ?_⟩
  · have hjobs := h.jobs hasleep
    omega
  · obtain ⟨hfull, hle⟩ := h.room hasleep
    exact ⟨hfull, by omega⟩
  · rcases h.signals c b hasleep with hclosed | htell | hnone
    · exact absurd hopen hclosed
    · exact htell
    · cases hnone

/-- The only worker goes to sleep. -/
theorem sleep_only_without_work_one_job :
    let s := ((th_pool_create 1 1 10 [11] fun _ => ⟨default, none, none⟩).step (.sleep 0))
    s.worker_asleep 0 ∧ ∃ js fs, s.pool.job_queue.Lists js fs ∧ js.length ≤ s.over_workers looking := by
  intro s
  have hs : Reachable s :=
    .step _ (.create 1 1 10 [11] _ (by decide) (by decide)) ⟨rfl, rfl, rfl, rfl⟩
  obtain ⟨⟨js, fs, hlists, hjobs, -⟩, -⟩ := sleep_only_without_work hs
  exact ⟨rfl, js, fs, hlists, hjobs ⟨0, rfl⟩⟩

end work

end WaitingPool

end PinbaEngine
