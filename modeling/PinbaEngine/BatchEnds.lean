import PinbaEngine.CollectorSections

/-! # The counters when a batch ends

    The counters are atomics, and every addition is a step of its own. A collector
    counts a section with several additions before it gives up the read lock of the
    pools; the `recvmsg` build has counted the datagram as received even before it asks
    for the lock. The stats thread moves the ring on and counts the expired records at
    the end of its section under `collector_lock`.

    The data thread takes the one lock to exchange the pools and the other to publish
    requests. It holds neither when it ends a batch, so what the others have not counted
    yet is missing from the equations.
-/

namespace PinbaEngine

/-! ## Section 1: Sums of counters -/

namespace UdpMetrics

variable (m n : UdpMetrics)

instance : Zero UdpMetrics := ⟨⟨0, 0, 0, 0, 0, 0⟩⟩

instance : Add UdpMetrics :=
  ⟨fun m n => ⟨m.udp_received + n.udp_received, m.udp_decode_errors + n.udp_decode_errors,
    m.udp_queue_drops + n.udp_queue_drops, m.udp_enqueued + n.udp_enqueued,
    m.udp_completed + n.udp_completed, m.queue_live + n.queue_live⟩⟩

theorem zero_eq : (0 : UdpMetrics) = ⟨0, 0, 0, 0, 0, 0⟩ := rfl

theorem add_eq : m + n = ⟨m.udp_received + n.udp_received,
    m.udp_decode_errors + n.udp_decode_errors, m.udp_queue_drops + n.udp_queue_drops,
    m.udp_enqueued + n.udp_enqueued, m.udp_completed + n.udp_completed,
    m.queue_live + n.queue_live⟩ := rfl

instance : AddCancelCommMonoid UdpMetrics where
  add_assoc _ _ _ := by simp only [add_eq, add_assoc]
  zero_add _ := by simp only [add_eq, zero_eq, zero_add]
  add_zero _ := by simp only [add_eq, zero_eq, add_zero]
  add_comm _ _ := by simp only [add_eq, add_comm]
  nsmul := nsmulRec
  add_left_cancel _ _ _ h := by
    simp only [add_eq, UdpMetrics.mk.injEq] at h
    ext <;> omega

end UdpMetrics

/-- What a collector adds for a section of `num` datagrams, in its order. The code skips
    additions of zero. -/
def section_additions (recvmmsg : Bool) (num : Nat) (tally : Tally) : List UdpMetrics :=
  (if recvmmsg then [{ (0 : UdpMetrics) with udp_received := num }] else []) ++
    [{ (0 : UdpMetrics) with udp_decode_errors := tally.decode_errors },
      { (0 : UdpMetrics) with udp_queue_drops := tally.drops },
      { (0 : UdpMetrics) with udp_enqueued := tally.enqueued },
      { (0 : UdpMetrics) with queue_live := tally.enqueued }]

/-! ## Section 2: Single additions -/

/-- The threads between their additions. -/
structure Counting where
  turns : Interleaving
  /-- What the collectors still add with the read lock. -/
  additions : Nat → List UdpMetrics
  /-- `prev_request_id` of an expiry pass that has not counted its records. -/
  prev_request_id : Option Nat

namespace Counting

variable (s : Counting)

def on_turns (turns : Interleaving) : Counting := { s with turns }

def on_pipeline (p : Pipeline) : Counting := s.on_turns (s.turns.on_pipeline p)

/-- All datagrams of the section are in the pool; the counting begins. -/
def count_section (recvmmsg : Bool) (w : Nat) : Counting :=
  match s.turns.receivers w with
  | .filling num _ tally =>
    { s with
      turns := s.turns.set_receiver w .polling
      additions := Function.update s.additions w (section_additions recvmmsg num tally) }
  | _ => s

/-- The next addition of a collector; after the last one it gives up the lock. -/
def add (w : Nat) (m : UdpMetrics) (rest : List UdpMetrics) : Counting :=
  { s.on_pipeline { s.turns.pipeline with udp := s.turns.pipeline.udp + m } with
    additions := Function.update s.additions w rest }

/-- `pinba_request_pool_delete_old` finds `n` old records. -/
def delete_old (n : Nat) (h : n ≤ s.turns.pipeline.request_pool.count) : Counting :=
  { s.on_pipeline { s.turns.pipeline with
      request_pool := s.turns.pipeline.request_pool.dropFront n h } with
    prev_request_id := some s.turns.pipeline.request_pool.outPos }

/-- The end of an expiry pass. -/
def count_expired (prev_request_id : Nat) : Counting :=
  { s.on_pipeline { s.turns.pipeline with
      raw := { s.turns.pipeline.raw with
        raw_expired := s.turns.pipeline.raw.raw_expired +
          s.turns.pipeline.expired_num prev_request_id s.turns.pipeline.request_pool.outPos } } with
    prev_request_id := none }

/-- The collector is not in its section and has counted all its datagrams. -/
def Outside (w : Nat) : Prop := s.turns.receivers w = .polling ∧ s.additions w = []

/-- One turn of a thread, in the build with or without `recvmmsg`. -/
inductive Step (recvmmsg : Bool) (s : Counting) : Counting → Prop
  | recvmmsg (w num : Nat) (hbuild : recvmmsg = true) (hw : w < s.turns.pipeline.workers.length)
    (hout : s.Outside w) (hnum : 0 < num) (hmost : num ≤ PINBA_VLEN) :
    Step recvmmsg s (s.on_turns (s.turns.enter w num))
  | recvmsg (w : Nat) (hbuild : recvmmsg = false) (hw : w < s.turns.pipeline.workers.length)
    (hout : s.Outside w) : Step recvmmsg s (s.on_turns (s.turns.receive w))
  | lock (w : Nat) (hw : w < s.turns.pipeline.workers.length) (hcounted : s.additions w = [])
    (hreceived : s.turns.receivers w = .received) : Step recvmmsg s (s.on_turns (s.turns.enter w 1))
  | eat (w : Nat) (datagram : Option RequestTree × Bool) {num left : Nat} {tally : Tally}
    (hcounted : s.additions w = [])
    (hfilling : s.turns.receivers w = .filling num (left + 1) tally) :
    Step recvmmsg s (s.on_turns (s.turns.eat w datagram))
  | count_section (w : Nat) {num : Nat} {tally : Tally} (hw : w < s.turns.pipeline.workers.length)
    (hcounted : s.additions w = []) (hfilling : s.turns.receivers w = .filling num 0 tally) :
    Step recvmmsg s (s.count_section recvmmsg w)
  | add (w : Nat) {m : UdpMetrics} {rest : List UdpMetrics}
    (hw : w < s.turns.pipeline.workers.length) (hnext : s.additions w = m :: rest) :
    Step recvmmsg s (s.add w m rest)
  /-- The writer waits for all readers. -/
  | swap (h : s.turns.pipeline.phase = .idle)
    (hout : ∀ w num left tally, s.turns.receivers w ≠ .filling num left tally)
    (hcounted : ∀ w, s.additions w = []) : Step recvmmsg s (s.on_pipeline s.turns.pipeline.swap)
  | stage (h : s.turns.pipeline.phase = .swapped) (memory : Nat → NodeMemory) :
    Step recvmmsg s (s.on_pipeline (s.turns.pipeline.stage memory))
  /-- Without staged records the data thread does not ask for `collector_lock`. -/
  | publish (h : s.turns.pipeline.phase = .staged)
    (hlock : s.prev_request_id = none ∨ s.turns.pipeline.staged.sum = 0) (job_buffers : Bool)
    (copied : Nat → Nat → Bool) :
    Step recvmmsg s (s.on_pipeline (s.turns.pipeline.publish job_buffers copied))
  | finish (h : s.turns.pipeline.phase = .published) :
    Step recvmmsg s (s.on_pipeline s.turns.pipeline.finish)
  | delete_old (n : Nat) (h : n ≤ s.turns.pipeline.request_pool.count)
    (hlock : s.prev_request_id = none) : Step recvmmsg s (s.delete_old n h)
  | count_expired {prev_request_id : Nat} (h : s.prev_request_id = some prev_request_id) :
    Step recvmmsg s (s.count_expired prev_request_id)

/-- The states of all runs of one build. -/
inductive Reachable (recvmmsg : Bool) (threads requests : Nat) (data : Pool RequestTree)
    (tmp : Pool Request) : Counting → Prop
  | init : Reachable recvmmsg threads requests data tmp
    ⟨⟨.init threads requests data tmp, fun _ => .polling⟩, fun _ => [], none⟩
  | step {s s' : Counting} (hs : Reachable recvmmsg threads requests data tmp s)
    (h : Step recvmmsg s s') : Reachable recvmmsg threads requests data tmp s'

/-! ## Section 3: Counting ahead -/

end Counting

namespace Pipeline

/-- The pipeline with more on its counters. -/
def credit (p : Pipeline) (udp : UdpMetrics) (expired : Nat) : Pipeline :=
  { p with
    udp := p.udp + udp
    raw := { p.raw with raw_expired := p.raw.raw_expired + expired } }

variable (p : Pipeline) (udp : UdpMetrics) (expired : Nat)

theorem credit_zero : p.credit 0 0 = p := by
  unfold credit
  rw [add_zero]
  rfl

theorem credit_add (m : UdpMetrics) :
    p.credit (udp + m) expired =
      { p.credit udp expired with udp := (p.credit udp expired).udp + m } := by
  unfold credit
  rw [← add_assoc]

/-- An addition may come before or after the credit. -/
theorem credit_of_add (m : UdpMetrics) :
    ({ p with udp := p.udp + m }).credit udp expired = p.credit (udp + m) expired := by
  unfold credit
  rw [add_assoc, add_comm m]

theorem credit_receive :
    ({ p with udp := { p.udp with udp_received := p.udp.udp_received + 1 } }).credit udp expired =
      { p.credit udp expired with
        udp := { p.udp + udp with
          udp_received := p.udp.udp_received + udp.udp_received + 1 } } := by
  unfold credit
  simp only [UdpMetrics.add_eq, Nat.add_right_comm]

theorem stage_credit (memory : Nat → NodeMemory) :
    (p.credit udp expired).stage memory = (p.stage memory).credit udp expired := by
  have hworkers : (p.credit udp expired).workers = p.workers := rfl
  unfold stage
  rw [hworkers]
  split <;> rfl

theorem publish_credit (job_buffers : Bool) (copied : Nat → Nat → Bool) :
    (p.credit udp expired).publish job_buffers copied =
      (p.publish job_buffers copied).credit udp expired := by
  have hstaged : (p.credit udp expired).staged = p.staged := rfl
  unfold publish
  dsimp only
  rw [hstaged]
  split
  · rfl
  · split <;> rfl

theorem finish_credit : (p.credit udp expired).finish = p.finish.credit udp expired := by
  have hbatch : (p.credit udp expired).batch = p.batch := rfl
  unfold finish
  rw [hbatch]
  unfold credit
  congr 1
  simp only [UdpMetrics.add_eq, UdpMetrics.mk.injEq, true_and]
  constructor <;> omega

end Pipeline

namespace Counting

/-- What the collectors inside have not added yet. -/
def owed (s : Counting) : UdpMetrics :=
  ∑ w ∈ Finset.range s.turns.pipeline.workers.length, (s.additions w).sum

/-- What an expiry pass has not counted yet. -/
def uncounted (s : Counting) : Nat :=
  match s.prev_request_id with
  | none => 0
  | some prev_request_id =>
    s.turns.pipeline.expired_num prev_request_id s.turns.pipeline.request_pool.outPos

/-- The turns with everything counted at once. -/
def ahead (s : Counting) : Interleaving :=
  s.turns.on_pipeline (s.turns.pipeline.credit s.owed s.uncounted)

variable {recvmmsg : Bool} {s s' : Counting}

theorem sum_section_additions (num : Nat) (tally : Tally) :
    (section_additions recvmmsg num tally).sum =
      ⟨if recvmmsg then num else 0, tally.decode_errors, tally.drops, tally.enqueued, 0,
        tally.enqueued⟩ := by
  cases recvmmsg <;> simp [section_additions, UdpMetrics.add_eq, UdpMetrics.zero_eq]

/-- One collector has other additions left. -/
theorem owed_update {w : Nat} {t : Interleaving} {rest : List UdpMetrics} {p : Option Nat}
    (hw : w < s.turns.pipeline.workers.length)
    (hlength : t.pipeline.workers.length = s.turns.pipeline.workers.length) :
    owed ⟨t, Function.update s.additions w rest, p⟩ + (s.additions w).sum = s.owed + rest.sum := by
  unfold owed
  dsimp only
  rw [hlength]
  exact Threads.sum_share_update List.sum s.additions hw rest

/-- A turn that leaves the additions alone, and the ring to the stats thread. -/
theorem ahead_on_turns {t : Interleaving}
    (hlength : t.pipeline.workers.length = s.turns.pipeline.workers.length)
    (hring : s.prev_request_id = none ∨ t.pipeline.request_pool = s.turns.pipeline.request_pool) :
    (s.on_turns t).ahead = t.on_pipeline (t.pipeline.credit s.owed s.uncounted) := by
  have howed : (s.on_turns t).owed = s.owed := by
    unfold owed on_turns
    dsimp only
    rw [hlength]
  have huncounted : (s.on_turns t).uncounted = s.uncounted := by
    unfold uncounted on_turns Pipeline.expired_num
    dsimp only
    rcases hring with hnone | hsame
    · rw [hnone]
    · rw [hsame]
  unfold ahead
  rw [howed, huncounted]
  rfl

theorem length_of_map {p q : Pipeline}
    (h : p.workers.map Worker.write = q.workers.map Worker.write) :
    p.workers.length = q.workers.length := by
  have hmap := congrArg List.length h
  rwa [List.length_map, List.length_map] at hmap

theorem ahead_count_section {w num : Nat} {tally : Tally}
    (hw : w < s.turns.pipeline.workers.length) (hcounted : s.additions w = [])
    (hfilling : s.turns.receivers w = .filling num 0 tally) :
    (s.count_section recvmmsg w).ahead = s.ahead.leave recvmmsg w := by
  have hsum := @owed_update s w (s.turns.set_receiver w .polling)
    (section_additions recvmmsg num tally) s.prev_request_id hw rfl
  rw [hcounted, List.sum_nil, add_zero, sum_section_additions] at hsum
  -- both sides add the whole section at once, the one as what is owed
  have hleft : s.count_section recvmmsg w = ⟨s.turns.set_receiver w .polling,
      Function.update s.additions w (section_additions recvmmsg num tally), s.prev_request_id⟩ := by
    unfold count_section
    rw [hfilling]
  have hright : s.ahead.receivers w = .filling num 0 tally := hfilling
  unfold Interleaving.leave
  rw [hleft, hright]
  unfold ahead
  rw [hsum, Pipeline.credit_add]
  rfl

theorem ahead_add {w : Nat} {m : UdpMetrics} {rest : List UdpMetrics}
    (hw : w < s.turns.pipeline.workers.length) (hnext : s.additions w = m :: rest) :
    (s.add w m rest).ahead = s.ahead := by
  have hsum := @owed_update s w (s.turns.on_pipeline { s.turns.pipeline with
    udp := s.turns.pipeline.udp + m }) rest s.prev_request_id hw rfl
  rw [hnext, List.sum_cons, ← add_assoc] at hsum
  -- what goes to the counters is owed no more
  have howed := add_right_cancel hsum
  have hcredit := s.turns.pipeline.credit_of_add (s.add w m rest).owed s.uncounted m
  rw [show (s.add w m rest).owed + m = s.owed from howed] at hcredit
  unfold ahead
  rw [← hcredit]
  rfl

theorem ahead_receive (w : Nat) :
    (s.on_turns (s.turns.receive w)).ahead = s.ahead.receive w := by
  have hcredit := s.turns.pipeline.credit_receive s.owed s.uncounted
  have hturns := congrArg (fun p => (s.turns.on_pipeline p).set_receiver w .received) hcredit
  exact hturns

theorem ahead_eat {w num left : Nat} {tally : Tally} (datagram : Option RequestTree × Bool)
    (hfilling : s.turns.receivers w = .filling num left tally) :
    (s.on_turns (s.turns.eat w datagram)).ahead = s.ahead.eat w datagram := by
  have hfound : s.ahead.receivers w = .filling num left tally := hfilling
  have hworkers : s.ahead.pipeline.workers = s.turns.pipeline.workers := rfl
  unfold Interleaving.eat
  rw [hfilling, hfound, hworkers]
  cases hworker : s.turns.pipeline.workers[w]? with
  | none => rfl
  | some worker =>
    dsimp only
    obtain ⟨pool, tally'⟩ := eat_datagram (worker.write, tally) datagram
    have hturn := @ahead_on_turns s ((s.turns.on_pipeline (s.turns.pipeline.set_worker w
      { worker with write := pool })).set_receiver w (.filling num (left - 1) tally'))
      List.length_set (.inr rfl)
    exact hturn

theorem ahead_delete_old {n : Nat} (hn : n ≤ s.turns.pipeline.request_pool.count)
    (hlock : s.prev_request_id = none) :
    (s.delete_old n hn).ahead = s.ahead.on_pipeline (s.ahead.pipeline.expire n hn) := by
  have hzero : s.uncounted = 0 := by
    unfold uncounted
    rw [hlock]
  unfold ahead
  rw [hzero]
  rfl

theorem ahead_count_expired {prev_request_id : Nat}
    (hprev : s.prev_request_id = some prev_request_id) :
    (s.count_expired prev_request_id).ahead = s.ahead := by
  have hmissing : s.uncounted =
      s.turns.pipeline.expired_num prev_request_id s.turns.pipeline.request_pool.outPos := by
    unfold uncounted
    rw [hprev]
  unfold ahead
  rw [hmissing]
  rfl

/-- A turn counted ahead is a turn of `Interleaving`, or nothing. -/
theorem ahead_step (h : Step recvmmsg s s') :
    Interleaving.Step recvmmsg s.ahead s'.ahead ∨ s'.ahead = s.ahead := by
  cases h with
  | recvmmsg w num hbuild hw hout hnum hmost =>
    exact .inl (.recvmmsg w num hbuild hw hout.1 hnum hmost)
  | recvmsg w hbuild hw hout =>
    exact .inl (ahead_receive w ▸ .recvmsg w hbuild hw hout.1)
  | lock w hw _ hreceived => exact .inl (.lock w hw hreceived)
  | eat w datagram _ hfilling =>
    exact .inl (ahead_eat datagram hfilling ▸ .eat w datagram hfilling)
  | count_section w hw hcounted hfilling =>
    exact .inl (ahead_count_section hw hcounted hfilling ▸ .leave w hfilling)
  | add w hw hnext => exact .inr (ahead_add hw hnext)
  | swap hphase hout _ =>
    have hsame : (s.on_pipeline s.turns.pipeline.swap).ahead =
        s.ahead.on_pipeline s.ahead.pipeline.swap := ahead_on_turns (List.length_map _) (.inr rfl)
    exact .inl (hsame ▸ .swap hphase hout)
  | stage hphase memory =>
    have hring : (s.turns.pipeline.stage memory).request_pool = s.turns.pipeline.request_pool := by
      unfold Pipeline.stage
      split <;> rfl
    have hsame := @ahead_on_turns s (s.turns.on_pipeline (s.turns.pipeline.stage memory))
      (length_of_map (Interleaving.write_stage _ memory)) (.inr hring)
    have hstep := @Interleaving.Step.stage recvmmsg s.ahead hphase memory
    exact .inl (hsame ▸ Pipeline.stage_credit _ _ _ memory ▸ hstep)
  | publish hphase hlock job_buffers copied =>
    -- the data thread has the lock of the pass, or leaves the ring alone
    have hring : s.prev_request_id = none ∨
        (s.turns.pipeline.publish job_buffers copied).request_pool =
          s.turns.pipeline.request_pool := by
      refine hlock.imp_right fun hnone => ?_
      unfold Pipeline.publish
      rw [if_pos hnone]
    have hsame := @ahead_on_turns s
      (s.turns.on_pipeline (s.turns.pipeline.publish job_buffers copied))
      (length_of_map (Interleaving.write_publish _ job_buffers copied)) hring
    have hstep := @Interleaving.Step.publish recvmmsg s.ahead hphase job_buffers copied
    exact .inl (hsame ▸ Pipeline.publish_credit _ _ _ job_buffers copied ▸ hstep)
  | finish hphase =>
    have hsame := @ahead_on_turns s (s.turns.on_pipeline s.turns.pipeline.finish)
      (List.length_map _) (.inr rfl)
    have hstep := @Interleaving.Step.finish recvmmsg s.ahead hphase
    exact .inl (hsame ▸ Pipeline.finish_credit _ _ _ ▸ hstep)
  | delete_old n hn hlock =>
    -- the pass counts ahead what it takes from the ring
    have hstep := @Interleaving.Step.expire recvmmsg s.ahead n hn
    exact .inl (ahead_delete_old hn hlock ▸ hstep)
  | count_expired hprev => exact .inr (ahead_count_expired hprev)

/-! ## Section 4: The end of a batch -/

variable {threads requests : Nat} {data : Pool RequestTree} {tmp : Pool Request}

theorem ahead_of_reachable (hs : Reachable recvmmsg threads requests data tmp s) :
    Interleaving.Reachable recvmmsg threads requests data tmp s.ahead := by
  induction hs with
  | init =>
    -- nothing is owed at the start
    have hzero : ∀ threads : Nat, ∑ w ∈ Finset.range threads, ([] : List UdpMetrics).sum = 0 :=
      fun threads => by simp
    have hstart : ahead ⟨⟨.init threads requests data tmp, fun _ => .polling⟩, fun _ => [], none⟩ =
        ⟨.init threads requests data tmp, fun _ => .polling⟩ := by
      unfold ahead owed
      rw [hzero]
      exact congrArg (Interleaving.on_pipeline _) (Pipeline.credit_zero _)
    rw [hstart]
    exact .init
  | step _ hstep ih =>
    rcases ahead_step hstep with hnext | hsame
    · exact .step ih hnext
    · rwa [hsame]

/-- The balance of the whole sections, with everything counted. -/
theorem inv_ahead (hs : Reachable recvmmsg threads requests data tmp s) :
    ∃ old received, (s.ahead.pipeline.rewind old received).Inv := by
  obtain ⟨old, received, -, hreach⟩ := Interleaving.atomic_of_reachable (ahead_of_reachable hs)
  exact ⟨old, received, Pipeline.inv_of_reachable hreach⟩

theorem owed_of_outside (hout : ∀ w, s.Outside w) : s.owed = 0 := by
  apply Finset.sum_eq_zero
  intro w _
  rw [(hout w).2, List.sum_nil]

/-- The requests do not depend on the collectors and the stats thread. -/
theorem requests_counted (hs : Reachable recvmmsg threads requests data tmp s)
    (hphase : s.turns.pipeline.phase = .idle) : s.turns.pipeline.RequestsCounted := by
  obtain ⟨old, received, hinv⟩ := inv_ahead hs
  have hcounted := hinv.requests_counted hphase
  exact ⟨hcounted.checked, hcounted.nodes, hcounted.valid, hcounted.staged⟩

theorem datagrams_counted (hs : Reachable recvmmsg threads requests data tmp s)
    (hout : ∀ w, s.Outside w) : s.turns.pipeline.DatagramsCounted := by
  have hreach := Interleaving.pipeline_reachable (ahead_of_reachable hs) fun w => (hout w).1
  have hcounted := (Pipeline.inv_of_reachable hreach).datagrams_counted
  have hudp : s.ahead.pipeline.udp = s.turns.pipeline.udp := by
    show s.turns.pipeline.udp + s.owed = _
    rw [owed_of_outside hout, add_zero]
  obtain ⟨hreceived, henqueued, hcompleted⟩ := hcounted
  rw [hudp] at hreceived henqueued hcompleted
  exact ⟨hreceived, henqueued, hcompleted⟩

theorem records_counted (hs : Reachable recvmmsg threads requests data tmp s)
    (hnone : s.prev_request_id = none) : s.turns.pipeline.RecordsCounted := by
  obtain ⟨old, received, hinv⟩ := inv_ahead hs
  have hcounted := hinv.records_counted
  have hraw : s.ahead.pipeline.raw = s.turns.pipeline.raw := by
    have hzero : s.uncounted = 0 := by
      unfold uncounted
      rw [hnone]
    show { s.turns.pipeline.raw with
      raw_expired := s.turns.pipeline.raw.raw_expired + s.uncounted } = _
    rw [hzero]
    rfl
  have hrewind : (s.ahead.pipeline.rewind old received).raw = s.ahead.pipeline.raw := rfl
  unfold Pipeline.RecordsCounted at hcounted ⊢
  rwa [hrewind, hraw] at hcounted

/-- After a batch the requests add up; the datagrams do once all collectors are outside,
    and the records when no expiry pass is between the ring and its counter. -/
theorem counted_after_batch (hs : Reachable recvmmsg threads requests data tmp s)
    (hphase : s.turns.pipeline.phase = .idle) :
    s.turns.pipeline.RequestsCounted ∧
      ((∀ w, s.Outside w) → s.turns.pipeline.DatagramsCounted) ∧
      (s.prev_request_id = none → s.turns.pipeline.RecordsCounted) :=
  ⟨requests_counted hs hphase, datagrams_counted hs, records_counted hs⟩

/-- A call with a nested request and a datagram that does not decode, a batch in which
    one copy fails, and an expiry pass. -/
theorem counted_after_batch_nested :
    ∃ s : Counting, s.turns.pipeline.requests.requests_checked = 2 ∧
      s.turns.pipeline.raw = ⟨1, 0, 1, 1⟩ ∧ s.turns.pipeline.udp = ⟨2, 1, 0, 1, 1, 0⟩ ∧
      s.turns.pipeline.RequestsCounted ∧ s.turns.pipeline.DatagramsCounted ∧
      s.turns.pipeline.RecordsCounted := by
  have hstart : Reachable true 1 4 ⟨8, 8, 0, []⟩ ⟨8, 8, 0, []⟩ _ := .init
  -- the collector takes two datagrams and counts them
  have hentered := hstart.step
    (.recvmmsg 0 2 rfl (by decide) ⟨rfl, rfl⟩ (by decide) (by decide))
  have heaten := (hentered.step (.eat 0 (some Pipeline.nested_request, true) rfl rfl)).step
    (.eat 0 (none, true) rfl rfl)
  have hadded := (((((heaten.step (.count_section 0 (by decide) rfl rfl)).step
    (.add 0 (by decide) rfl)).step (.add 0 (by decide) rfl)).step (.add 0 (by decide) rfl)).step
    (.add 0 (by decide) rfl)).step (.add 0 (by decide) rfl)
  -- the batch, and a pass that removes the record
  have hswapped := hadded.step (.swap rfl
    (fun w _ _ _ hw => by cases w <;> cases hw) fun w => by cases w <;> rfl)
  have hpublished := (hswapped.step (.stage rfl fun _ => ⟨true, true⟩)).step
    (.publish rfl (.inl rfl) true fun _ i => i == 0)
  have hcounted := ((hpublished.step (.delete_old 1 (by decide) rfl)).step (.finish rfl)).step
    (.count_expired rfl)
  obtain ⟨hrequests, hdatagrams, hrecords⟩ := counted_after_batch hcounted rfl
  exact ⟨_, rfl, rfl, rfl, hrequests,
    hdatagrams fun w => by cases w <;> exact ⟨rfl, rfl⟩, hrecords rfl⟩

/-- While a batch of one datagram ends, one collector has counted another one but for
    `queue_live`, one has only counted it as received, and an expiry pass has taken a
    record from the ring. -/
theorem batch_ends_between_additions :
    ∃ s, Reachable true 3 4 ⟨8, 8, 0, []⟩ ⟨8, 8, 0, []⟩ s ∧ s.turns.pipeline.phase = .idle ∧
      s.turns.pipeline.completed.length = 1 ∧
      s.turns.pipeline.udp.udp_received ≠ s.turns.pipeline.udp.udp_decode_errors +
        s.turns.pipeline.udp.udp_queue_drops + s.turns.pipeline.udp.udp_enqueued ∧
      (s.turns.pipeline.udp.udp_enqueued : Int) ≠
        s.turns.pipeline.udp.udp_completed + s.turns.pipeline.udp.queue_live ∧
      (s.turns.pipeline.raw.raw_admitted : Int) - s.turns.pipeline.raw.raw_expired ≠
        s.turns.pipeline.request_pool.count := by
  have hstart : Reachable true 3 4 ⟨8, 8, 0, []⟩ ⟨8, 8, 0, []⟩ _ := .init
  have hfirst := ((hstart.step
    (.recvmmsg 0 1 rfl (by decide) ⟨rfl, rfl⟩ (by decide) (by decide))).step
    (.eat 0 (some Pipeline.nested_request, true) rfl rfl)).step
    (.count_section 0 (by decide) rfl rfl)
  have hadded := ((((hfirst.step (.add 0 (by decide) rfl)).step (.add 0 (by decide) rfl)).step
    (.add 0 (by decide) rfl)).step (.add 0 (by decide) rfl)).step (.add 0 (by decide) rfl)
  have hswapped := hadded.step (.swap rfl
    (fun w _ _ _ hw => by cases w <;> cases hw) fun w => by cases w <;> rfl)
  -- the next datagrams go to the other pools
  have hsecond := ((hswapped.step
    (.recvmmsg 1 1 rfl (by decide) ⟨rfl, rfl⟩ (by decide) (by decide))).step
    (.eat 1 (some Pipeline.nested_request, true) rfl rfl)).step
    (.count_section 1 (by decide) rfl rfl)
  have halmost := (((hsecond.step (.add 1 (by decide) rfl)).step (.add 1 (by decide) rfl)).step
    (.add 1 (by decide) rfl)).step (.add 1 (by decide) rfl)
  have hthird := (((halmost.step
    (.recvmmsg 2 1 rfl (by decide) ⟨rfl, rfl⟩ (by decide) (by decide))).step
    (.eat 2 (some Pipeline.nested_request, true) rfl rfl)).step
    (.count_section 2 (by decide) rfl rfl)).step (.add 2 (by decide) rfl)
  -- the batch ends in the middle of all that
  have hpublished := (hthird.step (.stage rfl fun _ => ⟨true, true⟩)).step
    (.publish rfl (.inl rfl) true fun _ _ => true)
  have hended := (hpublished.step (.delete_old 1 (by decide) rfl)).step (.finish rfl)
  exact ⟨_, hended, rfl, rfl, by decide, by decide, by decide⟩

end Counting

end PinbaEngine
