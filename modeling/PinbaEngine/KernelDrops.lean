import Mathlib.Algebra.BigOperators.Fin
import Mathlib.Data.Nat.ModEq
import PinbaEngine.Lib.SerialNumber

/-! # Drops counted by the kernel

    Linux reports with every datagram how many datagrams the socket has dropped so far,
    modulo `2 ^ 32`. The collector threads turn these numbers into one total. They share
    a cursor, the largest number reported so far, and whoever moves the cursor adds the
    distance to the total, in a second step of its own.

    Two numbers are the same for the whole run:

    - the total and the distances that are not added yet make up the cursor, taken as
      the number of drops that it stands for and not modulo `2 ^ 32`;
    - a number that some thread is done with is not above the cursor.
-/

namespace PinbaEngine

open SerialNumber

/-! ## Section 1: The threads -/

/-- What the loop over the control messages of a datagram sees: a message `SO_RXQ_OVFL` with the
    drops of the socket, or one that it skips. -/
inductive ControlMessage where
  | rxq_ovfl (drops : ℕ)
  | other

/-- A collector thread in `pinba_udp_kernel_sample`. -/
inductive Collector where
  | outside
  /-- The loop over the messages. -/
  | controls (messages : List ControlMessage)
  /-- The inner loop. `previous` is what it read of the cursor. -/
  | exchange (drops : ℕ) (previous : UInt32) (rest : List ControlMessage)
  /-- The cursor is moved, and not counted yet. -/
  | counting (delta : UInt32) (rest : List ControlMessage)

/-- `delta`. The kernel reports a `uint32_t`. -/
def kernel_delta (drops : ℕ) (previous : UInt32) : UInt32 := UInt32.ofNat drops - previous

/-- `delta == 0 || delta > UINT32_MAX / 2`. -/
def is_stale (delta : UInt32) : Prop := delta = 0 ∨ delta > 4294967295 / 2

instance (delta : UInt32) : Decidable (is_stale delta) := inferInstanceAs (Decidable (_ ∨ _))

/-- The numbers in some messages. -/
def drops_of (messages : List ControlMessage) : List ℕ :=
  messages.filterMap fun
    | .rxq_ovfl drops => some drops
    | .other => none

structure KernelSampling (ι : Type*) where
  /-- The drops of the socket, as the kernel knows them. -/
  socket_drops : ℕ
  kernel_drop_cursor : UInt32
  udp_kernel_drops : UInt64
  collectors : ι → Collector
  /-- The true value of the cursor. -/
  cursor_drops : ℕ
  /-- All numbers that came with a datagram so far. -/
  sampled : List ℕ

section steps
variable {ι : Type*} [DecidableEq ι]

/-- `thread` does a step of its own. -/
def KernelSampling.set (s : KernelSampling ι) (i : ι) (thread : Collector) : KernelSampling ι :=
  { s with collectors := Function.update s.collectors i thread }

/-- A step of the kernel or of one thread. The number is that of a thread that reads the cursor. -/
inductive KernelStep (s : KernelSampling ι) : Option ℕ → KernelSampling ι → Prop
  | drop (n : ℕ) : KernelStep s none { s with socket_drops := s.socket_drops + n }
  /-- A datagram can be behind by any number of drops. -/
  | enter (i : ι) (messages : List ControlMessage) (h : s.collectors i = .outside)
      (hdrops : ∀ d ∈ drops_of messages, d ≤ s.socket_drops) :
      KernelStep s none { s.set i (.controls messages) with sampled := drops_of messages ++ s.sampled }
  | skip (i : ι) (rest : List ControlMessage) (h : s.collectors i = .controls (.other :: rest)) :
      KernelStep s none (s.set i (.controls rest))
  | load (i : ι) (d : ℕ) (rest : List ControlMessage)
      (h : s.collectors i = .controls (.rxq_ovfl d :: rest)) :
      KernelStep s (some d) (s.set i (.exchange d s.kernel_drop_cursor rest))
  | stale (i : ι) (d : ℕ) (previous : UInt32) (rest : List ControlMessage)
      (h : s.collectors i = .exchange d previous rest) (hstale : is_stale (kernel_delta d previous)) :
      KernelStep s none (s.set i (.controls rest))
  /-- `compare_exchange_weak` fails, also without a reason, and reads the cursor again. -/
  | fail (i : ι) (d : ℕ) (previous : UInt32) (rest : List ControlMessage)
      (h : s.collectors i = .exchange d previous rest) (hnew : ¬ is_stale (kernel_delta d previous)) :
      KernelStep s (some d) (s.set i (.exchange d s.kernel_drop_cursor rest))
  | move (i : ι) (d : ℕ) (previous : UInt32) (rest : List ControlMessage)
      (h : s.collectors i = .exchange d previous rest) (hnew : ¬ is_stale (kernel_delta d previous))
      (heq : s.kernel_drop_cursor = previous) :
      KernelStep s (some d) { s.set i (.counting (kernel_delta d previous) rest) with
        kernel_drop_cursor := UInt32.ofNat d
        cursor_drops := d }
  | count (i : ι) (delta : UInt32) (rest : List ControlMessage)
      (h : s.collectors i = .counting delta rest) :
      KernelStep s none { s.set i (.controls rest) with
        udp_kernel_drops := s.udp_kernel_drops + delta.toUInt64 }
  | leave (i : ι) (h : s.collectors i = .controls []) : KernelStep s none (s.set i .outside)

/-- The counters of a server that has just been started. -/
def KernelSampling.start : KernelSampling ι := ⟨0, 0, 0, fun _ => .outside, 0, []⟩

/-- Runs where a number is never `2 ^ 31` or more away from the cursor that its thread reads. -/
inductive KernelRun : KernelSampling ι → Prop
  | start : KernelRun .start
  | step {s s' : KernelSampling ι} {read : Option ℕ} (hrun : KernelRun s) (hstep : KernelStep s read s')
      (hnear : ∀ d ∈ read, Near (2 ^ 31) d s.cursor_drops) : KernelRun s'

end steps

/-! ## Section 2: Words -/

variable {d c : ℕ}

theorem toNat_kernel_delta (d c : ℕ) :
    (kernel_delta d (UInt32.ofNat c)).toNat = ahead (2 ^ 31) d c := by
  unfold kernel_delta ahead
  rw [UInt32.toNat_sub, UInt32.toNat_ofNat', UInt32.toNat_ofNat']
  rfl

theorem is_stale_iff (delta : UInt32) : is_stale delta ↔ ¬ (delta.toNat ≠ 0 ∧ delta.toNat < 2 ^ 31) := by
  have hzero : delta = 0 ↔ delta.toNat = 0 := by
    rw [← UInt32.toNat_inj]
    rfl
  have hhalf : delta > 4294967295 / 2 ↔ 2147483647 < delta.toNat := UInt32.lt_iff_toNat_lt
  unfold is_stale
  rw [hzero, hhalf]
  omega

/-- A number is stale exactly if it is not above the cursor. -/
theorem is_stale_kernel_delta (h : Near (2 ^ 31) d c) :
    is_stale (kernel_delta d (UInt32.ofNat c)) ↔ d ≤ c := by
  rw [is_stale_iff, toNat_kernel_delta, h.later_iff, Nat.not_lt]

/-! ## Section 3: What the threads hold -/

namespace Collector

/-- The numbers that a thread has still to compare with the cursor. -/
def pending : Collector → List ℕ
  | .outside => []
  | .controls messages => drops_of messages
  | .exchange d _ rest => d :: drops_of rest
  | .counting _ rest => drops_of rest

/-- What it has still to add to the total. -/
def in_flight : Collector → ℕ
  | .counting delta _ => delta.toNat
  | _ => 0

end Collector

section invariant
variable {ι : Type*} [DecidableEq ι] {s s' : KernelSampling ι} {read : Option ℕ} {i j : ι} {th : Collector}

@[simp] theorem drops_of_rxq_ovfl (d : ℕ) (rest : List ControlMessage) :
    drops_of (.rxq_ovfl d :: rest) = d :: drops_of rest := rfl

@[simp] theorem drops_of_other (rest : List ControlMessage) : drops_of (.other :: rest) = drops_of rest := rfl

theorem set_collectors : (s.set i th).collectors j = if j = i then th else s.collectors j :=
  Function.update_apply ..

/-- The cursor, and what each thread knows of it. -/
structure Sampled (s : KernelSampling ι) : Prop where
  cursor : s.kernel_drop_cursor = UInt32.ofNat s.cursor_drops
  /-- What a thread has read was the cursor some time before. -/
  previous : ∀ i d previous rest, s.collectors i = .exchange d previous rest →
    ∃ c ≤ s.cursor_drops, previous = UInt32.ofNat c ∧ Near (2 ^ 31) d c
  pending : ∀ i, ∀ d ∈ (s.collectors i).pending, d ∈ s.sampled
  /-- The cursor stands at a number that came with a datagram. -/
  reached : s.cursor_drops = 0 ∨ s.cursor_drops ∈ s.sampled
  /-- A number that no thread has to look at is not above the cursor. -/
  seen : ∀ d ∈ s.sampled, d ≤ s.cursor_drops ∨ ∃ i, d ∈ (s.collectors i).pending

/-- The total and what is in flight, as the 64-bit word that the total is. -/
def CountedDrops [Fintype ι] (s : KernelSampling ι) : Prop :=
  s.udp_kernel_drops.toNat + ∑ i, (s.collectors i).in_flight ≡ s.cursor_drops [MOD 2 ^ 64]

omit [DecidableEq ι] in
/-- A thread that moves the cursor finds it below its number. -/
theorem Sampled.lt_of_move (h : Sampled s) {previous : UInt32} (hnear : Near (2 ^ 31) d s.cursor_drops)
    (hnew : ¬ is_stale (kernel_delta d previous)) (heq : s.kernel_drop_cursor = previous) :
    s.cursor_drops < d := by
  rw [← heq, h.cursor, is_stale_kernel_delta hnear] at hnew
  omega

/-- A thread takes new numbers, reads the cursor, or is done with a number not above it. -/
theorem Sampled.set (h : Sampled s) (i : ι) (th : Collector) (ds : List ℕ)
    (hprevious : ∀ d previous rest, th = .exchange d previous rest →
      ∃ c ≤ s.cursor_drops, previous = UInt32.ofNat c ∧ Near (2 ^ 31) d c)
    (hnew : ∀ d ∈ ds, d ∈ th.pending) (hpending : ∀ d ∈ th.pending, d ∈ ds ∨ d ∈ (s.collectors i).pending)
    (hdone : ∀ d ∈ (s.collectors i).pending, d ≤ s.cursor_drops ∨ d ∈ th.pending) :
    Sampled { s.set i th with sampled := ds ++ s.sampled } where
  cursor := h.cursor
  previous j d previous rest hj := by
    simp only [set_collectors] at hj
    split at hj
    · exact hprevious d previous rest hj
    · exact h.previous j d previous rest hj
  pending j d hd := by
    simp only [set_collectors] at hd
    rw [List.mem_append]
    split at hd
    · rcases hpending d hd with hds | hold
      · exact .inl hds
      · exact .inr (h.pending i d hold)
    · exact .inr (h.pending j d hd)
  reached := h.reached.imp id fun hmem => List.mem_append_right ds hmem
  seen d hd := by
    simp only [set_collectors]
    have hthread : d ∈ th.pending → ∃ j, d ∈ (if j = i then th else s.collectors j).pending := by
      intro hmem
      exact ⟨i, by rwa [if_pos rfl]⟩
    rcases List.mem_append.mp hd with hds | hold
    · exact .inr (hthread (hnew d hds))
    rcases h.seen d hold with hle | ⟨j, hj⟩
    · exact .inl hle
    by_cases hji : j = i
    · subst hji
      exact (hdone d hj).imp id hthread
    · exact .inr ⟨j, by rwa [if_neg hji]⟩

omit [DecidableEq ι] in
/-- The cursor only ever grows. -/
theorem Sampled.move (h : Sampled s) (hle : s.cursor_drops ≤ d) (hd : d ∈ s.sampled) :
    Sampled { s with kernel_drop_cursor := UInt32.ofNat d, cursor_drops := d } where
  cursor := rfl
  previous i d previous rest hi := by
    obtain ⟨c, hc, hprevious⟩ := h.previous i d previous rest hi
    exact ⟨c, hc.trans hle, hprevious⟩
  pending := h.pending
  reached := .inr hd
  seen d hd := (h.seen d hd).imp (fun hle' => hle'.trans hle) id

theorem Sampled.step (h : Sampled s) (hstep : KernelStep s read s')
    (hnear : ∀ d ∈ read, Near (2 ^ 31) d s.cursor_drops) : Sampled s' := by
  cases hstep with
  | drop n => exact ⟨h.cursor, h.previous, h.pending, h.reached, h.seen⟩
  | enter i messages hi _ =>
    -- the new messages are pending, and their numbers have been sampled
    refine h.set i _ _ nofun (fun d hd => hd) (fun d hd => .inl hd) fun d hd => ?_
    rw [hi] at hd
    cases hd
  | skip i rest hi =>
    refine h.set i _ [] nofun nofun (fun d hd => .inr ?_) fun d hd => .inr ?_
    · rwa [hi]
    · rwa [hi] at hd
  | load i d rest hi =>
    refine h.set i _ [] ?_ nofun (fun d hd => .inr ?_) fun d hd => .inr ?_
    · rintro _ _ _ ⟨⟩
      exact ⟨_, le_rfl, h.cursor, hnear d rfl⟩
    · rwa [hi]
    · rwa [hi] at hd
  | stale i d previous rest hi hstale =>
    -- a stale number is not above the cursor that was read, and the cursor only grows
    obtain ⟨c, hc, rfl, hread⟩ := h.previous i d previous rest hi
    refine h.set i _ [] nofun nofun (fun d hd => .inr ?_) fun e he => ?_
    · rw [hi]
      exact List.mem_cons_of_mem _ hd
    · rw [hi] at he
      rcases List.mem_cons.mp he with rfl | hrest
      · exact .inl (((is_stale_kernel_delta hread).mp hstale).trans hc)
      · exact .inr hrest
  | fail i d previous rest hi _ =>
    refine h.set i _ [] ?_ nofun (fun d hd => .inr ?_) fun d hd => .inr ?_
    · rintro _ _ _ ⟨⟩
      exact ⟨_, le_rfl, h.cursor, hnear d rfl⟩
    · rwa [hi]
    · rwa [hi] at hd
  | move i d previous rest hi hnew heq =>
    -- the cursor moves to a number that was sampled
    have hlt := h.lt_of_move (hnear d rfl) hnew heq
    have hd : d ∈ s.sampled := h.pending i d (by rw [hi]; exact List.mem_cons_self)
    refine (h.move hlt.le hd).set i _ [] nofun nofun (fun e he => .inr ?_) fun e he => ?_
    · rw [show (_ : ι → Collector) i = _ from hi]
      exact List.mem_cons_of_mem _ he
    · rw [show (_ : ι → Collector) i = _ from hi] at he
      rcases List.mem_cons.mp he with rfl | hrest
      · exact .inl le_rfl
      · exact .inr hrest
  | count i delta rest hi =>
    have hset := h.set i (.controls rest) [] nofun nofun (fun d hd => .inr (by rwa [hi]))
      fun d hd => .inr (by rwa [hi] at hd)
    exact ⟨hset.cursor, hset.previous, hset.pending, hset.reached, hset.seen⟩
  | leave i hi =>
    refine h.set i _ [] nofun nofun nofun fun d hd => ?_
    rw [hi] at hd
    cases hd

theorem sampled_of_run (hrun : KernelRun s) : Sampled s := by
  induction hrun with
  | start => exact ⟨rfl, nofun, nofun, .inl rfl, nofun⟩
  | step _ hstep hnear ih => exact ih.step hstep hnear

/-! ## Section 4: The total -/

variable [Fintype ι]

/-- Of what is in flight only the share of one thread changes. -/
theorem sum_in_flight_set (s : KernelSampling ι) (i : ι) (th : Collector) :
    ∑ j, ((s.set i th).collectors j).in_flight + (s.collectors i).in_flight =
      ∑ j, (s.collectors j).in_flight + th.in_flight := by
  have hset : ∀ j, ((s.set i th).collectors j).in_flight =
      Function.update (fun j => (s.collectors j).in_flight) i th.in_flight j := by
    intro j
    rw [set_collectors, Function.update_apply]
    split <;> rfl
  rw [Finset.sum_congr rfl fun j _ => hset j, Finset.sum_update_of_mem (Finset.mem_univ i),
    Finset.sdiff_singleton_eq_erase, ← Finset.add_sum_erase _ _ (Finset.mem_univ i)]
  omega

theorem CountedDrops.set (h : CountedDrops s) (hsame : th.in_flight = (s.collectors i).in_flight) :
    CountedDrops (s.set i th) := by
  have hsum := sum_in_flight_set s i th
  have heq : ∑ j, ((s.set i th).collectors j).in_flight = ∑ j, (s.collectors j).in_flight := by omega
  unfold CountedDrops at h ⊢
  rwa [heq]

/-- The thread that moves the cursor takes on to add as much as the cursor moves. -/
theorem CountedDrops.move (h : CountedDrops s) {rest : List ControlMessage} (hi : (s.collectors i).in_flight = 0)
    {delta : UInt32} (hdelta : s.cursor_drops + delta.toNat = d) :
    CountedDrops { s.set i (.counting delta rest) with
      kernel_drop_cursor := UInt32.ofNat d
      cursor_drops := d } := by
  have hsum := sum_in_flight_set s i (.counting delta rest)
  rw [hi, Nat.add_zero] at hsum
  show s.udp_kernel_drops.toNat + ∑ j, ((s.set i (.counting delta rest)).collectors j).in_flight ≡ d
    [MOD 2 ^ 64]
  rw [hsum, ← hdelta, ← Nat.add_assoc]
  exact Nat.ModEq.add_right _ h

theorem CountedDrops.count (h : CountedDrops s) {delta : UInt32} {rest : List ControlMessage}
    (hi : s.collectors i = .counting delta rest) :
    CountedDrops { s.set i (.controls rest) with
      udp_kernel_drops := s.udp_kernel_drops + delta.toUInt64 } := by
  have hsum := sum_in_flight_set s i (.controls rest)
  rw [hi] at hsum
  have hword : (s.udp_kernel_drops + delta.toUInt64).toNat ≡ s.udp_kernel_drops.toNat + delta.toNat
      [MOD 2 ^ 64] := by
    rw [UInt64.toNat_add, UInt32.toNat_toUInt64]
    exact Nat.mod_modEq _ _
  show (s.udp_kernel_drops + delta.toUInt64).toNat +
    ∑ j, ((s.set i (.controls rest)).collectors j).in_flight ≡ s.cursor_drops [MOD 2 ^ 64]
  refine (hword.add_right _).trans ?_
  have hflight : s.udp_kernel_drops.toNat + delta.toNat +
      ∑ j, ((s.set i (.controls rest)).collectors j).in_flight =
      s.udp_kernel_drops.toNat + ∑ j, (s.collectors j).in_flight := by
    simp only [Collector.in_flight] at hsum ⊢
    omega
  rw [hflight]
  exact h

theorem CountedDrops.step (h : CountedDrops s) (hsampled : Sampled s) (hstep : KernelStep s read s')
    (hnear : ∀ d ∈ read, Near (2 ^ 31) d s.cursor_drops) : CountedDrops s' := by
  cases hstep with
  | drop n => exact h
  | enter i messages hi _ =>
    have hflight : (Collector.controls messages).in_flight = (s.collectors i).in_flight := by
      rw [hi]
      rfl
    exact h.set hflight
  | skip i rest hi => exact h.set (by rw [hi]; rfl)
  | load i d rest hi => exact h.set (by rw [hi]; rfl)
  | stale i d previous rest hi _ => exact h.set (by rw [hi]; rfl)
  | fail i d previous rest hi _ => exact h.set (by rw [hi]; rfl)
  | move i d previous rest hi hnew heq =>
    have hlt := hsampled.lt_of_move (hnear d rfl) hnew heq
    refine h.move (by rw [hi]; rfl) ?_
    rw [← heq, hsampled.cursor, toNat_kernel_delta, (hnear d rfl).ahead_of_le hlt.le]
    omega
  | count i delta rest hi => exact h.count hi
  | leave i hi => exact h.set (by rw [hi]; rfl)

theorem counted_of_run (hrun : KernelRun s) : CountedDrops s := by
  induction hrun with
  | start =>
    show 0 + ∑ _ : ι, 0 ≡ 0 [MOD 2 ^ 64]
    rw [Finset.sum_const_zero]
    rfl
  | step hrun hstep hnear ih => exact ih.step (sampled_of_run hrun) hstep hnear

end invariant

/-! ## Section 5: Between two calls -/

/-- The largest number that came with a datagram. -/
def KernelSampling.largest {ι : Type*} (s : KernelSampling ι) : ℕ := s.sampled.foldr max 0

section total
variable {ι : Type*} [DecidableEq ι] {s : KernelSampling ι}

theorem le_foldr_max {l : List ℕ} (h : d ∈ l) : d ≤ l.foldr max 0 := by
  induction l with
  | nil => cases h
  | cons e l ih =>
    rcases List.mem_cons.mp h with rfl | hl
    · exact le_max_left ..
    · exact (ih hl).trans (le_max_right ..)

theorem foldr_max_le {l : List ℕ} (h : ∀ d ∈ l, d ≤ c) : l.foldr max 0 ≤ c := by
  induction l with
  | nil => exact Nat.zero_le c
  | cons e l ih => exact max_le (h e List.mem_cons_self) (ih fun d hd => h d (List.mem_cons_of_mem _ hd))

omit [DecidableEq ι] in
/-- With no thread inside, the cursor stands at the largest number. -/
theorem Sampled.cursor_eq_largest (h : Sampled s) (hidle : ∀ i, s.collectors i = .outside) :
    s.cursor_drops = s.largest := by
  apply le_antisymm
  · rcases h.reached with hzero | hmem
    · rw [hzero]
      exact Nat.zero_le _
    · exact le_foldr_max hmem
  · apply foldr_max_le
    intro d hd
    rcases h.seen d hd with hle | ⟨i, hi⟩
    · exact hle
    · rw [hidle i] at hi
      cases hi

/-- Whenever no thread is in the function, the total is the largest number of drops that any
    datagram brought, as far as a word of 64 bits goes. Threads that are late, numbers that are, and
    the end of the 32 bits make no difference. -/
theorem udp_kernel_drops_of_run [Fintype ι] (hrun : KernelRun s) (hidle : ∀ i, s.collectors i = .outside) :
    s.udp_kernel_drops.toNat = s.largest % 2 ^ 64 ∧
      (s.largest < 2 ^ 64 → s.udp_kernel_drops.toNat = s.largest) := by
  have hsampled := sampled_of_run hrun
  have hcounted := counted_of_run hrun
  have hflight : ∑ i, (s.collectors i).in_flight = 0 := by
    apply Finset.sum_eq_zero
    intro i _
    rw [hidle i]
    rfl
  have htotal : s.udp_kernel_drops.toNat = s.largest % 2 ^ 64 := by
    unfold CountedDrops at hcounted
    rw [hflight, Nat.add_zero, hsampled.cursor_eq_largest hidle] at hcounted
    rw [← hcounted]
    exact (Nat.mod_eq_of_lt s.udp_kernel_drops.toNat_lt).symm
  refine ⟨htotal, fun hlt => ?_⟩
  rw [htotal, Nat.mod_eq_of_lt hlt]

/-- One thread brings a number above the cursor through the function. -/
theorem exists_sample (hrun : KernelRun s) (hidle : ∀ i, s.collectors i = .outside) (i : ι)
    (hlt : s.cursor_drops < d) (hnear : d < s.cursor_drops + 2 ^ 31) :
    ∃ s' : KernelSampling ι, KernelRun s' ∧ (∀ j, s'.collectors j = .outside) ∧ s'.cursor_drops = d ∧
      s'.sampled = d :: s.sampled := by
  have hread : Near (2 ^ 31) d s.cursor_drops := ⟨hnear, by omega⟩
  have hnew : ¬ is_stale (kernel_delta d s.kernel_drop_cursor) := by
    rw [(sampled_of_run hrun).cursor, is_stale_kernel_delta hread, Nat.not_le]
    exact hlt
  have h₁ := hrun.step (.drop d) nofun
  have h₂ := h₁.step (.enter i [.rxq_ovfl d] (hidle i) (by simp [drops_of])) nofun
  have h₃ := h₂.step (.load i d [] (by simp [set_collectors])) (by rintro _ ⟨⟩; exact hread)
  have h₄ := h₃.step (.move i d s.kernel_drop_cursor [] (by simp [set_collectors]; rfl) hnew rfl)
    (by rintro _ ⟨⟩; exact hread)
  have h₅ := h₄.step (.count i (kernel_delta d s.kernel_drop_cursor) [] (by simp [set_collectors])) nofun
  have h₆ := h₅.step (.leave i (by simp [set_collectors])) nofun
  refine ⟨_, h₆, fun j => ?_, rfl, rfl⟩
  by_cases hj : j = i <;> simp [set_collectors, hj, hidle]

end total

/-- Three numbers, the last one behind the end of the 32 bits. -/
theorem udp_kernel_drops_of_wrap : ∃ s : KernelSampling (Fin 2), s.largest = 2 ^ 32 + 5 ∧
    s.udp_kernel_drops.toNat = 2 ^ 32 + 5 := by
  obtain ⟨s₁, hrun₁, hidle₁, hcursor₁, hsampled₁⟩ := exists_sample (d := 2 ^ 31 - 1) .start
    (fun _ : Fin 2 => rfl) 0 (by decide) (by decide)
  obtain ⟨s₂, hrun₂, hidle₂, hcursor₂, hsampled₂⟩ := exists_sample (d := 2 ^ 32 - 2) hrun₁ hidle₁ 1
    (by omega) (by omega)
  obtain ⟨s₃, hrun₃, hidle₃, -, hsampled₃⟩ := exists_sample (d := 2 ^ 32 + 5) hrun₂ hidle₂ 0
    (by omega) (by omega)
  have hlargest : s₃.largest = 2 ^ 32 + 5 := by
    rw [KernelSampling.largest, hsampled₃, hsampled₂, hsampled₁]
    rfl
  have htotal := (udp_kernel_drops_of_run hrun₃ hidle₃).2 (by omega)
  exact ⟨s₃, hlargest, by rw [htotal, hlargest]⟩

theorem exists_sampled (n : ℕ) : ∃ s : KernelSampling Unit, KernelRun s ∧
    (∀ i, s.collectors i = .outside) ∧ s.cursor_drops = n := by
  induction n with
  | zero => exact ⟨.start, .start, fun _ => rfl, rfl⟩
  | succ n ih =>
    obtain ⟨s, hrun, hidle, rfl⟩ := ih
    obtain ⟨s', hrun', hidle', hcursor', -⟩ := exists_sample hrun hidle () (Nat.lt_succ_self _) (by omega)
    exact ⟨s', hrun', hidle', hcursor'⟩

/-- One thread brings the numbers up to `2 ^ 64` in, one after the other. The total cannot tell the
    last of them. -/
theorem udp_kernel_drops_of_many : ∃ s : KernelSampling Unit, KernelRun s ∧
    (∀ i, s.collectors i = .outside) ∧ s.largest = 2 ^ 64 ∧ s.udp_kernel_drops.toNat ≠ s.largest := by
  obtain ⟨s, hrun, hidle, hcursor⟩ := exists_sampled (2 ^ 64)
  have hlargest : s.largest = 2 ^ 64 := by rw [← (sampled_of_run hrun).cursor_eq_largest hidle, hcursor]
  have hlt := s.udp_kernel_drops.toNat_lt
  exact ⟨s, hrun, hidle, hlargest, by omega⟩

end PinbaEngine
