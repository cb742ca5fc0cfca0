import PinbaEngine.DeleteAll

/-! # The launch schedule

    The data thread stamps every batch with the time at which its iteration was due, and
    the stats thread takes its cut-off from its own due time. Both move on by one period
    from iteration to iteration. An iteration that is over its time reads the clock again
    and starts anew from there.

    The accounting of the reports relies on stamps that do not go back. They do not
    exactly as long as no second reading of an iteration leads behind the due time that
    it replaces (`launches_increase_iff`); a clock that is set back at any other time
    does no harm. Then the ring is sorted by time, an expiry pass finds all records
    that are old enough (`delete_old_of_sorted`), and the run is one of those that the
    accounting is about (`history_of_run`).
-/

namespace PinbaEngine

/-! ## Section 1: One iteration -/

/-- What an iteration reads off the clock. The second reading is only taken when the iteration is
    over its time. -/
structure Readings where
  first : Timeval
  second : Timeval

namespace Timeval

/-- `timeradd` of `<sys/time.h>` is the same macro. -/
abbrev timeradd (a b : Timeval) : Timeval := pinba_timeradd a b

/-- `timersub` of `<sys/time.h>` is the same macro. -/
abbrev timersub (a b : Timeval) : Timeval := pinba_timersub a b

/-- `stats_gathering_period`, which is in microseconds. -/
def ofPeriod (period : Nat) : Timeval := ⟨(period / 1000000 : Nat), (period % 1000000 : Nat)⟩

/-- The next due time. The carry leaves a whole second in `tv_usec`. -/
def add_period (period : Nat) (launch : Timeval) : Timeval :=
  let tv_sec := launch.tv_sec + (ofPeriod period).tv_sec
  let tv_usec := launch.tv_usec + (ofPeriod period).tv_usec
  if tv_usec > 1000000 then ⟨tv_sec + 1, tv_usec - 1000000⟩ else ⟨tv_sec, tv_usec⟩

/-- The due time is not over: the thread waits for it. -/
def ahead_of (launch now : Timeval) : Bool :=
  let tv1 := launch.timersub now
  tv1.tv_sec ≥ 0 && tv1.tv_usec ≥ 0

/-- The end of an iteration of `pinba_data_main`, and of one of `pinba_stats_main`. -/
def next_launch (period : Nat) (launch : Timeval) (clock : Readings) : Timeval :=
  let launch := add_period period launch
  if launch.ahead_of clock.first then launch else clock.second.timeradd (ofPeriod period)

/-- `from`. -/
def cut_off (stats_history : Nat) (launch : Timeval) : Timeval :=
  ⟨launch.tv_sec - stats_history, launch.tv_usec⟩

/-- What `launch` can be: `tv_usec` may reach a whole second. -/
def Due (launch : Timeval) : Prop := 0 ≤ launch.tv_usec ∧ launch.tv_usec ≤ 1000000

/-- If the iteration starts anew, then behind the due time that it replaces. -/
def Forward (period : Nat) (launch : Timeval) (clock : Readings) : Prop :=
  (add_period period launch).ahead_of clock.first = false →
    launch.lt (clock.second.timeradd (ofPeriod period)) = true

end Timeval

/-- Readings of `gettimeofday`. -/
def Readings.Normalised (clock : Readings) : Prop := clock.first.Normalised ∧ clock.second.Normalised

namespace Timeval

variable {a b c launch : Timeval} {clock : Readings} {period : Nat}

theorem lt_trans (hab : lt a b = true) (hbc : lt b c = true) : lt a c = true := by
  rw [lt_iff] at hab hbc ⊢
  omega

theorem not_lt_of_lt (hab : lt a b = true) : lt b a = false := by
  apply Bool.eq_false_iff.mpr
  rw [Ne, lt_iff]
  rw [lt_iff] at hab
  omega

/-- Cut-off values are in the order of the due times. -/
theorem lt_cut_off (stats_history : Nat) : (cut_off stats_history a).lt (cut_off stats_history b) = a.lt b := by
  rw [Bool.eq_iff_iff, lt_iff, lt_iff]
  simp only [cut_off]
  omega

theorem normalised_ofPeriod (period : Nat) : (ofPeriod period).Normalised := by
  unfold Normalised ofPeriod
  simp only
  omega

theorem Normalised.due (h : a.Normalised) : a.Due := ⟨h.1, h.2.le⟩

theorem due_add_period (h : launch.Due) : (add_period period launch).Due := by
  obtain ⟨h0, h1⟩ := normalised_ofPeriod period
  unfold Due at h ⊢
  unfold add_period
  simp only
  split <;> simp only <;> omega

theorem due_next_launch (h : launch.Due) (hclock : clock.Normalised) : (next_launch period launch clock).Due := by
  unfold next_launch
  simp only
  split
  · exact due_add_period h
  · exact (normalised_timeradd hclock.2 (normalised_ofPeriod period)).due

/-- A step of the period is seen by the comparison, also from and to a whole second in `tv_usec`. -/
theorem lt_add_period (hperiod : 0 < period) : launch.lt (add_period period launch) = true := by
  have hmod := Nat.div_add_mod period 1000000
  rw [lt_iff]
  unfold add_period ofPeriod
  simp only
  split <;> simp only <;> omega

theorem micros_add_period (launch : Timeval) :
    (add_period period launch).micros = launch.micros + (ofPeriod period).micros := by
  unfold add_period micros
  simp only
  split <;> simp only <;> omega

theorem micros_ofPeriod (period : Nat) : (ofPeriod period).micros = period := by
  have hmod := Nat.div_add_mod period 1000000
  unfold micros ofPeriod
  simp only
  omega

/-- A due time before a normalised one by the microseconds is before it by the comparison. -/
theorem lt_of_micros_lt (ha : a.Due) (hb : b.Normalised) (h : a.micros < b.micros) : a.lt b = true := by
  rw [lt_iff]
  unfold Due at ha
  unfold Normalised at hb
  unfold micros at h
  omega

theorem micros_le_of_not_lt (ha : a.Normalised) (hb : b.Normalised) (h : b.lt a = false) :
    a.micros ≤ b.micros := by
  have h' := mt lt_iff.mpr (Bool.eq_false_iff.mp h)
  unfold Normalised at ha hb
  unfold micros
  omega

/-- An iteration is over its time only if the clock has reached the next due time. -/
theorem micros_le_of_not_ahead (ha : a.Due) (hb : b.Normalised) (h : a.ahead_of b = false) :
    a.micros ≤ b.micros := by
  unfold ahead_of timersub pinba_timersub at h
  unfold Due at ha
  unfold Normalised at hb
  unfold micros
  simp only [ge_iff_le, Bool.and_eq_false_iff, decide_eq_false_iff_not, not_le] at h
  split at h <;> simp only at h <;> omega

/-- It is enough that the clock is not set back between the two readings. -/
theorem forward_of_readings (hperiod : 0 < period) (h : launch.Due) (hclock : clock.Normalised)
    (hforward : clock.second.lt clock.first = false) : Forward period launch clock := by
  intro hlate
  have hfirst := micros_le_of_not_ahead (due_add_period h) hclock.1 hlate
  have hsecond := micros_le_of_not_lt hclock.1 hclock.2 hforward
  rw [micros_add_period] at hfirst
  refine lt_of_micros_lt h (normalised_timeradd hclock.2 (normalised_ofPeriod period)) ?_
  rw [micros_timeradd]
  have := micros_ofPeriod period
  omega

/-- One iteration moves the due time on exactly if it does not start anew behind it. -/
theorem lt_next_launch_iff (hperiod : 0 < period) :
    launch.lt (next_launch period launch clock) = true ↔ Forward period launch clock := by
  unfold next_launch Forward
  simp only
  split
  · next hahead => simp [hahead, lt_add_period hperiod]
  · next hlate => simp [hlate]

end Timeval

/-! ## Section 2: All iterations of a thread -/

/-- The due times of one thread, from the reading that it starts with. -/
def launches (period : Nat) (first : Timeval) (clock : Nat → Readings) : Nat → Timeval
  | 0 => first
  | k + 1 => (launches period first clock k).next_launch period (clock k)

theorem due_launches {period : Nat} {first : Timeval} {clock : Nat → Readings} (hfirst : first.Normalised)
    (hclock : ∀ k, (clock k).Normalised) (k : Nat) : (launches period first clock k).Due := by
  induction k with
  | zero => exact hfirst.due
  | succ k ih => exact Timeval.due_next_launch ih (hclock k)

/-- Every due time is later than those before it. -/
def Increasing (times : Nat → Timeval) : Prop := ∀ j k, j < k → (times j).lt (times k) = true

theorem increasing_iff {times : Nat → Timeval} :
    Increasing times ↔ ∀ k, (times k).lt (times (k + 1)) = true := by
  constructor
  · intro h k
    exact h k (k + 1) k.lt_succ_self
  · intro h j k hjk
    induction k, hjk using Nat.le_induction with
    | base => exact h j
    | succ k _ ih => exact Timeval.lt_trans ih (h k)

/-- The due times increase exactly if no iteration starts anew behind its own. -/
theorem launches_increase_iff {period : Nat} (hperiod : 0 < period) (first : Timeval) (clock : Nat → Readings) :
    Increasing (launches period first clock) ↔
      ∀ k, Timeval.Forward period (launches period first clock k) (clock k) := by
  rw [increasing_iff]
  exact forall_congr' fun k => Timeval.lt_next_launch_iff hperiod

/-! ## Section 3: The ring under both threads -/

/-- The daemon with the due times of its two threads. -/
structure Clocked where
  daemon : Daemon
  data_launch : Timeval
  stats_launch : Timeval
  /-- The due times of the data thread so far, the latest one first. -/
  stamps : List Timeval
  cutoffs : List Timeval

/-- What happens to it. An iteration of the data thread that finds no records is a batch of none;
    one of the stats thread that finds no memory for its jobs leaves the ring alone. -/
inductive Turn where
  | data (staged : List StagedRecord) (realloc_ok : Bool) (clock : Readings)
  | stats (deferred : Bool) (clock : Readings)
  | register_base (kind : BaseKind) (cond : Conditions) (buckets : BucketChoice)
  | register_rtag (kind : RtagKind) (cond : Conditions) (buckets : BucketChoice) (tags : List Word)
  | register_tag (kind : TagKind) (cond : Conditions) (buckets : BucketChoice) (tag_id : List Int)
  | delete_all_rows

namespace Clocked

section turns
variable (period stats_history : Nat)

def turn (s : Clocked) : Turn → Clocked
  | .data staged realloc_ok clock =>
    { s with
      daemon := s.daemon.ingest s.data_launch staged realloc_ok
      data_launch := s.data_launch.next_launch period clock
      stamps := s.data_launch :: s.stamps }
  | .stats deferred clock =>
    let from_ := s.stats_launch.cut_off stats_history
    { s with
      daemon := if deferred then s.daemon else s.daemon.expire from_
      stats_launch := s.stats_launch.next_launch period clock
      cutoffs := from_ :: s.cutoffs }
  | .register_base kind cond buckets => { s with daemon := s.daemon.step (.register_base kind cond buckets) }
  | .register_rtag kind cond buckets tags =>
    { s with daemon := s.daemon.step (.register_rtag kind cond buckets tags) }
  | .register_tag kind cond buckets tag_id =>
    { s with daemon := s.daemon.step (.register_tag kind cond buckets tag_id) }
  | .delete_all_rows => { s with daemon := s.daemon.delete_all_rows }

/-- The readings of an iteration come from `gettimeofday`. -/
def Normalised : Turn → Prop
  | .data _ _ clock | .stats _ clock => clock.Normalised
  | _ => True

/-- The iteration does not start anew behind its own due time. -/
def Forward (s : Clocked) : Turn → Prop
  | .data _ _ clock => s.data_launch.Forward period clock
  | .stats _ clock => s.stats_launch.Forward period clock
  | _ => True

/-- The runs whose turns meet a condition. Both threads read the clock before their first iteration. -/
inductive Run (ok : Clocked → Turn → Prop) : Clocked → Prop
  | start (requests timers : Nat) {data stats : Timeval} (hdata : data.Normalised) (hstats : stats.Normalised) :
    Run ok ⟨.init requests timers, data, stats, [], []⟩
  | step {s : Clocked} (e : Turn) (hrun : Run ok s) (hclock : Normalised e) (hok : ok s e) :
    Run ok (s.turn period stats_history e)

end turns

/-- Every time is later than those behind it. -/
def Decreasing (times : List Timeval) : Prop := times.Pairwise fun later earlier => earlier.lt later = true

/-- No record in the ring is older than one before it. -/
def SortedByTime (d : Daemon) : Prop := d.live.Pairwise fun e e' => e'.2.time.lt e.2.time = false

/-- The due times so far, with those that come next, and the ring. -/
structure Ordered (stats_history : Nat) (s : Clocked) : Prop where
  stamps : Decreasing (s.data_launch :: s.stamps)
  cutoffs : Decreasing (s.stats_launch.cut_off stats_history :: s.cutoffs)
  before : ∀ e ∈ s.daemon.live, e.2.time.lt s.data_launch = true
  sorted : SortedByTime s.daemon

variable {period stats_history : Nat} {s : Clocked}

theorem Decreasing.cons {t t' : Timeval} {times : List Timeval} (h : Decreasing (t :: times))
    (hlt : t.lt t' = true) : Decreasing (t' :: t :: times) := by
  refine List.pairwise_cons.mpr ⟨?_, h⟩
  intro earlier hmem
  rcases List.mem_cons.mp hmem with rfl | hmem
  · exact hlt
  · exact Timeval.lt_trans ((List.pairwise_cons.mp h).1 earlier hmem) hlt

theorem sorted_ingest (h : Ordered stats_history s) (staged : List StagedRecord) (realloc_ok : Bool) :
    SortedByTime (s.daemon.ingest s.data_launch staged realloc_ok) := by
  by_cases hne : staged = []
  · rw [Daemon.ingest_of_nil hne]
    exact h.sorted
  · have htime : ∀ e ∈ s.daemon.new_entries s.data_launch staged realloc_ok, e.2.time = s.data_launch :=
      Daemon.batchOf_new_entries.time
    unfold SortedByTime
    rw [Daemon.live_ingest hne]
    refine List.pairwise_append.mpr ⟨h.sorted, ?_, ?_⟩
    · refine List.pairwise_of_forall_mem_list fun e he e' he' => ?_
      rw [htime e he, htime e' he']
      exact Timeval.not_lt_self _
    · intro e he e' he'
      rw [htime e' he']
      exact Timeval.not_lt_of_lt (h.before e he)

/-- The records of a batch are before the next due time. -/
theorem before_ingest (h : Ordered stats_history s) (staged : List StagedRecord) (realloc_ok : Bool) {t : Timeval}
    (hlt : s.data_launch.lt t = true) :
    ∀ e ∈ (s.daemon.ingest s.data_launch staged realloc_ok).live, e.2.time.lt t = true := by
  intro e he
  by_cases hne : staged = []
  · rw [Daemon.ingest_of_nil hne] at he
    exact Timeval.lt_trans (h.before e he) hlt
  · rw [Daemon.live_ingest hne] at he
    rcases List.mem_append.mp he with hold | hnew
    · exact Timeval.lt_trans (h.before e hold) hlt
    · rw [Daemon.batchOf_new_entries.time e hnew]
      exact hlt

theorem live_expire_sublist (d : Daemon) (from_ : Timeval) : (d.expire from_).live.Sublist d.live := by
  rw [d.live_expire from_]
  exact List.sublist_append_right _ _

/-- A pass, or the deletion of all rows, takes records out of the ring. -/
theorem Ordered.thin (h : Ordered stats_history s) {d : Daemon} (hsub : d.live.Sublist s.daemon.live) :
    Ordered stats_history { s with daemon := d } :=
  ⟨h.stamps, h.cutoffs, fun e he => h.before e (hsub.subset he), h.sorted.sublist hsub⟩

theorem ordered_turn (hperiod : 0 < period) (h : Ordered stats_history s) {e : Turn} (hok : Forward period s e) :
    Ordered stats_history (s.turn period stats_history e) := by
  cases e with
  | data staged realloc_ok clock =>
    have hlt : s.data_launch.lt (s.data_launch.next_launch period clock) = true :=
      (Timeval.lt_next_launch_iff hperiod).mpr hok
    exact ⟨h.stamps.cons hlt, h.cutoffs, before_ingest h staged realloc_ok hlt, sorted_ingest h staged realloc_ok⟩
  | stats deferred clock =>
    have hlt : s.stats_launch.lt (s.stats_launch.next_launch period clock) = true :=
      (Timeval.lt_next_launch_iff hperiod).mpr hok
    have hcutoffs := h.cutoffs.cons ((Timeval.lt_cut_off stats_history).trans hlt)
    cases deferred with
    | true => exact ⟨h.stamps, hcutoffs, h.before, h.sorted⟩
    | false =>
      have hthin := h.thin (live_expire_sublist s.daemon (s.stats_launch.cut_off stats_history))
      exact ⟨h.stamps, hcutoffs, hthin.before, hthin.sorted⟩
  | register_base kind cond buckets => exact h.thin (List.Sublist.refl _)
  | register_rtag kind cond buckets tags => exact h.thin (List.Sublist.refl _)
  | register_tag kind cond buckets tag_id => exact h.thin (List.Sublist.refl _)
  | delete_all_rows =>
    have hempty : s.daemon.delete_all_rows.live = [] := CircularBuffer.contents_blank _ _
    exact h.thin (hempty ▸ List.nil_sublist _)

/-- In every state of a run whose iterations do not start anew behind their due times. -/
theorem ordered_of_run (hperiod : 0 < period) (hrun : Run period stats_history (Forward period) s) :
    Ordered stats_history s := by
  induction hrun with
  | start requests timers _ _ =>
    have hempty : (Daemon.init requests timers).live = [] := CircularBuffer.contents_blank _ _
    refine ⟨List.pairwise_singleton _ _, List.pairwise_singleton _ _, ?_, ?_⟩
    · rw [hempty]
      exact fun e he => absurd he List.not_mem_nil
    · unfold SortedByTime
      rw [hempty]
      exact List.Pairwise.nil
  | step e _ _ hok ih => exact ordered_turn hperiod ih hok

/-! ## Section 4: What the order is good for -/

/-- The leading run of elements with a property that all elements before such an element have. -/
theorem takeWhile_eq_filter {α : Type*} {p : α → Bool} {l : List α}
    (h : l.Pairwise fun a b => p b = true → p a = true) : l.takeWhile p = l.filter p := by
  induction l with
  | nil => rfl
  | cons a l ih =>
    obtain ⟨hhead, htail⟩ := List.pairwise_cons.mp h
    by_cases ha : p a = true
    · rw [List.takeWhile_cons_of_pos ha, List.filter_cons_of_pos ha, ih htail]
    · have hnone : ∀ b ∈ a :: l, ¬ p b = true := by
        intro b hb
        rcases List.mem_cons.mp hb with rfl | hb
        · exact ha
        · exact fun hpb => ha (hhead b hb hpb)
      rw [List.takeWhile_cons_of_neg ha, List.filter_eq_nil_iff.mpr hnone]

/-- A pass over a sorted ring removes all records before the cut-off. -/
theorem delete_old_of_sorted {d : Daemon} (h : SortedByTime d) (from_ : Timeval) :
    d.delete_old from_ = d.live.filter fun e => e.2.time.lt from_ := by
  refine takeWhile_eq_filter (h.imp fun {e e'} hle hlt => ?_)
  by_contra hnot
  have hlater := Timeval.not_lt_trans (Bool.eq_false_iff.mpr hnot) hle
  rw [hlt] at hlater
  cases hlater

/-- What the accounting asks of a batch besides the order of the stamps. -/
def Regular (s : Clocked) : Turn → Prop
  | .data staged _ _ => 0 < s.data_launch.tv_sec ∧ ∀ r ∈ staged, ∀ timer ∈ r.timers, timer.DistinctTags
  | _ => True

/-- Such a run is one of those whose stamps do not go back, which the accounting is about. -/
theorem history_of_run (hperiod : 0 < period)
    (hrun : Run period stats_history (fun s e => Forward period s e ∧ Regular s e) s) :
    ∃ last, Daemon.History s.daemon last ∧ (last = ⟨0, 0⟩ ∨ last.lt s.data_launch = true) := by
  induction hrun with
  | start requests timers _ _ => exact ⟨⟨0, 0⟩, .start requests timers, .inl rfl⟩
  | @step s e _ _ hok ih =>
    obtain ⟨last, hhistory, hlast⟩ := ih
    cases e with
    | data staged realloc_ok clock =>
      -- the batch moves the launch on
      have hlt : s.data_launch.lt (s.data_launch.next_launch period clock) = true :=
        (Timeval.lt_next_launch_iff hperiod).mpr hok.1
      -- and is not stamped before the one that came last
      have hnow : s.data_launch.lt last = false := by
        rcases hlast with rfl | hlast
        · have hpos := hok.2.1
          apply Bool.eq_false_iff.mpr
          rw [Ne, Timeval.lt_iff]
          simp only
          omega
        · exact Timeval.not_lt_of_lt hlast
      have hsec : s.data_launch.tv_sec ≠ 0 := by
        have hpos := hok.2.1
        omega
      exact ⟨s.data_launch, .step (.ingest s.data_launch staged realloc_ok) hhistory ⟨hnow, hsec, hok.2.2⟩,
        .inr hlt⟩
    | stats deferred clock =>
      cases deferred with
      | true => exact ⟨last, hhistory, hlast⟩
      | false => exact ⟨last, .step (.expire _) hhistory trivial, hlast⟩
    | register_base kind cond buckets => exact ⟨last, .step (.register_base kind cond buckets) hhistory trivial, hlast⟩
    | register_rtag kind cond buckets tags =>
      exact ⟨last, .step (.register_rtag kind cond buckets tags) hhistory trivial, hlast⟩
    | register_tag kind cond buckets tag_id =>
      exact ⟨last, .step (.register_tag kind cond buckets tag_id) hhistory trivial, hlast⟩
    | delete_all_rows => exact ⟨last, .delete_all_rows hhistory, hlast⟩

end Clocked

/-- With any readings of the clock the due times of a thread, and its cut-off values, increase
    exactly if no iteration starts anew behind its own due time; and none does if the clock is not
    set back between its two readings. In a run without such an iteration the stamps and the cut-off
    values increase, the ring is sorted, and a pass removes all records before its cut-off. -/
theorem batch_stamps_increase {period : Nat} (hperiod : 0 < period) (stats_history : Nat) :
    (∀ first clock, first.Normalised → (∀ k, (clock k).Normalised) →
      (Increasing (launches period first clock) ↔
        ∀ k, (launches period first clock k).Forward period (clock k)) ∧
      (Increasing (fun k => (launches period first clock k).cut_off stats_history) ↔
        ∀ k, (launches period first clock k).Forward period (clock k)) ∧
      ∀ k, (clock k).second.lt (clock k).first = false →
        (launches period first clock k).Forward period (clock k)) ∧
    ∀ s, Clocked.Run period stats_history (Clocked.Forward period) s →
      Clocked.Decreasing s.stamps ∧ Clocked.Decreasing s.cutoffs ∧ Clocked.SortedByTime s.daemon ∧
      ∀ from_, s.daemon.delete_old from_ = s.daemon.live.filter fun e => e.2.time.lt from_ := by
  refine ⟨fun first clock hfirst hclock => ⟨launches_increase_iff hperiod first clock, ?_, ?_⟩, ?_⟩
  · rw [← launches_increase_iff hperiod first clock]
    unfold Increasing
    simp only [Timeval.lt_cut_off]
  · intro k hset
    exact Timeval.forward_of_readings hperiod (due_launches hfirst hclock k) (hclock k) hset
  · intro s hrun
    have h := Clocked.ordered_of_run hperiod hrun
    exact ⟨(List.pairwise_cons.mp h.stamps).2, (List.pairwise_cons.mp h.cutoffs).2, h.sorted,
      Clocked.delete_old_of_sorted h.sorted⟩

/-- Readings right after the start of the iteration. -/
def on_time (k : Nat) : Readings := ⟨⟨1, k⟩, ⟨1, k⟩⟩

/-- A record without timers. -/
def bare_record : StagedRecord := ⟨default, [], []⟩

def clocked_start (tv_sec : Int) : Clocked := ⟨.init 8 8, ⟨tv_sec, 0⟩, ⟨tv_sec, 0⟩, [], []⟩

/-- Two batches of one record each. -/
def two_batches (tv_sec : Int) (clock : Readings) : Clocked :=
  ((clocked_start tv_sec).turn 10000 900 (.data [bare_record] true clock)).turn 10000 900
    (.data [bare_record] true clock)

theorem batch_stamps_increase_two_batches :
    Increasing (launches 10000 ⟨1, 0⟩ fun _ => on_time 5) ∧
      Clocked.SortedByTime (two_batches 1 (on_time 5)).daemon := by
  have hclock : (on_time 5).Normalised := ⟨by decide, by decide⟩
  obtain ⟨hlaunches, hruns⟩ := @batch_stamps_increase 10000 (by decide) 900
  obtain ⟨hiff, -, hforward⟩ := hlaunches ⟨1, 0⟩ (fun _ => on_time 5) (by decide) fun _ => hclock
  refine ⟨hiff.mpr fun k => hforward k (by decide), ?_⟩
  have hrun : Clocked.Run 10000 900 (Clocked.Forward 10000) (two_batches 1 (on_time 5)) := by
    refine .step _ (.step _ (.start 8 8 (by decide) (by decide)) hclock ?_) hclock ?_
    · exact fun hlate => absurd hlate (by decide)
    · exact fun hlate => absurd hlate (by decide)
  exact (hruns _ hrun).2.2.1

/-- The iteration is over its time, and then the clock is set back before it is read again. -/
def set_back : Readings := ⟨⟨101, 0⟩, ⟨50, 0⟩⟩

/-- The second batch is stamped before the first one, and a pass with a cut-off between them finds
    nothing to remove. -/
theorem stamps_go_back :
    set_back.Normalised ∧ ¬ Increasing (launches 10000 ⟨100, 0⟩ fun _ => set_back) ∧
    Clocked.Run 10000 900 (fun _ _ => True) (two_batches 100 set_back) ∧
    ¬ Clocked.SortedByTime (two_batches 100 set_back).daemon ∧
    (two_batches 100 set_back).daemon.delete_old ⟨60, 0⟩ = [] ∧
    ∃ e ∈ (two_batches 100 set_back).daemon.live, e.2.time.lt ⟨60, 0⟩ = true := by
  have hclock : set_back.Normalised := ⟨by decide, by decide⟩
  have htimes : (two_batches 100 set_back).daemon.live.map (fun e => e.2.time) = [⟨100, 0⟩, ⟨50, 10000⟩] := rfl
  refine ⟨hclock, fun h => absurd (h 0 1 (by decide)) (by decide), ?_, ?_, rfl, ?_⟩
  · exact .step _ (.step _ (.start 8 8 (by decide) (by decide)) hclock trivial) hclock trivial
  · intro hsorted
    have hpairs : ((two_batches 100 set_back).daemon.live.map fun e => e.2.time).Pairwise
        fun t t' => t'.lt t = false := List.pairwise_map.mpr hsorted
    rw [htimes] at hpairs
    exact absurd hpairs (by decide)
  · have hmem : (⟨50, 10000⟩ : Timeval) ∈ (two_batches 100 set_back).daemon.live.map fun e => e.2.time := by
      rw [htimes]
      decide
    obtain ⟨e, he, htime⟩ := List.mem_map.mp hmem
    exact ⟨e, he, by rw [htime]; rfl⟩

end PinbaEngine
