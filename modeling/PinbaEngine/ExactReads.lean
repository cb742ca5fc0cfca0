import PinbaEngine.RawScans

/-! # Reads of one slot

    `rnd_pos` and reads by key ask for one slot of a raw table. The fetch functions are
    called with `exact` and must not go on to another slot, so they have to tell from the
    slot alone whether a row is in it. They look at the time of the record, for a timer at
    that of the slot which it names, and at the write position of the ring.

    An expired record keeps its time, and a timer slot that was never used names slot 0.
    So there are rows outside of the live part.
-/

namespace PinbaEngine

open Circular

/-! ## Section 1: The calls -/

/-- What `rnd_pos` answers. -/
inductive PosAnswer where
  | row (row : RawRow)
  | record_deleted
  | end_of_file

/-- `read_row_by_pos` takes a key that was not found for a deleted record. -/
def RawAnswer.by_pos : RawAnswer → PosAnswer
  | .row r => .row r
  | .key_not_found => .record_deleted
  | .end_of_file => .end_of_file

namespace RawPools

variable (p : RawPools)

/-- `ha_pinba::read_row_by_pos`. -/
def read_row_by_pos (fuel : Nat) (table : RawTable) (position : SizeT) (c : RawCursor) :
    Option (PosAnswer × RawCursor) :=
  match table with
  | .request => (p.requests_fetch_row fuel position c.position true).map fun r => (r.1.by_pos, c)
  | .timer =>
    (p.timers_fetch_row fuel position c.position false true).map fun r =>
      (r.1.by_pos, { c with position := r.2.position })

/-- An exact read takes the slot for a row. -/
def shows : RawTable → Nat → Bool
  | .request, i => i ≠ p.request_pool.inPos && i < p.request_pool.size && p.stamped i
  | .timer, i => i ≠ p.timer_pool.inPos && i < p.timer_pool.size && p.named i

/-- Where a read of `slot` looks. -/
def looked_at (table : RawTable) (slot : SizeT) : Nat :=
  match table with
  | .request => slot.getD p.request_pool.outPos
  | .timer => slot.getD p.timer_pool.outPos

/-- An exact read of a slot succeeds only for live slots, whichever call makes it. -/
structure ExactRead (table : RawTable) (slot : SizeT) : Prop where
  by_pos : ∀ c fuel, ∃ answer c', p.read_row_by_pos (fuel + 1) table slot c = some (answer, c') ∧
    ((∃ row, answer = .row row) ∧ (∃ i ∈ p.live table, slot = some i) ∨ answer = .record_deleted)
  by_key : ∀ k, slot = some k → ∀ c fuel, ∃ answer c',
    p.index_read (fuel + 1) table.key k c = some (answer, c') ∧
      ((∃ row, answer = .row row) ∧ k ∈ p.live table ∨ answer = .key_not_found)

/-- The slot is live, or the tests of the code find nothing in it. `(size_t)-1` stands for the
    oldest slot, so it finds nothing only in an empty pool. -/
def Told (table : RawTable) : SizeT → Prop
  | some i => i ∈ p.live table ∨ p.shows table i = false
  | none => p.live table = []

/-! ## Section 2: One read -/

variable {p : RawPools} {table : RawTable} {slot : SizeT} {position : SizeT} {c : RawCursor} {i : Nat}

theorem retry_again_exact_eq (f : RawFetch) : ∃ g, p.retry_again true f =
    .inr (if p.shows .request f.index then .row (p.request_row f.index) else .key_not_found, g) := by
  unfold retry_again shows wrapped
  simp only [Bool.not_true, Bool.false_and, Bool.false_eq_true, if_false, if_true]
  by_cases hend : f.index = p.request_pool.inPos ∨ p.request_pool.size ≤ f.index
  · rw [if_pos hend, if_neg (by simp; omega)]
    exact ⟨_, rfl⟩
  · rw [if_neg hend]
    rw [not_or, Nat.not_le] at hend
    by_cases hstamped : p.stamped f.index = true
    · exact ⟨_, by simp [hstamped, hend]; rfl⟩
    · exact ⟨_, by simp [hstamped]; rfl⟩

theorem try_next_exact_eq (out : Bool) (f : RawFetch) : ∃ g, p.try_next out true f =
    .inr (if p.shows .timer f.index then .row (p.timer_row f.index) else .key_not_found, g) := by
  unfold try_next shows wrapped named
  simp only [Bool.not_true, Bool.false_and, Bool.false_eq_true, if_false, if_true]
  by_cases hend : f.index = p.timer_pool.inPos ∨ p.timer_pool.size ≤ f.index
  · rw [if_pos hend, if_neg (by simp; omega)]
    exact ⟨_, rfl⟩
  · rw [if_neg hend]
    rw [not_or, Nat.not_le] at hend
    by_cases hnamed : p.stamped (p.request_of f.index) = true
    · exact ⟨_, by simp [hnamed, hend]; rfl⟩
    · exact ⟨_, by simp [hnamed]; rfl⟩

theorem read_row_by_pos_eq (table : RawTable) (slot : SizeT) (c : RawCursor) (fuel : Nat) :
    ∃ c', p.read_row_by_pos (fuel + 1) table slot c =
      some (if p.shows table (p.looked_at table slot) then .row (p.row table (p.looked_at table slot))
        else .record_deleted, c') := by
  cases table with
  | request =>
    obtain ⟨g, hg⟩ := p.retry_again_exact_eq ⟨p.looked_at .request slot, p.looked_at .request slot, c.position⟩
    refine ⟨c, Option.map_eq_some_iff.mpr ⟨_, turns_of_inr hg fuel, ?_⟩⟩
    rw [apply_ite RawAnswer.by_pos]
    rfl
  | timer =>
    obtain ⟨g, hg⟩ := p.try_next_exact_eq false ⟨p.looked_at .timer slot, p.looked_at .timer slot, c.position⟩
    refine ⟨{ c with position := g.position }, Option.map_eq_some_iff.mpr ⟨_, turns_of_inr hg fuel, ?_⟩⟩
    rw [apply_ite RawAnswer.by_pos]
    rfl

theorem index_read_eq (table : RawTable) (k : Nat) (c : RawCursor) (fuel : Nat) :
    ∃ c', p.index_read (fuel + 1) table.key k c =
      some (if p.shows table k then .row (p.row table k) else .key_not_found, c') := by
  cases table with
  | request =>
    obtain ⟨g, hg⟩ := p.retry_again_exact_eq ⟨k, k, some 0⟩
    exact ⟨_, Option.map_eq_some_iff.mpr ⟨_, Option.map_eq_some_iff.mpr ⟨_, turns_of_inr hg fuel, rfl⟩, rfl⟩⟩
  | timer =>
    obtain ⟨g, hg⟩ := p.try_next_exact_eq false ⟨k, k, some 0⟩
    exact ⟨_, Option.map_eq_some_iff.mpr ⟨_, Option.map_eq_some_iff.mpr ⟨_, turns_of_inr hg fuel, rfl⟩, rfl⟩⟩

/-- No live slot is taken for an empty one. -/
theorem shows_of_live (hp : p.Live) (hi : i ∈ p.live table) : p.shows table i = true := by
  cases table with
  | request =>
    obtain ⟨-, hlt, hne, -⟩ := following_eq_cons (following_of_live hi)
    simp [shows, hne, hlt, (hp.kept i hi).1]
  | timer =>
    obtain ⟨-, hlt, hne, -⟩ := following_eq_cons (following_of_live hi)
    simp [shows, hne, hlt, (hp.timer hi).1]

/-- `(size_t)-1` finds the oldest slot, if any is live. -/
theorem shows_oldest (hp : p.Live) : p.shows table (p.looked_at table none) = false ↔ p.live table = [] := by
  constructor
  · intro h
    by_contra hne
    have hlive : p.looked_at table none ∈ p.live table := by
      cases table with
      | request => exact p.request_pool.outPos_mem_live hne
      | timer => exact p.timer_pool.outPos_mem_live hne
    rw [shows_of_live hp hlive] at h
    cases h
  · intro h
    cases table with
    | request =>
      have heq : p.looked_at .request none = p.request_pool.inPos := p.request_pool.live_eq_nil_iff.mp h
      simp [shows, heq]
    | timer =>
      have heq : p.looked_at .timer none = p.timer_pool.inPos := p.timer_pool.live_eq_nil_iff.mp h
      simp [shows, heq]

theorem looked_at_some (table : RawTable) (i : Nat) : p.looked_at table (some i) = i := by
  cases table <;> rfl

/-- A read is right exactly if the tests tell the slot. -/
theorem exactRead_iff (hp : p.Live) : p.ExactRead table slot ↔ p.Told table slot := by
  constructor
  · intro h
    obtain ⟨c', heq⟩ := read_row_by_pos_eq (p := p) table slot .rnd_init 0
    obtain ⟨answer, c'', hanswer, hright⟩ := h.by_pos .rnd_init 0
    obtain ⟨rfl, -⟩ := Prod.mk.inj (Option.some.inj (hanswer.symm.trans heq))
    cases hshows : p.shows table (p.looked_at table slot) with
    | false =>
      cases slot with
      | none => exact (shows_oldest hp).mp hshows
      | some i => exact .inr (by rwa [looked_at_some] at hshows)
    | true =>
      rw [hshows] at hright
      rcases hright with ⟨-, i, hi, rfl⟩ | hdeleted
      · exact .inl hi
      · cases hdeleted
  · intro h
    -- what the tests find is live
    have hlive : p.shows table (p.looked_at table slot) = true → ∃ i ∈ p.live table, slot = some i := by
      intro hshows
      cases slot with
      | none =>
        rw [(shows_oldest hp).mpr h] at hshows
        cases hshows
      | some i =>
        rw [looked_at_some] at hshows
        rcases h with hi | hhidden
        · exact ⟨i, hi, rfl⟩
        · rw [hhidden] at hshows
          cases hshows
    constructor
    · intro c fuel
      obtain ⟨c', heq⟩ := read_row_by_pos_eq (p := p) table slot c fuel
      refine ⟨_, c', heq, ?_⟩
      split
      · next hshows => exact .inl ⟨⟨_, rfl⟩, hlive hshows⟩
      · exact .inr rfl
    · rintro k rfl c fuel
      obtain ⟨c', heq⟩ := index_read_eq (p := p) table k c fuel
      refine ⟨_, c', heq, ?_⟩
      split
      · next hshows =>
        obtain ⟨i, hi, hk⟩ := hlive (by rwa [looked_at_some])
        cases hk
        exact .inl ⟨⟨_, rfl⟩, hi⟩
      · exact .inr rfl

/-! ## Section 3: Runs -/

variable {n : Nat} {ok : RawPools → RawEvent → Prop}

/-- The event leaves no time outside of the live slots and of the next one to be written. -/
def NoTrace (p : RawPools) : RawEvent → Prop
  | .expire n => n = 0
  | .leftovers _ slots => ∀ i, (slots i).time.tv_sec ≠ 0 → i ∈ p.request_pool.live ∨ i = p.request_pool.inPos
  | _ => True

theorem stamped_expire (h : n ≤ p.request_pool.count) (i : Nat) :
    (p.expire n h).stamped i = p.stamped i := by
  have htime : ((p.expire n h).slots i).time = (p.slots i).time := by
    show (if i ∈ p.request_pool.live.take n then { p.slots i with active := false } else p.slots i).time = _
    split <;> rfl
  rw [stamped, htime, stamped]

/-- An expired record is still taken for a row. -/
theorem shows_expired (hp : p.Live) (h : n ≤ p.request_pool.count)
    (hi : i ∈ p.request_pool.live.take n) :
    i ∉ (p.expire n h).live .request ∧ (p.expire n h).shows .request i = true := by
  constructor
  · have hlive : (p.expire n h).live .request = p.request_pool.live.drop n := p.request_pool.live_dropFront h
    have hnodup := p.request_pool.nodup_live
    rw [← List.take_append_drop n p.request_pool.live, List.nodup_append'] at hnodup
    rw [hlive]
    exact hnodup.2.2 hi
  · have hshows : p.shows .request i = true := shows_of_live hp (List.mem_of_mem_take hi)
    show (decide (i ≠ p.request_pool.inPos) && decide (i < p.request_pool.size) &&
      (p.expire n h).stamped i) = true
    rw [stamped_expire]
    exact hshows

theorem inPos_ingest_nil {s : TimerState} {shares : List (List (List RequestTimer))} {realloc_ok : Bool}
    (h : shares.flatten.length ≤ s.request_pool.free) (hnil : shares.flatten = []) :
    (s.ingest shares h realloc_ok).request_pool.inPos = s.request_pool.inPos := by
  have hnone : TimerState.timers_added shares = 0 := by rw [TimerState.timers_added, hnil]; rfl
  have hin := s.request_pool.in_lt
  rw [TimerState.ingest, if_pos hnone]
  show advance s.request_pool.size s.request_pool.inPos (List.replicate shares.flatten.length _).length = _
  rw [List.length_replicate, hnil, advance, if_neg (by simpa using hin)]
  rfl

/-- Zeroed memory is no record. -/
theorem not_stamped_default (h : p.slots i = default) : p.stamped i = false := by
  rw [stamped, h]
  rfl

/-- Where no event leaves traces, only live slots hold times. -/
theorem traceless_of_run (hrun : Run NoTrace p) (hi : p.stamped i = true) :
    i ∈ p.request_pool.live ∨ i = p.request_pool.inPos := by
  induction hrun with
  | start requests timers h =>
    rw [not_stamped_default (p := init requests timers) rfl] at hi
    cases hi
  | @ingest p now shares h realloc_ok hp hnow _ ih =>
    have hlive : (p.ingest now shares h realloc_ok).request_pool.live =
        p.request_pool.live ++ p.request_pool.ahead (timers_of shares).flatten.length :=
      TimerState.live_ingest _ h
    rw [hlive, List.mem_append]
    by_cases hnew : i ∈ p.request_pool.ahead (timers_of shares).flatten.length
    · exact .inl (.inr hnew)
    rw [stamped, stamped_ingest h hnew] at hi
    rcases ih hi with hold | rfl
    · exact .inl (.inl hold)
    -- the next slot to be written is written, if there is anything to write
    cases hflat : (timers_of shares).flatten with
    | nil => exact .inr (inPos_ingest_nil h hflat).symm
    | cons r rs =>
      rw [hflat] at hnew
      exact absurd List.mem_cons_self hnew
  | leftovers records slots h hslots _ hok _ => exact hok i (of_decide_eq_true hi)
  | @expire p n h _ hok ih =>
    cases hok
    rw [stamped_expire] at hi
    have hlive : (p.expire 0 h).request_pool.live = p.request_pool.live := p.request_pool.live_dropFront h
    rw [hlive]
    exact ih hi
  | @delete_all_rows p _ _ _ =>
    rw [not_stamped_default (p := p.delete_all_rows) rfl] at hi
    cases hi

/-- In every state that the pools can reach, an exact read is right exactly for the slots that the
    tests of the code tell. As long as nothing expires these are all slots of the request ring, and
    an expired record is read wrong from the pass that removes it on. -/
theorem exact_reads_of_run (p : RawPools) :
    (Run (fun _ _ => True) p → ∀ table slot, p.ExactRead table slot ↔ p.Told table slot) ∧
    (Run NoTrace p → ∀ i, p.ExactRead .request (some i)) ∧
    (Run (fun _ _ => True) p → ∀ n h, ∀ i ∈ p.request_pool.live.take n,
      ¬ (p.expire n h).ExactRead .request (some i)) := by
  refine ⟨fun hrun table slot => exactRead_iff (live_of_run hrun), fun hrun i => ?_, fun hrun n h i hi => ?_⟩
  · apply (exactRead_iff (live_of_run hrun)).mpr
    by_cases hlive : i ∈ p.request_pool.live
    · exact .inl hlive
    · right
      have hstamped := mt (traceless_of_run hrun (i := i))
      rw [not_or] at hstamped
      by_cases hin : i = p.request_pool.inPos
      · simp [shows, hin]
      · simp [shows, hstamped ⟨hlive, hin⟩]
  · obtain ⟨hdead, hshows⟩ := shows_expired (live_of_run hrun) h hi
    have hrun' : Run (fun _ _ => True) (p.expire n h) := .expire n h hrun trivial
    rw [exactRead_iff (live_of_run hrun')]
    rintro (hlive | hhidden)
    · exact hdead hlive
    · rw [hshows] at hhidden
      cases hhidden

/-- A record without timers, in the first slot of a ring of two. -/
def one_record : RawPools :=
  (init 1 2621439).ingest ⟨1, 0⟩ [[(default, [])]] (le_refl 1) true

theorem run_one_record (hok : ok (init 1 2621439) (.ingest ⟨1, 0⟩ [[(default, [])]] true)) :
    Run ok one_record :=
  .ingest _ _ _ _ (.start 1 2621439 (by decide)) (by decide) hok

theorem exact_reads_one_record : one_record.ExactRead .request (some 0) ∧
    ¬ (one_record.expire 1 (le_refl 1)).ExactRead .request (some 0) := by
  obtain ⟨-, hkept, hexpired⟩ := exact_reads_of_run one_record
  exact ⟨hkept (run_one_record trivial) 0,
    hexpired (run_one_record trivial) 1 (le_refl 1) 0 List.mem_cons_self⟩

/-- Both pools are empty again, and yet there is a row in slot 0 of the ring, and in slot 1 of the
    timer pool, where no timer has been. -/
theorem exact_reads_expired :
    let p := one_record.expire 1 (le_refl 1)
    Run (fun _ _ => True) p ∧ p.live .request = [] ∧ p.live .timer = [] ∧
    (∃ row c, p.read_row_by_pos 1 .request (some 0) .rnd_init = some (.row row, c)) ∧
    ∃ row c, p.read_row_by_pos 1 .timer (some 1) .rnd_init = some (.row row, c) :=
  ⟨.expire 1 (le_refl 1) (run_one_record trivial) trivial, rfl, rfl, ⟨_, _, rfl⟩, ⟨_, _, rfl⟩⟩

end RawPools

end PinbaEngine
