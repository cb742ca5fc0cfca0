import PinbaEngine.ExpiryPass
import PinbaEngine.RawScans

/-! # The tags of the timers

    The table `timertag` has a row for every tag of every live timer. A scan keeps the
    slot of a timer and a position among its tags, and the fetch function passes over
    timers without further tags.

    Every other loop over a ring comes back to the front behind the last slot of the
    array. The two functions here do so already at the last slot: its tags are not seen,
    a scan that has to end there goes around forever, and a read of it shows slot 0.
-/

namespace PinbaEngine

open Circular

/-! ## Section 1: The calls -/

structure TimerTagRow where
  timer_id : Nat
  tag_id : Int
  value : Word
deriving DecidableEq

inductive TimerTagAnswer where
  | row (row : TimerTagRow)
  | key_not_found
  | end_of_file

/-- `read_next_row` answers the end of file for a key that was not found. -/
def TimerTagAnswer.next : TimerTagAnswer → TimerTagAnswer
  | .key_not_found => .end_of_file
  | answer => answer

namespace RawPools

variable (p : RawPools)

/-- The tags of the timer in a slot. -/
def tags (i : Nat) : List (Int × Word) := (p.timer_pool.data i).timer.tags

def tag_row (i : Nat) (tag : Int × Word) : TimerTagRow := ⟨i, tag.1, tag.2⟩

/-- `timer_pool->size - 1`. -/
def last_slot : Nat := p.timer_pool.size - 1

/-- The wrap at the start of both functions. -/
def wrapped_early (index : Nat) : Nat := if index = p.last_slot then 0 else index

/-- The loop `retry_next` of `ha_pinba::tag_values_fetch_next`. -/
def retry_next (c : RawCursor) : RawCursor ⊕ (TimerTagAnswer × RawCursor) :=
  let index := p.wrapped_early (c.ival.getD p.timer_pool.outPos)
  let position := c.position.getD 0
  let c : RawCursor := ⟨some index, some position⟩
  if index = p.timer_pool.inPos ∨ p.timer_pool.size ≤ index ∨ p.timer_pool.inPos = p.timer_pool.outPos then
    .inr (.key_not_found, c)
  else
    match (p.tags index)[position]? with
    -- position >= tag_num
    | none => .inl ⟨some (index + 1), some 0⟩
    | some tag => .inr (.row (tag_row index tag), c)

/-- `ha_pinba::tag_values_fetch_next`. -/
def tag_values_fetch_next (fuel : Nat) (c : RawCursor) : Option (TimerTagAnswer × RawCursor) :=
  turns p.retry_next fuel c

/-- `rnd_next` on the table `timertag`. `read_next_row` steps the position, also at the end of the
    file. -/
def timertag_rnd_next (fuel : Nat) (c : RawCursor) : Option (TimerTagAnswer × RawCursor) :=
  (p.tag_values_fetch_next fuel c).map fun r => (r.1.next, { r.2 with position := r.2.position.succ })

/-- `ha_pinba::tag_values_fetch_by_timer_id`. Its callers have cleared the position, so that it
    shows the first tag. -/
def tag_values_fetch_by_timer_id (ival : Nat) : TimerTagAnswer :=
  let ival := p.wrapped_early ival
  if ival = p.timer_pool.inPos ∨ p.timer_pool.size ≤ ival ∨ p.timer_pool.inPos = p.timer_pool.outPos then
    .key_not_found
  else
    match p.tags ival with
    -- tag_num == 0
    | [] => .key_not_found
    | tag :: _ =>
      if !(p.slots (p.request_of ival)).active then .key_not_found else .row (tag_row ival tag)

/-! ## Section 2: What they should answer -/

/-- The rows of some slots, in order. -/
def tag_rows (slots : List Nat) : List TimerTagRow := slots.flatMap fun i => (p.tags i).map (tag_row i)

def TagNext (c : RawCursor) (a : TimerTagAnswer) (c' : RawCursor) : Prop :=
  ∃ fuel, p.timertag_rnd_next fuel c = some (a, c')

/-- `rnd_init`, then `rnd_next` up to the end of file. -/
def TagScan (rows : List TimerTagRow) : Prop :=
  ReadsUntil (· = .end_of_file) p.TagNext p.TagNext .rnd_init (rows.map .row)

/-- What there is to read of one timer: its first tag, if it has any. -/
def first_tag (i : Nat) : TimerTagAnswer :=
  match p.tags i with
  | [] => .key_not_found
  | tag :: _ => .row (tag_row i tag)

/-- A scan shows every tag of every live timer once, in the order of the pool, and a read of a live
    timer shows a tag of this timer. -/
structure TagsRight : Prop where
  scan : p.TagScan (p.tag_rows p.timer_pool.live)
  by_timer : ∀ k ∈ p.timer_pool.live, p.tag_values_fetch_by_timer_id k = p.first_tag k

/-- The pool is empty, or the early wrap is not seen: a scan does not end at the last slot, and a
    live timer there has no tags, nor has the one in slot 0, if there is one. -/
def EarlyWrapHidden : Prop :=
  p.timer_pool.live = [] ∨ (p.timer_pool.inPos ≠ p.last_slot ∧
    (p.last_slot ∈ p.timer_pool.live → p.tags p.last_slot = [] ∧
      (p.timer_pool.inPos = 0 ∨ p.tags 0 = [])))

/-! ## Section 3: A scan that ends before the last slot -/

variable {p : RawPools} {c c' : RawCursor} {a : TimerTagAnswer} {i index : Nat} {slots : List Nat}
  {row : TimerTagRow} {rows : List TimerTagRow}

/-- The slots that a scan looks at from `index` on. -/
def visited (p : RawPools) (index : Nat) : List Nat :=
  (p.timer_pool.upto index).filter (· ≠ p.last_slot)

/-- The rows that a scan has still ahead: of the next slot those from the position on. -/
def rows_ahead (p : RawPools) (c : RawCursor) : List TimerTagRow :=
  match p.visited (c.ival.getD p.timer_pool.outPos) with
  | [] => []
  | i :: slots => ((p.tags i).drop (c.position.getD 0)).map (tag_row i) ++ p.tag_rows slots

/-- Between two calls. -/
def TagsAhead (p : RawPools) (rows : List TimerTagRow) (c : RawCursor) : Prop :=
  c.ival.getD p.timer_pool.outPos < p.timer_pool.size ∧ p.rows_ahead c = rows

theorem size_pos (p : RawPools) : p.timer_pool.size = p.last_slot + 1 := by
  have hin := p.timer_pool.in_lt
  unfold last_slot
  omega

theorem wrapped_early_lt (h : index < p.timer_pool.size) : p.wrapped_early index < p.timer_pool.size := by
  unfold wrapped_early
  split <;> omega

theorem visited_inPos (p : RawPools) : p.visited p.timer_pool.inPos = [] := by
  rw [visited, p.timer_pool.upto_inPos]
  rfl

/-- The wrap comes early, but the last slot is not looked at anyway. -/
theorem visited_wrapped (hin : p.timer_pool.inPos ≠ p.last_slot) :
    p.visited (p.wrapped_early index) = p.visited index := by
  unfold wrapped_early
  split
  · next heq =>
    subst heq
    have hsize := p.size_pos
    have hsucc : succIndex p.timer_pool.size p.last_slot = 0 := if_pos rfl
    conv_rhs => rw [visited, p.timer_pool.upto_of_ne (by omega) hin.symm, hsucc,
      List.filter_cons_of_neg (by simp)]
    rfl
  · rfl

/-- The next slot to be looked at. -/
theorem visited_cons (hlt : index < p.last_slot) (hin : index ≠ p.timer_pool.inPos) :
    p.visited index = index :: p.visited (index + 1) := by
  have hsize := p.size_pos
  have hsucc : succIndex p.timer_pool.size index = index + 1 := if_neg (by omega)
  rw [visited, p.timer_pool.upto_of_ne (by omega) hin, hsucc, List.filter_cons_of_pos (by simp; omega)]
  rfl

theorem wrapped_early_lt_last (hout : p.timer_pool.inPos ≠ p.timer_pool.outPos)
    (h : index < p.timer_pool.size) : p.wrapped_early index < p.last_slot := by
  have hsize := p.size_pos
  have hin := p.timer_pool.in_lt
  have hout' := p.timer_pool.out_lt
  unfold wrapped_early
  split <;> omega

theorem rows_ahead_cons (h : p.visited (c.ival.getD p.timer_pool.outPos) = i :: slots) :
    p.rows_ahead c = ((p.tags i).drop (c.position.getD 0)).map (tag_row i) ++ p.tag_rows slots := by
  rw [rows_ahead, h]

/-- At the start of a timer. -/
theorem rows_ahead_zero (h : c.position.getD 0 = 0) :
    p.rows_ahead c = p.tag_rows (p.visited (c.ival.getD p.timer_pool.outPos)) := by
  rw [rows_ahead, h]
  cases p.visited (c.ival.getD p.timer_pool.outPos) <;> rfl

/-- What the loop of a scan ends with, and what is ahead of the next call. -/
theorem retry_next_ahead (hin : p.timer_pool.inPos ≠ p.last_slot)
    (hout : p.timer_pool.inPos ≠ p.timer_pool.outPos) (c : RawCursor)
    (hlt : c.ival.getD p.timer_pool.outPos < p.timer_pool.size) :
    ∃ a c', Leaves p.retry_next c (a, c') ∧
      match p.rows_ahead c with
      | [] => a = .key_not_found ∧ p.TagsAhead [] { c' with position := c'.position.succ }
      | row :: rows => a = .row row ∧ p.TagsAhead rows { c' with position := c'.position.succ } := by
  have hsize := p.size_pos
  generalize hslots : p.visited (c.ival.getD p.timer_pool.outPos) = slots
  induction slots generalizing c with
  | nil =>
    have hearly := wrapped_early_lt_last hout hlt
    have hwrapped := @visited_wrapped p (c.ival.getD p.timer_pool.outPos) hin
    rw [hslots] at hwrapped
    -- only at the write position there is nothing more to look at
    have heq : p.wrapped_early (c.ival.getD p.timer_pool.outPos) = p.timer_pool.inPos := by
      by_contra hne
      rw [visited_cons hearly hne] at hwrapped
      cases hwrapped
    refine ⟨.key_not_found, _, leaves_of_inr (if_pos (.inl heq)), ?_⟩
    rw [rows_ahead, hslots]
    refine ⟨rfl, ?_, ?_⟩
    · exact wrapped_early_lt hlt
    · show p.rows_ahead ⟨some (p.wrapped_early _), _⟩ = []
      rw [rows_ahead, Option.getD_some, hwrapped]
  | cons i slots ih =>
    have hearly := wrapped_early_lt_last hout hlt
    have hwrapped := @visited_wrapped p (c.ival.getD p.timer_pool.outPos) hin
    rw [hslots] at hwrapped
    have hne : p.wrapped_early (c.ival.getD p.timer_pool.outPos) ≠ p.timer_pool.inPos := by
      intro heq
      rw [heq, visited_inPos] at hwrapped
      cases hwrapped
    have hcons := visited_cons hearly hne
    rw [hwrapped] at hcons
    obtain ⟨heq, htail⟩ := List.cons.inj hcons
    rw [← heq] at hearly hne htail hwrapped
    have hbody : ∀ r, (match (p.tags i)[c.position.getD 0]? with
        | none => .inl ⟨some (i + 1), some 0⟩
        | some tag => .inr (.row (tag_row i tag), ⟨some i, some (c.position.getD 0)⟩)) = r →
        p.retry_next c = r := by
      rintro r rfl
      unfold retry_next
      rw [← heq, if_neg (by omega)]
    rw [rows_ahead_cons hslots]
    cases htag : (p.tags i)[c.position.getD 0]? with
    | none =>
      -- on to the next timer
      have hnone := List.getElem?_eq_none_iff.mp htag
      rw [htag] at hbody
      have hback := hbody _ rfl
      obtain ⟨a, c', hleaves, hanswer⟩ := ih ⟨some (i + 1), some 0⟩ (by show i + 1 < _; omega) htail.symm
      refine ⟨a, c', (leaves_inl_iff hback).mpr hleaves, ?_⟩
      rw [rows_ahead_zero rfl, Option.getD_some, ← htail] at hanswer
      simpa [List.drop_eq_nil_of_le hnone] using hanswer
    | some tag =>
      rw [htag] at hbody
      obtain ⟨hpos, rfl⟩ := List.getElem?_eq_some_iff.mp htag
      refine ⟨_, _, leaves_of_inr (hbody _ rfl), ?_⟩
      rw [List.drop_eq_getElem_cons hpos]
      refine ⟨rfl, ?_, ?_⟩
      · show i < p.timer_pool.size
        omega
      · show p.rows_ahead ⟨some i, some (c.position.getD 0 + 1)⟩ = _
        rw [rows_ahead_cons hwrapped]
        rfl

/-- A scan shows the tags of the live timers but for the last slot. -/
theorem tagScan_visited (hin : p.timer_pool.inPos ≠ p.last_slot)
    (hout : p.timer_pool.inPos ≠ p.timer_pool.outPos) :
    p.TagScan (p.tag_rows (p.timer_pool.live.filter (· ≠ p.last_slot))) := by
  have hstart : p.TagsAhead (p.tag_rows (p.timer_pool.live.filter (· ≠ p.last_slot))) .rnd_init :=
    ⟨p.timer_pool.out_lt, rows_ahead_zero rfl⟩
  generalize p.tag_rows (p.timer_pool.live.filter (· ≠ p.last_slot)) = rows at hstart ⊢
  have hnext : ∀ c a c', Leaves p.retry_next c (a, c') →
      p.TagNext c a.next { c' with position := c'.position.succ } := by
    rintro c a c' ⟨fuel, hfuel⟩
    exact ⟨fuel, Option.map_eq_some_iff.mpr ⟨_, hfuel, rfl⟩⟩
  refine ⟨.end_of_file, rfl, ?_, ?_⟩
  · intro a ha hend
    obtain ⟨row, -, rfl⟩ := List.mem_map.mp ha
    cases hend
  · have hcalls : Calls p.TagNext p.TagNext .rnd_init
        (firstAnswers .row .end_of_file rows (rows.length + 1)) := by
      apply calls_ahead p.TagsAhead _ _ hstart
      · rintro c ⟨hlt, hnil⟩
        obtain ⟨a, c', hleaves, hanswer⟩ := retry_next_ahead hin hout c hlt
        rw [hnil] at hanswer
        obtain ⟨rfl, hahead⟩ := hanswer
        exact ⟨_, hnext _ _ _ hleaves, hahead⟩
      · rintro row rows c ⟨hlt, hrows⟩
        obtain ⟨a, c', hleaves, hanswer⟩ := retry_next_ahead hin hout c hlt
        rw [hrows] at hanswer
        obtain ⟨rfl, hahead⟩ := hanswer
        exact ⟨_, hnext _ _ _ hleaves, hahead⟩
    rwa [firstAnswers_all] at hcalls

theorem deterministic_tagNext (p : RawPools) : Deterministic p.TagNext := by
  rintro c a t a' t' ⟨m, hm⟩ ⟨n, hn⟩
  obtain ⟨x, hx, hxa⟩ := Option.map_eq_some_iff.mp hm
  obtain ⟨y, hy, hya⟩ := Option.map_eq_some_iff.mp hn
  obtain rfl := leaves_unique ⟨m, hx⟩ ⟨n, hy⟩
  exact Prod.mk.inj (hxa.symm.trans hya)

theorem tagScan_unique {rows' : List TimerTagRow} (h : p.TagScan rows) (h' : p.TagScan rows') :
    rows = rows' := by
  have heq := readsUntil_unique (deterministic_tagNext p) (deterministic_tagNext p) h h'
  exact List.map_injective_iff.mpr (fun _ _ hrow => TimerTagAnswer.row.inj hrow) heq

/-! ## Section 4: When the early wrap shows -/

/-- Nothing is shown of an empty pool. -/
theorem tagScan_empty (h : p.timer_pool.live = []) : p.TagScan [] := by
  have hmeet := (p.timer_pool.live_eq_nil_iff.mp h).symm
  have hbody : p.retry_next .rnd_init = .inr (.key_not_found, _) := if_pos (.inr (.inr hmeet))
  have hnext : p.TagNext .rnd_init .end_of_file _ := ⟨1, Option.map_eq_some_iff.mpr ⟨_, turns_of_inr hbody 0, rfl⟩⟩
  exact ⟨.end_of_file, rfl, nofun, .cons hnext .nil⟩

/-- The cursor stays within the array. -/
def Within (p : RawPools) (c : RawCursor) : Prop := c.ival.getD p.timer_pool.outPos < p.timer_pool.size

/-- No turn of the loop sees the write position if it is the last slot. -/
theorem retry_next_last (hin : p.timer_pool.inPos = p.last_slot)
    (hout : p.timer_pool.inPos ≠ p.timer_pool.outPos) (hc : p.Within c) :
    (∃ c', p.retry_next c = .inl c' ∧ p.Within c') ∨
      ∃ row c', p.retry_next c = .inr (.row row, c') ∧ p.Within c' := by
  have hsize := p.size_pos
  have hearly := wrapped_early_lt_last hout hc
  unfold retry_next
  simp only
  rw [if_neg (by omega)]
  cases (p.tags (p.wrapped_early (c.ival.getD p.timer_pool.outPos)))[c.position.getD 0]? with
  | none =>
    refine .inl ⟨_, rfl, ?_⟩
    show p.wrapped_early (c.ival.getD p.timer_pool.outPos) + 1 < p.timer_pool.size
    omega
  | some tag => exact .inr ⟨_, _, rfl, wrapped_early_lt hc⟩

/-- A scan that has to end at the last slot never ends. -/
theorem not_tagScan_of_last (hin : p.timer_pool.inPos = p.last_slot)
    (hout : p.timer_pool.inPos ≠ p.timer_pool.outPos) (rows : List TimerTagRow) : ¬ p.TagScan rows := by
  have hstep : ∀ c a c', p.Within c → p.TagNext c a c' → a ≠ .end_of_file ∧ p.Within c' := by
    rintro c a c' hc ⟨fuel, hfuel⟩
    obtain ⟨r, hr, hanswer⟩ := Option.map_eq_some_iff.mp hfuel
    have hkept : (∃ row, r.1 = .row row) ∧ p.Within r.2 := by
      refine leaves_kept p.Within (fun r => (∃ row, r.1 = .row row) ∧ p.Within r.2) ?_ ?_ hc ⟨fuel, hr⟩
      · intro c c' hc hback
        rcases retry_next_last hin hout hc with ⟨c'', hbody, hc'⟩ | ⟨row, c'', hbody, -⟩
        · obtain rfl := Sum.inl.inj (hbody.symm.trans hback)
          exact hc'
        · cases hbody.symm.trans hback
      · intro c r hc hleave
        rcases retry_next_last hin hout hc with ⟨c'', hbody, -⟩ | ⟨row, c'', hbody, hc'⟩
        · cases hbody.symm.trans hleave
        · obtain rfl := Sum.inr.inj (hbody.symm.trans hleave)
          exact ⟨⟨row, rfl⟩, hc'⟩
    obtain ⟨⟨row, hrow⟩, hc'⟩ := hkept
    obtain ⟨rfl, rfl⟩ := Prod.mk.inj hanswer
    rw [hrow]
    exact ⟨nofun, hc'⟩
  rintro ⟨a, rfl, -, hcalls⟩
  have hall := calls_all p.Within _ hstep (show p.Within .rnd_init from p.timer_pool.out_lt) hcalls
  exact hall _ (List.mem_append_right _ List.mem_cons_self) rfl

theorem mem_tag_rows {slot : Nat} (h : row ∈ p.tag_rows slots) (hslot : row.timer_id = slot) :
    slot ∈ slots := by
  obtain ⟨i, hi, htag⟩ := List.mem_flatMap.mp h
  obtain ⟨tag, -, rfl⟩ := List.mem_map.mp htag
  rwa [← hslot]

/-- The last slot is missed, unless it has no tags. -/
theorem tag_rows_filter_iff (p : RawPools) :
    p.tag_rows (p.timer_pool.live.filter (· ≠ p.last_slot)) = p.tag_rows p.timer_pool.live ↔
      (p.last_slot ∈ p.timer_pool.live → p.tags p.last_slot = []) := by
  constructor
  · intro heq hlive
    cases htags : p.tags p.last_slot with
    | nil => rfl
    | cons tag tags =>
      have hmem : tag_row p.last_slot tag ∈ p.tag_rows p.timer_pool.live :=
        List.mem_flatMap.mpr ⟨p.last_slot, hlive, by simp [htags]⟩
      rw [← heq] at hmem
      have hlast : p.last_slot ∈ _ := mem_tag_rows hmem rfl
      simp at hlast
  · intro hnone
    unfold tag_rows
    generalize p.timer_pool.live = slots at hnone ⊢
    induction slots with
    | nil => rfl
    | cons i slots ih =>
      have hrest := ih fun hmem => hnone (List.mem_cons_of_mem _ hmem)
      by_cases hi : i = p.last_slot
      · rw [List.filter_cons_of_neg (by simpa using hi), hrest, List.flatMap_cons, hi,
          hnone (by rw [hi]; exact List.mem_cons_self)]
        rfl
      · rw [List.filter_cons_of_pos (by simpa using hi), List.flatMap_cons, List.flatMap_cons, hrest]

/-! ### Reads of one timer -/

theorem by_timer_of_wrapped (hp : p.Live) {k : Nat} (hk : p.wrapped_early k ∈ p.timer_pool.live) :
    p.tag_values_fetch_by_timer_id k = p.first_tag (p.wrapped_early k) := by
  obtain ⟨hne, hlt⟩ := not_or.mp (live_slot hk)
  have hout : p.timer_pool.inPos ≠ p.timer_pool.outPos := by
    intro hmeet
    rw [p.timer_pool.live_eq_nil_iff.mpr hmeet.symm] at hk
    cases hk
  -- a live timer names a live record
  have hactive : (p.slots (p.request_of (p.wrapped_early k))).active = true :=
    (hp.kept _ (hp.request_of_live hk).1).2
  unfold tag_values_fetch_by_timer_id first_tag
  simp only
  rw [if_neg (by omega), hactive]
  rfl

theorem wrapped_early_of_ne {k : Nat} (hne : k ≠ p.last_slot) : p.wrapped_early k = k := if_neg hne

theorem wrapped_early_last (p : RawPools) : p.wrapped_early p.last_slot = 0 := if_pos rfl

/-- A read of the last slot shows slot 0, if that is live, and nothing else. -/
theorem by_timer_last_iff (hp : p.Live) (hlast : p.last_slot ∈ p.timer_pool.live) :
    p.tag_values_fetch_by_timer_id p.last_slot = p.first_tag p.last_slot ↔
      p.tags p.last_slot = [] ∧ (p.timer_pool.inPos = 0 ∨ p.tags 0 = []) := by
  have hsize := p.size_pos
  obtain ⟨hne, -⟩ := not_or.mp (live_slot hlast)
  have hzero : p.last_slot ≠ 0 := by
    have hmem := p.timer_pool.mem_live.mp hlast
    have hin := p.timer_pool.in_lt
    split at hmem <;> omega
  have hshown : p.tag_values_fetch_by_timer_id p.last_slot =
      if p.timer_pool.inPos = 0 then .key_not_found else p.first_tag 0 := by
    split
    · next hin => exact if_pos (.inl (by rw [wrapped_early_last, hin]))
    · next hin =>
      have hlive : p.wrapped_early p.last_slot ∈ p.timer_pool.live := by
        have hmem := p.timer_pool.mem_live.mp hlast
        have hin' := p.timer_pool.in_lt
        rw [wrapped_early_last, p.timer_pool.mem_live]
        split at hmem
        · next hw =>
          rw [if_pos hw]
          omega
        · omega
      rw [by_timer_of_wrapped hp hlive, wrapped_early_last]
  rw [hshown]
  unfold first_tag
  cases htags : p.tags p.last_slot with
  | nil =>
    split
    · next hin => simp [hin]
    · next hin => cases p.tags 0 <;> simp [hin]
  | cons tag tags =>
    split
    · simp
    · cases p.tags 0 <;> simp [tag_row, hzero.symm]

/-- Reads and scans are right exactly if the early wrap is not seen. -/
theorem tagsRight_iff (hp : p.Live) : p.TagsRight ↔ p.EarlyWrapHidden := by
  by_cases hempty : p.timer_pool.live = []
  · refine iff_of_true ⟨?_, ?_⟩ (.inl hempty)
    · rw [hempty]
      exact tagScan_empty hempty
    · rw [hempty]
      nofun
  have hout : p.timer_pool.inPos ≠ p.timer_pool.outPos :=
    fun hmeet => hempty (p.timer_pool.live_eq_nil_iff.mpr hmeet.symm)
  constructor
  · rintro ⟨hscan, hby⟩
    refine .inr ⟨fun hin => not_tagScan_of_last hin hout _ hscan, fun hlast => ?_⟩
    exact (by_timer_last_iff hp hlast).mp (hby p.last_slot hlast)
  · rintro (hempty' | ⟨hin, hlast⟩)
    · exact absurd hempty' hempty
    constructor
    · have hscan := tagScan_visited hin hout
      rwa [p.tag_rows_filter_iff.mpr fun hmem => (hlast hmem).1] at hscan
    · intro k hk
      by_cases hk' : k = p.last_slot
      · subst hk'
        exact (by_timer_last_iff hp hk).mpr (hlast hk)
      · have hread := by_timer_of_wrapped hp (k := k) (by rwa [wrapped_early_of_ne hk'])
        rwa [wrapped_early_of_ne hk'] at hread

/-! ## Section 5: The counter -/

/-- The number of tags of some timers. -/
def tags_of (stored : List (List TimerRecord)) : Nat := (stored.flatten.map fun t => t.tags.length).sum

theorem tags_of_cons (timers : List TimerRecord) (stored : List (List TimerRecord)) :
    tags_of (timers :: stored) = (timers.map fun t => t.tags.length).sum + tags_of stored := by
  simp [tags_of]

theorem tags_of_append (stored stored' : List (List TimerRecord)) :
    tags_of (stored ++ stored') = tags_of stored + tags_of stored' := by
  simp [tags_of]

/-- `timertag_cnt` of the merging threads. -/
def ingest_tags (p : RawPools) (shares : List (List RawRequest)) (realloc_ok : Bool) : Nat :=
  tags_of (p.kept_timers (timers_of shares) realloc_ok)

/-- `timertag_cnt` of `clear_record_timers_func`. -/
def expire_tags (p : RawPools) (n : Nat) : Nat :=
  ((p.expired n).foldl (clear_timers p.timer_pool) (p.timer_pool.data, 0)).2

/-- What the destructors of the live records take off the counter. -/
def delete_tags (p : RawPools) : Nat :=
  (p.request_pool.contents.map fun e =>
    ((PinbaEngine.timer_ids p.timer_pool e.2).map fun i => (p.timer_pool.data i).tag_num).sum).sum

/-- Runs of the pools, with `D->timertags_cnt`. -/
inductive TagRun (ok : RawPools → RawEvent → Prop) : RawPools → Int → Prop
  | start (requests timers : Nat) (h : PINBA_TIMER_POOL_GROW_SIZE ≤ timers + 1) :
    TagRun ok (init requests timers) 0
  | ingest {p : RawPools} {cnt : Int} (now : Timeval) (shares : List (List RawRequest))
    (h : (timers_of shares).flatten.length ≤ p.request_pool.free) (realloc_ok : Bool)
    (hp : TagRun ok p cnt) (hnow : now.tv_sec ≠ 0) (hok : ok p (.ingest now shares realloc_ok)) :
    TagRun ok (p.ingest now shares h realloc_ok) (cnt + p.ingest_tags shares realloc_ok)
  | leftovers {p : RawPools} {cnt : Int} (records : Nat → TimerOwner) (slots : Nat → RawSlot)
    (h : ∀ i ∈ p.request_pool.live, records i = p.request_pool.data i)
    (hslots : ∀ i ∈ p.request_pool.live, slots i = p.slots i) (hp : TagRun ok p cnt)
    (hok : ok p (.leftovers records slots)) : TagRun ok (p.leftovers records slots h) cnt
  | expire {p : RawPools} {cnt : Int} (n : Nat) (h : n ≤ p.request_pool.count) (hp : TagRun ok p cnt)
    (hok : ok p (.expire n)) : TagRun ok (p.expire n h) (cnt - p.expire_tags n)
  | delete_all_rows {p : RawPools} {cnt : Int} (hp : TagRun ok p cnt) (hok : ok p .delete_all_rows) :
    TagRun ok p.delete_all_rows (cnt - p.delete_tags)

variable {ok : RawPools → RawEvent → Prop} {cnt : Int} {stored : List (List TimerRecord)} {n : Nat}

theorem TagRun.run (h : TagRun ok p cnt) : Run ok p := by
  induction h with
  | start requests timers h => exact .start requests timers h
  | ingest now shares h realloc_ok _ hnow hok ih => exact .ingest now shares h realloc_ok ih hnow hok
  | leftovers records slots h hslots _ hok ih => exact .leftovers records slots h hslots ih hok
  | expire n h _ hok ih => exact .expire n h ih hok
  | delete_all_rows _ hok ih => exact .delete_all_rows ih hok

/-- The slots that some records claim hold the tags of their timers. -/
theorem sum_tags_of_claimed {pool : CircularBuffer PoolTimer} {entries : List (Nat × TimerOwner)}
    (h : List.Forall₂ (fun e timers => (claimed pool e.2).map pool.data = owned e.1 timers) entries stored) :
    ((entries.flatMap fun e => claimed pool e.2).map fun i => (pool.data i).tag_num).sum = tags_of stored := by
  induction h with
  | nil => rfl
  | @cons e timers entries stored he _ ih =>
    have hrecord : (claimed pool e.2).map (fun i => (pool.data i).tag_num) =
        timers.map fun t => t.tags.length := by
      have hmap := congrArg (List.map PoolTimer.tag_num) he
      rw [owned, List.map_map, List.map_map] at hmap
      exact hmap
    rw [List.flatMap_cons, List.map_append, List.sum_append, ih, hrecord, tags_of_cons]

/-- As long as the records tile the pool, every table row is a tag that was stored. -/
theorem length_tag_rows (h : p.Tiles stored) : (p.tag_rows p.timer_pool.live).length = tags_of stored := by
  rw [← sum_tags_of_claimed h.per_record, h.tiles, tag_rows, List.length_flatMap]
  simp [tags, PoolTimer.tag_num]

theorem timer_ids_take (h : p.Tiles stored) (n : Nat) :
    (p.request_pool.contents.take n).flatMap (fun e => PinbaEngine.timer_ids p.timer_pool e.2) =
      (p.request_pool.contents.take n).flatMap fun e => claimed p.timer_pool e.2 :=
  List.flatMap_congr fun _ he => h.timer_ids_eq (List.mem_of_mem_take he)

theorem expire_tags_eq (h : p.Tiles stored) (n : Nat) : p.expire_tags n = tags_of (stored.take n) := by
  have hclear : clear_timers p.timer_pool = fun s record => (PinbaEngine.timer_ids p.timer_pool record).foldl clear_timer s := by
    funext s record
    exact clear_timers_eq p.timer_pool s record
  have hids : (p.expired n).flatMap (PinbaEngine.timer_ids p.timer_pool) =
      (p.request_pool.contents.take n).flatMap fun e => claimed p.timer_pool e.2 := by
    rw [TimerState.expired, List.flatMap_map]
    exact timer_ids_take h n
  have hnodup : ((p.expired n).flatMap (PinbaEngine.timer_ids p.timer_pool)).Nodup := by
    rw [hids, h.flatMap_take]
    exact p.timer_pool.nodup_live.sublist (List.take_sublist _ _)
  rw [expire_tags, hclear, ← List.foldl_flatMap, foldl_clear_timer hnodup, hids]
  rw [← sum_tags_of_claimed (List.forall₂_take n h.per_record)]
  exact Nat.zero_add _

theorem delete_tags_eq (h : p.Tiles stored) : p.delete_tags = tags_of stored := by
  have hids : p.request_pool.contents.map (fun e =>
      ((PinbaEngine.timer_ids p.timer_pool e.2).map fun i => (p.timer_pool.data i).tag_num).sum) =
      p.request_pool.contents.map fun e =>
        ((claimed p.timer_pool e.2).map fun i => (p.timer_pool.data i).tag_num).sum := by
    apply List.map_congr_left
    intro e he
    rw [PinbaEngine.timer_ids, h.timer_ids_eq he]
  rw [← sum_tags_of_claimed h.per_record, delete_tags, hids, List.map_flatMap, List.flatMap_def,
    List.sum_flatten, List.map_map]
  rfl

/-- In every run without unsafe batches the counter is the number of rows. -/
theorem tags_counted (h : TagRun SafeBatches p cnt) :
    ∃ stored, p.Tiles stored ∧ cnt = tags_of stored := by
  induction h with
  | start requests timers h => exact ⟨[], TimerState.tiles_init requests timers, rfl⟩
  | ingest now shares h realloc_ok _ _ hok ih =>
    obtain ⟨stored, ht, rfl⟩ := ih
    refine ⟨_, TimerState.tiles_ingest h hok ht, ?_⟩
    rw [tags_of_append]
    exact (Nat.cast_add _ _).symm
  | @leftovers p cnt records slots h _ _ _ ih =>
    obtain ⟨stored, ht, rfl⟩ := ih
    exact ⟨stored, tiles_leftovers h ht, rfl⟩
  | expire n h _ _ ih =>
    obtain ⟨stored, ht, rfl⟩ := ih
    refine ⟨_, TimerState.tiles_expire h ht, ?_⟩
    have hsplit := tags_of_append (stored.take n) (stored.drop n)
    rw [List.take_append_drop] at hsplit
    rw [expire_tags_eq ht, hsplit]
    push_cast
    omega
  | @delete_all_rows p cnt _ _ ih =>
    obtain ⟨stored, ht, rfl⟩ := ih
    refine ⟨[], tiles_delete_all_rows p, ?_⟩
    rw [delete_tags_eq ht, Int.sub_self]
    rfl

/-- In every state that the pools can reach, scans and reads by timer are right exactly if the early
    wrap is not seen. In every run without unsafe batches a right scan returns as many rows as
    `timertags_cnt` says. -/
theorem timertag_reads_of_run (p : RawPools) :
    (Run (fun _ _ => True) p → (p.TagsRight ↔ p.EarlyWrapHidden)) ∧
    ∀ cnt, TagRun SafeBatches p cnt →
      (p.TagsRight ∧ ((p.tag_rows p.timer_pool.live).length : Int) = cnt ↔ p.EarlyWrapHidden) := by
  refine ⟨fun hrun => tagsRight_iff (live_of_run hrun), fun cnt hrun => ?_⟩
  obtain ⟨stored, ht, rfl⟩ := tags_counted hrun
  rw [tagsRight_iff (live_of_run hrun.run), length_tag_rows ht]
  exact and_iff_left rfl

/-- A record with one tagged timer, in a fresh pool. -/
def one_tag : RawPools :=
  (init 9 2621439).ingest ⟨1, 0⟩ [[(default, [TimerState.tagged_timer])]] (by decide) true

theorem timertag_reads_one_tag :
    one_tag.TagsRight ∧ ((one_tag.tag_rows one_tag.timer_pool.live).length : Int) = 1 := by
  have hrun : TagRun SafeBatches one_tag 1 :=
    .ingest _ _ _ true (.start 9 2621439 (by decide)) (by decide) fun hg => absurd hg.1 (by decide)
  exact ((timertag_reads_of_run one_tag).2 1 hrun).mpr (.inr ⟨by decide, by decide⟩)

open TimerState (SmallPool)

/-- Neither a scan nor a read of the timer shows the tag of a timer in the last slot. -/
theorem misses_last_slot (hp : SmallPool p.toTimerState [[TimerState.tagged_timer.record]] 0 2621439) :
    p.timer_pool.live = [2621439] ∧ p.tags 2621439 = [(1, default)] ∧ p.TagScan [] ∧
      p.tag_values_fetch_by_timer_id 2621439 = .key_not_found := by
  have hlive : p.timer_pool.live = [2621439] := by
    rw [CircularBuffer.live, show p.timer_pool.count = 1 from hp.count, hp.outPos_eq]
    rfl
  have hlast : p.last_slot = 2621439 := by rw [last_slot, hp.size]
  refine ⟨hlive, ?_, ?_, ?_⟩
  · obtain ⟨e, hentries⟩ := List.length_eq_one_iff.mp hp.tiles.length_eq
    have hheld := hp.tiles.held
    rw [hentries, hlive] at hheld
    have hdata : p.timer_pool.data 2621439 = ⟨e.1, TimerState.tagged_timer.record⟩ := (List.cons.inj hheld).1
    rw [tags, hdata]
    rfl
  · have hscan := tagScan_visited (p := p) (by rw [hlast, hp.inPos_eq]; decide)
      (by rw [hp.inPos_eq, hp.outPos_eq]; decide)
    rw [hlive, hlast] at hscan
    exact hscan
  · rw [← hlast]
    exact if_pos (.inl (by rw [wrapped_early_last, hp.inPos_eq]))

/-- The timer pool is filled but for its last slot and emptied again. Then comes a record of one timer
    with one tag. -/
theorem timertag_misses_last_slot : ∃ requests h₁ h₂ h₃,
    let p := (((init 999 2621439).ingest ⟨1, 0⟩ requests h₁ true).expire 640 h₂).ingest ⟨2, 0⟩
      [[(default, [TimerState.tagged_timer])]] h₃ true
    TagRun SafeBatches p 1 ∧ p.timer_pool.live = [2621439] ∧ p.tags 2621439 = [(1, default)] ∧
      p.TagScan [] ∧ p.tag_values_fetch_by_timer_id 2621439 = .key_not_found := by
  obtain ⟨requests, hrequests⟩ : ∃ requests, timers_of requests = [TimerState.full_share] :=
    ⟨[TimerState.full_share.map fun timers => (default, timers)], by simp [timers_of, Function.comp_def]⟩
  have hadded : TimerState.timers_added (timers_of requests) = 2621439 := by
    rw [hrequests, TimerState.timers_added_full]
  have h₁ : (timers_of requests).flatten.length ≤ (TimerState.init 999 2621439).request_pool.free := by
    rw [hrequests, SmallPool.start.free, TimerState.length_full]
    decide
  have hlen : ([] ++ TimerState.batch_timers (timers_of requests)).length = 640 := by
    rw [List.nil_append, TimerState.batch_timers, List.length_map, hrequests, TimerState.length_full]
  let p₁ := (init 999 2621439).ingest ⟨1, 0⟩ requests h₁ true
  have hp₁ : SmallPool p₁.toTimerState ([] ++ TimerState.batch_timers (timers_of requests)) 2621439 0 :=
    SmallPool.start.ingest h₁ hadded (by decide) (by decide)
  have h₂ : 640 ≤ p₁.request_pool.count := by
    rw [← CircularBuffer.length_contents, hp₁.tiles.length_eq, hlen]
  let p₂ := p₁.expire 640 h₂
  have hp₂ : SmallPool p₂.toTimerState [] 2621439 2621439 := hp₁.expire h₂ hlen
  have h₃ : [[[TimerState.tagged_timer]]].flatten.length ≤ p₂.request_pool.free := by
    rw [hp₂.free]
    decide
  let p := p₂.ingest ⟨2, 0⟩ [[(default, [TimerState.tagged_timer])]] h₃ true
  have hp : SmallPool p.toTimerState [[TimerState.tagged_timer.record]] 0 2621439 :=
    hp₂.ingest h₃ (show TimerState.timers_added [[[TimerState.tagged_timer]]] = 1 by decide) (by decide)
      (by decide)
  refine ⟨requests, h₁, h₂, h₃, ?_, misses_last_slot hp⟩
  -- no batch makes the pool grow
  obtain ⟨cnt, hrun⟩ : ∃ cnt, TagRun SafeBatches p cnt := by
    refine ⟨_, .ingest _ _ _ true (.expire 640 h₂ (.ingest _ _ _ true (.start 999 2621439 (by decide))
      (by decide) ?_) trivial) (by decide) ?_⟩
    · intro hg
      have hfull : 2621440 ≤ 0 + TimerState.timers_added (timers_of requests) := hg.1
      omega
    · intro hg
      have hfull : p₂.timer_pool.size ≤ p₂.timer_pool.count + 1 := hg.1
      rw [hp₂.size, hp₂.count] at hfull
      exact absurd hfull (by decide)
  obtain ⟨stored, ht, rfl⟩ := tags_counted hrun
  rw [← length_tag_rows ht, length_tag_rows hp.tiles] at hrun
  exact hrun

end RawPools

end PinbaEngine
