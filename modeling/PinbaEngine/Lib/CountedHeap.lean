import Mathlib.Algebra.Order.Group.Multiset
import PinbaEngine.Lib.KeyedStore

/-! # Reference counted cells

    Cells with a value and a number of references, at addresses that somebody
    else picks. Cells are freed by a sweep over those without references, never
    by the release itself.

    The heap remembers whether it was ever misused: a cell touched after it was
    freed, or a count lowered at zero. `Refs` ties the counts to the multiset of
    the owners' pointers. The rules say how each operation changes the owners,
    so that a client only has to account for who owns what.
-/

/-- A value and the number of references to it. -/
structure Counted (V : Type*) where
  value : V
  references : Nat

/-- Counted cells by address. -/
structure CountedHeap (V : Type*) where
  cells : AList fun _ : Nat => Counted V
  /-- A freed cell was touched, or a count was lowered at zero. -/
  broken : Bool

namespace CountedHeap

variable {V : Type*} (h : CountedHeap V) (p : Nat)

/-- The value of a cell that is there. -/
def get : Option V := (h.cells.lookup p).map Counted.value

/-- A new cell without references. -/
def alloc (v : V) : CountedHeap V := { h with cells := h.cells.insert p ⟨v, 0⟩ }

/-- One more reference. -/
def retain : CountedHeap V :=
  match h.cells.lookup p with
  | none => { h with broken := true }
  | some c => { h with cells := h.cells.insert p { c with references := c.references + 1 } }

/-- One reference less. -/
def release : CountedHeap V :=
  match h.cells.lookup p with
  | none => { h with broken := true }
  | some c =>
    if c.references = 0 then { h with broken := true }
    else { h with cells := h.cells.insert p { c with references := c.references - 1 } }

/-- Give a cell back to the allocator. -/
def free : CountedHeap V := { h with cells := h.cells.erase p }

/-- Release what some slots point to; a slot may be null. -/
def releaseSlots (slots : List (Option Nat)) : CountedHeap V :=
  slots.foldl (fun h slot => slot.elim h h.release) h

/-- The pointers in some slots. -/
def pointers (slots : List (Option Nat)) : Multiset Nat := (slots.filterMap id : List Nat)

@[simp] theorem pointers_nil : pointers [] = 0 := rfl

@[simp] theorem pointers_none (slots : List (Option Nat)) : pointers (none :: slots) = pointers slots := rfl

@[simp] theorem pointers_some (p : Nat) (slots : List (Option Nat)) :
    pointers (some p :: slots) = p ::ₘ pointers slots := rfl

theorem pointers_append (xs ys : List (Option Nat)) :
    pointers (xs ++ ys) = pointers xs + pointers ys := by
  simp [pointers]

/-! ## What the operations leave alone -/

variable {h p} {q : Nat} {v : V}

theorem get_alloc_self : (h.alloc p v).get p = some v := by
  simp [get, alloc]

theorem get_alloc_ne (hq : q ≠ p) : (h.alloc p v).get q = h.get q := by
  simp [get, alloc, AList.lookup_insert_ne hq]

/-- Heaps with the same cells up to their counts. -/
structure SameValues (h h' : CountedHeap V) : Prop where
  get : ∀ q, h'.get q = h.get q
  size : KeyedStore.entryCount h'.cells = KeyedStore.entryCount h.cells
  sum : ∀ f : V → Int, keyedSum (fun c => f c.value) h'.cells = keyedSum (fun c => f c.value) h.cells

theorem SameValues.refl (h : CountedHeap V) : SameValues h h := ⟨fun _ => rfl, rfl, fun _ => rfl⟩

theorem SameValues.trans {h₁ h₂ h₃ : CountedHeap V} (h₁₂ : SameValues h₁ h₂)
    (h₂₃ : SameValues h₂ h₃) : SameValues h₁ h₃ :=
  ⟨fun q => (h₂₃.get q).trans (h₁₂.get q), h₂₃.size.trans h₁₂.size,
    fun f => (h₂₃.sum f).trans (h₁₂.sum f)⟩

theorem sameValues_insert {h' : CountedHeap V} {c c' : Counted V} (hc : h.cells.lookup p = some c)
    (hv : c'.value = c.value) (hcells : h'.cells = h.cells.insert p c') : SameValues h h' := by
  refine ⟨?_, ?_, ?_⟩
  · intro q
    unfold CountedHeap.get
    rw [hcells]
    by_cases hq : q = p
    · rw [hq, AList.lookup_insert, hc, Option.map_some, Option.map_some, hv]
    · rw [AList.lookup_insert_ne hq]
  · rw [hcells]
    exact KeyedStore.entryCount_insert_old hc
  · intro f
    rw [hcells]
    exact keyedSum_insert_same _ hc (congrArg f hv)

theorem sameValues_retain (h : CountedHeap V) (p : Nat) : SameValues h (h.retain p) := by
  unfold retain
  split
  · exact ⟨fun _ => rfl, rfl, fun _ => rfl⟩
  · next c hc =>
    exact @sameValues_insert _ _ _ _ _ { c with references := c.references + 1 } hc rfl rfl

theorem sameValues_release (h : CountedHeap V) (p : Nat) : SameValues h (h.release p) := by
  unfold release
  split
  · exact ⟨fun _ => rfl, rfl, fun _ => rfl⟩
  · next c hc =>
    split
    · exact ⟨fun _ => rfl, rfl, fun _ => rfl⟩
    · exact @sameValues_insert _ _ _ _ _ { c with references := c.references - 1 } hc rfl rfl

theorem sameValues_releaseSlots (h : CountedHeap V) (slots : List (Option Nat)) :
    SameValues h (h.releaseSlots slots) := by
  unfold releaseSlots
  induction slots generalizing h with
  | nil => exact .refl h
  | cons slot slots ih =>
    rw [List.foldl_cons]
    refine SameValues.trans ?_ (ih _)
    cases slot with
    | none => exact .refl h
    | some p => exact sameValues_release h p

theorem get_free_self : (h.free p).get p = none := by
  simp [get, free]

theorem get_free_ne (hq : q ≠ p) : (h.free p).get q = h.get q := by
  simp [get, free, AList.lookup_erase_ne hq]

theorem get_eq_none_iff : h.get p = none ↔ h.cells.lookup p = none := by
  unfold get
  exact Option.map_eq_none_iff

/-- Giving a new cell back at once. -/
theorem free_alloc (hp : h.get p = none) : (h.alloc p v).free p = h := by
  show { h with cells := (h.cells.insert p ⟨v, 0⟩).erase p } = h
  rw [KeyedStore.erase_insert_new (get_eq_none_iff.mp hp)]

/-- What a map binds after one key was bound. -/
theorem lookup_insert_some {s : AList fun _ : Nat => Counted V} {c d : Counted V}
    (hq : (s.insert p c).lookup q = some d) : q = p ∧ d = c ∨ q ≠ p ∧ s.lookup q = some d := by
  by_cases hqp : q = p
  · subst hqp
    rw [AList.lookup_insert] at hq
    exact .inl ⟨rfl, (Option.some.inj hq).symm⟩
  · rw [AList.lookup_insert_ne hqp] at hq
    exact .inr ⟨hqp, hq⟩

/-! ## Counts and owners -/

/-- Every count is the number of owners, every owner points to a cell that is
    there, and the heap was never misused. -/
structure Refs (h : CountedHeap V) (own : Multiset Nat) : Prop where
  count : ∀ p c, h.cells.lookup p = some c → c.references = own.count p
  live : ∀ p ∈ own, h.get p ≠ none
  sound : h.broken = false

namespace Refs

variable {own : Multiset Nat}

theorem alloc (hr : Refs h own) (hp : h.get p = none) : Refs (h.alloc p v) own := by
  have hnot : p ∉ own := fun hmem => hr.live p hmem hp
  refine ⟨?_, ?_, hr.sound⟩
  · intro q c hq
    rcases lookup_insert_some hq with ⟨rfl, rfl⟩ | ⟨-, hold⟩
    · exact (Multiset.count_eq_zero.mpr hnot).symm
    · exact hr.count q c hold
  · intro q hq
    have hqp : q ≠ p := fun heq => hnot (heq ▸ hq)
    rw [get_alloc_ne hqp]
    exact hr.live q hq

/-- A retained cell has one owner more. -/
theorem retain (hr : Refs h own) (hp : h.get p ≠ none) : Refs (h.retain p) (p ::ₘ own) := by
  obtain ⟨c, hc⟩ := Option.ne_none_iff_exists'.mp (mt get_eq_none_iff.mpr hp)
  have hcells : h.retain p =
      { h with cells := h.cells.insert p { c with references := c.references + 1 } } := by
    unfold CountedHeap.retain
    rw [hc]
  refine ⟨?_, ?_, ?_⟩
  · intro q d hq
    rw [hcells] at hq
    rcases lookup_insert_some hq with ⟨rfl, rfl⟩ | ⟨hqp, hold⟩
    · rw [Multiset.count_cons_self, hr.count q c hc]
    · rw [Multiset.count_cons_of_ne hqp]
      exact hr.count q d hold
  · intro q hq
    rw [(sameValues_retain h p).get]
    rcases Multiset.mem_cons.mp hq with rfl | hmem
    · exact hp
    · exact hr.live q hmem
  · rw [hcells]
    exact hr.sound

/-- An owner may give up its reference. -/
theorem release (hr : Refs h (p ::ₘ own)) : Refs (h.release p) own := by
  have hp := hr.live p (Multiset.mem_cons_self p own)
  obtain ⟨c, hc⟩ := Option.ne_none_iff_exists'.mp (mt get_eq_none_iff.mpr hp)
  have hcount := hr.count p c hc
  rw [Multiset.count_cons_self] at hcount
  have hpos : c.references ≠ 0 := by omega
  have hcells : h.release p =
      { h with cells := h.cells.insert p { c with references := c.references - 1 } } := by
    unfold CountedHeap.release
    rw [hc]
    exact if_neg hpos
  refine ⟨?_, ?_, ?_⟩
  · intro q d hq
    rw [hcells] at hq
    rcases lookup_insert_some hq with ⟨rfl, rfl⟩ | ⟨hqp, hold⟩
    · show c.references - 1 = _
      omega
    · have hsame := hr.count q d hold
      rwa [Multiset.count_cons_of_ne hqp] at hsame
  · intro q hq
    rw [(sameValues_release h p).get]
    exact hr.live q (Multiset.mem_cons_of_mem hq)
  · rw [hcells]
    exact hr.sound

/-- Slots that own their references may give them up. -/
theorem releaseSlots {slots : List (Option Nat)} (hr : Refs h (pointers slots + own)) :
    Refs (h.releaseSlots slots) own := by
  unfold CountedHeap.releaseSlots
  induction slots generalizing h with
  | nil => rwa [pointers_nil, zero_add] at hr
  | cons slot slots ih =>
    rw [List.foldl_cons]
    apply ih
    cases slot with
    | none => exact hr
    | some p =>
      rw [pointers_some, Multiset.cons_add] at hr
      exact hr.release

/-- A cell without references has no owner and may be freed. -/
theorem free (hr : Refs h own) {c : Counted V} (hc : h.cells.lookup p = some c)
    (hzero : c.references = 0) : Refs (h.free p) own := by
  have hnot : p ∉ own := by
    rw [← Multiset.count_eq_zero, ← hr.count p c hc, hzero]
  refine ⟨?_, ?_, hr.sound⟩
  · intro q d hq
    by_cases hqp : q = p
    · subst hqp
      rw [CountedHeap.free, AList.lookup_erase] at hq
      exact absurd hq (by simp)
    · rw [CountedHeap.free, AList.lookup_erase_ne hqp] at hq
      exact hr.count q d hq
  · intro q hq
    have hqp : q ≠ p := fun heq => hnot (heq ▸ hq)
    rw [get_free_ne hqp]
    exact hr.live q hq

end Refs

end CountedHeap
