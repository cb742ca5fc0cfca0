import PinbaEngine.Lib.CountedHeap

/-! # Blocks with one owner

    What `malloc` and `free` do to blocks that are never shared: a block belongs to
    exactly one pointer of the program, and whoever drops that pointer frees it.

    The heap remembers whether a block was used or freed when it was not there.
    `Owned h own` says that it never was, and that the blocks are exactly the ones in
    the multiset `own` of the program's pointers: a block without a pointer would be a
    leak, a pointer that is there twice a double free to come. The rules say how each
    operation changes `own`, so a client only has to account for its pointers.
-/

/-- Blocks by address. -/
@[ext] structure OwnedHeap (V : Type*) where
  blocks : AList fun _ : Nat => V
  /-- A block that is not there was used or freed. -/
  broken : Bool

namespace OwnedHeap

open CountedHeap (pointers)

variable {V : Type*}

def empty : OwnedHeap V := ⟨∅, false⟩

section operations
variable (h : OwnedHeap V) (p : Nat)

/-- The contents of a block that is there. -/
def get : Option V := h.blocks.lookup p

def alloc (v : V) : OwnedHeap V := { h with blocks := h.blocks.insert p v }

/-- Read or write through a pointer. -/
def touch : OwnedHeap V := if p ∈ h.blocks then h else { h with broken := true }

def free : OwnedHeap V :=
  if p ∈ h.blocks then { h with blocks := h.blocks.erase p } else { h with broken := true }

/-- Free what some slots point to; a slot may be null. -/
def freeSlots (slots : List (Option Nat)) : OwnedHeap V :=
  slots.foldl (fun h slot => slot.elim h h.free) h

end operations

variable {h : OwnedHeap V} {p q : Nat} {own : Multiset Nat} {v : V}

/-- The heap was never misused, and its blocks have one owner each. -/
structure Owned (h : OwnedHeap V) (own : Multiset Nat) : Prop where
  blocks : (h.blocks.keys : Multiset Nat) = own
  sound : h.broken = false

theorem owned_empty : Owned (empty : OwnedHeap V) 0 := ⟨rfl, rfl⟩

namespace Owned

/-- The blocks are the ones that are owned. -/
theorem mem_iff (ho : Owned h own) : p ∈ h.blocks ↔ p ∈ own := by
  rw [← ho.blocks, Multiset.mem_coe, AList.mem_keys]

theorem nodup (ho : Owned h own) : own.Nodup := by
  rw [← ho.blocks]
  exact h.blocks.keys_nodup

/-- Something is in a block that is owned. -/
theorem get_of_mem (ho : Owned h own) (hp : p ∈ own) : ∃ v, h.get p = some v :=
  Option.isSome_iff_exists.mp (AList.lookup_isSome.mpr (ho.mem_iff.mpr hp))

/-- A new block gets its owner. -/
theorem alloc (ho : Owned h own) (hp : p ∉ own) : Owned (h.alloc p v) (p ::ₘ own) := by
  have hnew : p ∉ h.blocks.keys := fun hmem => hp (ho.mem_iff.mp (AList.mem_keys.mp hmem))
  refine ⟨?_, ho.sound⟩
  show ((h.blocks.insert p v).keys : Multiset Nat) = p ::ₘ own
  rw [AList.keys_insert, List.erase_of_not_mem hnew, ← ho.blocks, Multiset.cons_coe]

/-- An owner may use its block. -/
theorem touch (ho : Owned h own) (hp : p ∈ own) : h.touch p = h :=
  if_pos (ho.mem_iff.mpr hp)

/-- An owner may free its block. -/
theorem free (ho : Owned h (p ::ₘ own)) : Owned (h.free p) own := by
  have hmem : p ∈ h.blocks := ho.mem_iff.mpr (Multiset.mem_cons_self p own)
  unfold OwnedHeap.free
  rw [if_pos hmem]
  refine ⟨?_, ho.sound⟩
  show ((h.blocks.erase p).keys : Multiset Nat) = own
  rw [AList.keys_erase, ← Multiset.coe_erase, ho.blocks, Multiset.erase_cons_head]

/-- Slots that own what they point to may free it. -/
theorem freeSlots {slots : List (Option Nat)} (ho : Owned h (pointers slots + own)) :
    Owned (h.freeSlots slots) own := by
  unfold OwnedHeap.freeSlots
  induction slots generalizing h with
  | nil => rwa [CountedHeap.pointers_nil, zero_add] at ho
  | cons slot slots ih =>
    rw [List.foldl_cons]
    apply ih
    cases slot with
    | none => exact ho
    | some p =>
      rw [CountedHeap.pointers_some, Multiset.cons_add] at ho
      exact ho.free

/-- Without owners the heap is empty: nothing leaked. -/
theorem blocks_eq_empty (ho : Owned h 0) : h.blocks = ∅ := by
  have hkeys : h.blocks.keys = [] := Multiset.coe_eq_zero _ |>.mp ho.blocks
  apply AList.ext
  exact List.map_eq_nil_iff.mp hkeys

end Owned

/-! ## Slots -/

section slots
variable {slots : List (Option Nat)} {n : Nat}

/-- Filling a slot that was empty. -/
theorem pointers_set_some (h : slots[n]? = some none) :
    pointers (slots.set n (some p)) = p ::ₘ pointers slots := by
  induction slots generalizing n with
  | nil => simp at h
  | cons slot slots ih =>
    cases n with
    | zero =>
      obtain rfl : slot = none := by simpa using h
      rfl
    | succ n =>
      have htail := ih (by simpa using h)
      rw [List.set_cons_succ]
      cases slot with
      | none => exact htail
      | some q =>
        rw [CountedHeap.pointers_some, CountedHeap.pointers_some, htail, Multiset.cons_swap]

/-- Emptying a slot. -/
theorem pointers_set_none (h : slots[n]? = some (some p)) :
    p ::ₘ pointers (slots.set n none) = pointers slots := by
  induction slots generalizing n with
  | nil => simp at h
  | cons slot slots ih =>
    cases n with
    | zero =>
      obtain rfl : slot = some p := by simpa using h
      rfl
    | succ n =>
      have htail := ih (by simpa using h)
      rw [List.set_cons_succ]
      cases slot with
      | none => exact htail
      | some q =>
        rw [CountedHeap.pointers_some, CountedHeap.pointers_some, ← htail, Multiset.cons_swap]

theorem pointers_replicate_none (n : Nat) : pointers (List.replicate n none) = 0 := by
  induction n with
  | zero => rfl
  | succ n ih => exact ih

theorem mem_pointers : p ∈ pointers slots ↔ some p ∈ slots := by
  simp [pointers]

theorem mem_pointers_of_getElem? (h : slots[n]? = some (some p)) : p ∈ pointers slots :=
  mem_pointers.mpr (List.mem_of_getElem? h)

end slots

end OwnedHeap
