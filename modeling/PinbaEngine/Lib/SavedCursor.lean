import Mathlib

/-! # Scans that resume from a saved key

    A scan of a keyed collection remembers the key it returned last and looks it
    up again in the next call. What the scan still has ahead of it depends on the
    collection as it is at that call, not as it was at the last one.

    A collection is seen through the list of what is ahead of a saved key. Two
    invariants of a scan are kept by changes of the collection between its calls:
    what was there all the time is returned or still ahead if no change takes a
    key out of what is ahead, and nothing is returned twice if no change puts a
    key there.
-/

namespace SavedCursor

/-! ## Section 1: What follows a key in a list -/

section after
variable {K : Type*} [DecidableEq K] {a b k : K} {xs ys zs : List K}

/-- What follows the first occurrence of `k`; nothing if it does not occur. -/
def after (k : K) : List K → List K
  | [] => []
  | x :: xs => if x = k then xs else after k xs

theorem after_of_notMem (h : k ∉ xs) : after k xs = [] := by
  induction xs with
  | nil => rfl
  | cons x xs ih =>
    rw [List.mem_cons, not_or] at h
    rw [after, if_neg (Ne.symm h.1), ih h.2]

theorem after_append_cons (h : k ∉ ys) : after k (ys ++ k :: zs) = zs := by
  induction ys with
  | nil => rw [List.nil_append, after, if_pos rfl]
  | cons y ys ih =>
    rw [List.mem_cons, not_or] at h
    rw [List.cons_append, after, if_neg (Ne.symm h.1), ih h.2]

theorem after_suffix (k : K) (xs : List K) : after k xs <:+ xs := by
  induction xs with
  | nil => exact List.suffix_refl []
  | cons x xs ih =>
    rw [after]
    split
    · exact List.suffix_cons x xs
    · exact ih.trans (List.suffix_cons x xs)

theorem mem_of_mem_after (h : a ∈ after k xs) : a ∈ xs := (after_suffix k xs).subset h

/-- In a suffix of a list without repetitions, the rest is what follows its head. -/
theorem after_of_suffix (hnd : xs.Nodup) (h : k :: zs <:+ xs) : after k xs = zs := by
  obtain ⟨ys, rfl⟩ := h
  apply after_append_cons
  intro hmem
  exact (List.nodup_append'.mp hnd).2.2 hmem List.mem_cons_self

/-- Removing a key puts nothing behind another one. -/
theorem mem_after_of_erase [BEq K] [LawfulBEq K] (h : b ∈ after a (xs.erase k)) : b ∈ after a xs := by
  induction xs with
  | nil => exact h
  | cons x xs ih =>
    rw [List.erase_cons] at h
    rw [after]
    split at h
    · -- the head is removed
      split
      · exact mem_of_mem_after h
      · exact h
    · rw [after] at h
      split at h
      · next hx =>
        rw [if_pos hx]
        exact List.mem_of_mem_erase h
      · next hx =>
        rw [if_neg hx]
        exact ih h

/-- Removing a third key changes nothing between two keys. -/
theorem mem_after_erase [BEq K] [LawfulBEq K] (hak : a ≠ k) (hbk : b ≠ k)
    (h : b ∈ after a xs) : b ∈ after a (xs.erase k) := by
  induction xs with
  | nil => exact h
  | cons x xs ih =>
    rw [List.erase_cons]
    rw [after] at h
    split
    · next hx =>
      have hxk : x = k := by simpa using hx
      have hxa : x ≠ a := fun hxa => hak (hxa.symm.trans hxk)
      rw [if_neg hxa] at h
      exact h
    · rw [after]
      split at h
      · next hx =>
        rw [if_pos hx]
        exact (List.mem_erase_of_ne hbk).mpr h
      · next hx =>
        rw [if_neg hx]
        exact ih h

end after

/-! ## Section 2: Scans -/

/-- Collections of type `S`, and what is ahead of a scan that returned `last`. -/
structure Collection (S K : Type*) where
  rows : S → List K
  rest : S → Option K → List K
  nodup : ∀ s last, (rest s last).Nodup
  rest_none : ∀ s, rest s none = rows s
  mem_rows : ∀ s last, ∀ k ∈ rest s last, k ∈ rows s
  rest_next : ∀ s last k l, rest s last = k :: l → rest s (some k) = l

namespace Collection

variable {S K : Type*} (col : Collection S K) {s s' : S} {returned : List K} {visited : List S}
  {k : K} {l : List K}

/-- Every row that was there in all visited states is returned or ahead. -/
def Covers (visited : List S) (returned : List K) (s : S) : Prop :=
  ∀ k, (∀ v ∈ visited, k ∈ col.rows v) → k ∈ returned ∨ k ∈ col.rest s returned.head?

/-- No row was returned twice, and those ahead were not returned yet. -/
def Fresh (returned : List K) (s : S) : Prop :=
  returned.Nodup ∧ ∀ k ∈ col.rest s returned.head?, k ∉ returned

/-- A change that takes no row out of what is ahead, unless it removes it. -/
def Keeps (last : Option K) (s s' : S) : Prop :=
  ∀ k ∈ col.rest s last, k ∈ col.rows s' → k ∈ col.rest s' last

variable {col}

theorem covers_start : col.Covers [s] [] s := by
  intro k hk
  right
  show k ∈ col.rest s none
  rw [col.rest_none]
  exact hk s List.mem_cons_self

theorem fresh_start : col.Fresh [] s := ⟨.nil, fun _ _ => List.not_mem_nil⟩

theorem covers_change (h : col.Covers visited returned s) (hkeeps : col.Keeps returned.head? s s') :
    col.Covers (s' :: visited) returned s' := by
  intro k hk
  rcases h k fun v hv => hk v (List.mem_cons_of_mem _ hv) with hreturned | hrest
  · exact .inl hreturned
  · exact .inr (hkeeps k hrest (hk s' List.mem_cons_self))

theorem fresh_change (h : col.Fresh returned s)
    (hsub : ∀ k ∈ col.rest s' returned.head?, k ∈ col.rest s returned.head?) :
    col.Fresh returned s' :=
  ⟨h.1, fun k hk => h.2 k (hsub k hk)⟩

theorem covers_next (h : col.Covers visited returned s) (hrest : col.rest s returned.head? = k :: l) :
    col.Covers visited (k :: returned) s := by
  intro k' hk'
  rcases h k' hk' with hreturned | hahead
  · exact .inl (List.mem_cons_of_mem _ hreturned)
  · rw [hrest] at hahead
    rcases List.mem_cons.mp hahead with rfl | hl
    · exact .inl List.mem_cons_self
    · right
      rw [List.head?_cons, col.rest_next s _ k l hrest]
      exact hl

theorem fresh_next (h : col.Fresh returned s) (hrest : col.rest s returned.head? = k :: l) :
    col.Fresh (k :: returned) s := by
  have hnd := col.nodup s returned.head?
  rw [hrest, List.nodup_cons] at hnd
  refine ⟨List.nodup_cons.mpr ⟨h.2 k (hrest ▸ List.mem_cons_self), h.1⟩, ?_⟩
  intro k' hk'
  rw [List.head?_cons, col.rest_next s _ k l hrest] at hk'
  intro hmem
  rcases List.mem_cons.mp hmem with rfl | hold
  · exact hnd.1 hk'
  · exact h.2 k' (hrest ▸ List.mem_cons_of_mem _ hk') hold

/-- At the end of a scan every lasting row has been returned. -/
theorem returned_of_covers (h : col.Covers visited returned s)
    (hrest : col.rest s returned.head? = []) (hk : ∀ v ∈ visited, k ∈ col.rows v) :
    k ∈ returned := by
  rcases h k hk with hreturned | hahead
  · exact hreturned
  · rw [hrest] at hahead
    cases hahead

end Collection

end SavedCursor
