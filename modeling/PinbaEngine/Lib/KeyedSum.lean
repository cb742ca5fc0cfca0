import Mathlib

/-! # Sums over association lists

    The sum of a weight over all values of a finite map, in any additive
    commutative monoid, and how it changes when a key is bound or erased. Sizes
    (weight one), masses (the value itself) and the multiset of everything that
    the values hold are instances.
-/

variable {K R M : Type*} [AddCommMonoid M]

/-- The sum of `f` over the values of a map. -/
def keyedSum (f : R → M) (s : AList fun _ : K => R) : M := (s.entries.map fun e => f e.2).sum

@[simp] theorem keyedSum_empty (f : R → M) : keyedSum f (∅ : AList fun _ : K => R) = 0 := rfl

variable [DecidableEq K] (f : R → M)

theorem sum_kerase (l : List (Sigma fun _ : K => R)) (k : K) :
    ((l.kerase k).map fun e => f e.2).sum + (l.dlookup k).elim 0 f =
      (l.map fun e => f e.2).sum := by
  induction l with
  | nil => exact add_zero 0
  | cons e l ih =>
    by_cases hk : k = e.1
    · subst hk
      rw [List.kerase_cons_eq rfl, List.dlookup_cons_eq, List.map_cons, List.sum_cons]
      exact add_comm _ _
    · rw [List.kerase_cons_ne hk, List.dlookup_cons_ne _ _ hk]
      simp only [List.map_cons, List.sum_cons]
      rw [add_assoc, ih]

/-- Erasing a key gives up the weight of its value. -/
theorem keyedSum_erase (s : AList fun _ : K => R) (k : K) :
    keyedSum f (s.erase k) + (s.lookup k).elim 0 f = keyedSum f s :=
  sum_kerase f s.entries k

theorem keyedSum_insert_erase (s : AList fun _ : K => R) (k : K) (v : R) :
    keyedSum f (s.insert k v) = f v + keyedSum f (s.erase k) := by
  simp [keyedSum, AList.erase]

/-- Binding a key replaces the weight of its old value. -/
theorem keyedSum_insert (s : AList fun _ : K => R) (k : K) (v : R) :
    keyedSum f (s.insert k v) + (s.lookup k).elim 0 f = f v + keyedSum f s := by
  rw [keyedSum_insert_erase, add_assoc, keyedSum_erase]

/-- Binding a new key adds the weight of its value. -/
theorem keyedSum_insert_new {s : AList fun _ : K => R} {k : K} (v : R) (h : s.lookup k = none) :
    keyedSum f (s.insert k v) = f v + keyedSum f s := by
  have hsum := keyedSum_insert f s k v
  rwa [h, Option.elim_none, add_zero] at hsum

/-- Binding a key to a value of the same weight changes nothing. -/
theorem keyedSum_insert_same {s : AList fun _ : K => R} {k : K} {v w : R}
    (h : s.lookup k = some w) (hw : f v = f w) : keyedSum f (s.insert k v) = keyedSum f s := by
  rw [keyedSum_insert_erase, hw, ← keyedSum_erase f s k, h, Option.elim_some, add_comm]

/-- Over a map with bounded keys, the sum goes over all keys below the bound. -/
theorem keyedSum_eq_sum_range {n : ℕ} (s : AList fun _ : ℕ => R) (h : ∀ k ∈ s, k < n) :
    keyedSum f s = ∑ i ∈ Finset.range n, (s.lookup i).elim 0 f := by
  induction n generalizing s with
  | zero =>
    have hnil : s.entries = [] := by
      apply List.eq_nil_iff_forall_not_mem.mpr
      intro e he
      exact absurd (h e.1 (List.mem_map_of_mem he)) (Nat.not_lt_zero _)
    rw [keyedSum, hnil]
    rfl
  | succ n ih =>
    have hbelow : ∀ k ∈ s.erase n, k < n := by
      intro k hk
      obtain ⟨hne, hmem⟩ := AList.mem_erase.mp hk
      have := h k hmem
      omega
    rw [Finset.sum_range_succ, ← keyedSum_erase f s n, ih (s.erase n) hbelow]
    congr 1
    apply Finset.sum_congr rfl
    intro i hi
    rw [AList.lookup_erase_ne (Finset.mem_range.mp hi).ne]
