import Mathlib.Algebra.BigOperators.Group.Finset.Piecewise
import Mathlib.Tactic.Abel

/-! # Shares of numbered threads

    A program with a fixed number of threads often keeps one share of a total for each
    of them, and one turn changes the share of one thread.
-/

namespace PinbaEngine.Threads

variable {M : Type*} [AddCommMonoid M] {n w : Nat}

/-- One thread changes its share. -/
theorem sum_update (f : Nat → M) (hw : w < n) (x : M) :
    ∑ i ∈ Finset.range n, Function.update f w x i + f w = ∑ i ∈ Finset.range n, f i + x := by
  have hmem := Finset.mem_range.mpr hw
  rw [Finset.sum_update_of_mem hmem, ← Finset.add_sum_erase _ f hmem, Finset.sdiff_singleton_eq_erase]
  abel

/-- One thread changes its state, and with it its share. -/
theorem sum_share_update {σ : Type*} (share : σ → M) (f : Nat → σ) (hw : w < n) (x : σ) :
    ∑ i ∈ Finset.range n, share (Function.update f w x i) + share (f w) =
      ∑ i ∈ Finset.range n, share (f i) + share x := by
  rw [← sum_update (fun i => share (f i)) hw (share x)]
  congr 1
  refine Finset.sum_congr rfl fun i _ => ?_
  rw [Function.update_apply, Function.update_apply]
  split <;> rfl

/-- A turn that keeps the thread's share keeps the total. -/
theorem sum_share_update_same {σ : Type*} (share : σ → M) (f : Nat → σ) {x : σ}
    (h : share x = share (f w)) :
    ∑ i ∈ Finset.range n, share (Function.update f w x i) = ∑ i ∈ Finset.range n, share (f i) := by
  refine Finset.sum_congr rfl fun i _ => ?_
  rw [Function.update_apply]
  split
  · next heq => rw [h, heq]
  · rfl

/-- The shares of threads whose states are in a list. -/
theorem sum_range_getD {σ : Type*} (share : σ → M) (l : List σ) (d : σ) :
    ∑ i ∈ Finset.range l.length, share (l.getD i d) = (l.map share).sum := by
  induction l with
  | nil => rfl
  | cons x l ih =>
    rw [List.length_cons, Finset.sum_range_succ', List.map_cons, List.sum_cons, ← ih, add_comm]
    rfl

end PinbaEngine.Threads
