import Mathlib.Algebra.BigOperators.Group.Multiset.Basic

/-! # Invertible accumulators

    An accumulator keeps a summary of a multiset of samples under insertion
    and removal. Removal has to undo insertion only on samples that are really
    present, so the laws are stated through a representation predicate
    `Rep a m`: the value `a` summarises exactly the multiset `m`.

    Summaries that only add up a quantity are built with `ofSum`.
-/

/-- A summary of a multiset of samples that supports insertion and removal. -/
structure Accumulator (X A : Type*) where
  zero : A
  /-- The summary of one sample, as a fresh cell is initialised. -/
  single : X → A
  add : X → A → A
  sub : X → A → A
  /-- `Rep a m`: the value `a` is the summary of the samples `m`. -/
  Rep : A → Multiset X → Prop
  rep_zero : Rep zero 0
  rep_single : ∀ x, Rep (single x) {x}
  rep_add : ∀ x a m, Rep a m → Rep (add x a) (x ::ₘ m)
  rep_sub : ∀ x a m, Rep a (x ::ₘ m) → Rep (sub x a) m

namespace Accumulator

variable {X G : Type*}

/-- A running total of a quantity in a commutative group. -/
def ofSum [AddCommGroup G] (f : X → G) : Accumulator X G where
  zero := 0
  single := f
  add x a := a + f x
  sub x a := a - f x
  Rep a m := a = (m.map f).sum
  rep_zero := by simp
  rep_single := by simp
  rep_add x a m h := by rw [h, Multiset.map_cons, Multiset.sum_cons, add_comm]
  rep_sub x a m h := by
    rw [h, Multiset.map_cons, Multiset.sum_cons]
    exact add_sub_cancel_left _ _

end Accumulator
