import Mathlib.Algebra.BigOperators.Group.Finset.Basic
import Mathlib.Algebra.Order.BigOperators.Group.Finset
import Mathlib.Data.List.Sort

/-! # Ranks in a table of counts

    A table gives the number of samples in every bucket. The bucket of rank `r` is the
    one where the counts, added up from below, reach `r`: with all samples in order, it
    is where the `r`-th of them lies (`sorted_getElem?`). It is never empty, it is the
    first bucket that reaches the rank, and it grows with the rank.
-/

namespace Cumulative

variable {f : ℕ → ℕ} {n r r' b b' : ℕ}

/-- The number of samples below a bucket. -/
def below (f : ℕ → ℕ) (b : ℕ) : ℕ := ∑ i ∈ Finset.range b, f i

@[simp] theorem below_zero (f : ℕ → ℕ) : below f 0 = 0 := rfl

theorem below_succ (f : ℕ → ℕ) (b : ℕ) : below f (b + 1) = below f b + f b :=
  Finset.sum_range_succ f b

theorem below_le (f : ℕ → ℕ) (h : b ≤ b') : below f b ≤ below f b' :=
  Finset.sum_le_sum_of_subset (Finset.range_mono h)

/-- The bucket of rank `r`. -/
structure HasRank (f : ℕ → ℕ) (r b : ℕ) : Prop where
  lt : below f b < r
  le : r ≤ below f (b + 1)

theorem HasRank.ne_zero (h : HasRank f r b) : f b ≠ 0 := by
  have hlt := h.lt
  have hle := h.le
  rw [below_succ] at hle
  omega

/-- No bucket before it reaches the rank. -/
theorem HasRank.le_of_reaches (h : HasRank f r b) (hreach : r ≤ below f (b' + 1)) : b ≤ b' := by
  by_contra hlt
  have hle : below f (b' + 1) ≤ below f b := below_le f (Nat.not_le.mp hlt)
  exact absurd h.lt (Nat.not_lt.mpr (hreach.trans hle))

theorem HasRank.mono (h : HasRank f r b) (h' : HasRank f r' b') (hr : r ≤ r') : b ≤ b' :=
  h.le_of_reaches (hr.trans h'.le)

theorem HasRank.lt_of_le_below (h : HasRank f r b) (hr : r ≤ below f n) : b < n := by
  by_contra hge
  have hle : below f n ≤ below f b := below_le f (Nat.not_lt.mp hge)
  exact absurd h.lt (Nat.not_lt.mpr (hr.trans hle))

/-! ### All samples in order -/

/-- The samples of the first `n` buckets, each as its bucket. -/
def samples (f : ℕ → ℕ) (n : ℕ) : List ℕ := (List.range n).flatMap fun i => List.replicate (f i) i

theorem samples_succ (f : ℕ → ℕ) (n : ℕ) : samples f (n + 1) = samples f n ++ List.replicate (f n) n := by
  simp [samples, List.range_succ]

@[simp] theorem length_samples (f : ℕ → ℕ) (n : ℕ) : (samples f n).length = below f n := by
  induction n with
  | zero => rfl
  | succ n ih => rw [samples_succ, List.length_append, ih, List.length_replicate, below_succ]

theorem lt_of_mem_samples {i : ℕ} (h : i ∈ samples f n) : i < n := by
  obtain ⟨j, hj, hi⟩ := List.mem_flatMap.mp h
  rw [List.eq_of_mem_replicate hi]
  exact List.mem_range.mp hj

theorem sortedLE_samples (f : ℕ → ℕ) (n : ℕ) : (samples f n).Pairwise (· ≤ ·) := by
  induction n with
  | zero => exact List.Pairwise.nil
  | succ n ih =>
    rw [samples_succ, List.pairwise_append]
    refine ⟨ih, List.pairwise_replicate.mpr (.inr le_rfl), ?_⟩
    intro i hi j hj
    rw [List.eq_of_mem_replicate hj]
    exact (lt_of_mem_samples hi).le

theorem count_samples (f : ℕ → ℕ) (n i : ℕ) : (samples f n).count i = if i < n then f i else 0 := by
  induction n with
  | zero => rfl
  | succ n ih =>
    rw [samples_succ, List.count_append, ih, List.count_replicate]
    by_cases hi : n = i
    · subst hi
      simp
    · have hlt : i < n + 1 ↔ i < n := by omega
      simp [hi, hlt]

theorem samples_getElem? (h : HasRank f r b) (hb : b < n) : (samples f n)[r - 1]? = some b := by
  induction n with
  | zero => omega
  | succ n ih =>
    have hlt := h.lt
    rw [samples_succ]
    by_cases hbn : b = n
    · -- the rank lies in the last bucket
      subst hbn
      have hle := h.le
      rw [below_succ] at hle
      rw [List.getElem?_append_right (by rw [length_samples]; omega), length_samples,
        List.getElem?_replicate, if_pos (by omega)]
    · have hreach : r ≤ below f n := h.le.trans (below_le f (by omega))
      rw [List.getElem?_append_left (by rw [length_samples]; omega)]
      exact ih (by omega)

/-- Of any list of samples with these counts, put in order, the one of the rank lies in the
    bucket. -/
theorem sorted_getElem? {xs : List ℕ} (hxs : ∀ i, xs.count i = if i < n then f i else 0)
    (h : HasRank f r b) (hb : b < n) : (xs.mergeSort (· ≤ ·))[r - 1]? = some b := by
  have hperm : (xs.mergeSort (· ≤ ·)).Perm (samples f n) := by
    rw [List.perm_iff_count]
    intro i
    rw [(List.mergeSort_perm xs _).count_eq, hxs, count_samples]
  have hsorted : (xs.mergeSort (· ≤ ·)).Pairwise (· ≤ ·) := by
    have htrans : ∀ a b c : ℕ, decide (a ≤ b) → decide (b ≤ c) → decide (a ≤ c) := fun a b c hab hbc => by
      simp_all
      omega
    have htotal : ∀ a b : ℕ, decide (a ≤ b) || decide (b ≤ a) := fun a b => by
      simp
      omega
    simpa using List.pairwise_mergeSort htrans htotal xs
  have heq : xs.mergeSort (· ≤ ·) = samples f n :=
    hperm.eq_of_pairwise' hsorted (sortedLE_samples f n)
  rw [heq]
  exact samples_getElem? h hb

end Cumulative
