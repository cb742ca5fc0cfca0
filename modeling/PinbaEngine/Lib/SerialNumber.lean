import Mathlib.Order.Basic
import Mathlib.Tactic.Common

/-! # Serial numbers

    A counter of unlimited size is reported modulo `2 * h`. Two of its values that are
    less than `h` apart are told in order by the difference of what is reported: it is
    their distance if the first one is not below the second, and more than `h` if it is.
-/

namespace SerialNumber

variable {h t c : ℕ}

/-- Less than half of the range apart, in either direction. -/
structure Near (h t c : ℕ) : Prop where
  lt : t < c + h
  gt : c < t + h

/-- The difference of two reported values, modulo the range. -/
def ahead (h t c : ℕ) : ℕ := (2 * h - c % (2 * h) + t % (2 * h)) % (2 * h)

/-- The difference depends on the distance alone. -/
theorem ahead_add (hpos : 0 < h) (c d : ℕ) : ahead h (c + d) c = d % (2 * h) := by
  have hlt : c % (2 * h) < 2 * h := Nat.mod_lt _ (by omega)
  have hadd : (c + d) % (2 * h) = (c % (2 * h) + d % (2 * h)) % (2 * h) := Nat.add_mod ..
  unfold ahead
  rw [hadd, Nat.add_mod_mod, ← Nat.add_assoc, Nat.sub_add_cancel (Nat.le_of_lt hlt), Nat.add_mod_left, Nat.mod_mod]

/-- The later value is as far ahead as they are apart. -/
theorem Near.ahead_of_le (hnear : Near h t c) (hle : c ≤ t) : ahead h t c = t - c := by
  have hlt := hnear.lt
  obtain ⟨d, rfl⟩ := Nat.exists_eq_add_of_le hle
  rw [ahead_add (by omega), Nat.add_sub_cancel_left]
  exact Nat.mod_eq_of_lt (by omega)

/-- The earlier value is behind by as much, so ahead by more than half of the range. -/
theorem Near.ahead_of_lt (hnear : Near h t c) (hlt : t < c) : ahead h t c = 2 * h - (c - t) := by
  have hgt := hnear.gt
  obtain ⟨d, rfl⟩ := Nat.exists_eq_add_of_le (Nat.le_of_lt hlt)
  -- around the whole range once
  have haround : ahead h t (t + d) = ahead h (t + d + (2 * h - d)) (t + d) := by
    rw [Nat.add_assoc, Nat.add_sub_cancel' (by omega)]
    unfold ahead
    rw [Nat.add_mod_right]
  rw [haround, ahead_add (by omega), Nat.add_sub_cancel_left]
  exact Nat.mod_eq_of_lt (by omega)

/-- The first value is the later one exactly if it is ahead by less than half of the range. -/
theorem Near.later_iff (hnear : Near h t c) : (ahead h t c ≠ 0 ∧ ahead h t c < h) ↔ c < t := by
  have hlt := hnear.lt
  have hgt := hnear.gt
  rcases Nat.lt_or_ge t c with hbehind | hahead
  · rw [hnear.ahead_of_lt hbehind]
    omega
  · rw [hnear.ahead_of_le hahead]
    omega

end SerialNumber
