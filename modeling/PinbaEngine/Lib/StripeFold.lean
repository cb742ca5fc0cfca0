import Mathlib.Data.Nat.Digits.Lemmas
import Mathlib.Data.List.TakeDrop

/-! # Streams in stripes

    A stream is absorbed in stripes of a fixed length; what is left at its end is less
    than a stripe. However the stream is cut into chunks, the same stripes are absorbed
    if what is left of one chunk goes before the next.

    The second part is about words in memory, in both orders of their bytes.
-/

namespace StripeFold

variable {σ α : Type*} (n : Nat) (absorb : σ → List α → σ)

/-! ## Section 1: Stripes -/

/-- Absorb stripes as long as there are any; the rest is returned. -/
def stripes (s : σ) (data : List α) : σ × List α :=
  if 0 < n ∧ n ≤ data.length then stripes (absorb s (data.take n)) (data.drop n) else (s, data)
termination_by data.length
decreasing_by
  rw [List.length_drop]
  omega

/-- One more chunk of the stream. -/
def feed (r : σ × List α) (chunk : List α) : σ × List α := stripes n absorb r.1 (r.2 ++ chunk)

variable {n absorb} {s : σ} {data : List α}

theorem stripes_of_lt (h : data.length < n) : stripes n absorb s data = (s, data) := by
  rw [stripes, if_neg]
  omega

theorem stripes_of_le (hpos : 0 < n) (h : n ≤ data.length) :
    stripes n absorb s data = stripes n absorb (absorb s (data.take n)) (data.drop n) := by
  rw [stripes, if_pos ⟨hpos, h⟩]

/-- A stripe in front. -/
theorem stripes_stripe {stripe : List α} (hpos : 0 < n) (hlen : stripe.length = n) (rest : List α) :
    stripes n absorb s (stripe ++ rest) = stripes n absorb (absorb s stripe) rest := by
  rw [stripes_of_le hpos (by simp [hlen]), List.take_left' hlen, List.drop_left' hlen]

theorem length_stripes_lt (hpos : 0 < n) (s : σ) (data : List α) :
    (stripes n absorb s data).2.length < n := by
  induction s, data using stripes.induct n absorb with
  | case1 s data h ih =>
    rw [stripes, if_pos h]
    exact ih
  | case2 s data h =>
    rw [stripes, if_neg h]
    show data.length < n
    omega

/-- What is left of the first part goes before the second one. -/
theorem stripes_append (s : σ) (data more : List α) :
    stripes n absorb s (data ++ more) = feed n absorb (stripes n absorb s data) more := by
  induction s, data using stripes.induct n absorb with
  | case1 s data h ih =>
    rw [stripes_of_le h.1 h.2, ← ih, stripes_of_le h.1 (by rw [List.length_append]; omega),
      List.take_append_of_le_length h.2, List.drop_append_of_le_length h.2]
  | case2 s data h => rw [stripes.eq_1 n absorb s data, if_neg h, feed]

/-! ## Section 2: Words -/

/-- The bytes of a word, lowest one first. -/
def bytes : Nat → Nat → List UInt8
  | 0, _ => []
  | k + 1, x => UInt8.ofNat x :: bytes k (x / 256)

/-- The word of the bytes, lowest one first. -/
def word (l : List UInt8) : Nat := Nat.ofDigits 256 (l.map UInt8.toNat)

@[simp] theorem length_bytes (k x : Nat) : (bytes k x).length = k := by
  induction k generalizing x with
  | zero => rfl
  | succ k ih => simp [bytes, ih]

theorem bytes_word (l : List UInt8) : bytes l.length (word l) = l := by
  induction l with
  | nil => rfl
  | cons b l ih =>
    have hb := b.toNat_lt
    have hword : word (b :: l) = b.toNat + 256 * word l := by simp [word, Nat.ofDigits_cons]
    rw [List.length_cons, bytes, hword]
    congr 1
    · apply UInt8.toNat_inj.mp
      simp
    · rw [show (b.toNat + 256 * word l) / 256 = word l by omega]
      exact ih

/-- The bytes the other way round. -/
def swap (k x : Nat) : Nat := word (bytes k x).reverse

/-- Swapping a word that was read the wrong way round reads it the right way. -/
theorem swap_word_reverse (l : List UInt8) : swap l.length (word l.reverse) = word l := by
  unfold swap
  rw [← List.length_reverse, bytes_word, List.reverse_reverse]

end StripeFold
