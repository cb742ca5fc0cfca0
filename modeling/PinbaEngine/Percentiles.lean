import PinbaEngine.Histogram
import PinbaEngine.Lib.Cumulative
import PinbaEngine.TableComment

/-! # Percentiles

    Percentiles in the exact notation are decimal numbers: `p=99.9` is read into a
    numerator and a denominator, the rank of the percentile in a number of samples is
    rounded up without floating point, and the bucket of that rank is found by adding
    up the counts of a histogram.

    All three pieces work on unsigned machine words. The parser gives up before a word
    can overflow, however many leading zeros there are: whatever it has read so far is
    at most 100, with at most nine digits behind the point.

    Only what the notation `p=` reaches is covered. The old notation has no denominator
    and ranks in floating point, and so has the interpolation inside of a bucket.
-/

namespace PinbaEngine

/-! ## Section 1: The parser -/

/-- `pinba_percentile`, with the exact value of the quotient in `value`. -/
structure PinbaPercentile where
  value : ℚ
  numerator : UInt64
  denominator : UInt64
deriving DecidableEq

/-- The locals of the loop of `pinba_parse_fractional_percentile`. -/
structure PercentileScan where
  number : UInt64
  scale : UInt64
  decimals : UInt32
  dot : Bool
deriving DecidableEq

namespace PercentileScan

def start : PercentileScan := ⟨0, 1, 0, false⟩

/-- `scale` as the turn for a digit leaves it. -/
def next_scale (st : PercentileScan) : UInt64 := if st.dot then st.scale * 10 else st.scale

/-- One turn of the loop; `none` is `return false`. -/
def turn (st : PercentileScan) (c : UInt8) : Option PercentileScan :=
  if c = 46 ∧ !st.dot then some { st with dot := true }
  else
    let decimals := if is_digit c && st.dot then st.decimals + 1 else st.decimals
    if !is_digit c ∨ st.dot ∧ 9 < decimals then none
    else
      let number := st.number * 10 + (c - 48).toUInt64
      if 100 * st.next_scale < number then none
      else some { st with number, scale := st.next_scale, decimals }

/-- The loop. -/
def scan (text : Bytes) : Option PercentileScan := text.foldlM turn start

end PercentileScan

/-- `pinba_parse_fractional_percentile`: the result, and what `out` holds afterwards. -/
def PinbaPercentile.pinba_parse_fractional_percentile (text : Bytes) (out : PinbaPercentile) :
    Bool × PinbaPercentile :=
  if text = [] ∨ !(text.head?.any is_digit) ∨ text.getLast? = some 46 then (false, out)
  else match PercentileScan.scan text with
    | none => (false, out)
    | some st =>
      if st.number = 0 then (false, out)
      else (true, ⟨st.number.toNat / st.scale.toNat, st.number, 100 * st.scale⟩)

/-! ## Section 2: Decimal notation -/

/-- Digits, and at most nine digits behind a point if there is one. -/
structure Spelled (text whole fraction : Bytes) (dot : Bool) : Prop where
  text_eq : text = whole ++ if dot then 46 :: fraction else []
  whole_digits : ∀ c ∈ whole, is_digit c = true
  fraction_digits : ∀ c ∈ fraction, is_digit c = true
  no_fraction : dot = false → fraction = []
  short : fraction.length ≤ 9

/-- The number that the digits before and behind the point spell. -/
def decimal (whole fraction : Bytes) : ℚ := number_of (whole ++ fraction) / 10 ^ fraction.length

section digits

variable {ds es : Bytes} {c : UInt8}

theorem number_of_concat (ds : Bytes) (c : UInt8) :
    number_of (ds ++ [c]) = number_of ds * 10 + (c.toNat - 48) := by
  simp [number_of, List.foldl_append]

/-- A number with more digits behind the point is not smaller. -/
theorem number_of_le_of_concat {bound : Nat} (h : number_of (ds ++ [c]) ≤ bound * 10) :
    number_of ds ≤ bound := by
  rw [number_of_concat] at h
  omega

theorem is_digit_iff : is_digit c = true ↔ 48 ≤ c.toNat ∧ c.toNat ≤ 57 := by
  rw [is_digit, Bool.and_eq_true, decide_eq_true_eq, decide_eq_true_eq, UInt8.le_iff_toNat_le,
    UInt8.le_iff_toNat_le]
  rfl

end digits

section concat
variable {text whole fraction : Bytes} {c : UInt8}

theorem all_digits_concat (h : ∀ d ∈ whole, is_digit d = true) (hc : is_digit c = true) :
    ∀ d ∈ whole ++ [c], is_digit d = true := by
  intro d hd
  rcases List.mem_append.mp hd with hd | hd
  · exact h d hd
  · rw [List.mem_singleton.mp hd, hc]

theorem Spelled.point (h : Spelled text whole [] false) : Spelled (text ++ [46]) whole [] true :=
  ⟨by simp [h.text_eq], h.whole_digits, h.fraction_digits, fun _ => rfl, h.short⟩

theorem Spelled.whole_concat (h : Spelled text whole [] false) (hc : is_digit c = true) :
    Spelled (text ++ [c]) (whole ++ [c]) [] false :=
  ⟨by simp [h.text_eq], all_digits_concat h.whole_digits hc, h.fraction_digits, fun _ => rfl, h.short⟩

theorem Spelled.fraction_concat (h : Spelled text whole fraction true) (hc : is_digit c = true)
    (hfew : fraction.length < 9) : Spelled (text ++ [c]) whole (fraction ++ [c]) true :=
  ⟨by simp [h.text_eq], h.whole_digits, all_digits_concat h.fraction_digits hc, by simp,
    by simpa using hfew⟩

end concat

/-! ## Section 3: What the loop reads -/

/-- What is spelled so far is at most 100. -/
def WithinHundred (whole fraction : Bytes) : Prop :=
  number_of (whole ++ fraction) ≤ 100 * 10 ^ fraction.length

instance (whole fraction : Bytes) : Decidable (WithinHundred whole fraction) :=
  inferInstanceAs (Decidable (_ ≤ _))

namespace PercentileScan

variable {text whole fraction : Bytes} {dot : Bool} {c : UInt8} {st : PercentileScan}

/-- The locals for what is spelled so far. -/
def spelling (whole fraction : Bytes) (dot : Bool) : PercentileScan where
  number := UInt64.ofNat (number_of (whole ++ fraction))
  scale := UInt64.ofNat (10 ^ fraction.length)
  decimals := UInt32.ofNat fraction.length
  dot := dot

theorem digit_word (hc : is_digit c = true) : (c - 48).toUInt64 = UInt64.ofNat (c.toNat - 48) := by
  have h48 : (48 : UInt8) ≤ c := by
    rw [UInt8.le_iff_toNat_le]
    exact (is_digit_iff.mp hc).1
  apply UInt64.toNat_inj.mp
  have hlt := c.toNat_lt
  rw [UInt8.toNat_toUInt64, UInt8.toNat_sub_of_le c 48 h48, UInt64.toNat_ofNat', Nat.mod_eq_of_lt]
  · rfl
  · omega

theorem scale_le (hshort : fraction.length ≤ 9) : 10 ^ fraction.length ≤ 1000000000 := by
  calc 10 ^ fraction.length ≤ 10 ^ 9 := Nat.pow_le_pow_right (by decide) hshort
    _ = 1000000000 := by norm_num

/-- The comparison at the end of a turn is the one of the numbers. -/
theorem exceeds_iff {scale number : Nat} (hscale : scale ≤ 10000000000)
    (hnumber : number ≤ 10000000000000) :
    100 * UInt64.ofNat scale < UInt64.ofNat number ↔ 100 * scale < number := by
  have hmul : (100 : UInt64) * UInt64.ofNat scale = UInt64.ofNat (100 * scale) := by
    rw [UInt64.ofNat_mul]
    rfl
  rw [hmul]
  exact UInt64.ofNat_lt_iff_lt (by norm_num [UInt64.size]; omega) (by norm_num [UInt64.size]; omega)

/-- A digit, before its number is compared. -/
theorem turn_digit (hc : is_digit c = true) (hfew : ¬ (st.dot = true ∧ 9 < st.decimals + 1)) :
    st.turn c = if 100 * st.next_scale < st.number * 10 + (c - 48).toUInt64 then none
      else some { st with
        number := st.number * 10 + (c - 48).toUInt64, scale := st.next_scale
        decimals := if st.dot then st.decimals + 1 else st.decimals } := by
  have hne : c ≠ 46 := by
    rintro rfl
    exact absurd hc (by decide)
  unfold turn
  cases hdot : st.dot with
  | false => simp [hne, hc]
  | true =>
    rw [hdot] at hfew
    simp [hne, hc]
    intro h
    exact absurd ⟨rfl, h⟩ hfew

/-- A digit in front of the point. -/
theorem turn_whole (hc : is_digit c = true) (hbound : WithinHundred whole []) :
    turn (spelling whole [] false) c =
      if WithinHundred (whole ++ [c]) [] then some (spelling (whole ++ [c]) [] false) else none := by
  have hnumber : number_of (whole ++ [c]) = number_of whole * 10 + (c.toNat - 48) :=
    number_of_concat whole c
  have hle : number_of whole ≤ 100 := by simpa [WithinHundred] using hbound
  have hdigit := (is_digit_iff.mp hc).2
  have hword : UInt64.ofNat (number_of whole) * 10 + (c - 48).toUInt64 =
      UInt64.ofNat (number_of (whole ++ [c])) := by
    rw [digit_word hc, hnumber, UInt64.ofNat_add, UInt64.ofNat_mul]
    rfl
  rw [turn_digit hc (by simp [spelling])]
  simp only [spelling, next_scale, List.append_nil, Bool.false_eq_true, if_false, hword,
    List.length_nil, pow_zero]
  have hexceeds : 100 * UInt64.ofNat 1 < UInt64.ofNat (number_of (whole ++ [c])) ↔
      100 * 1 < number_of (whole ++ [c]) := exceeds_iff (by norm_num) (by omega)
  by_cases hlt : 100 * 1 < number_of (whole ++ [c])
  · rw [if_pos (hexceeds.mpr hlt), if_neg (by simpa [WithinHundred] using hlt)]
  · rw [if_neg (mt hexceeds.mp hlt), if_pos (by simpa [WithinHundred] using hlt)]

theorem decimals_succ (hshort : fraction.length ≤ 9) :
    9 < UInt32.ofNat fraction.length + 1 ↔ ¬ fraction.length < 9 := by
  have hadd : UInt32.ofNat fraction.length + 1 = UInt32.ofNat (fraction.length + 1) := by
    rw [UInt32.ofNat_add]
    rfl
  rw [hadd, UInt32.lt_iff_toNat_lt, UInt32.toNat_ofNat_of_lt' (by norm_num [UInt32.size]; omega)]
  show 9 < _ ↔ _
  omega

/-- A digit behind the point: the tenth is refused, whatever it is. -/
theorem turn_fraction (hc : is_digit c = true) (hshort : fraction.length ≤ 9)
    (hbound : WithinHundred whole fraction) :
    turn (spelling whole fraction true) c =
      if fraction.length < 9 ∧ WithinHundred whole (fraction ++ [c]) then
        some (spelling whole (fraction ++ [c]) true)
      else none := by
  by_cases hfew : fraction.length < 9
  · have hnumber : number_of (whole ++ (fraction ++ [c])) =
        number_of (whole ++ fraction) * 10 + (c.toNat - 48) := by
      rw [← List.append_assoc, number_of_concat]
    have hle := hbound
    unfold WithinHundred at hle
    have hscale := scale_le hshort
    have hdigit := (is_digit_iff.mp hc).2
    have hword : UInt64.ofNat (number_of (whole ++ fraction)) * 10 + (c - 48).toUInt64 =
        UInt64.ofNat (number_of (whole ++ (fraction ++ [c]))) := by
      rw [digit_word hc, hnumber, UInt64.ofNat_add, UInt64.ofNat_mul]
      rfl
    have hlen : (fraction ++ [c]).length = fraction.length + 1 := by simp
    have hnext : UInt64.ofNat (10 ^ fraction.length) * 10 =
        UInt64.ofNat (10 ^ (fraction ++ [c]).length) := by
      rw [hlen, pow_succ, UInt64.ofNat_mul]
      rfl
    have hdecimals : UInt32.ofNat fraction.length + 1 = UInt32.ofNat (fraction ++ [c]).length := by
      rw [hlen, UInt32.ofNat_add]
      rfl
    have hexceeds : 100 * UInt64.ofNat (10 ^ (fraction ++ [c]).length) <
        UInt64.ofNat (number_of (whole ++ (fraction ++ [c]))) ↔
        100 * 10 ^ (fraction ++ [c]).length < number_of (whole ++ (fraction ++ [c])) := by
      apply exceeds_iff
      · rw [hlen, pow_succ]
        omega
      · omega
    have hroom : ¬ ((spelling whole fraction true).dot = true ∧
        9 < (spelling whole fraction true).decimals + 1) := by
      rintro ⟨-, hmany⟩
      rw [spelling, decimals_succ hshort] at hmany
      exact hmany hfew
    rw [turn_digit hc hroom]
    simp only [spelling, next_scale, if_true, hword, hnext, hdecimals]
    by_cases hlt : 100 * 10 ^ (fraction ++ [c]).length < number_of (whole ++ (fraction ++ [c]))
    · rw [if_pos (hexceeds.mpr hlt), if_neg fun h => absurd h.2 (Nat.not_le.mpr hlt)]
    · rw [if_neg (mt hexceeds.mp hlt), if_pos ⟨hfew, Nat.not_lt.mp hlt⟩]
  · rw [if_neg fun h => hfew h.1]
    have hne : c ≠ 46 := by
      rintro rfl
      exact absurd hc (by decide)
    have hmany : 9 < UInt32.ofNat fraction.length + 1 := (decimals_succ hshort).mpr hfew
    simp [turn, spelling, hne, hc, hmany]

/-- A character that is no digit can only be the first point. -/
theorem turn_other (hc : is_digit c = false) (dot : Bool) :
    turn (spelling whole fraction dot) c =
      if c = 46 ∧ dot = false then some (spelling whole fraction true) else none := by
  unfold turn spelling
  cases dot <;> simp [hc]

theorem scan_concat (text : Bytes) (c : UInt8) :
    scan (text ++ [c]) = (scan text).bind fun st => st.turn c := by
  rw [scan, List.foldlM_append]
  cases h : text.foldlM turn start with
  | none => simp [scan, h]
  | some st => simp [scan, h]

/-- What one more character does to what is spelled. -/
theorem spelled_concat {st' : PercentileScan} (hspelled : Spelled text whole fraction dot)
    (hbound : WithinHundred whole fraction) (h : turn (spelling whole fraction dot) c = some st') :
    ∃ whole' fraction', Spelled (text ++ [c]) whole' fraction' st'.dot ∧
      WithinHundred whole' fraction' ∧ st' = spelling whole' fraction' st'.dot := by
  cases hc : is_digit c with
  | true =>
    cases dot with
    | false =>
      obtain rfl : fraction = [] := hspelled.no_fraction rfl
      rw [turn_whole hc hbound] at h
      obtain ⟨hnext, heq⟩ := Option.ite_none_right_eq_some.mp h
      obtain rfl := Option.some.inj heq
      exact ⟨_, _, hspelled.whole_concat hc, hnext, rfl⟩
    | true =>
      rw [turn_fraction hc hspelled.short hbound] at h
      obtain ⟨⟨hfew, hnext⟩, heq⟩ := Option.ite_none_right_eq_some.mp h
      obtain rfl := Option.some.inj heq
      exact ⟨_, _, hspelled.fraction_concat hc hfew, hnext, rfl⟩
  | false =>
    rw [turn_other hc] at h
    obtain ⟨⟨rfl, rfl⟩, heq⟩ := Option.ite_none_right_eq_some.mp h
    obtain rfl := Option.some.inj heq
    obtain rfl : fraction = [] := hspelled.no_fraction rfl
    exact ⟨_, _, hspelled.point, hbound, rfl⟩

/-- What is spelled without the last character. -/
theorem spelled_of_concat (hspelled : Spelled (text ++ [c]) whole fraction dot)
    (hbound : WithinHundred whole fraction) :
    ∃ whole' fraction' dot', Spelled text whole' fraction' dot' ∧ WithinHundred whole' fraction' ∧
      turn (spelling whole' fraction' dot') c = some (spelling whole fraction dot) := by
  obtain ⟨htext, hwhole, hfraction, hplain, hshort⟩ := hspelled
  cases dot with
  | false =>
    -- the last digit in front of a point
    obtain rfl : fraction = [] := hplain rfl
    obtain rfl : text ++ [c] = whole := by simpa using htext
    have hc : is_digit c = true := hwhole c (by simp)
    have hless : WithinHundred text [] := by
      unfold WithinHundred at hbound ⊢
      rw [List.append_nil] at hbound ⊢
      exact number_of_le_of_concat (hbound.trans (by norm_num))
    refine ⟨text, [], false, ⟨by simp, fun d hd => hwhole d (by simp [hd]), hfraction, fun _ => rfl,
      hshort⟩, hless, ?_⟩
    rw [turn_whole hc hless, if_pos hbound]
  | true =>
    rcases List.eq_nil_or_concat fraction with rfl | ⟨fraction', d, rfl⟩
    · -- the point
      obtain ⟨rfl, rfl⟩ : text = whole ∧ c = 46 := by simpa using htext
      refine ⟨text, [], false, ⟨by simp, hwhole, hfraction, fun _ => rfl, hshort⟩, hbound, ?_⟩
      rw [turn_other (by decide), if_pos ⟨rfl, rfl⟩]
    · -- a digit behind the point
      rw [List.concat_eq_append] at *
      have htext' : text ++ [c] = (whole ++ 46 :: fraction') ++ [d] := by simpa using htext
      obtain ⟨rfl, hcd⟩ := List.append_inj' htext' rfl
      obtain rfl : c = d := by simpa using hcd
      have hc : is_digit c = true := hfraction c (by simp)
      have hlen : fraction'.length + 1 ≤ 9 := by simpa using hshort
      have hless : WithinHundred whole fraction' := by
        unfold WithinHundred at hbound ⊢
        rw [← List.append_assoc, List.length_append, List.length_singleton, pow_succ,
          ← Nat.mul_assoc] at hbound
        exact number_of_le_of_concat hbound
      refine ⟨whole, fraction', true, ⟨by simp, hwhole, fun d hd => hfraction d (by simp [hd]),
        by simp, by omega⟩, hless, ?_⟩
      rw [turn_fraction hc (by omega) hless, if_pos ⟨by omega, hbound⟩]

/-- The loop gets through exactly the texts that spell at most 100. -/
theorem scan_iff : scan text = some st ↔ ∃ whole fraction,
    Spelled text whole fraction st.dot ∧ WithinHundred whole fraction ∧
      st = spelling whole fraction st.dot := by
  induction text using List.reverseRecOn generalizing st with
  | nil =>
    constructor
    · intro h
      obtain rfl : start = st := by simpa [scan] using h
      exact ⟨[], [], ⟨rfl, by simp, by simp, fun _ => rfl, by simp⟩, by simp [WithinHundred, number_of],
        rfl⟩
    · rintro ⟨whole, fraction, hspelled, -, hst⟩
      have htext := hspelled.text_eq
      cases hdot : st.dot with
      | true => simp [hdot] at htext
      | false =>
        rw [hdot] at htext hst
        obtain rfl : whole = [] := by simpa using htext.symm
        obtain rfl : fraction = [] := hspelled.no_fraction hdot
        rw [hst]
        rfl
  | append_singleton text c ih =>
    rw [scan_concat, Option.bind_eq_some_iff]
    constructor
    · rintro ⟨st₀, hst₀, hturn⟩
      obtain ⟨whole, fraction, hspelled, hbound, heq⟩ := ih.mp hst₀
      rw [heq] at hturn
      exact spelled_concat hspelled hbound hturn
    · rintro ⟨whole, fraction, hspelled, hbound, hst⟩
      obtain ⟨whole', fraction', dot', hspelled', hbound', hturn⟩ := spelled_of_concat hspelled hbound
      exact ⟨_, ih.mpr ⟨whole', fraction', hspelled', hbound', rfl⟩,
        hturn.trans (congrArg some hst.symm)⟩

/-- The exact values that a turn computes for a character fit its words. -/
structure Fits (st : PercentileScan) (c : UInt8) : Prop where
  scale : (if st.dot then st.scale.toNat * 10 else st.scale.toNat) < 2 ^ 64
  number : st.number.toNat * 10 + (c.toNat - 48) < 2 ^ 64
  bound : 100 * (if st.dot then st.scale.toNat * 10 else st.scale.toNat) < 2 ^ 64
  decimals : st.decimals.toNat + 1 < 2 ^ 32

section words
variable (dot) (hbound : WithinHundred whole fraction) (hshort : fraction.length ≤ 9)

include hbound hshort in
theorem number_spelling : (spelling whole fraction dot).number.toNat = number_of (whole ++ fraction) := by
  have hscale := scale_le hshort
  unfold WithinHundred at hbound
  exact UInt64.toNat_ofNat_of_lt' (by norm_num [UInt64.size]; omega)

include hshort in
theorem scale_spelling : (spelling whole fraction dot).scale.toNat = 10 ^ fraction.length := by
  have hscale := scale_le hshort
  exact UInt64.toNat_ofNat_of_lt' (by norm_num [UInt64.size]; omega)

include hshort in
theorem denominator_spelling :
    (100 * (spelling whole fraction dot).scale).toNat = 100 * 10 ^ fraction.length := by
  have hscale := scale_le hshort
  rw [UInt64.toNat_mul, scale_spelling dot hshort]
  show 100 * 10 ^ fraction.length % 2 ^ 64 = _
  exact Nat.mod_eq_of_lt (by omega)

end words

/-- No turn overflows, wherever in a text it is. -/
theorem fits_of_scan (h : scan text = some st) (c : UInt8) : st.Fits c := by
  obtain ⟨whole, fraction, hspelled, hbound, hst⟩ := scan_iff.mp h
  have hscale := scale_le hspelled.short
  have hnumber : st.number.toNat ≤ 100 * 10 ^ fraction.length := by
    rw [hst, number_spelling st.dot hbound hspelled.short]
    exact hbound
  have hpow : st.scale.toNat = 10 ^ fraction.length := by
    rw [hst, scale_spelling st.dot hspelled.short]
  have hlt := c.toNat_lt
  have hdecimals : st.decimals.toNat ≤ 9 := by
    rw [hst]
    exact (Nat.mod_le _ _).trans hspelled.short
  refine ⟨?_, by omega, ?_, by omega⟩ <;> split <;> omega

theorem scan_percentile_digit (hc : is_digit c = true) (rest : Bytes) {number scale decimals : Nat}
    (hshort : decimals ≤ 9) : scan_percentile (c :: rest) number scale decimals dot =
      if dot = true ∧ 9 ≤ decimals then none
      else if 100 * (if dot then scale * 10 else scale) < number * 10 + (c.toNat - 48) then none
      else scan_percentile rest (number * 10 + (c.toNat - 48)) (if dot then scale * 10 else scale)
        (if dot then decimals + 1 else decimals) dot := by
  have hne : c ≠ 46 := by
    rintro rfl
    exact absurd hc (by decide)
  rw [scan_percentile, if_neg fun h => hne h.1]
  cases dot with
  | false => simp [hc, Nat.not_lt.mpr hshort]
  | true => simp [hc]

theorem scan_percentile_other (hc : is_digit c = false) (rest : Bytes) (number scale decimals : Nat) :
    scan_percentile (c :: rest) number scale decimals dot =
      if c = 46 ∧ dot = false then scan_percentile rest number scale decimals true else none := by
  rw [scan_percentile]
  by_cases hpoint : c = 46 ∧ dot = false
  · rw [if_pos hpoint, if_pos (by simpa using hpoint)]
  · rw [if_neg hpoint, if_neg (by simpa using hpoint)]
    simp only [hc, Bool.not_false, true_or, if_true]

/-- The loop over numbers without bounds does the same. -/
theorem scan_percentile_eq (rest : Bytes) (hspelled : Spelled text whole fraction dot)
    (hbound : WithinHundred whole fraction) :
    scan_percentile rest (number_of (whole ++ fraction)) (10 ^ fraction.length) fraction.length dot =
      (rest.foldlM turn (spelling whole fraction dot)).map
        fun st => (st.number.toNat, st.scale.toNat) := by
  induction rest generalizing text whole fraction dot with
  | nil =>
    simp [scan_percentile, number_spelling dot hbound hspelled.short,
      scale_spelling dot hspelled.short]
  | cons c rest ih =>
    rw [List.foldlM_cons]
    cases hc : is_digit c with
    | false =>
      rw [turn_other hc, scan_percentile_other hc]
      -- the first point only changes `dot`
      by_cases hpoint : c = 46 ∧ dot = false
      · obtain ⟨rfl, rfl⟩ := hpoint
        -- a digit in front of the point
        obtain rfl : fraction = [] := hspelled.no_fraction rfl
        rw [if_pos ⟨rfl, rfl⟩, if_pos ⟨rfl, rfl⟩]
        exact ih hspelled.point hbound
      · rw [if_neg hpoint, if_neg hpoint]
        rfl
    | true =>
      rw [scan_percentile_digit hc rest hspelled.short]
      cases dot with
      | false =>
        obtain rfl : fraction = [] := hspelled.no_fraction rfl
        have hnumber : number_of (whole ++ []) * 10 + (c.toNat - 48) =
            number_of ((whole ++ [c]) ++ []) := by
          rw [List.append_nil, List.append_nil, number_of_concat]
        rw [turn_whole hc hbound, hnumber, if_neg (by simp)]
        simp only [Bool.false_eq_true, if_false]
        by_cases hnext : WithinHundred (whole ++ [c]) []
        · rw [if_pos hnext, if_neg (Nat.not_lt.mpr hnext)]
          exact ih (hspelled.whole_concat hc) hnext
        · rw [if_neg hnext, if_pos (Nat.not_le.mp hnext)]
          rfl
      | true =>
        -- and one behind it, with its own scale
        have hnumber : number_of (whole ++ fraction) * 10 + (c.toNat - 48) =
            number_of (whole ++ (fraction ++ [c])) := by
          rw [← List.append_assoc, number_of_concat]
        have hscale : 10 ^ fraction.length * 10 = 10 ^ (fraction ++ [c]).length := by
          rw [List.length_append, List.length_singleton, pow_succ]
        rw [turn_fraction hc hspelled.short hbound, hnumber]
        simp only [if_true, true_and, hscale]
        by_cases hfew : fraction.length < 9
        · rw [if_neg (Nat.not_le.mpr hfew)]
          by_cases hnext : WithinHundred whole (fraction ++ [c])
          · have hrest := ih (hspelled.fraction_concat hc hfew) hnext
            have hlen : (fraction ++ [c]).length = fraction.length + 1 := by simp
            rw [if_neg (Nat.not_lt.mpr hnext), if_pos ⟨hfew, hnext⟩, ← hlen]
            exact hrest
          · rw [if_pos (Nat.not_le.mp hnext), if_neg fun h => hnext h.2]
            rfl
        · rw [if_pos (Nat.not_lt.mp hfew), if_neg fun h => hfew h.1]
          rfl

end PercentileScan

/-! ## Section 4: What the parser accepts -/

/-- One or more digits, and if there is a point one to nine digits behind it. -/
structure DecimalText (text whole fraction : Bytes) : Prop where
  text_eq : text = if fraction = [] then whole else whole ++ 46 :: fraction
  nonempty : whole ≠ []
  whole_digits : ∀ c ∈ whole, is_digit c = true
  fraction_digits : ∀ c ∈ fraction, is_digit c = true
  short : fraction.length ≤ 9

section accept
variable {text whole fraction : Bytes} {dot : Bool} {p out : PinbaPercentile}

theorem DecimalText.spelled (h : DecimalText text whole fraction) :
    Spelled text whole fraction (fraction ≠ []) := by
  refine ⟨?_, h.whole_digits, h.fraction_digits, by simp, h.short⟩
  rw [h.text_eq]
  by_cases hnil : fraction = [] <;> simp [hnil]

/-- The tests in front of the loop. -/
theorem Spelled.decimalText (h : Spelled text whole fraction dot)
    (hhead : text.head?.any is_digit = true) (hlast : text.getLast? ≠ some 46) :
    DecimalText text whole fraction := by
  refine ⟨?_, ?_, h.whole_digits, h.fraction_digits, h.short⟩
  · have htext := h.text_eq
    cases dot with
    | false => simpa [h.no_fraction rfl] using htext
    | true =>
      by_cases hnil : fraction = []
      · rw [htext, hnil] at hlast
        simp at hlast
      · simpa [hnil] using htext
  · rintro rfl
    rw [h.text_eq] at hhead
    cases dot with
    | false => simp at hhead
    | true =>
      have hpoint : is_digit 46 = true := by simpa using hhead
      exact absurd hpoint (by decide)

theorem DecimalText.head (h : DecimalText text whole fraction) : text.head?.any is_digit = true := by
  obtain ⟨d, ds, hwhole⟩ := List.exists_cons_of_ne_nil h.nonempty
  have hd : is_digit d = true := h.whole_digits d (by simp [hwhole])
  have hhead : text.head? = some d := by
    rw [h.text_eq, hwhole]
    split <;> rfl
  rw [hhead]
  exact hd

theorem DecimalText.last (h : DecimalText text whole fraction) : text.getLast? ≠ some 46 := by
  -- the last character is a digit in front of the point or behind it
  intro hlast
  have hdigit : is_digit 46 = true := by
    rw [h.text_eq] at hlast
    split at hlast
    · exact h.whole_digits 46 (List.mem_of_getLast? hlast)
    · next hne =>
      obtain ⟨d, ds, hfraction⟩ := List.exists_cons_of_ne_nil hne
      apply h.fraction_digits 46
      rw [hfraction, List.getLast?_append_cons, List.getLast?_cons_cons] at hlast
      rw [hfraction]
      exact List.mem_of_getLast? hlast
  exact absurd hdigit (by decide)

theorem decimal_le_iff : decimal whole fraction ≤ 100 ↔ WithinHundred whole fraction := by
  have hpow : (0 : ℚ) < 10 ^ fraction.length := by positivity
  rw [decimal, div_le_iff₀ hpow, WithinHundred]
  exact_mod_cast Iff.rfl

theorem decimal_pos_iff : 0 < decimal whole fraction ↔ number_of (whole ++ fraction) ≠ 0 := by
  have hpow : (0 : ℚ) < 10 ^ fraction.length := by positivity
  rw [decimal, div_pos_iff_of_pos_right hpow, Nat.cast_pos, Nat.pos_iff_ne_zero]

namespace PinbaPercentile

/-- What the parser leaves in `out`. -/
def ofDecimal (whole fraction : Bytes) : PinbaPercentile :=
  let st := PercentileScan.spelling whole fraction (fraction ≠ [])
  ⟨st.number.toNat / st.scale.toNat, st.number, 100 * st.scale⟩

theorem numerator_ofDecimal (hbound : WithinHundred whole fraction) (hshort : fraction.length ≤ 9) :
    (ofDecimal whole fraction).numerator.toNat = number_of (whole ++ fraction) :=
  PercentileScan.number_spelling (decide (fraction ≠ [])) hbound hshort

theorem denominator_ofDecimal (hshort : fraction.length ≤ 9) :
    (ofDecimal whole fraction).denominator.toNat = 100 * 10 ^ fraction.length :=
  PercentileScan.denominator_spelling (decide (fraction ≠ [])) hshort

/-- The percentile that an accepted text spells. -/
theorem parse_of_decimal (h : DecimalText text whole fraction) (hpos : 0 < decimal whole fraction)
    (hle : decimal whole fraction ≤ 100) (out : PinbaPercentile) :
    pinba_parse_fractional_percentile text out = (true, ofDecimal whole fraction) := by
  have hbound := decimal_le_iff.mp hle
  have hscan : PercentileScan.scan text =
      some (PercentileScan.spelling whole fraction (fraction ≠ [])) :=
    PercentileScan.scan_iff.mpr ⟨whole, fraction, h.spelled, hbound, rfl⟩
  have hnil : text ≠ [] := by
    rintro rfl
    exact absurd h.head (by simp)
  have hnumber : (PercentileScan.spelling whole fraction (fraction ≠ [])).number ≠ 0 := by
    intro hzero
    apply decimal_pos_iff.mp hpos
    rw [← PercentileScan.number_spelling (decide (fraction ≠ [])) hbound h.short, hzero]
    rfl
  unfold pinba_parse_fractional_percentile
  rw [if_neg (by simp [hnil, h.head, h.last]), hscan]
  simp only
  rw [if_neg hnumber]
  rfl

/-- A text spells one number. -/
theorem decimalText_unique {whole' fraction' : Bytes} (h : DecimalText text whole fraction)
    (h' : DecimalText text whole' fraction') : whole = whole' ∧ fraction = fraction' := by
  have hspelled := h.spelled
  have hspelled' := h'.spelled
  obtain ⟨rfl, htail⟩ := Delimited.append_unique (fun c => is_digit c = true) h.whole_digits
    h'.whole_digits (by split <;> simp [is_digit]) (by split <;> simp [is_digit])
    (hspelled.text_eq.symm.trans hspelled'.text_eq)
  refine ⟨rfl, ?_⟩
  by_cases hnil : fraction = [] <;> by_cases hnil' : fraction' = [] <;> simp_all

/-- Accepted texts are decimal numbers. -/
theorem decimal_of_parse (h : pinba_parse_fractional_percentile text out = (true, p)) :
    ∃ whole fraction, DecimalText text whole fraction ∧ 0 < decimal whole fraction ∧
      decimal whole fraction ≤ 100 ∧ p = ofDecimal whole fraction := by
  unfold pinba_parse_fractional_percentile at h
  split at h
  · cases h
  · next hfront =>
    rw [not_or, not_or] at hfront
    obtain ⟨-, hhead, hlast⟩ := hfront
    split at h
    · cases h
    · next st hscan =>
      split at h
      · cases h
      · next hnumber =>
        obtain ⟨whole, fraction, hspelled, hbound, hst⟩ := PercentileScan.scan_iff.mp hscan
        have htext := hspelled.decimalText (by simpa using hhead) hlast
        have hpos : 0 < decimal whole fraction := by
          apply decimal_pos_iff.mpr
          intro hzero
          apply hnumber
          apply UInt64.toNat_inj.mp
          rw [hst, PercentileScan.number_spelling st.dot hbound hspelled.short, hzero]
          rfl
        have hle := decimal_le_iff.mpr hbound
        refine ⟨whole, fraction, htext, hpos, hle, ?_⟩
        calc p = _ := (Prod.ext_iff.mp h).2.symm
          _ = _ := by
            rw [hst]
            rfl

/-- A text is refused without touching `out`. -/
theorem parse_eq_false (h : (pinba_parse_fractional_percentile text out).1 = false) :
    (pinba_parse_fractional_percentile text out).2 = out := by
  unfold pinba_parse_fractional_percentile at h ⊢
  split
  · rfl
  · next hfront =>
    rw [if_neg hfront] at h
    split
    · rfl
    · next st hscan =>
      rw [hscan] at h
      simp only at h ⊢
      split
      · rfl
      · next hnumber => simp [hnumber] at h

/-- The percentile as the model of the comments stores it. -/
def toPercentile (p : PinbaPercentile) : Percentile := ⟨p.value, p.numerator.toNat, p.denominator.toNat⟩

/-- The parser over numbers without bounds is the one over machine words. -/
theorem parse_eq (text : Bytes) (out : PinbaPercentile) :
    PinbaEngine.pinba_parse_fractional_percentile text =
      if (pinba_parse_fractional_percentile text out).1 then
        some (pinba_parse_fractional_percentile text out).2.toPercentile
      else none := by
  have hnothing : Spelled [] [] [] false := ⟨rfl, by simp, by simp, fun _ => rfl, by simp⟩
  have hscan : scan_percentile text 0 1 0 false =
      (PercentileScan.scan text).map fun st => (st.number.toNat, st.scale.toNat) :=
    PercentileScan.scan_percentile_eq text hnothing (by decide)
  unfold PinbaEngine.pinba_parse_fractional_percentile pinba_parse_fractional_percentile
  by_cases hfront : text = [] ∨ !(text.head?.any is_digit) ∨ text.getLast? = some 46
  · rw [if_pos hfront, if_pos]
    · rfl
    · rcases hfront with rfl | hfront
      · exact .inl rfl
      · simpa using hfront
  · rw [if_neg hfront, if_neg (by simpa using fun h => hfront (.inr h)), hscan]
    cases hst : PercentileScan.scan text with
    | none => rfl
    | some st =>
      have hzero : st.number.toNat = 0 ↔ st.number = 0 := by
        rw [← UInt64.toNat_inj]
        rfl
      simp only [Option.map_some]
      by_cases hnumber : st.number = 0
      · simp [hnumber]
      · obtain ⟨whole, fraction, hspelled, hbound, heq⟩ := PercentileScan.scan_iff.mp hst
        have hdenominator : (100 * st.scale).toNat = 100 * st.scale.toNat := by
          rw [heq, PercentileScan.denominator_spelling st.dot hspelled.short,
            PercentileScan.scale_spelling st.dot hspelled.short]
        simp [hnumber, hzero, toPercentile, hdenominator]

end PinbaPercentile

end accept

namespace PinbaPercentile

/-- The parser accepts the decimal numbers above 0 and up to 100, and stores a hundredth of the
    number as a fraction over a power of ten. It leaves `out` alone when it refuses a text, and
    nothing that it computes on the way overflows, however long the text. -/
theorem fractional_percentile_grammar (text : Bytes) (out : PinbaPercentile) :
    ((pinba_parse_fractional_percentile text out).1 = true ↔ ∃ whole fraction,
      DecimalText text whole fraction ∧ 0 < decimal whole fraction ∧ decimal whole fraction ≤ 100) ∧
    (∀ whole fraction p, DecimalText text whole fraction →
      pinba_parse_fractional_percentile text out = (true, p) →
        (p.numerator.toNat / p.denominator.toNat : ℚ) = decimal whole fraction / 100 ∧
          p.denominator.toNat = 100 * 10 ^ fraction.length) ∧
    ((pinba_parse_fractional_percentile text out).1 = false →
      (pinba_parse_fractional_percentile text out).2 = out) ∧
    ∀ pre c, pre ++ [c] <+: text → ∀ st, PercentileScan.scan pre = some st → st.Fits c := by
  refine ⟨⟨?_, ?_⟩, ?_, parse_eq_false, ?_⟩
  · intro h
    obtain ⟨whole, fraction, htext, hpos, hle, -⟩ := decimal_of_parse (Prod.ext h rfl)
    exact ⟨whole, fraction, htext, hpos, hle⟩
  · rintro ⟨whole, fraction, htext, hpos, hle⟩
    rw [parse_of_decimal htext hpos hle]
  · intro whole fraction p htext hparse
    obtain ⟨whole', fraction', htext', -, hle, rfl⟩ := decimal_of_parse hparse
    obtain ⟨rfl, rfl⟩ := decimalText_unique htext htext'
    have hdenominator := @denominator_ofDecimal whole _ htext.short
    refine ⟨?_, hdenominator⟩
    rw [hdenominator, numerator_ofDecimal (decimal_le_iff.mp hle) htext.short, decimal]
    push_cast
    rw [div_div, mul_comm]
  · intro pre c _ st hscan
    exact PercentileScan.fits_of_scan hscan c

end PinbaPercentile

/-! ## Section 5: Ranks -/

section rank
variable (legacy : UInt64 → ℚ → UInt64)

/-- `pinba_percentile_rank`. `legacy` is the rank of the old notation, in floating point. -/
def pinba_percentile_rank (count : UInt64) (percentile : PinbaPercentile) : UInt64 :=
  if count = 0 then 0
  else if percentile.denominator ≠ 0 then
    let product : BitVec 128 := count.toBitVec.setWidth 128 * percentile.numerator.toBitVec.setWidth 128
    let denominator : BitVec 128 := percentile.denominator.toBitVec.setWidth 128
    ⟨((product + denominator - 1) / denominator).setWidth 64⟩
  else legacy count percentile.value

/-- `p` is what the parser makes of a text that spells `v`. -/
def Accepted (p : PinbaPercentile) (v : ℚ) : Prop :=
  ∃ text whole fraction out, DecimalText text whole fraction ∧ v = decimal whole fraction ∧
    PinbaPercentile.pinba_parse_fractional_percentile text out = (true, p)

variable {p q : PinbaPercentile} {v w : ℚ} {count : UInt64}

/-- The fraction of an accepted percentile. -/
structure Fraction (p : PinbaPercentile) (v : ℚ) : Prop where
  numerator_pos : 0 < p.numerator.toNat
  numerator_le : p.numerator.toNat ≤ p.denominator.toNat
  denominator_le : p.denominator.toNat ≤ 100000000000
  value : (p.numerator.toNat : ℚ) / p.denominator.toNat = v / 100

theorem Accepted.fraction (h : Accepted p v) : Fraction p v := by
  obtain ⟨text, whole, fraction, out, htext, rfl, hparse⟩ := h
  have hvalue := ((PinbaPercentile.fractional_percentile_grammar text out).2.1 _ _ p htext hparse).1
  obtain ⟨whole', fraction', htext', hpos, hle, rfl⟩ := PinbaPercentile.decimal_of_parse hparse
  obtain ⟨rfl, rfl⟩ := PinbaPercentile.decimalText_unique htext htext'
  have hbound := decimal_le_iff.mp hle
  have hscale := PercentileScan.scale_le htext.short
  have hnumerator := PinbaPercentile.numerator_ofDecimal hbound htext.short
  have hdenominator := @PinbaPercentile.denominator_ofDecimal whole _ htext.short
  refine ⟨?_, ?_, ?_, hvalue⟩
  · rw [hnumerator]
    exact Nat.pos_of_ne_zero (decimal_pos_iff.mp hpos)
  · rw [hnumerator, hdenominator]
    exact hbound
  · omega

/-- A 64-bit word in 128 bits. -/
theorem toNat_wide (x : UInt64) : (x.toBitVec.setWidth 128).toNat = x.toNat := by
  have hlt := x.toNat_lt
  rw [BitVec.toNat_setWidth, UInt64.toNat_toBitVec]
  exact Nat.mod_eq_of_lt (by omega)

/-- The product of two words, rounded up by a third, fits 128 bits. -/
theorem wide_fits (h : Fraction p v) (count : UInt64) :
    count.toNat * p.numerator.toNat + p.denominator.toNat < 2 ^ 128 := by
  have hcount := count.toNat_lt
  have hle := h.numerator_le.trans h.denominator_le
  have hden := h.denominator_le
  calc count.toNat * p.numerator.toNat + p.denominator.toNat
      ≤ 2 ^ 64 * 100000000000 + 100000000000 := Nat.add_le_add (Nat.mul_le_mul hcount.le hle) hden
    _ < 2 ^ 128 := by norm_num

/-- A share of the samples is not more than all of them. -/
theorem rank_le (h : Fraction p v) (count : UInt64) :
    (count.toNat * p.numerator.toNat + p.denominator.toNat - 1) / p.denominator.toNat ≤ count.toNat := by
  have hpos : 0 < p.denominator.toNat := h.numerator_pos.trans_le h.numerator_le
  rw [← Nat.lt_add_one_iff, Nat.div_lt_iff_lt_mul hpos, Nat.add_mul, Nat.one_mul]
  have hmul := Nat.mul_le_mul_left count.toNat h.numerator_le
  omega

theorem rank_eq_div (h : Fraction p v) (count : UInt64) :
    (pinba_percentile_rank legacy count p).toNat =
      (count.toNat * p.numerator.toNat + p.denominator.toNat - 1) / p.denominator.toNat := by
  have hpos : 0 < p.denominator.toNat := h.numerator_pos.trans_le h.numerator_le
  have hden : p.denominator ≠ 0 := by
    intro hzero
    rw [hzero] at hpos
    exact absurd hpos (by decide)
  unfold pinba_percentile_rank
  by_cases hcount : count = 0
  · subst hcount
    rw [if_pos rfl]
    show 0 = _
    rw [eq_comm, Nat.div_eq_zero_iff]
    right
    show 0 * _ + _ - 1 < _
    omega
  · rw [if_neg hcount, if_pos hden]
    have hfits := wide_fits h count
    have hle := rank_le h count
    have hlt := count.toNat_lt
    show ((((count.toBitVec.setWidth 128 * p.numerator.toBitVec.setWidth 128) +
      p.denominator.toBitVec.setWidth 128 - 1) / p.denominator.toBitVec.setWidth 128).setWidth 64).toNat = _
    have hproduct : (count.toBitVec.setWidth 128 * p.numerator.toBitVec.setWidth 128).toNat =
        count.toNat * p.numerator.toNat := by
      rw [BitVec.toNat_mul, toNat_wide, toNat_wide, Nat.mod_eq_of_lt (by omega)]
    have hsum : ((count.toBitVec.setWidth 128 * p.numerator.toBitVec.setWidth 128) +
        p.denominator.toBitVec.setWidth 128).toNat =
        count.toNat * p.numerator.toNat + p.denominator.toNat := by
      rw [BitVec.toNat_add, hproduct, toNat_wide, Nat.mod_eq_of_lt hfits]
    have hone : (1 : BitVec 128) ≤ (count.toBitVec.setWidth 128 * p.numerator.toBitVec.setWidth 128) +
        p.denominator.toBitVec.setWidth 128 := by
      rw [BitVec.le_def, hsum]
      show 1 ≤ _
      omega
    rw [BitVec.toNat_setWidth, BitVec.toNat_udiv, BitVec.toNat_sub_of_le hone, hsum, toNat_wide]
    exact Nat.mod_eq_of_lt (by show (_ - 1) / _ < _; omega)

/-- The rank is the share of the samples, rounded up. -/
theorem rank_eq_ceil (h : Fraction p v) (count : UInt64) :
    (pinba_percentile_rank legacy count p).toNat = ⌈(count.toNat : ℚ) * v / 100⌉₊ := by
  have hpos : 0 < p.denominator.toNat := h.numerator_pos.trans_le h.numerator_le
  have hvalue : (count.toNat : ℚ) * v / 100 =
      (count.toNat * p.numerator.toNat : ℕ) / (p.denominator.toNat : ℕ) := by
    rw [mul_div_assoc, ← h.value]
    push_cast
    ring
  rw [rank_eq_div legacy h, hvalue, ← Nat.ceilDiv_eq_add_pred_div]
  apply eq_of_forall_ge_iff
  intro n
  rw [ceilDiv_le_iff_le_mul hpos, Nat.ceil_le, div_le_iff₀ (by exact_mod_cast hpos), mul_comm _ n]
  exact_mod_cast Iff.rfl

/-- Exact ranks of the percentiles that the parser accepts. -/
structure ExactRanks : Prop where
  /-- Neither the product nor the result is cut off. -/
  fits : ∀ p v, Accepted p v → ∀ count : UInt64,
    count.toNat * p.numerator.toNat + p.denominator.toNat < 2 ^ 128 ∧
      (count.toNat * p.numerator.toNat + p.denominator.toNat - 1) / p.denominator.toNat < 2 ^ 64
  ceil : ∀ p v, Accepted p v → ∀ count,
    (pinba_percentile_rank legacy count p).toNat = ⌈(count.toNat : ℚ) * v / 100⌉₊
  range : ∀ p v, Accepted p v → ∀ count, 1 ≤ count.toNat →
    1 ≤ (pinba_percentile_rank legacy count p).toNat ∧
      (pinba_percentile_rank legacy count p).toNat ≤ count.toNat
  mono : ∀ p v q w, Accepted p v → Accepted q w → v ≤ w → ∀ count count', count ≤ count' →
    pinba_percentile_rank legacy count p ≤ pinba_percentile_rank legacy count' q

theorem rank_mono (hp : Fraction p v) (hq : Fraction q w) (hv : 0 ≤ v) (hvw : v ≤ w) {count' : UInt64}
    (hcount : count ≤ count') :
    pinba_percentile_rank legacy count p ≤ pinba_percentile_rank legacy count' q := by
  rw [UInt64.le_iff_toNat_le, rank_eq_ceil legacy hp, rank_eq_ceil legacy hq]
  have hle : (count.toNat : ℚ) ≤ count'.toNat := by
    exact_mod_cast UInt64.le_iff_toNat_le.mp hcount
  gcongr

theorem rank_range (h : Fraction p v) (hv : 0 < v) (hcount : 1 ≤ count.toNat) :
    1 ≤ (pinba_percentile_rank legacy count p).toNat ∧
      (pinba_percentile_rank legacy count p).toNat ≤ count.toNat := by
  constructor
  · rw [rank_eq_ceil legacy h, Nat.one_le_ceil_iff]
    have : (1 : ℚ) ≤ count.toNat := by exact_mod_cast hcount
    positivity
  · rw [rank_eq_div legacy h]
    exact rank_le h count

theorem Accepted.pos (h : Accepted p v) : 0 < v := by
  obtain ⟨text, whole, fraction, out, htext, rfl, hparse⟩ := h
  obtain ⟨whole', fraction', htext', hpos, -, -⟩ := PinbaPercentile.decimal_of_parse hparse
  obtain ⟨rfl, rfl⟩ := PinbaPercentile.decimalText_unique htext htext'
  exact hpos

theorem exact_ranks : ExactRanks legacy where
  fits p v hp count := by
    refine ⟨wide_fits hp.fraction count, ?_⟩
    exact (rank_le hp.fraction count).trans_lt count.toNat_lt
  ceil p v hp count := rank_eq_ceil legacy hp.fraction count
  range p v hp count hcount := rank_range legacy hp.fraction hp.pos hcount
  mono p v q w hp hq hvw count count' hcount :=
    rank_mono legacy hp.fraction hq.fraction hp.pos.le hvw hcount

end rank

/-! ## Section 6: The bucket of a rank -/

/-- What `pinba_histogram_value` answers, before it interpolates inside of a bucket: the bucket with
    the samples up to its end and its own, the edge above all buckets, or 0 for an empty histogram. -/
inductive HistogramAnswer where
  | bucket (i : Nat) (num value : UInt64)
  | upper_edge
  | empty
deriving DecidableEq

/-- `pinba_lmap_get`: the count of a bucket, as the unsigned word that it is stored as. -/
def pinba_lmap_get (data : Histogram) (i : Nat) : UInt64 := UInt64.ofInt ((data.lookup i).getD 0)

/-- The loop of `pinba_histogram_value` over the rest of the buckets. -/
def find_bucket (data : Histogram) (percent_value : UInt64) : List Nat → UInt64 → HistogramAnswer
  -- the check for an empty report
  | [], num => if num = 0 then .empty else .upper_edge
  | i :: rest, num =>
    let value := pinba_lmap_get data i
    if percent_value ≤ num + value then .bucket i (num + value) value
    else find_bucket data percent_value rest (num + value)

/-- `pinba_histogram_value`. -/
def pinba_histogram_value (data : Histogram) (histogram_size : Nat) (percent_value : UInt64) :
    HistogramAnswer :=
  find_bucket data (if percent_value = 0 then 1 else percent_value) (List.range histogram_size) 0

namespace Histogram

open Cumulative

variable {data : Histogram} {size : Nat} {r : UInt64}

/-- The counts of the buckets. -/
def counts (data : Histogram) (i : Nat) : Nat := (pinba_lmap_get data i).toNat

/-- The number of all samples. -/
def total (data : Histogram) : Nat := keyedSum (fun v => (UInt64.ofInt v).toNat) data

theorem total_eq (h : ∀ b ∈ data, b < size) : data.total = below data.counts size := by
  rw [total, keyedSum_eq_sum_range _ _ h, below]
  apply Finset.sum_congr rfl
  intro i _
  unfold counts pinba_lmap_get
  cases data.lookup i <;> rfl

theorem counts_of_le (h : ∀ b ∈ data, b < size) {i : Nat} (hi : size ≤ i) : data.counts i = 0 := by
  have hnone : data.lookup i = none := by
    rw [AList.lookup_eq_none]
    intro hmem
    exact absurd (h i hmem) (Nat.not_lt.mpr hi)
  rw [counts, pinba_lmap_get, hnone]
  rfl

/-- One bucket of the loop adds its count, as no sum of counts wraps around. -/
theorem toNat_num (htotal : below data.counts size < 2 ^ 64) {k : Nat} (hk : k < size) {num : UInt64}
    (hnum : num.toNat = below data.counts k) :
    (num + pinba_lmap_get data k).toNat = below data.counts (k + 1) := by
  have hle : below data.counts (k + 1) ≤ below data.counts size := below_le _ hk
  rw [below_succ] at hle ⊢
  rw [UInt64.toNat_add, hnum]
  exact Nat.mod_eq_of_lt (hle.trans_lt htotal)

/-- The loop, from bucket `k` on. -/
theorem find_bucket_spec (htotal : below data.counts size < 2 ^ 64) (m k : Nat) (hk : k + m = size)
    (num : UInt64) (hnum : num.toNat = below data.counts k) (hbelow : below data.counts k < r.toNat) :
    (∃ b num', find_bucket data r (List.range' k m) num = .bucket b num' (pinba_lmap_get data b) ∧
        HasRank data.counts r.toNat b ∧ num'.toNat = below data.counts (b + 1)) ∨
      (below data.counts size < r.toNat ∧ find_bucket data r (List.range' k m) num =
        if below data.counts size = 0 then .empty else .upper_edge) := by
  induction m generalizing k num with
  | zero =>
    right
    subst hk
    refine ⟨hbelow, ?_⟩
    have hzero : num = 0 ↔ below data.counts k = 0 := by
      rw [← hnum, ← UInt64.toNat_inj]
      rfl
    simp [find_bucket, hzero]
  | succ m ih =>
    have hnum' := toNat_num htotal (show k < size by omega) hnum
    simp only [List.range'_succ, find_bucket]
    by_cases hreach : r ≤ num + pinba_lmap_get data k
    · left
      rw [if_pos hreach]
      rw [UInt64.le_iff_toNat_le, hnum'] at hreach
      exact ⟨k, _, rfl, ⟨hbelow, hreach⟩, hnum'⟩
    · rw [if_neg hreach]
      rw [UInt64.le_iff_toNat_le, hnum', Nat.not_le] at hreach
      exact ih (k + 1) (by omega) _ hnum' hreach

end Histogram

section select
open Cumulative

/-- The bucket of a rank, as the loop stops there. -/
structure Selected (data : Histogram) (size : Nat) (r : UInt64) (b : Nat) (num value : UInt64) : Prop where
  answer : pinba_histogram_value data size r = .bucket b num value
  lt : b < size
  reaches : r.toNat ≤ below data.counts (b + 1)
  /-- No bucket below it reaches the rank. -/
  smallest : ∀ b', r.toNat ≤ below data.counts (b' + 1) → b ≤ b'
  /-- The two numbers that the interpolation divides. -/
  num_eq : num.toNat = below data.counts (b + 1)
  value_eq : value.toNat = data.counts b
  value_ne_zero : value ≠ 0
  /-- It is the bucket of the sample with this rank, whatever the order that the samples came in. -/
  sample : ∀ xs : List Nat, (∀ i, xs.count i = data.counts i) →
    (xs.mergeSort (· ≤ ·))[r.toNat - 1]? = some b

/-- The buckets of all ranks of a histogram. -/
structure ExactBuckets (legacy : UInt64 → ℚ → UInt64) (data : Histogram) (size : Nat) : Prop where
  select : ∀ r : UInt64, 1 ≤ r.toNat → r.toNat ≤ data.total → ∃ b num value, Selected data size r b num value
  above : ∀ r : UInt64, data.total < r.toNat →
    pinba_histogram_value data size r = if data.total = 0 then .empty else .upper_edge
  /-- A higher percentile of as many samples lies in the same bucket or in one above it. -/
  mono : ∀ p v q w, Accepted p v → Accepted q w → v ≤ w → ∀ count : UInt64, 1 ≤ count.toNat →
    count.toNat ≤ data.total → ∃ b num value b' num' value',
      Selected data size (pinba_percentile_rank legacy count p) b num value ∧
        Selected data size (pinba_percentile_rank legacy count q) b' num' value' ∧ b ≤ b'

variable {data : Histogram} {size : Nat} {r : UInt64} {legacy : UInt64 → ℚ → UInt64}

theorem pinba_histogram_value_eq (hr : 1 ≤ r.toNat) :
    pinba_histogram_value data size r = find_bucket data r (List.range' 0 size) 0 := by
  have hne : r ≠ 0 := by
    rintro rfl
    exact absurd hr (by decide)
  rw [pinba_histogram_value, if_neg hne, List.range_eq_range']

theorem selected (hkeys : ∀ b ∈ data, b < size) (htotal : data.total < 2 ^ 64) (hr : 1 ≤ r.toNat)
    (hle : r.toNat ≤ data.total) : ∃ b num value, Selected data size r b num value := by
  have htotal' := Histogram.total_eq hkeys
  rw [htotal'] at htotal hle
  rcases Histogram.find_bucket_spec (r := r) htotal size 0 (Nat.zero_add size) 0 rfl hr with
    ⟨b, num, hanswer, hrank, hnum⟩ | ⟨hlt, -⟩
  · have hb : b < size := hrank.lt_of_le_below hle
    refine ⟨b, num, pinba_lmap_get data b, ?_, hb, hrank.le, fun b' => hrank.le_of_reaches, hnum, rfl,
      ?_, ?_⟩
    · rw [pinba_histogram_value_eq hr, hanswer]
    · intro hzero
      apply hrank.ne_zero
      rw [Histogram.counts, hzero]
      rfl
    · intro xs hxs
      refine sorted_getElem? (fun i => ?_) hrank hb
      rw [hxs]
      split
      · rfl
      · next hi => exact Histogram.counts_of_le hkeys (Nat.not_lt.mp hi)
  · exact absurd hle (Nat.not_le.mpr hlt)

theorem Selected.le {r' : UInt64} {b b' : Nat} {num value num' value' : UInt64}
    (h : Selected data size r b num value) (h' : Selected data size r' b' num' value') (hr : r ≤ r') :
    b ≤ b' :=
  h.smallest b' ((UInt64.le_iff_toNat_le.mp hr).trans h'.reaches)

theorem exact_buckets (hkeys : ∀ b ∈ data, b < size) (htotal : data.total < 2 ^ 64) :
    ExactBuckets legacy data size where
  select r hr hle := selected hkeys htotal hr hle
  above r hlt := by
    have htotal' := Histogram.total_eq hkeys
    rw [htotal'] at htotal hlt ⊢
    have hr : 1 ≤ r.toNat := Nat.one_le_of_lt hlt
    rcases Histogram.find_bucket_spec (r := r) htotal size 0 (Nat.zero_add size) 0 rfl hr with
      ⟨b, num, -, hrank, -⟩ | ⟨-, hanswer⟩
    · -- a bucket that reaches the rank would hold more than all samples
      have hle : below data.counts (b + 1) ≤ below data.counts size := by
        by_cases hb : b < size
        · exact below_le _ hb
        · have hge : below data.counts size ≤ below data.counts b := below_le _ (Nat.not_lt.mp hb)
          have hzero := Histogram.counts_of_le hkeys (Nat.not_lt.mp hb)
          exact absurd hzero hrank.ne_zero
      exact absurd (hrank.le.trans hle) (Nat.not_le.mpr hlt)
    · rw [pinba_histogram_value_eq hr, hanswer]
  mono p v q w hp hq hvw count hcount hle := by
    have hranks := exact_ranks legacy
    obtain ⟨hp1, hple⟩ := hranks.range p v hp count hcount
    obtain ⟨hq1, hqle⟩ := hranks.range q w hq count hcount
    obtain ⟨b, num, value, h⟩ := selected hkeys htotal hp1 (hple.trans hle)
    obtain ⟨b', num', value', h'⟩ := selected hkeys htotal hq1 (hqle.trans hle)
    exact ⟨b, num, value, b', num', value', h, h', h.le h' (hranks.mono p v q w hp hq hvw count count
      (UInt64.le_iff_toNat_le.mpr le_rfl))⟩

end select

namespace PinbaPercentile

/-- The ranks of accepted percentiles are exact, and the loop over the buckets finds the bucket of a
    rank. A rank above all samples selects the upper edge, unless there are no samples at all. -/
theorem exact_percentiles (legacy : UInt64 → ℚ → UInt64) :
    ExactRanks legacy ∧ ∀ (data : Histogram) (histogram_size : Nat),
      (∀ b ∈ data, b < histogram_size) → data.total < 2 ^ 64 → ExactBuckets legacy data histogram_size :=
  ⟨exact_ranks legacy, fun _ _ hkeys htotal => exact_buckets hkeys htotal⟩

/-- Three samples in bucket 2 and one in bucket 5, of eight buckets. -/
theorem exact_percentiles_sparse : ∃ num value,
    Selected (AList.insert 5 1 (AList.insert 2 3 ∅)) 8 4 5 num value := by
  have hbuckets := (exact_percentiles fun count _ => count).2 (AList.insert 5 1 (AList.insert 2 3 ∅)) 8
    (by decide) (by decide)
  obtain ⟨b, num, value, h⟩ := hbuckets.select 4 (by decide) (by decide)
  have hb : b = 5 := by
    have hanswer := h.answer
    rw [show pinba_histogram_value _ 8 4 = .bucket 5 4 1 by decide] at hanswer
    exact (HistogramAnswer.bucket.inj hanswer).1.symm
  subst hb
  exact ⟨num, value, h⟩

/-- A rank above all samples does not select the upper edge of an empty histogram. And where the
    counts add up to 2 ^ 64 the sum wraps around to 0, so that a rank in reach finds no bucket. -/
theorem upper_edge_of_empty :
    ((∅ : Histogram).total < 1 ∧ pinba_histogram_value ∅ 4 1 ≠ .upper_edge) ∧
      let data : Histogram := AList.insert 1 (2 ^ 63) (AList.insert 0 (2 ^ 63) ∅)
      2 ^ 64 - 1 ≤ data.total ∧ ∀ b num value,
        pinba_histogram_value data 4 (2 ^ 64 - 1) ≠ .bucket b num value := by
  refine ⟨by decide, by decide +kernel, fun b num value => ?_⟩
  rw [show pinba_histogram_value _ 4 (2 ^ 64 - 1) = .empty by decide +kernel]
  nofun

end PinbaPercentile

end PinbaEngine
