import PinbaEngine.Keys
import PinbaEngine.Lib.Delimited

/-! # When row keys tell groups apart

    Two records belong in one row of a report exactly when the report's
    grouping fields agree. The report itself only compares the assembled keys,
    and the separators in a key may also occur inside the fields. This module
    determines for every kind with a composite key whether two different groups
    can end up in one row.

    - `Separated` lists what the fields that precede a separator must not
      contain. Groups that satisfy it are never merged (`group_eq_of_key_eq`).
    - `Unambiguous` names the kinds for which no field has to satisfy anything.
      For every other kind there are two groups with one key
      (`exists_collision`).
-/

namespace PinbaEngine

open Delimited

/-! ## Section 1: Kinds with a composite key -/

/-- The report kinds whose key is assembled from several fields. The `N` kinds
    carry the number of their tag parameters. -/
inductive CompositeKind where
  | report4 | report5 | report6 | report7 | report9 | report10 | report11 | report12
  | report14 | report15 | report16 | report17 | report18
  | tag2_info | tag2_report | tag_report2 | tag2_report2
  | tagN_info (n : Nat) | tagN_report (n : Nat) | tagN_report2 (n : Nat)
  | rtag2_info | rtag2_report
  | rtagN_info (n : Nat) | rtagN_report (n : Nat)
deriving DecidableEq

/-- The values of the grouping fields of one group. -/
structure Group where
  texts : List Bytes
  status : Option UInt16
deriving DecidableEq

namespace CompositeKind

/-- Number of tag values that enter the key. -/
abbrev arity : CompositeKind → Nat
  | tag_report2 => 1
  | tag2_info | tag2_report | tag2_report2 | rtag2_info | rtag2_report => 2
  | tagN_info n | tagN_report n | tagN_report2 n | rtagN_info n | rtagN_report n => n
  | _ => 0

/-- The map keys that the add function uses, outermost map first. -/
def key : (k : CompositeKind) → RequestData → (Fin k.arity → Word) → List Bytes
  | report4, d, _ => [report4_index d]
  | report5, d, _ => [report5_index d]
  | report6, d, _ => [report6_index d]
  | report7, d, _ => [report7_index d]
  | report9, d, _ => [report9_index d]
  | report10, d, _ => [report10_index d]
  | report11, d, _ => [report11_index d]
  | report12, d, _ => [report12_index d]
  | report14, d, _ => [report14_index d]
  | report15, d, _ => [report15_index d]
  | report16, d, _ => [report16_index d]
  | report17, d, _ => [report17_index d]
  | report18, d, _ => [report18_index d]
  | tag2_info, _, ws => [tag2_info_index (ws 0) (ws 1)]
  | tag2_report, d, ws => [d.script_name.bytes, tag2_report_index (ws 0) (ws 1)]
  | tag_report2, d, ws => [d.script_name.bytes, tag_report2_index d (ws 0)]
  | tag2_report2, d, ws => [d.script_name.bytes, tag2_report2_index d (ws 0) (ws 1)]
  | tagN_info _, _, ws => [tagN_index (List.ofFn ws)]
  | tagN_report _, d, ws => [d.script_name.bytes, tagN_index (List.ofFn ws)]
  | tagN_report2 _, d, ws => [d.script_name.bytes, tagN_report2_index d (List.ofFn ws)]
  | rtag2_info, _, ws => [rtag2_index (ws 0) (ws 1)]
  | rtag2_report, d, ws => [d.hostname.bytes, rtag2_index (ws 0) (ws 1)]
  | rtagN_info _, _, ws => [tagN_index (List.ofFn ws)]
  | rtagN_report _, d, ws => [d.hostname.bytes, tagN_index (List.ofFn ws)]

/-- The texts of the tag values. -/
def values {n : Nat} (ws : Fin n → Word) : List Bytes := List.ofFn fun i => (ws i).str.bytes

/-- The grouping fields of the kind. -/
def group : (k : CompositeKind) → RequestData → (Fin k.arity → Word) → Group
  | report4, d, _ => ⟨[d.server_name.bytes, d.script_name.bytes], none⟩
  | report5, d, _ => ⟨[d.hostname.bytes, d.script_name.bytes], none⟩
  | report6, d, _ => ⟨[d.hostname.bytes, d.server_name.bytes], none⟩
  | report7, d, _ => ⟨[d.hostname.bytes, d.server_name.bytes, d.script_name.bytes], none⟩
  | report9, d, _ => ⟨[d.script_name.bytes], some d.status⟩
  | report10, d, _ => ⟨[d.server_name.bytes], some d.status⟩
  | report11, d, _ => ⟨[d.hostname.bytes], some d.status⟩
  | report12, d, _ => ⟨[d.hostname.bytes, d.script_name.bytes], some d.status⟩
  | report14, d, _ => ⟨[d.schema.bytes, d.script_name.bytes], none⟩
  | report15, d, _ => ⟨[d.schema.bytes, d.server_name.bytes], none⟩
  | report16, d, _ => ⟨[d.schema.bytes, d.hostname.bytes], none⟩
  | report17, d, _ => ⟨[d.schema.bytes, d.hostname.bytes, d.script_name.bytes], none⟩
  | report18, d, _ => ⟨[d.schema.bytes, d.hostname.bytes], some d.status⟩
  | tag2_info, _, ws | rtag2_info, _, ws => ⟨values ws, none⟩
  | tagN_info _, _, ws | rtagN_info _, _, ws => ⟨values ws, none⟩
  | tag2_report, d, ws => ⟨d.script_name.bytes :: values ws, none⟩
  | tagN_report _, d, ws => ⟨d.script_name.bytes :: values ws, none⟩
  | rtag2_report, d, ws => ⟨d.hostname.bytes :: values ws, none⟩
  | rtagN_report _, d, ws => ⟨d.hostname.bytes :: values ws, none⟩
  | tag_report2, d, ws | tag2_report2, d, ws =>
    ⟨d.script_name.bytes :: d.hostname.bytes :: d.server_name.bytes :: values ws, none⟩
  | tagN_report2 _, d, ws =>
    ⟨d.script_name.bytes :: d.hostname.bytes :: d.server_name.bytes :: values ws, none⟩

/-- The keys as plain concatenations. -/
def text : (k : CompositeKind) → RequestData → (Fin k.arity → Word) → List Bytes
  | report4, d, _ => [d.server_name.bytes ++ slash :: d.script_name.bytes]
  | report5, d, _ => [d.hostname.bytes ++ slash :: d.script_name.bytes]
  | report6, d, _ => [d.hostname.bytes ++ slash :: d.server_name.bytes]
  | report7, d, _ =>
    [d.hostname.bytes ++ colon :: (d.server_name.bytes ++ slash :: d.script_name.bytes)]
  | report9, d, _ => [sprintf_u d.status.toNat ++ colon :: d.script_name.bytes]
  | report10, d, _ => [sprintf_u d.status.toNat ++ d.server_name.bytes]
  | report11, d, _ => [sprintf_u d.status.toNat ++ d.hostname.bytes]
  | report12, d, _ =>
    [sprintf_u d.status.toNat ++ (d.hostname.bytes ++ slash :: d.script_name.bytes)]
  | report14, d, _ => [d.schema.bytes ++ colon :: d.script_name.bytes]
  | report15, d, _ => [d.schema.bytes ++ colon :: d.server_name.bytes]
  | report16, d, _ => [d.schema.bytes ++ colon :: d.hostname.bytes]
  | report17, d, _ =>
    [d.schema.bytes ++ slash :: (d.hostname.bytes ++ slash :: d.script_name.bytes)]
  | report18, d, _ =>
    [sprintf_u d.status.toNat ++ colon :: (d.schema.bytes ++ slash :: d.hostname.bytes)]
  | tag2_info, _, ws | rtag2_info, _, ws => [(ws 0).str.bytes ++ bar :: (ws 1).str.bytes]
  | tag2_report, d, ws => [d.script_name.bytes, (ws 0).str.bytes ++ bar :: (ws 1).str.bytes]
  | rtag2_report, d, ws => [d.hostname.bytes, (ws 0).str.bytes ++ bar :: (ws 1).str.bytes]
  | tag_report2, d, ws =>
    [d.script_name.bytes,
      d.hostname.bytes ++ bar :: (d.server_name.bytes ++ bar :: (ws 0).str.bytes)]
  | tag2_report2, d, ws =>
    [d.script_name.bytes,
      d.hostname.bytes ++ bar :: (d.server_name.bytes ++ bar ::
        ((ws 0).str.bytes ++ bar :: (ws 1).str.bytes))]
  | tagN_info _, _, ws | rtagN_info _, _, ws => [terminated bar (values ws)]
  | tagN_report _, d, ws => [d.script_name.bytes, terminated bar (values ws)]
  | rtagN_report _, d, ws => [d.hostname.bytes, terminated bar (values ws)]
  | tagN_report2 _, d, ws =>
    [d.script_name.bytes,
      d.hostname.bytes ++ bar :: (d.server_name.bytes ++ bar :: terminated bar (values ws))]

theorem values_eq_map {n : Nat} (ws : Fin n → Word) :
    values ws = (List.ofFn ws).map fun w => w.str.bytes := by
  rw [values, List.map_ofFn]
  rfl

theorem tagN_index_eq {n : Nat} (ws : Fin n → Word) :
    tagN_index (List.ofFn ws) = terminated bar (values ws) := by
  rw [tagN_index, append_words_eq, List.nil_append, values_eq_map, terminated, List.flatMap_map]

theorem tagN_report2_index_eq {n : Nat} (d : RequestData) (ws : Fin n → Word) :
    tagN_report2_index d (List.ofFn ws) =
      d.hostname.bytes ++ bar :: (d.server_name.bytes ++ bar :: terminated bar (values ws)) := by
  rw [tagN_report2_index, append_words_eq, values_eq_map, terminated, List.flatMap_map]
  simp

/-- No composite key is truncated. -/
theorem key_eq_text (k : CompositeKind) (d : RequestData) (ws : Fin k.arity → Word) :
    k.key d ws = k.text d ws := by
  -- no part is long enough for a truncation
  have hscript := d.script_name.length_lt
  have hserver := d.server_name.length_lt
  have hhost := d.hostname.length_lt
  have hschema := d.schema.length_lt
  have hstatus := length_sprintf_u d.status
  simp at hscript hserver hhost hschema
  cases k with
  | report4 | report5 | report6 | report14 | report15 | report16 =>
    exact congrArg ([·]) (index2_eq (by simp; omega))
  | report7 | report17 => exact congrArg ([·]) (index3_eq (by simp; omega))
  | report9 =>
    simp only [key, text, report9_index]
    rw [append_truncated_eq (by simp; omega), List.append_assoc]
    rfl
  | report10 =>
    simp only [key, text, report10_index]
    rw [append_truncated_eq (by simp; omega)]
  | report11 =>
    simp only [key, text, report11_index]
    rw [append_truncated_eq (by simp; omega)]
  | report12 =>
    simp (disch := simp <;> omega) only
      [key, text, report12_index, append_truncated_eq, append_char_eq]
    simp
  | report18 =>
    simp (disch := simp <;> omega) only
      [key, text, report18_index, append_truncated_eq, append_char_eq]
    simp
  | tag2_info => exact congrArg ([·]) (tag2_info_index_eq (ws (0 : Fin 2)) (ws (1 : Fin 2)))
  | rtag2_info => exact congrArg ([·]) (rtag2_index_eq (ws (0 : Fin 2)) (ws (1 : Fin 2)))
  | tag2_report =>
    simp only [key, text]
    rw [tag2_report_index_eq]
  | rtag2_report =>
    simp only [key, text]
    rw [rtag2_index_eq]
  | tag_report2 =>
    simp only [key, text]
    rw [tag_report2_index_eq]
  | tag2_report2 =>
    simp only [key, text]
    rw [tag2_report2_index_eq]
  | tagN_info n | rtagN_info n => exact congrArg ([·]) (tagN_index_eq ws)
  | tagN_report n => exact congrArg ([d.script_name.bytes, ·]) (tagN_index_eq ws)
  | rtagN_report n => exact congrArg ([d.hostname.bytes, ·]) (tagN_index_eq ws)
  | tagN_report2 n => exact congrArg ([d.script_name.bytes, ·]) (tagN_report2_index_eq d ws)

/-! ## Section 2: What separated fields look like -/

/-- A decimal digit. -/
def IsDigit (b : UInt8) : Prop := 48 ≤ b ∧ b ≤ 57

instance (b : UInt8) : Decidable (IsDigit b) := inferInstanceAs (Decidable (_ ∧ _))

/-- What keeps the fields of a group apart in the key: a field that is followed
    by a separator does not contain it, and a field that directly follows the
    status does not begin with a digit. -/
def Separated : (k : CompositeKind) → RequestData → (Fin k.arity → Word) → Prop
  | report4, d, _ => slash ∉ d.server_name.bytes
  | report5, d, _ | report6, d, _ => slash ∉ d.hostname.bytes
  | report7, d, _ => colon ∉ d.hostname.bytes ∧ slash ∉ d.server_name.bytes
  | report9, _, _ => True
  | report10, d, _ => ∀ b ∈ d.server_name.bytes.head?, ¬ IsDigit b
  | report11, d, _ => ∀ b ∈ d.hostname.bytes.head?, ¬ IsDigit b
  | report12, d, _ => (∀ b ∈ d.hostname.bytes.head?, ¬ IsDigit b) ∧ slash ∉ d.hostname.bytes
  | report14, d, _ | report15, d, _ | report16, d, _ => colon ∉ d.schema.bytes
  | report17, d, _ => slash ∉ d.schema.bytes ∧ slash ∉ d.hostname.bytes
  | report18, d, _ => slash ∉ d.schema.bytes
  | tag2_info, _, ws | tag2_report, _, ws | rtag2_info, _, ws | rtag2_report, _, ws =>
    bar ∉ (ws 0).str.bytes
  | tag_report2, d, _ => bar ∉ d.hostname.bytes ∧ bar ∉ d.server_name.bytes
  | tag2_report2, d, ws =>
    bar ∉ d.hostname.bytes ∧ bar ∉ d.server_name.bytes ∧ bar ∉ (ws 0).str.bytes
  | tagN_info _, _, ws | tagN_report _, _, ws | rtagN_info _, _, ws | rtagN_report _, _, ws =>
    ∀ w ∈ (values ws).dropLast, bar ∉ w
  | tagN_report2 _, d, ws =>
    bar ∉ d.hostname.bytes ∧ bar ∉ d.server_name.bytes ∧ ∀ w ∈ (values ws).dropLast, bar ∉ w

/-! ### The status prefix -/

theorem toNat_of_mem_toDigits {n : Nat} {c : Char} (hc : c ∈ Nat.toDigits 10 n) :
    48 ≤ c.toNat ∧ c.toNat ≤ 57 := by
  have hd := Nat.isDigit_of_mem_toDigits (by decide) (by decide) hc
  simpa [Char.isDigit, UInt32.le_iff_toNat_le] using hd

theorem isDigit_of_mem_sprintf_u {n : Nat} {b : UInt8} (hb : b ∈ sprintf_u n) : IsDigit b := by
  obtain ⟨c, hc, rfl⟩ := List.mem_map.mp hb
  have hd := toNat_of_mem_toDigits hc
  have hmod : c.toNat % 256 = c.toNat := Nat.mod_eq_of_lt (by omega)
  constructor <;> simp [UInt8.le_iff_toNat_le, hmod] <;> omega

/-- Reading the digits back. -/
theorem decode_sprintf_u (n : Nat) :
    (sprintf_u n).map (fun b => Char.ofNat b.toNat) = Nat.toDigits 10 n := by
  rw [sprintf_u, List.map_map]
  conv_rhs => rw [← List.map_id (Nat.toDigits 10 n)]
  apply List.map_congr_left
  intro c hc
  have hd := toNat_of_mem_toDigits hc
  have hmod : c.toNat % 256 = c.toNat := Nat.mod_eq_of_lt (by omega)
  simp [hmod]

theorem sprintf_u_injective {m n : Nat} (h : sprintf_u m = sprintf_u n) : m = n := by
  have hd : Nat.toDigits 10 m = Nat.toDigits 10 n := by
    rw [← decode_sprintf_u, h, decode_sprintf_u]
  rw [← Nat.ofDigitChars_ten_toDigits (n := m), hd, Nat.ofDigitChars_ten_toDigits]

/-- The status is read off a key whose next byte is not a digit. -/
theorem status_unique {s s' : UInt16} {b b' : Bytes} (hb : ∀ x ∈ b.head?, ¬ IsDigit x)
    (hb' : ∀ x ∈ b'.head?, ¬ IsDigit x)
    (h : sprintf_u s.toNat ++ b = sprintf_u s'.toNat ++ b') : s = s' ∧ b = b' := by
  obtain ⟨hs, hb⟩ := append_unique IsDigit (fun _ => isDigit_of_mem_sprintf_u)
    (fun _ => isDigit_of_mem_sprintf_u) hb hb' h
  exact ⟨UInt16.toNat_inj.mp (sprintf_u_injective hs), hb⟩

theorem not_digit_cons {c : UInt8} {b : Bytes} (hc : ¬ IsDigit c) :
    ∀ x ∈ (c :: b).head?, ¬ IsDigit x := by
  simpa using hc

theorem not_digit_append {a b : Bytes} {c : UInt8} (ha : ∀ x ∈ a.head?, ¬ IsDigit x)
    (hc : ¬ IsDigit c) : ∀ x ∈ (a ++ c :: b).head?, ¬ IsDigit x := by
  cases a with
  | nil => simpa using hc
  | cons y a => simpa using ha

/-! ## Section 3: Separated groups are never merged -/

theorem group_eq_of_key_eq (k : CompositeKind) {d d' : RequestData} {ws ws' : Fin k.arity → Word}
    (hs : k.Separated d ws) (hs' : k.Separated d' ws') (h : k.key d ws = k.key d' ws') :
    k.group d ws = k.group d' ws' := by
  have hslash : ¬ IsDigit slash := by decide
  have hcolon : ¬ IsDigit colon := by decide
  rw [key_eq_text, key_eq_text] at h
  cases k with
  -- each field ends at the first separator
  | report4 | report5 | report6 | report14 | report15 | report16 =>
    obtain ⟨h1, h2⟩ := split_unique hs hs' (List.singleton_inj.mp h)
    simp [group, h1, h2]
  | report7 | report17 =>
    obtain ⟨h1, htl⟩ := split_unique hs.1 hs'.1 (List.singleton_inj.mp h)
    obtain ⟨h2, h3⟩ := split_unique hs.2 hs'.2 htl
    simp [group, h1, h2, h3]
  -- the status ends at the first character that is no digit
  | report9 =>
    obtain ⟨h1, htl⟩ := status_unique (not_digit_cons hcolon) (not_digit_cons hcolon)
      (List.singleton_inj.mp h)
    simp [group, h1, (List.cons.inj htl).2]
  | report10 | report11 =>
    obtain ⟨h1, h2⟩ := status_unique hs hs' (List.singleton_inj.mp h)
    simp [group, h1, h2]
  | report12 =>
    obtain ⟨h1, htl⟩ := status_unique (not_digit_append hs.1 hslash)
      (not_digit_append hs'.1 hslash) (List.singleton_inj.mp h)
    obtain ⟨h2, h3⟩ := split_unique hs.2 hs'.2 htl
    simp [group, h1, h2, h3]
  | report18 =>
    obtain ⟨h1, htl⟩ := status_unique (not_digit_cons hcolon) (not_digit_cons hcolon)
      (List.singleton_inj.mp h)
    obtain ⟨h2, h3⟩ := split_unique hs hs' (List.cons.inj htl).2
    simp [group, h1, h2, h3]
  | tag2_info | rtag2_info =>
    obtain ⟨h1, h2⟩ := split_unique hs hs' (List.singleton_inj.mp h)
    simp [group, values, h1, h2]
  | tag2_report | rtag2_report =>
    simp only [text, List.cons.injEq, and_true] at h
    obtain ⟨h1, h2⟩ := split_unique hs hs' h.2
    simp [group, values, h.1, h1, h2]
  | tag_report2 =>
    simp only [text, List.cons.injEq, and_true] at h
    obtain ⟨h1, htl⟩ := split_unique hs.1 hs'.1 h.2
    obtain ⟨h2, h3⟩ := split_unique hs.2 hs'.2 htl
    simp [group, values, h.1, h1, h2, h3]
  | tag2_report2 =>
    simp only [text, List.cons.injEq, and_true] at h
    obtain ⟨h1, htl⟩ := split_unique hs.1 hs'.1 h.2
    obtain ⟨h2, htl⟩ := split_unique hs.2.1 hs'.2.1 htl
    obtain ⟨h3, h4⟩ := split_unique hs.2.2 hs'.2.2 htl
    simp [group, values, h.1, h1, h2, h3, h4]
  -- every value is followed by a bar
  | tagN_info n | rtagN_info n =>
    have hv := terminated_unique (by simp [values]) hs hs' (List.singleton_inj.mp h)
    simp [group, hv]
  | tagN_report n | rtagN_report n =>
    simp only [text, List.cons.injEq, and_true] at h
    have hv := terminated_unique (by simp [values]) hs hs' h.2
    simp [group, h.1, hv]
  | tagN_report2 n =>
    simp only [text, List.cons.injEq, and_true] at h
    obtain ⟨h1, htl⟩ := split_unique hs.1 hs'.1 h.2
    obtain ⟨h2, htl⟩ := split_unique hs.2.1 hs'.2.1 htl
    have hv := terminated_unique (by simp [values]) hs.2.2 hs'.2.2 htl
    simp [group, h.1, h1, h2, hv]

/-! ## Section 4: Which kinds can merge two groups -/

/-- The kinds whose key determines the group whatever the fields contain. -/
def Unambiguous : CompositeKind → Prop
  | report9 => True
  | tagN_info n | tagN_report n | rtagN_info n | rtagN_report n => n ≤ 1
  | _ => False

theorem separated_of_unambiguous {k : CompositeKind} (hk : k.Unambiguous) (d : RequestData)
    (ws : Fin k.arity → Word) : k.Separated d ws := by
  cases k with
  | report9 => trivial
  | tagN_info n | tagN_report n | rtagN_info n | rtagN_report n =>
    intro w hw
    have hlen : (values ws).dropLast.length = 0 := by
      have hn : n ≤ 1 := hk
      rw [List.length_dropLast, values, List.length_ofFn]
      exact Nat.sub_eq_zero_of_le hn
    rw [List.eq_nil_of_length_eq_zero hlen] at hw
    exact absurd hw (by simp)
  | _ => exact hk.elim

/-- A word with a one-byte text. -/
def oneByteWord (b : UInt8) (hb : b ≠ 0) : Word := ⟨1, ⟨[b], by simp, by simpa using hb.symm⟩⟩

/-- Empty words, except for a separator as the word at position `j`. -/
def barAt (j : Nat) {n : Nat} (i : Fin n) : Word :=
  if i.val = j then oneByteWord bar (by decide) else default

theorem values_barAt_zero (n : Nat) :
    values (barAt 0 : Fin (n + 2) → Word) = [bar] :: [] :: List.ofFn fun _ : Fin n => [] := by
  simp only [values, List.ofFn_succ]
  congr 2

theorem values_barAt_one (n : Nat) :
    values (barAt 1 : Fin (n + 2) → Word) = [] :: [bar] :: List.ofFn fun _ : Fin n => [] := by
  simp only [values, List.ofFn_succ]
  congr 2

/-- Terminating every word does not tell the two lists apart. -/
theorem terminated_barAt (n : Nat) :
    terminated bar (values (barAt 0 : Fin (n + 2) → Word)) =
      terminated bar (values (barAt 1 : Fin (n + 2) → Word)) := by
  rw [values_barAt_zero, values_barAt_one]
  simp

theorem values_barAt_ne (n : Nat) :
    values (barAt 0 : Fin (n + 2) → Word) ≠ values (barAt 1 : Fin (n + 2) → Word) := by
  rw [values_barAt_zero, values_barAt_one]
  simp

/-- A one-byte string. -/
def oneByte {size : Nat} (b : UInt8) (hb : b ≠ 0) (hs : 1 < size) : CString size :=
  ⟨[b], hs, by simpa using hb.symm⟩

/-- Every other kind files two different groups under one key: the separator
    moves from one field into the next. -/
theorem exists_collision {k : CompositeKind} (hk : ¬ k.Unambiguous) :
    ∃ (d d' : RequestData) (ws ws' : Fin k.arity → Word),
      k.key d ws = k.key d' ws' ∧ k.group d ws ≠ k.group d' ws' := by
  let e : RequestData := default
  let slashHost : RequestData := { e with hostname := oneByte slash (by decide) (by decide) }
  let slashServer : RequestData := { e with server_name := oneByte slash (by decide) (by decide) }
  let slashScript : RequestData := { e with script_name := oneByte slash (by decide) (by decide) }
  let slashSchema : RequestData := { e with schema := oneByte slash (by decide) (by decide) }
  let colonHost : RequestData := { e with hostname := oneByte colon (by decide) (by decide) }
  let colonServer : RequestData := { e with server_name := oneByte colon (by decide) (by decide) }
  let colonScript : RequestData := { e with script_name := oneByte colon (by decide) (by decide) }
  let colonSchema : RequestData := { e with schema := oneByte colon (by decide) (by decide) }
  let barHost : RequestData := { e with hostname := oneByte bar (by decide) (by decide) }
  let barServer : RequestData := { e with server_name := oneByte bar (by decide) (by decide) }
  -- status 1 followed by a name that starts with the digit 1, against status 11
  let status11 : RequestData := { e with status := 11 }
  let oneServer : RequestData :=
    { e with status := 1, server_name := oneByte 49 (by decide) (by decide) }
  let oneHost : RequestData := { e with status := 1, hostname := oneByte 49 (by decide) (by decide) }
  let none2 : Fin 2 → Word := fun _ => default
  cases k with
  | report9 => exact absurd trivial hk
  | report4 => exact ⟨slashServer, slashScript, Fin.elim0, Fin.elim0, by decide, by decide⟩
  | report5 => exact ⟨slashHost, slashScript, Fin.elim0, Fin.elim0, by decide, by decide⟩
  | report6 => exact ⟨slashHost, slashServer, Fin.elim0, Fin.elim0, by decide, by decide⟩
  | report7 => exact ⟨colonHost, colonServer, Fin.elim0, Fin.elim0, by decide, by decide⟩
  | report10 => exact ⟨oneServer, status11, Fin.elim0, Fin.elim0, by decide, by decide⟩
  | report11 => exact ⟨oneHost, status11, Fin.elim0, Fin.elim0, by decide, by decide⟩
  | report12 => exact ⟨oneHost, status11, Fin.elim0, Fin.elim0, by decide, by decide⟩
  | report14 => exact ⟨colonSchema, colonScript, Fin.elim0, Fin.elim0, by decide, by decide⟩
  | report15 => exact ⟨colonSchema, colonServer, Fin.elim0, Fin.elim0, by decide, by decide⟩
  | report16 => exact ⟨colonSchema, colonHost, Fin.elim0, Fin.elim0, by decide, by decide⟩
  | report17 => exact ⟨slashSchema, slashHost, Fin.elim0, Fin.elim0, by decide, by decide⟩
  | report18 => exact ⟨slashSchema, slashHost, Fin.elim0, Fin.elim0, by decide, by decide⟩
  | tag2_info | tag2_report | rtag2_info | rtag2_report =>
    exact ⟨e, e, barAt 0, barAt 1, by decide, by decide⟩
  | tag_report2 => exact ⟨barHost, barServer, fun _ => default, fun _ => default, by decide, by decide⟩
  | tag2_report2 => exact ⟨barHost, barServer, none2, none2, by decide, by decide⟩
  | tagN_report2 n =>
    refine ⟨barHost, barServer, fun _ => default, fun _ => default, ?_, ?_⟩
    · rw [key_eq_text, key_eq_text]
      rfl
    · simp [group, barHost, barServer, e, oneByte, default]
  | tagN_info n | rtagN_info n | tagN_report n | rtagN_report n =>
    obtain ⟨m, rfl⟩ : ∃ m, n = m + 2 := ⟨n - 2, by have : ¬ n ≤ 1 := hk; omega⟩
    refine ⟨e, e, barAt 0, barAt 1, ?_, ?_⟩
    · rw [key_eq_text, key_eq_text]
      simp [text, terminated_barAt]
    · simp [group, values_barAt_ne]

/-- A kind never merges two groups exactly if it is unambiguous; and whatever
    the kind, two groups with separated fields are never merged. -/
theorem key_injective_iff_unambiguous (k : CompositeKind) :
    ((∀ (d d' : RequestData) (ws ws' : Fin k.arity → Word),
      k.key d ws = k.key d' ws' → k.group d ws = k.group d' ws') ↔ k.Unambiguous) ∧
    (∀ (d d' : RequestData) (ws ws' : Fin k.arity → Word),
      k.Separated d ws → k.Separated d' ws' →
        k.key d ws = k.key d' ws' → k.group d ws = k.group d' ws') := by
  constructor
  · constructor
    · intro hinj
      by_contra hk
      obtain ⟨d, d', ws, ws', hkey, hgroup⟩ := exists_collision hk
      exact hgroup (hinj d d' ws ws' hkey)
    · intro hk d d' ws ws' hkey
      exact group_eq_of_key_eq k (separated_of_unambiguous hk d ws)
        (separated_of_unambiguous hk d' ws') hkey
  · intro d d' ws ws' hs hs' hkey
    exact group_eq_of_key_eq k hs hs' hkey

/-- Tag values `a|b` and `c` share the row of `a` and `b|c` in `tag2_info`. -/
theorem tag2_info_merges_groups :
    let left : Fin 2 → Word := fun i =>
      if i = 0 then ⟨1, ⟨[97, 124, 98], by decide, by decide⟩⟩
      else ⟨2, ⟨[99], by decide, by decide⟩⟩
    let right : Fin 2 → Word := fun i =>
      if i = 0 then ⟨3, ⟨[97], by decide, by decide⟩⟩
      else ⟨4, ⟨[98, 124, 99], by decide, by decide⟩⟩
    tag2_info.key default left = tag2_info.key default right ∧
      tag2_info.group default left ≠ tag2_info.group default right := by
  decide

end CompositeKind

end PinbaEngine
