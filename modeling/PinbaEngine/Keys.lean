import Mathlib.Data.List.Basic
import PinbaEngine.Types

/-! # Row keys

    Every report files its rows under a string that it assembles from the
    grouping fields of a record, in a buffer of fixed size. This module follows
    the assembly of each kind byte by byte: the bounded copies of `pinba.h`, the
    separators, and the buffer sizes declared by the add functions of
    `pinba_update_report.h` and `data.cc`.

    A buffer under construction is the list of the bytes before `index_len`.
    Fields are limited to their array sizes, and with that no key is ever
    truncated: Section 4 gives the plain concatenation for each kind.
-/

namespace PinbaEngine

/-! ## Section 1: Bounded buffers -/

/-- `pinba_copy_truncated`. -/
def pinba_copy_truncated (buf_size : Nat) (str : Bytes) : Bytes :=
  str.take (buf_size - 1)

/-- `pinba_append_truncated`, with `plus` the length of `buf`. -/
def pinba_append_truncated (buf_size : Nat) (buf str : Bytes) : Bytes :=
  if buf_size ≤ buf.length then buf
  else if buf_size - buf.length ≤ 1 then buf
  else buf ++ str.take (buf_size - buf.length - 1)

/-- `(index_len < sizeof(index) - 1) ? index[index_len++] = c : 0`. -/
def append_char (buf_size : Nat) (buf : Bytes) (c : UInt8) : Bytes :=
  if buf.length < buf_size - 1 then buf ++ [c] else buf

/-- `pinba_append_key_delimiter`. -/
def pinba_append_key_delimiter (buf_size : Nat) (buf : Bytes) : Bytes :=
  if buf_size ≤ buf.length + 1 then buf.take (buf_size - 1) else buf ++ [124]

/-- `sprintf(index, "%u", status)`. -/
def sprintf_u (n : Nat) : Bytes := (Nat.toDigits 10 n).map fun c => UInt8.ofNat c.toNat

def slash : UInt8 := 47
def colon : UInt8 := 58
def bar : UInt8 := 124

/-! ## Section 2: Keys of the base reports -/

/-- Two fields with a separator. -/
def index2 (size : Nat) (a : Bytes) (c : UInt8) (b : Bytes) : Bytes :=
  let index := pinba_copy_truncated size a
  let index := append_char size index c
  pinba_append_truncated size index b

/-- Three fields with two separators. -/
def index3 (size : Nat) (a : Bytes) (c₁ : UInt8) (b : Bytes) (c₂ : UInt8) (c : Bytes) : Bytes :=
  let index := pinba_copy_truncated size a
  let index := append_char size index c₁
  let index := pinba_append_truncated size index b
  let index := append_char size index c₂
  pinba_append_truncated size index c

section base
variable (d : RequestData)

def report1_index : Bytes := d.script_name.bytes

def report2_index : Bytes := d.server_name.bytes

def report3_index : Bytes := d.hostname.bytes

def report4_index : Bytes :=
  index2 (PINBA_SERVER_NAME_SIZE + PINBA_SCRIPT_NAME_SIZE + 1)
    d.server_name.bytes slash d.script_name.bytes

def report5_index : Bytes :=
  index2 (PINBA_HOSTNAME_SIZE + PINBA_SCRIPT_NAME_SIZE + 1)
    d.hostname.bytes slash d.script_name.bytes

def report6_index : Bytes :=
  index2 (PINBA_HOSTNAME_SIZE + PINBA_SERVER_NAME_SIZE + 1)
    d.hostname.bytes slash d.server_name.bytes

def report7_index : Bytes :=
  index3 (PINBA_HOSTNAME_SIZE + 1 + PINBA_SERVER_NAME_SIZE + 1 + PINBA_SCRIPT_NAME_SIZE)
    d.hostname.bytes colon d.server_name.bytes slash d.script_name.bytes

def report8_index : Bytes := sprintf_u d.status.toNat

def report9_index : Bytes :=
  pinba_append_truncated (PINBA_STATUS_SIZE + 1 + PINBA_SCRIPT_NAME_SIZE)
    (sprintf_u d.status.toNat ++ [colon]) d.script_name.bytes

def report10_index : Bytes :=
  pinba_append_truncated (PINBA_STATUS_SIZE + 1 + PINBA_SERVER_NAME_SIZE)
    (sprintf_u d.status.toNat) d.server_name.bytes

def report11_index : Bytes :=
  pinba_append_truncated (PINBA_HOSTNAME_SIZE + 1 + PINBA_STATUS_SIZE)
    (sprintf_u d.status.toNat) d.hostname.bytes

def report12_index : Bytes :=
  let size := PINBA_STATUS_SIZE + 1 + PINBA_HOSTNAME_SIZE + 1 + PINBA_SCRIPT_NAME_SIZE
  let index := pinba_append_truncated size (sprintf_u d.status.toNat) d.hostname.bytes
  let index := append_char size index slash
  pinba_append_truncated size index d.script_name.bytes

def report13_index : Bytes := d.schema.bytes

def report14_index : Bytes :=
  index2 (PINBA_SCHEMA_SIZE + PINBA_SCRIPT_NAME_SIZE + 1)
    d.schema.bytes colon d.script_name.bytes

def report15_index : Bytes :=
  index2 (PINBA_SCHEMA_SIZE + PINBA_SERVER_NAME_SIZE + 1)
    d.schema.bytes colon d.server_name.bytes

def report16_index : Bytes :=
  index2 (PINBA_SCHEMA_SIZE + PINBA_HOSTNAME_SIZE + 1)
    d.schema.bytes colon d.hostname.bytes

def report17_index : Bytes :=
  index3 (PINBA_SCHEMA_SIZE + 1 + PINBA_HOSTNAME_SIZE + 1 + PINBA_SCRIPT_NAME_SIZE)
    d.schema.bytes slash d.hostname.bytes slash d.script_name.bytes

def report18_index : Bytes :=
  let size := PINBA_SCHEMA_SIZE + 1 + PINBA_HOSTNAME_SIZE + 1 + PINBA_STATUS_SIZE
  let index := sprintf_u d.status.toNat ++ [colon]
  let index := pinba_append_truncated size index d.schema.bytes
  let index := append_char size index slash
  pinba_append_truncated size index d.hostname.bytes

end base

/-! ## Section 3: Keys of the tag reports -/

section tags
variable (d : RequestData) (word word1 word2 : Word) (words : List Word)

/-- `word1|word2`; the separator is stored without a bound check. -/
def tag2_index (size : Nat) : Bytes :=
  let index_val := pinba_copy_truncated size word1.str.bytes
  let index_val := index_val ++ [bar]
  pinba_append_truncated size index_val word2.str.bytes

def tag2_info_index : Bytes :=
  tag2_index word1 word2 (PINBA_TAG_VALUE_SIZE + 1 + PINBA_TAG_VALUE_SIZE)

def tag2_report_index : Bytes :=
  tag2_index word1 word2 (PINBA_TAG_VALUE_SIZE + 1 + PINBA_TAG_VALUE_SIZE + 1)

def rtag2_index : Bytes :=
  tag2_index word1 word2 (PINBA_TAG_VALUE_SIZE + 1 + PINBA_TAG_VALUE_SIZE + 1)

/-- `hostname|server_name|word`. -/
def tag_report2_index_of (size : Nat) : Bytes :=
  let index := pinba_copy_truncated size d.hostname.bytes
  let index := index ++ [bar]
  let index := pinba_append_truncated size index d.server_name.bytes
  let index := index ++ [bar]
  pinba_append_truncated size index word.str.bytes

/-- The buffer declared by `pinba_update_tag_report2_add`. -/
def tag_report2_index : Bytes :=
  tag_report2_index_of d word
    (PINBA_SCRIPT_NAME_SIZE + PINBA_HOSTNAME_SIZE + PINBA_SCRIPT_NAME_SIZE + 1 +
      PINBA_TAG_VALUE_SIZE)

/-- The buffer declared by `pinba_update_tag_report2_delete` has another size. -/
def tag_report2_delete_index : Bytes :=
  tag_report2_index_of d word
    (PINBA_HOSTNAME_SIZE + 1 + PINBA_SERVER_NAME_SIZE + 1 + PINBA_SCRIPT_NAME_SIZE + 1 +
      PINBA_TAG_VALUE_SIZE)

/-- `hostname|server_name|word1|word2`, with checked delimiters. -/
def tag2_report2_index_of (size : Nat) : Bytes :=
  let index_val := pinba_copy_truncated size d.hostname.bytes
  let index_val := pinba_append_key_delimiter size index_val
  let index_val := pinba_append_truncated size index_val d.server_name.bytes
  let index_val := pinba_append_key_delimiter size index_val
  let index_val := pinba_append_truncated size index_val word1.str.bytes
  let index_val := pinba_append_key_delimiter size index_val
  pinba_append_truncated size index_val word2.str.bytes

/-- The buffer declared by `pinba_update_tag2_report2_add`. -/
def tag2_report2_index : Bytes :=
  tag2_report2_index_of d word1 word2
    (PINBA_HOSTNAME_SIZE + 1 + PINBA_SERVER_NAME_SIZE + 1 + PINBA_SCRIPT_NAME_SIZE + 1 +
      PINBA_TAG_VALUE_SIZE + 1 + PINBA_TAG_VALUE_SIZE + 1)

/-- The buffer declared by `pinba_update_tag2_report2_delete` has another size. -/
def tag2_report2_delete_index : Bytes :=
  tag2_report2_index_of d word1 word2
    (PINBA_HOSTNAME_SIZE + PINBA_SERVER_NAME_SIZE + PINBA_SCRIPT_NAME_SIZE + 1 +
      PINBA_TAG_VALUE_SIZE + 1 + PINBA_TAG_VALUE_SIZE + 1)

/-- Every word followed by a separator, appended to `index`. -/
def append_words (index : Bytes) : Bytes :=
  words.foldl (fun index word => index ++ word.str.bytes ++ [bar]) index

/-- The `report->index` of the `tagN` and `rtagN` kinds. -/
def tagN_index : Bytes := append_words words []

/-- The `report->index` of `tagN_report2`. -/
def tagN_report2_index : Bytes :=
  append_words words (d.hostname.bytes ++ [bar] ++ d.server_name.bytes ++ [bar])

end tags

/-! ## Section 4: No key is truncated -/

theorem append_truncated_eq {size : Nat} {buf str : Bytes} (h : buf.length + str.length < size) :
    pinba_append_truncated size buf str = buf ++ str := by
  unfold pinba_append_truncated
  rw [if_neg (by omega)]
  split
  · have h0 : str = [] := List.eq_nil_of_length_eq_zero (by omega)
    rw [h0, List.append_nil]
  · rw [List.take_of_length_le (by omega)]

theorem copy_truncated_eq {size : Nat} {str : Bytes} (h : str.length < size) :
    pinba_copy_truncated size str = str :=
  List.take_of_length_le (by omega)

theorem append_char_eq {size : Nat} {buf : Bytes} {c : UInt8} (h : buf.length + 1 < size) :
    append_char size buf c = buf ++ [c] :=
  if_pos (by omega)

theorem append_key_delimiter_eq {size : Nat} {buf : Bytes} (h : buf.length + 1 < size) :
    pinba_append_key_delimiter size buf = buf ++ [bar] :=
  if_neg (by omega)

theorem index2_eq {size : Nat} {a b : Bytes} {c : UInt8}
    (h : a.length + b.length + 1 < size) : index2 size a c b = a ++ c :: b := by
  simp (disch := first | omega | (simp; omega)) only
    [index2, copy_truncated_eq, append_char_eq, append_truncated_eq]
  simp

theorem index3_eq {size : Nat} {a b e : Bytes} {c₁ c₂ : UInt8}
    (h : a.length + b.length + e.length + 2 < size) :
    index3 size a c₁ b c₂ e = a ++ c₁ :: (b ++ c₂ :: e) := by
  simp (disch := first | omega | (simp; omega)) only
    [index3, copy_truncated_eq, append_char_eq, append_truncated_eq]
  simp

/-- A status is an `unsigned short`, so it has at most five digits. -/
theorem length_sprintf_u (s : UInt16) : (sprintf_u s.toNat).length ≤ 5 := by
  have h : s.toNat < 10 ^ 5 := Nat.lt_of_lt_of_le s.toNat_lt (by decide)
  unfold sprintf_u
  rw [List.length_map]
  exact (Nat.length_toDigits_le_iff (by decide) (by decide)).mpr h

theorem tag2_index_eq {size : Nat} {w₁ w₂ : Word}
    (h : w₁.str.bytes.length + w₂.str.bytes.length + 1 < size) :
    tag2_index w₁ w₂ size = w₁.str.bytes ++ bar :: w₂.str.bytes := by
  simp (disch := first | omega | (simp; omega)) only
    [tag2_index, copy_truncated_eq, append_truncated_eq]
  simp

theorem tag_report2_index_of_eq {size : Nat} {d : RequestData} {w : Word}
    (h : d.hostname.bytes.length + d.server_name.bytes.length + w.str.bytes.length + 2 < size) :
    tag_report2_index_of d w size =
      d.hostname.bytes ++ bar :: (d.server_name.bytes ++ bar :: w.str.bytes) := by
  simp (disch := first | omega | (simp; omega)) only
    [tag_report2_index_of, copy_truncated_eq, append_truncated_eq]
  simp

theorem tag2_report2_index_of_eq {size : Nat} {d : RequestData} {w₁ w₂ : Word}
    (h : d.hostname.bytes.length + d.server_name.bytes.length + w₁.str.bytes.length +
      w₂.str.bytes.length + 3 < size) :
    tag2_report2_index_of d w₁ w₂ size =
      d.hostname.bytes ++ bar :: (d.server_name.bytes ++ bar ::
        (w₁.str.bytes ++ bar :: w₂.str.bytes)) := by
  simp (disch := first | omega | (simp; omega)) only
    [tag2_report2_index_of, copy_truncated_eq, append_truncated_eq, append_key_delimiter_eq]
  simp

theorem append_words_eq (words : List Word) (index : Bytes) :
    append_words words index = index ++ words.flatMap fun w => w.str.bytes ++ [bar] := by
  induction words generalizing index with
  | nil => simp [append_words]
  | cons w words ih =>
    have h := ih (index ++ w.str.bytes ++ [bar])
    unfold append_words at h ⊢
    rw [List.foldl_cons, h]
    simp

/-! ### Fields are shorter than their arrays -/

theorem tag2_index_of_le (w₁ w₂ : Word) {size : Nat} (h : 2 * 65 ≤ size) :
    tag2_index w₁ w₂ size = w₁.str.bytes ++ bar :: w₂.str.bytes := by
  have hw₁ : w₁.str.bytes.length < 65 := w₁.str.length_lt
  have hw₂ : w₂.str.bytes.length < 65 := w₂.str.length_lt
  exact tag2_index_eq (by omega)

theorem tag2_info_index_eq (w₁ w₂ : Word) :
    tag2_info_index w₁ w₂ = w₁.str.bytes ++ bar :: w₂.str.bytes := tag2_index_of_le w₁ w₂ (by decide)

theorem tag2_report_index_eq (w₁ w₂ : Word) :
    tag2_report_index w₁ w₂ = w₁.str.bytes ++ bar :: w₂.str.bytes := tag2_index_of_le w₁ w₂ (by decide)

theorem rtag2_index_eq (w₁ w₂ : Word) :
    rtag2_index w₁ w₂ = w₁.str.bytes ++ bar :: w₂.str.bytes := tag2_index_of_le w₁ w₂ (by decide)

theorem tag_report2_index_of_le (d : RequestData) (w : Word) {size : Nat} (h : 3 * 65 ≤ size) :
    tag_report2_index_of d w size =
      d.hostname.bytes ++ bar :: (d.server_name.bytes ++ bar :: w.str.bytes) := by
  have hh : d.hostname.bytes.length < 65 := d.hostname.length_lt
  have hs : d.server_name.bytes.length < 65 := d.server_name.length_lt
  have hw : w.str.bytes.length < 65 := w.str.length_lt
  exact tag_report2_index_of_eq (by omega)

theorem tag_report2_index_eq (d : RequestData) (w : Word) : tag_report2_index d w =
    d.hostname.bytes ++ bar :: (d.server_name.bytes ++ bar :: w.str.bytes) :=
  tag_report2_index_of_le d w (by decide)

theorem tag2_report2_index_of_le (d : RequestData) (w₁ w₂ : Word) {size : Nat} (h : 4 * 65 ≤ size) :
    tag2_report2_index_of d w₁ w₂ size =
      d.hostname.bytes ++ bar :: (d.server_name.bytes ++ bar ::
        (w₁.str.bytes ++ bar :: w₂.str.bytes)) := by
  have hh : d.hostname.bytes.length < 65 := d.hostname.length_lt
  have hs : d.server_name.bytes.length < 65 := d.server_name.length_lt
  have hw₁ : w₁.str.bytes.length < 65 := w₁.str.length_lt
  have hw₂ : w₂.str.bytes.length < 65 := w₂.str.length_lt
  exact tag2_report2_index_of_eq (by omega)

theorem tag2_report2_index_eq (d : RequestData) (w₁ w₂ : Word) : tag2_report2_index d w₁ w₂ =
    d.hostname.bytes ++ bar :: (d.server_name.bytes ++ bar ::
      (w₁.str.bytes ++ bar :: w₂.str.bytes)) :=
  tag2_report2_index_of_le d w₁ w₂ (by decide)

/-- The buffers of the add and the delete function have different sizes, but
    both hold every key. -/
theorem tag_report2_delete_index_eq (d : RequestData) (w : Word) :
    tag_report2_delete_index d w = tag_report2_index d w :=
  (tag_report2_index_of_le d w (by decide)).trans (tag_report2_index_eq d w).symm

theorem tag2_report2_delete_index_eq (d : RequestData) (w₁ w₂ : Word) :
    tag2_report2_delete_index d w₁ w₂ = tag2_report2_index d w₁ w₂ :=
  (tag2_report2_index_of_le d w₁ w₂ (by decide)).trans (tag2_report2_index_eq d w₁ w₂).symm

/-! ## Section 5: Lengths -/

theorem length_tag2_report_index (w₁ w₂ : Word) : (tag2_report_index w₁ w₂).length < 260 := by
  have hw₁ : w₁.str.bytes.length < 65 := w₁.str.length_lt
  have hw₂ : w₂.str.bytes.length < 65 := w₂.str.length_lt
  rw [tag2_report_index_eq]
  simp only [List.length_append, List.length_cons]
  omega

theorem length_tag_report2_index (d : RequestData) (w : Word) :
    (tag_report2_index d w).length < 260 := by
  have hh : d.hostname.bytes.length < 65 := d.hostname.length_lt
  have hs : d.server_name.bytes.length < 65 := d.server_name.length_lt
  have hw : w.str.bytes.length < 65 := w.str.length_lt
  rw [tag_report2_index_eq]
  simp only [List.length_append, List.length_cons]
  omega

theorem length_tag2_report2_index (d : RequestData) (w₁ w₂ : Word) :
    (tag2_report2_index d w₁ w₂).length < 260 := by
  have hh : d.hostname.bytes.length < 65 := d.hostname.length_lt
  have hs : d.server_name.bytes.length < 65 := d.server_name.length_lt
  have hw₁ : w₁.str.bytes.length < 65 := w₁.str.length_lt
  have hw₂ : w₂.str.bytes.length < 65 := w₂.str.length_lt
  rw [tag2_report2_index_eq]
  simp only [List.length_append, List.length_cons]
  omega

end PinbaEngine
