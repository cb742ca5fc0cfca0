import PinbaEngine.IndexValue
import PinbaEngine.Lib.Block

/-! # The keys of lookups

    The server passes the key of a lookup by text as two bytes with the length of the
    text, low byte first, and the text. `netstr_to_key` copies the text to the heap
    and puts a terminator behind it; the histogram view then splits the copy into two
    arrays on the stack.

    Both steps store a terminator at a length that is not the one of the copy:

    - `netstr_to_key` takes the low byte of the length for the whole of it, and
      `strdup` copies up to the first NUL, wherever that is;
    - the histogram view stores at the length that `snprintf` would have written, and
      a script name of 129 bytes is the longest for which that is inside.
-/

namespace PinbaEngine

/-! ## Section 1: From the server's key to a string -/

/-- A key in the format of the server, and the memory behind it. -/
def netstr (text after : Bytes) : Block UInt8 :=
  [UInt8.ofNat (text.length % 256), UInt8.ofNat (text.length / 256)] ++ text ++ after

/-- `max_supported_key_length`. -/
def max_supported_key_length : Nat := 256

/-- `str` of `pinba_index_st`; `val` is the block on the heap, or null. -/
structure IndexStr where
  val : Option (Block UInt8)
  len : Nat

/-- `netstr_to_key`. There is no result if the terminator is stored outside of the copy. That
    `index->str.val` is freed first is left out: its callers have cleared it. -/
def netstr_to_key (key : Block UInt8) : Option IndexStr :=
  let len := (key.headD 0).toNat
  if len > 0 then
    let val := Block.duplicate 0 (key.drop 2)
    (val.store len [0]).map fun val => ⟨some val, len⟩
  else some ⟨none, len⟩

/-! ## Section 2: The arrays of the histogram view -/

/-- `snprintf` to an array: what is in the array, and the length that the text has. -/
def snprintf (array : Block UInt8) (size : Nat) (text : Bytes) : Option (Block UInt8 × Nat) :=
  (array.store 0 (snprintf_s size text ++ [0])).map fun array => (array, text.length)

/-- Print to a cleared array and store a terminator at the returned length. -/
def print_terminated (array_size size : Nat) (text : Bytes) : Option (Block UInt8) := do
  let (array, len) ← snprintf (List.replicate array_size 0) size text
  array.store len [0]

/-- The part of `histogram_fetch_row_by_key` that splits a key: `index_script` and `index_tag`, if
    there is a bar. There is no result if a terminator is stored outside of its array. -/
def split_key (str : Bytes) : Option (Option (Block UInt8 × Block UInt8)) :=
  match split_bar str with
  | none => some none
  | some (script, tag) => do
    let index_script ← print_terminated (PINBA_SCRIPT_NAME_SIZE + 1) PINBA_SCRIPT_NAME_SIZE script
    let index_tag ← print_terminated PINBA_MAX_LINE_LEN PINBA_MAX_LINE_LEN tag
    return some (index_script, index_tag)

namespace ReportRows

variable {R : Type}

/-- Look up the texts in the arrays. -/
def get_arrays (rows : ReportRows R) (index_script index_tag : Bytes) : Reached :=
  match rows with
  | .flat _ => .nothing
  | .nested results =>
    match results.map.data_get index_script with
    | none => .nothing
    | some key_map =>
      if (key_map.data_get index_tag).isSome then .row (.nested index_script index_tag)
      else .nothing

/-- `read_row_by_key` and `histogram_fetch_row_by_key` for the kinds with a split key, from the key
    of the server on. -/
def read_by_key (rows : ReportRows R) (key : Block UInt8) : Option Reached := do
  let index ← netstr_to_key key
  match index.val with
  | none => some .nothing
  | some val =>
    let arrays ← split_key (val.string 0)
    match arrays with
    | none => some .nothing
    | some (index_script, index_tag) =>
      some (rows.get_arrays (index_script.string 0) (index_tag.string 0))

end ReportRows

/-! ## Section 3: What the steps do -/

section steps
variable {text after str script tag : Bytes} {array_size size : Nat}

theorem head_netstr : ((netstr text after).headD 0).toNat = text.length % 256 := by
  have hlt : text.length % 256 < 256 := Nat.mod_lt _ (by decide)
  show (UInt8.ofNat (text.length % 256)).toNat = text.length % 256
  rw [UInt8.toNat_ofNat']
  exact Nat.mod_eq_of_lt hlt

/-- What `strdup` copies. -/
def copied_text (text after : Bytes) : Bytes := Block.string 0 (text ++ after)

/-- The terminator is inside of the copy if the text has no NUL before it, and then it cuts the
    copy there. -/
theorem netstr_to_key_spec (hlen : 0 < text.length % 256) :
    (text.length % 256 ≤ (copied_text text after).length → ∃ val,
      netstr_to_key (netstr text after) = some ⟨some val, text.length % 256⟩ ∧
        val.string 0 = (copied_text text after).take (text.length % 256)) ∧
    ((copied_text text after).length < text.length % 256 →
      netstr_to_key (netstr text after) = none) := by
  have hkey : netstr_to_key (netstr text after) =
      ((Block.duplicate 0 (text ++ after)).store (text.length % 256) [0]).map fun val =>
        ⟨some val, text.length % 256⟩ := by
    unfold netstr_to_key
    rw [head_netstr, if_pos hlen]
    rfl
  constructor
  -- the terminator is stored inside
  · intro hle
    obtain ⟨val, hstore, hstring⟩ := @Block.string_store_duplicate _ _ _ 0 _ hle
    exact ⟨val, by rw [hkey, hstore]; rfl, hstring⟩
  -- or right behind the copy, or further
  · intro hlt
    have hout : (Block.duplicate 0 (text ++ after)).store (text.length % 256) [0] = none := by
      rw [Block.store_eq_none, Block.length_duplicate]
      exact Nat.succ_lt_succ hlt
    rw [hkey, hout]
    rfl

theorem netstr_to_key_null (hlen : text.length % 256 = 0) :
    netstr_to_key (netstr text after) = some ⟨none, 0⟩ := by
  unfold netstr_to_key
  rw [head_netstr, hlen]
  rfl

/-- The copy is as long as the text at least if the text has no NUL. -/
theorem copied_text_of_free (h : 0 ∉ text) : ∃ more, copied_text text after = text ++ more := by
  refine ⟨Block.string 0 after, ?_⟩
  unfold copied_text Block.string
  rw [List.takeWhile_append_of_pos]
  intro c hc
  have hne : c ≠ 0 := fun heq => h (heq ▸ hc)
  simpa using hne

theorem length_copied_text_lt (h : 0 ∈ text) : (copied_text text after).length < text.length := by
  obtain ⟨before, rest, rfl, hfree⟩ := List.eq_append_cons_of_mem h
  have hcopied : copied_text (before ++ 0 :: rest) after = before := by
    apply Block.string_of_prefix hfree
    simp
  rw [hcopied, List.length_append, List.length_cons]
  omega

/-- An array of zeros after a text was printed to it. -/
def printed (array_size size : Nat) (text : Bytes) : Block UInt8 :=
  snprintf_s size text ++ List.replicate (array_size - (snprintf_s size text).length) 0

theorem length_snprintf_s_lt (hsize : 0 < size) (text : Bytes) : (snprintf_s size text).length < size := by
  rw [snprintf_s, List.length_take]
  omega

theorem snprintf_eq (hsize : 0 < size) (hle : size ≤ array_size) (text : Bytes) :
    snprintf (List.replicate array_size 0) size text =
      some (printed array_size size text, text.length) := by
  have hlt := length_snprintf_s_lt hsize text
  have hfits : 0 + (snprintf_s size text ++ [0]).length ≤
      (List.replicate array_size (0 : UInt8)).length := by
    rw [List.length_append, List.length_singleton, List.length_replicate]
    omega
  have hzeros : List.replicate (array_size - (snprintf_s size text).length) (0 : UInt8) =
      0 :: List.replicate (array_size - ((snprintf_s size text).length + 1)) 0 := by
    rw [← List.replicate_succ]
    congr 1
    omega
  unfold snprintf Block.store printed
  rw [if_pos hfits, List.take_zero, List.nil_append, List.drop_replicate, hzeros]
  simp

/-- The terminator at the returned length is inside exactly for texts shorter than the array,
    whatever was printed, and then there is one already. -/
theorem print_terminated_eq (hsize : 0 < size) (hle : size ≤ array_size) (text : Bytes) :
    print_terminated array_size size text =
      if text.length < array_size then some (printed array_size size text) else none := by
  have hlt := length_snprintf_s_lt hsize text
  have hlen : (printed array_size size text).length = array_size := by
    rw [printed, List.length_append, List.length_replicate]
    omega
  unfold print_terminated
  rw [snprintf_eq hsize hle]
  show (printed array_size size text).store text.length [0] = _
  split
  · next hin =>
    apply Block.store_same
    have hshort : (snprintf_s size text).length ≤ text.length := by
      rw [snprintf_s, List.length_take]
      omega
    rw [printed, List.getElem?_append_right hshort, List.getElem?_replicate, if_pos (by omega)]
  · next hout =>
    rw [Block.store_eq_none, hlen, List.length_singleton]
    omega

theorem string_printed (hsize : 0 < size) (hle : size ≤ array_size) (hfree : 0 ∉ text) :
    (printed array_size size text).string 0 = snprintf_s size text := by
  have hlt := length_snprintf_s_lt hsize text
  apply Block.string_of_prefix
  · exact fun hmem => hfree (List.mem_of_mem_take hmem)
  · obtain ⟨n, hn⟩ : ∃ n, array_size - (snprintf_s size text).length = n + 1 :=
      ⟨array_size - (snprintf_s size text).length - 1, by omega⟩
    rw [printed, hn, List.replicate_succ]
    exact ⟨List.replicate n 0, by simp⟩

/-- The parts of a text without NUL. -/
theorem split_bar_free (hfree : 0 ∉ str) (h : split_bar str = some (script, tag)) :
    0 ∉ script ∧ 0 ∉ tag ∧ script.length + tag.length < str.length := by
  unfold split_bar at h
  split at h
  · cases h
  · next c rest hrest =>
    cases h
    have hsplit := List.takeWhile_append_dropWhile (p := (· ≠ bar)) (l := str)
    rw [hrest] at hsplit
    refine ⟨?_, ?_, ?_⟩
    · exact fun hmem => hfree (hsplit ▸ List.mem_append_left _ hmem)
    · exact fun hmem => hfree (hsplit ▸ List.mem_append_right _ (List.mem_cons_of_mem _ hmem))
    · conv_rhs => rw [← hsplit]
      rw [List.length_append, List.length_cons]
      omega

/-- The arrays of a key: a script name of up to 129 bytes is inside. -/
theorem split_key_isSome (h : str.length ≤ PINBA_MAX_LINE_LEN) (hfree : 0 ∉ str) :
    (split_key str).isSome ↔
      ∀ script tag, split_bar str = some (script, tag) → script.length ≤ PINBA_SCRIPT_NAME_SIZE := by
  unfold split_key
  cases hsplit : split_bar str with
  | none => simp
  | some parts =>
    obtain ⟨script, tag⟩ := parts
    obtain ⟨-, -, hlen⟩ := split_bar_free hfree hsplit
    -- the array for the tag is never too short
    have htag : print_terminated PINBA_MAX_LINE_LEN PINBA_MAX_LINE_LEN tag =
        some (printed PINBA_MAX_LINE_LEN PINBA_MAX_LINE_LEN tag) := by
      rw [print_terminated_eq (by decide) le_rfl, if_pos (by omega)]
    simp only [print_terminated_eq (show 0 < PINBA_SCRIPT_NAME_SIZE by decide)
      (Nat.le_succ PINBA_SCRIPT_NAME_SIZE), htag]
    by_cases hscript : script.length < PINBA_SCRIPT_NAME_SIZE + 1
    · rw [if_pos hscript]
      have hle := Nat.le_of_lt_succ hscript
      simpa using hle
    · rw [if_neg hscript]
      have hlt : PINBA_SCRIPT_NAME_SIZE < script.length := Nat.lt_of_lt_of_le (Nat.lt_succ_self _)
        (Nat.le_of_not_lt hscript)
      simpa using hlt

end steps

/-! ## Section 4: Faithful keys -/

/-- The key is read as it is: no store leaves its block, the copy of a text without NUL is the
    text, and the histogram view can split it. -/
def FaithfulKey (text after : Bytes) : Prop :=
  ∃ index, netstr_to_key (netstr text after) = some index ∧
    (0 ∉ text → index.val.map (Block.string 0) = some text) ∧
    ∀ val ∈ index.val, (split_key (val.string 0)).isSome

/-- The script name in front of the first bar fits its array. -/
def ScriptFits (text : Bytes) : Prop :=
  ∀ script tag, split_bar text = some (script, tag) → script.length ≤ PINBA_SCRIPT_NAME_SIZE

section faithful
variable {text after : Bytes}

/-- A text of 1 to 255 bytes without NUL is copied as it is. -/
theorem netstr_to_key_free (hpos : 0 < text.length) (hlt : text.length < 256) (hfree : 0 ∉ text) :
    ∃ val, netstr_to_key (netstr text after) = some ⟨some val, text.length⟩ ∧ val.string 0 = text := by
  have hmod : text.length % 256 = text.length := Nat.mod_eq_of_lt hlt
  obtain ⟨more, hmore⟩ := @copied_text_of_free _ after hfree
  have hle : text.length ≤ (copied_text text after).length := by
    rw [hmore, List.length_append]
    omega
  obtain ⟨val, hval, hstring⟩ := (@netstr_to_key_spec _ after
    (by rw [hmod]; exact hpos)).1 (by rw [hmod]; exact hle)
  rw [hmod] at hval hstring
  refine ⟨val, hval, ?_⟩
  rw [hstring, hmore, List.take_left]

/-- With a NUL in it, the terminator goes beyond the copy. -/
theorem netstr_to_key_out (hlt : text.length < 256) (hmem : 0 ∈ text) :
    netstr_to_key (netstr text after) = none := by
  have hmod : text.length % 256 = text.length := Nat.mod_eq_of_lt hlt
  have hshort := @length_copied_text_lt _ after hmem
  exact (netstr_to_key_spec (by rw [hmod]; omega)).2 (by rw [hmod]; exact hshort)

theorem faithfulKey_of_free (hpos : 0 < text.length) (hlt : text.length < 256) (hfree : 0 ∉ text) :
    FaithfulKey text after ↔ ScriptFits text := by
  obtain ⟨val, hval, hstring⟩ := @netstr_to_key_free _ after hpos hlt hfree
  have hline : text.length ≤ PINBA_MAX_LINE_LEN := hlt.le.trans (by decide)
  have hsplit : (split_key (val.string 0)).isSome ↔ ScriptFits text := by
    rw [hstring]
    exact split_key_isSome hline hfree
  constructor
  · rintro ⟨index, hindex, -, hsome⟩
    obtain rfl := Option.some.inj (hval.symm.trans hindex)
    exact hsplit.mp (hsome val rfl)
  · intro hfits
    refine ⟨_, hval, fun _ => congrArg some hstring, ?_⟩
    rintro _ ⟨⟩
    exact hsplit.mpr hfits

/-- The empty text, and a text of 256 bytes, leave a null pointer. -/
theorem faithfulKey_of_null (hlen : text.length % 256 = 0) : FaithfulKey text after ↔ 0 ∈ text := by
  have hnull := @netstr_to_key_null _ after hlen
  constructor
  · rintro ⟨index, hindex, htext, -⟩
    obtain rfl := Option.some.inj (hnull.symm.trans hindex)
    by_contra hfree
    cases htext hfree
  · intro hmem
    exact ⟨_, hnull, fun hfree => absurd hmem hfree, by rintro _ ⟨⟩⟩

/-- Which keys of up to 256 bytes are read as they are. -/
theorem lookup_key_faithful_iff (hlen : text.length ≤ max_supported_key_length) :
    FaithfulKey text after ↔
      (text.length = 256 ∧ 0 ∈ text) ∨
        (0 < text.length ∧ text.length < 256 ∧ 0 ∉ text ∧ ScriptFits text) := by
  unfold max_supported_key_length at hlen
  rcases Nat.eq_zero_or_pos text.length with hzero | hpos
  · -- an empty text has no NUL
    have hnil := List.eq_nil_of_length_eq_zero hzero
    rw [faithfulKey_of_null (by rw [hzero])]
    simp [hnil]
  rcases Nat.lt_or_ge text.length 256 with hlt | hge
  · by_cases hmem : 0 ∈ text
    · have hnone := @netstr_to_key_out _ after hlt hmem
      constructor
      · rintro ⟨index, hindex, -⟩
        exact absurd (hnone.symm.trans hindex) (by simp)
      · rintro (⟨hfull, -⟩ | ⟨-, -, hfree, -⟩)
        · omega
        · exact absurd hmem hfree
    · rw [faithfulKey_of_free hpos hlt hmem]
      simp [hpos, hlt, hmem, hlt.ne]
  -- a full length reads as 0
  · have hfull : text.length = 256 := by omega
    rw [faithfulKey_of_null (by rw [hfull])]
    simp [hfull]

/-- A key with a bar. -/
theorem lookup_key_faithful_bar : FaithfulKey [97, bar, 98] [0] :=
  (lookup_key_faithful_iff (by decide)).mpr (.inr ⟨by decide, by decide, by decide, by
    rintro script tag ⟨⟩
    decide⟩)

/-- A NUL in the text, a text of 256 bytes, and a script name of 130 bytes. -/
theorem lookup_key_unfaithful :
    netstr_to_key (netstr [97, 0, 98] [0]) = none ∧
    ¬ FaithfulKey [97, 0, 98] [0] ∧
    ¬ FaithfulKey (List.replicate 256 97) [0] ∧
    ¬ FaithfulKey (List.replicate 130 97 ++ [bar]) [0] := by
  have hnone : netstr_to_key (netstr [97, 0, 98] [0]) = none := netstr_to_key_out (by decide) (by decide)
  refine ⟨hnone, ?_, ?_, ?_⟩
  · rintro ⟨index, hindex, -⟩
    exact absurd (hnone.symm.trans hindex) (by simp)
  · rw [faithfulKey_of_null (by rw [List.length_replicate])]
    intro hmem
    exact absurd (List.eq_of_mem_replicate hmem) (by decide)
  · have hfree : 0 ∉ List.replicate 130 (97 : UInt8) ++ [bar] := by decide
    rw [faithfulKey_of_free (by simp) (by simp) hfree]
    intro hfits
    have hbar : bar ∉ List.replicate 130 (97 : UInt8) := by decide
    have hlen := hfits _ _ (split_bar_append hbar)
    rw [List.length_replicate] at hlen
    exact absurd hlen (by decide)

end faithful

/-! ## Section 5: The lookup of a split key -/

/-- A lookup that stores outside of an array has no result. -/
def Reached.inside : Reached → Option Reached
  | .overflow => none
  | reached => some reached

namespace ReportRows

variable {R : Type} (rows : ReportRows R) {text after script tag : Bytes}

theorem get_below_eq : rows.get_below script tag =
    if PINBA_SCRIPT_NAME_SIZE + 1 ≤ script.length ∨ PINBA_MAX_LINE_LEN ≤ tag.length then .overflow
    else rows.get_arrays (snprintf_s PINBA_SCRIPT_NAME_SIZE script)
      (snprintf_s PINBA_MAX_LINE_LEN tag) := rfl

theorem inside_get_arrays (index_script index_tag : Bytes) :
    (rows.get_arrays index_script index_tag).inside = some (rows.get_arrays index_script index_tag) := by
  unfold get_arrays
  split
  · rfl
  · split
    · rfl
    · split <;> rfl

/-- For a text that is copied as it is, the lookup is the one of the text; where that has no place
    for a terminator, neither has this. -/
theorem read_by_key_eq (hpos : 0 < text.length) (hlt : text.length < 256) (hfree : 0 ∉ text) :
    rows.read_by_key (netstr text after) = (rows.get_composite text).inside := by
  obtain ⟨val, hval, hstring⟩ := @netstr_to_key_free _ after hpos hlt hfree
  unfold read_by_key
  rw [hval, Option.bind_eq_bind, Option.bind_some]
  simp only [hstring]
  unfold get_composite split_key
  cases hsplit : split_bar text with
  | none => rfl
  | some parts =>
    obtain ⟨script, tag⟩ := parts
    obtain ⟨hscript, htag, hparts⟩ := split_bar_free hfree hsplit
    -- the tag is shorter than the text
    have hline : tag.length < PINBA_MAX_LINE_LEN := by
      have : 256 ≤ PINBA_MAX_LINE_LEN := by decide
      omega
    simp only [print_terminated_eq (show 0 < PINBA_SCRIPT_NAME_SIZE by decide)
        (Nat.le_succ PINBA_SCRIPT_NAME_SIZE),
      print_terminated_eq (show 0 < PINBA_MAX_LINE_LEN by decide) le_rfl, if_pos hline, get_below_eq]
    by_cases hfits : script.length < PINBA_SCRIPT_NAME_SIZE + 1
    · -- both terminators are inside, and the arrays hold what `get_below` looks up
      have hin : ¬ (PINBA_SCRIPT_NAME_SIZE + 1 ≤ script.length ∨ PINBA_MAX_LINE_LEN ≤ tag.length) := by
        omega
      rw [if_pos hfits, if_neg hin, inside_get_arrays,
        ← string_printed (show 0 < PINBA_SCRIPT_NAME_SIZE by decide)
          (Nat.le_succ PINBA_SCRIPT_NAME_SIZE) hscript,
        ← string_printed (show 0 < PINBA_MAX_LINE_LEN by decide) le_rfl htag]
      rfl
    · have hout : PINBA_SCRIPT_NAME_SIZE + 1 ≤ script.length ∨ PINBA_MAX_LINE_LEN ≤ tag.length :=
        .inl (Nat.le_of_not_lt hfits)
      rw [if_neg hfits, if_pos hout]
      rfl

end ReportRows

end PinbaEngine
