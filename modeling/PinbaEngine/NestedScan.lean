import PinbaEngine.IndexValue
import PinbaEngine.Lib.Turns

/-! # Scanning a nested report

    `TAG_REPORT_TOP_BLOCK` keeps two strings between the calls, the outer and the
    inner key of the row it returned last. Where nothing follows below the outer key
    it jumps back into its own middle with the next inner map.

    The jump is modelled here as the block has it, without a bound on the number of
    turns. The loop ends for all inner maps, empty ones included, since every turn
    moves on in the outer map; it leaves with what the bounded loop of the fetch
    function answers. With keys that the add functions build, all of them are copied in
    full, and a scan returns every row once.
-/

namespace PinbaEngine

open SavedCursor

/-! ## Section 1: The loop of the block -/

/-- The variables of the block at the label `repeat_with_next_key`. `name` is the key of `key_map`,
    which `index_key` holds as far as it fits. -/
structure Label (R : Type) where
  name : Bytes
  key_map : PinbaMap R
  index_key : Bytes
  cursor : IndexCursor

namespace FetchBlock

variable (block : FetchBlock) {R : Type}

/-- The state in which a call reaches the label. The first call of a scan does not, nor does one
    whose outer key is gone. -/
def at_label (results : PinbaMap (PinbaMap R)) (c : IndexCursor) : Option (Label R) :=
  c.str.bind fun str =>
    let index_key := snprintf_s block.key_size str
    (results.data_get index_key).map fun key_map => ⟨index_key, key_map, index_key, c⟩

/-- The block from the label on, up to the `goto` or an answer. -/
def repeat_turn (results : PinbaMap (PinbaMap R)) (l : Label R) :
    Label R ⊕ (Fetched (Bytes × Bytes) R × IndexCursor) :=
  let c := { l.cursor with subindex := none }
  match block.next_in l.key_map l.cursor with
  | some (key, data) => .inr (block.deliver l.name l.index_key key data c)
  | none =>
    match results.data_next l.index_key with
    | none => .inr (.end_of_file, { c with str := none })
    | some (name, key_map) =>
      let index_key := snprintf_s block.key_size name
      .inl ⟨name, key_map, index_key, { c with str := some index_key }⟩

end FetchBlock

section loop
variable {R : Type} {block : FetchBlock} {results : PinbaMap (PinbaMap R)} {c : IndexCursor}

/-- What follows a key that is there is shorter than the whole. -/
theorem length_after_lt {K : Type} [DecidableEq K] {xs : List K} {k : K} (hnd : xs.Nodup) (h : k ∈ xs) :
    (after k xs).length < xs.length := by
  obtain ⟨before, behind, hsplit⟩ := List.append_of_mem h
  have hafter : after k xs = behind := after_of_suffix hnd ⟨before, hsplit.symm⟩
  rw [hafter, hsplit, List.length_append, List.length_cons]
  omega

/-- The loop from a label below which nothing follows: as many turns as there are names ahead, and
    one more, are enough. -/
theorem leaves_repeat_with_next_key (hnames : ∀ name ∈ results.keys, name.length < block.key_size)
    {turns : Nat} {l : Label R} (hnext : block.next_in l.key_map l.cursor = none)
    (hturns : (after l.index_key results.keys).length < turns) :
    Leaves (block.repeat_turn results) l
      (block.repeat_with_next_key results turns l.index_key { l.cursor with subindex := none }) := by
  -- induction on the turns that are left
  induction turns generalizing l with
  | zero => exact absurd hturns (Nat.not_lt_zero _)
  | succ turns ih =>
    rw [FetchBlock.repeat_with_next_key]
    cases hrest : after l.index_key results.keys with
    | nil =>
      apply leaves_of_inr
      simp only [FetchBlock.repeat_turn, hnext, PinbaMap.data_next_of_nil hrest]
    | cons name names =>
      obtain ⟨key_map, -, hfound⟩ := PinbaMap.data_next_of_cons hrest
      have hmem : name ∈ results.keys := mem_of_mem_after (hrest ▸ List.mem_cons_self)
      have hcopy := snprintf_s_of_lt (hnames name hmem)
      have hbody : block.repeat_turn results l =
          .inl ⟨name, key_map, name, ⟨l.cursor.position, some name, none⟩⟩ := by
        simp only [FetchBlock.repeat_turn, hnext, hfound, hcopy]
      rw [leaves_inl_iff hbody, hfound]
      simp only [hcopy]
      cases hfirst : key_map.data_first with
      | some row =>
        apply leaves_of_inr
        simp only [FetchBlock.repeat_turn, FetchBlock.next_in, hfirst]
      | none =>
        -- an empty inner map: the names that are ahead are fewer
        have hafter : after name results.keys = names := by
          refine after_of_suffix results.keys_nodup ?_
          rw [← hrest]
          exact after_suffix _ _
        refine @ih ⟨name, key_map, name, ⟨l.cursor.position, some name, none⟩⟩ hfirst ?_
        simp only [hafter]
        rw [hrest, List.length_cons] at hturns
        omega

/-- Every call that reaches the label leaves the loop, with the answer of the fetch function. -/
theorem leaves_nested_fetch_row (hnames : ∀ name ∈ results.keys, name.length < block.key_size)
    {l : Label R} (h : block.at_label results c = some l) :
    Leaves (block.repeat_turn results) l (block.nested_fetch_row results c) := by
  obtain ⟨str, hstr, hl⟩ := Option.bind_eq_some_iff.mp h
  obtain ⟨key_map, hmap, rfl⟩ := Option.map_eq_some_iff.mp hl
  unfold FetchBlock.nested_fetch_row
  simp only [hstr, hmap]
  cases hnext : block.next_in key_map c with
  | some row =>
    apply leaves_of_inr
    simp only [FetchBlock.repeat_turn, hnext, hstr]
  | none =>
    have hmem : snprintf_s block.key_size str ∈ results.keys :=
      AList.lookup_isSome.mp (Option.isSome_iff_exists.mpr ⟨key_map, hmap⟩)
    have hlen := length_after_lt results.keys_nodup hmem
    have hloop := @leaves_repeat_with_next_key R block results hnames _
      ⟨snprintf_s block.key_size str, key_map, snprintf_s block.key_size str, c⟩ hnext hlen
    simp only [hstr] at hloop ⊢
    exact hloop

end loop

/-! ## Section 2: Keys fit the buffers -/

/-- The kinds whose fetch function is built on `TAG_REPORT_TOP_BLOCK`. -/
inductive TopBlockKind where
  | tag_report | tag2_report | tag_report2 | tag2_report2 | rtag_report | rtag2_report
deriving DecidableEq

namespace TopBlockKind

def type : TopBlockKind → TableType
  | tag_report => .tag_report .tag_report
  | tag2_report => .tag_report .tag2_report
  | tag_report2 => .tag_report .tag_report2
  | tag2_report2 => .tag_report .tag2_report2
  | rtag_report => .rtag_report .rtag_report
  | rtag2_report => .rtag_report .rtag2_report

/-- The row keys that the add function builds. -/
def IsKey : TopBlockKind → Bytes × Bytes → Prop
  | tag_report, row => ∃ d ws, ScriptKind.tag_report.index d ws = row
  | tag2_report, row => ∃ d ws, ScriptKind.tag2_report.index d ws = row
  | tag_report2, row => ∃ d ws, ScriptKind.tag_report2.index d ws = row
  | tag2_report2, row => ∃ d ws, ScriptKind.tag2_report2.index d ws = row
  | rtag_report, row => ∃ tags d, RtagKind.rtag_report.key tags d = some row
  | rtag2_report, row => ∃ tags d, RtagKind.rtag2_report.key tags d = some row

/-- The rows of a report have the keys that its add function builds. -/
def Keyed {R : Type} (k : TopBlockKind) (results : NestedResults R) : Prop :=
  ∀ row ∈ results.rows, k.IsKey row

variable {k : TopBlockKind} {tags_cnt : Nat} {block : FetchBlock}

/-- Request tag reports file their rows under a host name and at most two values. -/
theorem rtag_key_length {row : Bytes × Bytes} (h : rtag_report.IsKey row ∨ rtag2_report.IsKey row) :
    row.1.length < PINBA_HOSTNAME_SIZE ∧ row.2.length < 260 := by
  rcases h with ⟨tags, d, hkey⟩ | ⟨tags, d, hkey⟩
  · obtain ⟨w, -, rfl⟩ := Option.map_eq_some_iff.mp hkey
    exact ⟨d.hostname.length_lt, w.str.length_lt.trans (by decide)⟩
  · obtain ⟨w, -, rfl⟩ := Option.map_eq_some_iff.mp hkey
    exact ⟨d.hostname.length_lt, length_tag2_report_index _ _⟩

/-- No key is cut off in the buffers of the block. -/
theorem fits_key (hblock : fetch_block tags_cnt k.type = some block) {row : Bytes × Bytes}
    (h : k.IsKey row) : block.NestedFits row := by
  -- the two kinds by host have one block
  have hhost : block = ⟨PINBA_HOSTNAME_SIZE + 1, PINBA_MAX_LINE_LEN, true, none⟩ →
      row.1.length < PINBA_HOSTNAME_SIZE ∧ row.2.length < 260 → block.NestedFits row := by
    rintro rfl ⟨hname, hkey⟩
    have hline : row.2.length < PINBA_MAX_LINE_LEN := hkey.trans (by decide)
    exact ⟨hname.trans (Nat.lt_succ_self _), hline, hline⟩
  cases k with
  | tag_report =>
    obtain ⟨d, ws, rfl⟩ := h
    exact ScriptKind.fits_index rfl hblock d ws
  | tag2_report =>
    obtain ⟨d, ws, rfl⟩ := h
    exact ScriptKind.fits_index rfl hblock d ws
  | tag_report2 =>
    obtain ⟨d, ws, rfl⟩ := h
    exact ScriptKind.fits_index rfl hblock d ws
  | tag2_report2 =>
    obtain ⟨d, ws, rfl⟩ := h
    exact ScriptKind.fits_index rfl hblock d ws
  | rtag_report => exact hhost (Option.some.inj hblock).symm (rtag_key_length (.inl h))
  | rtag2_report => exact hhost (Option.some.inj hblock).symm (rtag_key_length (.inr h))

end TopBlockKind

/-! ## Section 3: Whole scans -/

section scan
variable {R : Type} {block : FetchBlock} {results : NestedResults R}

theorem mem_rows_iff_isSome (row : Bytes × Bytes) :
    row ∈ results.rows ↔ (KeyedStore.nestedGet results.map row).isSome := by
  obtain ⟨name, key⟩ := row
  rw [NestedResults.mem_rows]
  unfold NestedResults.keys KeyedStore.inner KeyedStore.nestedGet
  cases results.map.lookup name with
  | none => simp
  | some key_map => exact AList.lookup_isSome.symm

/-- The data of a row is what is stored under its two keys. -/
theorem nested_fetch_row_data {c c' : IndexCursor} {place : Bytes × Bytes} {index_value : Bytes}
    {data : R} (h : block.nested_fetch_row results.map c = (.row place index_value data, c')) :
    KeyedStore.nestedGet results.map place = some data := by
  obtain ⟨key_map, hmap, hkey, -⟩ := FetchBlock.nested_fetch_row_row h
  exact FetchBlock.nestedGet_of_lookup hmap hkey

end scan

/-- A scan of an unchanged report, with the keys of its add function, returns every row once and
    then the end of file; a row comes with its own data; and the loop from `repeat_with_next_key` on
    ends in every call that reaches it, with the answer of the fetch function. -/
theorem nested_scan_complete (R : Type) (tags_cnt : Nat) (k : TopBlockKind) (block : FetchBlock)
    (hblock : fetch_block tags_cnt k.type = some block) (results : NestedResults R)
    (hkeyed : k.Keyed results) :
    (∃ rows, Returns (block.nested_fetch_row results.map) .rnd_init rows ∧ rows.Nodup ∧
      ∀ row, row ∈ rows ↔ (KeyedStore.nestedGet results.map row).isSome) ∧
    (∀ c place index_value data c',
      block.nested_fetch_row results.map c = (.row place index_value data, c') →
        KeyedStore.nestedGet results.map place = some data) ∧
    (∀ c l, block.at_label results.map c = some l → Ends (block.repeat_turn results.map) l ∧
      ∀ answer, Leaves (block.repeat_turn results.map) l answer →
        answer = block.nested_fetch_row results.map c) := by
  have hfits : ∀ row ∈ results.rows, block.NestedFits row :=
    fun row hrow => TopBlockKind.fits_key hblock (hkeyed row hrow)
  refine ⟨⟨results.rows, ?_, NestedResults.nodup_rows, mem_rows_iff_isSome⟩, ?_, ?_⟩
  · exact returns_rest (block.nestedFetch R) hfits (block.nestedFetch R).at_start
      fun _ h => absurd h (Option.not_mem_none _)
  · intro c place index_value data c' hrow
    exact nested_fetch_row_data hrow
  · intro c l hlabel
    -- a name that is there has a row, whose key fits
    have hnames : ∀ name ∈ results.map.keys, name.length < block.key_size := by
      intro name hname
      obtain ⟨key, hrow⟩ := exists_row hname
      exact (hfits _ hrow).1
    have hleaves := leaves_nested_fetch_row hnames hlabel
    exact ⟨ends_iff_leaves.mpr ⟨_, hleaves⟩, fun _ h => leaves_unique h hleaves⟩

theorem nested_scan_complete_two_scripts :
    ∃ rows, Returns (tag_report_block.nested_fetch_row two_scripts.map) .rnd_init rows ∧
      (script_a.bytes, []) ∈ rows ∧ (script_b.bytes, []) ∈ rows := by
  obtain ⟨⟨rows, hreturns, -, hrows⟩, -, -⟩ :=
    nested_scan_complete Unit 1 .tag_report tag_report_block rfl two_scripts keyed_two_scripts
  exact ⟨rows, hreturns, (hrows _).mpr rfl, (hrows _).mpr rfl⟩

end PinbaEngine
