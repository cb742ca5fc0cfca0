import PinbaEngine.Lib.SavedCursor
import PinbaEngine.TableComment

/-! # Scanning a report

    A table scan calls the fetch function of its table once for every row and
    gives up the lock of the report between the calls. The handler keeps the key of
    the row it returned last and looks it up again in the next call.

    The blocks at the head of the fetch functions are modelled from the call up to
    the row they select, with the text of the `index_value` column. A map is an
    association list in its iteration order; what a deletion or an insertion does to
    that order is left open as far as `std::unordered_map` leaves it open.

    Keys are copied into buffers of fixed or computed sizes. A write beyond the end
    of a buffer has no defined outcome and is an answer of its own.
-/

namespace PinbaEngine

open SavedCursor

/-! ## Section 1: Maps and cursors -/

/-- `pinba_map`. -/
abbrev PinbaMap (V : Type) := AList fun _ : Bytes => V

/-- `snprintf(buf, buf_size, "%s", str)`. -/
def snprintf_s (buf_size : Nat) (str : Bytes) : Bytes := str.take (buf_size - 1)

namespace PinbaMap

variable {V : Type} (map : PinbaMap V)

/-- The entry that an iterator points to. -/
def entry (key : Bytes) : Option (Bytes × V) := (map.lookup key).map fun value => (key, value)

/-- `pinba_map::data_get`. -/
def data_get (index : Bytes) : Option V := map.lookup index

/-- `pinba_map::data_first`, without the copy of the key. -/
def data_first : Option (Bytes × V) := map.keys.head?.bind map.entry

/-- `pinba_map::data_next`: find, then move on by one. -/
def data_next (index : Bytes) : Option (Bytes × V) := (after index map.keys).head?.bind map.entry

end PinbaMap

/-- `this_index[0]`, as far as report tables use it. -/
structure IndexCursor where
  position : Nat
  str : Option Bytes
  subindex : Option Bytes

/-- `rnd_init`. -/
def IndexCursor.rnd_init : IndexCursor := ⟨0, none, none⟩

/-- The answer of a fetch function. -/
inductive Fetched (K R : Type) where
  /-- The row at `place`, with its `index_value`. -/
  | row (place : K) (index_value : Bytes) (data : R)
  | end_of_file
  /-- A key was written beyond the end of `index`. -/
  | overflow
  /-- The columns are read through a null pointer. -/
  | null_row

/-! ## Section 2: The blocks of the fetch functions -/

/-- What differs between the fetch functions of the report tables. -/
structure FetchBlock where
  /-- The size of `index_key`; flat reports have none. -/
  key_size : Nat
  /-- The size of `index`. -/
  index_size : Nat
  /-- A null `str` also starts the scan. -/
  null_check : Bool
  /-- The size of `index_value` where it is `index_key|index`; else it is `index`. -/
  value_size : Option Nat

namespace FetchBlock

variable (block : FetchBlock) {R : Type}

/-- `REPORT_FETCH_TOP_BLOCK`, `TAG_INFO_FETCH_TOP_BLOCK` and `tagN_info_fetch_row`. -/
def flat_fetch_row (results : PinbaMap R) (c : IndexCursor) : Fetched Bytes R × IndexCursor :=
  -- `position == 0`; the blocks of the base reports test the string as well
  let first := decide (c.position = 0) || (block.null_check && c.str.isNone)
  let found := if first then results.data_first
    else results.data_next (snprintf_s block.index_size (c.str.getD []))
  -- the saved key is freed before the row is looked at
  let c := if first then c else { c with str := none }
  match found with
  | none => (.end_of_file, c)
  | some (key, data) =>
    let index := snprintf_s PINBA_MAX_LINE_LEN key
    if block.index_size ≤ index.length then (.overflow, c)
    else (.row key index data, { c with str := some index, position := c.position + 1 })

/-- The `index_value` of a row of a nested report. -/
def index_value (index_key index : Bytes) : Bytes :=
  block.value_size.elim index fun size => snprintf_s size (index_key ++ bar :: index)

/-- The end of the blocks of nested reports: a row was found. -/
def deliver (name index_key key : Bytes) (data : R) (c : IndexCursor) :
    Fetched (Bytes × Bytes) R × IndexCursor :=
  let index := snprintf_s PINBA_MAX_LINE_LEN key
  if block.index_size ≤ index.length then (.overflow, c)
  else (.row (name, key) (block.index_value index_key index) data, { c with subindex := some index })

/-- The row after the one in `subindex`, or the first one. -/
def next_in (key_map : PinbaMap R) (c : IndexCursor) : Option (Bytes × R) :=
  match c.subindex with
  | none => key_map.data_first
  | some subindex => key_map.data_next (snprintf_s block.index_size subindex)

/-- `goto repeat_with_next_key`; every turn moves on in the outer map. -/
def repeat_with_next_key (results : PinbaMap (PinbaMap R)) :
    Nat → Bytes → IndexCursor → Fetched (Bytes × Bytes) R × IndexCursor
  | 0, _, c => (.end_of_file, { c with str := none })
  | turns + 1, index_key, c =>
    match results.data_next index_key with
    | none => (.end_of_file, { c with str := none })
    | some (name, key_map) =>
      let index_key := snprintf_s block.key_size name
      let c := { c with str := some index_key }
      match key_map.data_first with
      | none => repeat_with_next_key results turns index_key c
      | some (key, data) => block.deliver name index_key key data c

/-- `TAG_REPORT_TOP_BLOCK` and `TAGN_REPORT_TOP_BLOCK`. -/
def nested_fetch_row (results : PinbaMap (PinbaMap R)) (c : IndexCursor) :
    Fetched (Bytes × Bytes) R × IndexCursor :=
  match c.str with
  | none =>
    match results.data_first with
    | none => (.end_of_file, c)
    | some (name, key_map) =>
      let index_key := snprintf_s block.key_size name
      match key_map.data_first with
      -- an empty first inner map ends the scan
      | none => (.end_of_file, c)
      | some (key, data) => block.deliver name index_key key data { c with str := some index_key }
  | some str =>
    let index_key := snprintf_s block.key_size str
    match results.data_get index_key with
    | none => (.end_of_file, c)
    | some key_map =>
      let found := block.next_in key_map c
      let c := { c with subindex := none }
      match found with
      -- nothing follows below this name
      | none => block.repeat_with_next_key results results.keys.length index_key c
      | some (key, data) => block.deliver index_key index_key key data c

end FetchBlock

/-- The size that `tagN_info_fetch_row` and the `TAGN` blocks allocate for `index`. -/
def tagN_index_size (tags_cnt : Nat) : Nat := tags_cnt * (PINBA_TAG_VALUE_SIZE + 1)

/-- The size that the fetch functions of `tagN_report` and `tagN_report2` allocate for
    `index_value`. -/
def tagN_value_size (tags_cnt : Nat) : Nat :=
  PINBA_SCRIPT_NAME_SIZE + 1 + (PINBA_TAG_VALUE_SIZE + 1) * tags_cnt

/-- The block of the fetch function of a table; `report_info` has a single row. -/
def fetch_block (tags_cnt : Nat) : TableType → Option FetchBlock
  | .base_report .report_info => none
  | .base_report _ => some ⟨0, PINBA_MAX_LINE_LEN, true, none⟩
  | .tag_report .tag_info | .tag_report .tag2_info => some ⟨0, PINBA_MAX_LINE_LEN, false, none⟩
  | .tag_report .tagN_info => some ⟨0, tagN_index_size tags_cnt, false, none⟩
  | .tag_report .tagN_report | .tag_report .tagN_report2 =>
    some ⟨PINBA_SCRIPT_NAME_SIZE + 1, tagN_index_size tags_cnt, true, some (tagN_value_size tags_cnt)⟩
  | .tag_report _ =>
    some ⟨PINBA_SCRIPT_NAME_SIZE + 1, PINBA_MAX_LINE_LEN, true, some (PINBA_MAX_LINE_LEN - 1)⟩
  | .rtag_report .rtag_info | .rtag_report .rtag2_info | .rtag_report .rtagN_info =>
    some ⟨0, PINBA_MAX_LINE_LEN, false, none⟩
  | .rtag_report .rtagN_report =>
    some ⟨PINBA_HOSTNAME_SIZE + 1, tagN_index_size tags_cnt, true, none⟩
  | .rtag_report _ => some ⟨PINBA_HOSTNAME_SIZE + 1, PINBA_MAX_LINE_LEN, true, none⟩
  | _ => none

/-- Whether the report of a table keeps its rows per script or host name. -/
def TableType.nested : TableType → Bool
  | .tag_report k => k.nested
  | .rtag_report k => k.nested
  | _ => false

/-! ## Section 3: What is ahead of a scan -/

section collections
variable {R : Type}

/-- The rows of a flat report. -/
def flatRows (R : Type) : Collection (PinbaMap R) Bytes where
  rows results := results.keys
  rest results last := last.elim results.keys fun key => after key results.keys
  nodup results last := by
    cases last with
    | none => exact results.keys_nodup
    | some key => exact results.keys_nodup.sublist (after_suffix key _).sublist
  rest_none _ := rfl
  mem_rows results last k hk := by
    cases last with
    | none => exact hk
    | some key => exact mem_of_mem_after hk
  rest_next results last k l h := by
    refine after_of_suffix results.keys_nodup ?_
    rw [← h]
    cases last with
    | none => exact List.suffix_refl _
    | some key => exact after_suffix key _

/-- The results of a nested report: no inner map is empty. -/
structure NestedResults (R : Type) where
  map : PinbaMap (PinbaMap R)
  inner_ne : ∀ name key_map, map.lookup name = some key_map → key_map.keys ≠ []

namespace NestedResults

variable (results : NestedResults R) {name name' key key' : Bytes} {names names' : List Bytes}

/-- The keys below a name. -/
def keys (name : Bytes) : List Bytes := (KeyedStore.inner results.map name).keys

/-- The rows below some names. -/
def below (names : List Bytes) : List (Bytes × Bytes) :=
  names.flatMap fun name => (results.keys name).map (name, ·)

variable {results}

theorem mem_below : (name, key) ∈ results.below names ↔ name ∈ names ∧ key ∈ results.keys name := by
  simp [below]

theorem keys_of_notMem (h : name ∉ results.map.keys) : results.keys name = [] := by
  unfold keys KeyedStore.inner
  rw [AList.lookup_eq_none.mpr h]
  rfl

theorem mem_of_mem_keys (h : key ∈ results.keys name) : name ∈ results.map.keys := by
  by_contra hnot
  rw [keys_of_notMem hnot] at h
  cases h

theorem below_append : results.below (names ++ names') = results.below names ++ results.below names' :=
  List.flatMap_append

theorem below_cons : results.below (name :: names) =
    (results.keys name).map (name, ·) ++ results.below names := rfl

theorem nodup_below (h : names.Nodup) : (results.below names).Nodup := by
  refine List.nodup_flatMap.mpr ⟨fun name _ => ?_, h.imp ?_⟩
  · exact (AList.keys_nodup _).map (Prod.mk_right_injective name)
  · intro name name' hne row hrow hrow'
    obtain ⟨key, -, rfl⟩ := List.mem_map.mp hrow
    obtain ⟨key', -, heq⟩ := List.mem_map.mp hrow'
    exact hne (Prod.mk.inj heq).1.symm

/-- The rows of a report. -/
def rows (results : NestedResults R) : List (Bytes × Bytes) := results.below results.map.keys

/-- What follows a row in the iteration order of the two maps. -/
def follow (results : NestedResults R) (row : Bytes × Bytes) : List (Bytes × Bytes) :=
  (after row.2 (results.keys row.1)).map (row.1, ·) ++ results.below (after row.1 results.map.keys)

theorem mem_rows : (name, key) ∈ results.rows ↔ key ∈ results.keys name := by
  unfold rows
  rw [mem_below]
  exact ⟨fun h => h.2, fun h => ⟨mem_of_mem_keys h, h⟩⟩

theorem mem_follow : (name', key') ∈ results.follow (name, key) ↔
    (name' = name ∧ key' ∈ after key (results.keys name)) ∨
      (name' ∈ after name results.map.keys ∧ key' ∈ results.keys name') := by
  unfold follow
  rw [List.mem_append, mem_below, List.mem_map]
  simp [and_comm, eq_comm]

/-- The rows from some name on. -/
theorem rows_split (h : name ∈ results.map.keys) : ∃ names,
    results.rows = results.below names ++
      ((results.keys name).map (name, ·) ++ results.below (after name results.map.keys)) := by
  obtain ⟨names, names', hkeys⟩ := List.append_of_mem h
  have hafter : after name results.map.keys = names' :=
    after_of_suffix results.map.keys_nodup ⟨names, hkeys.symm⟩
  refine ⟨names, ?_⟩
  rw [hafter]
  unfold rows
  rw [hkeys, below_append, below_cons]

theorem follow_suffix (row : Bytes × Bytes) : results.follow row <:+ results.rows := by
  obtain ⟨name, key⟩ := row
  by_cases h : name ∈ results.map.keys
  · obtain ⟨names, hrows⟩ := rows_split h
    obtain ⟨before, hbefore⟩ := after_suffix key (results.keys name)
    refine ⟨results.below names ++ before.map (name, ·), ?_⟩
    rw [hrows, ← hbefore, List.map_append]
    simp [follow]
  · -- below a name that is gone nothing follows
    have hnil : results.follow (name, key) = [] := by
      simp [follow, keys_of_notMem h, after_of_notMem h, after, below]
    rw [hnil]
    exact List.nil_suffix

theorem cons_follow_suffix (h : key ∈ results.keys name) :
    (name, key) :: results.follow (name, key) <:+ results.rows := by
  obtain ⟨names, hrows⟩ := rows_split (mem_of_mem_keys h)
  obtain ⟨before, behind, hkeys⟩ := List.append_of_mem h
  have hafter : after key (results.keys name) = behind :=
    after_of_suffix (AList.keys_nodup _) ⟨before, hkeys.symm⟩
  refine ⟨results.below names ++ before.map (name, ·), ?_⟩
  rw [hrows, hkeys]
  simp [follow, hafter]

theorem nodup_rows : results.rows.Nodup := nodup_below results.map.keys_nodup

end NestedResults

/-- The rows of a nested report. -/
def nestedRows (R : Type) : Collection (NestedResults R) (Bytes × Bytes) where
  rows := NestedResults.rows
  rest results last := last.elim results.rows results.follow
  nodup results last := by
    cases last with
    | none => exact NestedResults.nodup_rows
    | some row => exact NestedResults.nodup_rows.sublist (NestedResults.follow_suffix row).sublist
  rest_none _ := rfl
  mem_rows results last k hk := by
    cases last with
    | none => exact hk
    | some row => exact (NestedResults.follow_suffix row).subset hk
  rest_next results last k l h := by
    have hsuffix : k :: l <:+ results.rows := by
      rw [← h]
      cases last with
      | none => exact List.suffix_refl _
      | some row => exact NestedResults.follow_suffix row
    have hk : k.2 ∈ results.keys k.1 :=
      NestedResults.mem_rows.mp (hsuffix.subset List.mem_cons_self)
    have hafter := after_of_suffix NestedResults.nodup_rows hsuffix
    exact (after_of_suffix NestedResults.nodup_rows (NestedResults.cons_follow_suffix hk)).symm.trans
      hafter

end collections

/-! ## Section 4: A call returns the first row ahead -/

theorem snprintf_s_of_lt {buf_size : Nat} {str : Bytes} (h : str.length < buf_size) :
    snprintf_s buf_size str = str := List.take_of_length_le (by omega)

namespace PinbaMap

variable {V : Type} {map : PinbaMap V} {key index : Bytes} {l : List Bytes}

theorem entry_of_mem (h : key ∈ map.keys) :
    ∃ value, map.lookup key = some value ∧ map.entry key = some (key, value) := by
  obtain ⟨value, hvalue⟩ := Option.isSome_iff_exists.mp (AList.lookup_isSome.mpr h)
  exact ⟨value, hvalue, by rw [entry, hvalue]; rfl⟩

theorem data_first_of_nil (h : map.keys = []) : map.data_first = none := by
  rw [data_first, h]
  rfl

theorem data_first_of_cons (h : map.keys = key :: l) :
    ∃ value, map.lookup key = some value ∧ map.data_first = some (key, value) := by
  obtain ⟨value, hvalue, hentry⟩ := entry_of_mem (h ▸ List.mem_cons_self : key ∈ map.keys)
  exact ⟨value, hvalue, by rw [data_first, h]; exact hentry⟩

theorem data_next_of_nil (h : after index map.keys = []) : map.data_next index = none := by
  rw [data_next, h]
  rfl

theorem data_next_of_cons (h : after index map.keys = key :: l) :
    ∃ value, map.lookup key = some value ∧ map.data_next index = some (key, value) := by
  have hmem : key ∈ after index map.keys := h ▸ List.mem_cons_self
  obtain ⟨value, hvalue, hentry⟩ := entry_of_mem (mem_of_mem_after hmem)
  exact ⟨value, hvalue, by rw [data_next, h]; exact hentry⟩

end PinbaMap

/-- A fetch function answers with the first of some rows: its place, its data, and a cursor
    that remembers it. -/
def Answers {K R : Type} (ahead : List K) (data : K → Option R) (At : Option K → IndexCursor → Prop)
    (answer : Fetched K R × IndexCursor) : Prop :=
  match ahead with
  | [] => answer.1 = .end_of_file
  | place :: _ => ∃ index_value d, data place = some d ∧
      answer.1 = .row place index_value d ∧ At (some place) answer.2

namespace FetchBlock

variable {R : Type} {block : FetchBlock} {c : IndexCursor} {name key : Bytes} {data : R}

/-- A key of a flat report is copied in full. -/
def FlatFits (block : FetchBlock) (key : Bytes) : Prop :=
  key.length < block.index_size ∧ key.length < PINBA_MAX_LINE_LEN

/-- The cursor of a scan of a flat report that has returned the row `last`. -/
def FlatAt : Option Bytes → IndexCursor → Prop
  | none, c => c.position = 0
  | some key, c => c.position ≠ 0 ∧ c.str = some key

theorem flat_fetch_row_spec {results : PinbaMap R} {last : Option Bytes} (hat : FlatAt last c)
    (hfits : ∀ key ∈ results.keys, block.FlatFits key) (hlast : ∀ key ∈ last, block.FlatFits key) :
    Answers ((flatRows R).rest results last) results.lookup FlatAt (block.flat_fetch_row results c) := by
  cases last with
  | none =>
    -- the first call
    have hpos : c.position = 0 := hat
    show Answers results.keys _ _ _
    unfold flat_fetch_row
    simp only [hpos, decide_true, Bool.true_or, if_true]
    cases hkeys : results.keys with
    | nil =>
      rw [PinbaMap.data_first_of_nil hkeys]
      rfl
    | cons key l =>
      obtain ⟨value, hvalue, hfound⟩ := PinbaMap.data_first_of_cons hkeys
      have hkey := hfits key (hkeys ▸ List.mem_cons_self)
      rw [hfound]
      simp only [snprintf_s_of_lt hkey.2, if_neg (Nat.not_le.mpr hkey.1)]
      exact ⟨key, value, hvalue, rfl, Nat.succ_ne_zero 0, rfl⟩
  | some last =>
    -- later calls look the saved key up again
    obtain ⟨hpos, hstr⟩ := hat
    show Answers (after last results.keys) _ _ _
    unfold flat_fetch_row
    simp only [hpos, hstr, decide_false, Option.isNone_some, Bool.and_false, Bool.or_false,
      Bool.false_eq_true, if_false, Option.getD_some, snprintf_s_of_lt (hlast last rfl).1]
    cases hrest : after last results.keys with
    | nil =>
      rw [PinbaMap.data_next_of_nil hrest]
      rfl
    | cons key l =>
      obtain ⟨value, hvalue, hfound⟩ := PinbaMap.data_next_of_cons hrest
      have hkey := hfits key (mem_of_mem_after (hrest ▸ List.mem_cons_self))
      rw [hfound]
      simp only [snprintf_s_of_lt hkey.2, if_neg (Nat.not_le.mpr hkey.1)]
      exact ⟨key, value, hvalue, rfl, Nat.succ_ne_zero _, rfl⟩

/-- A row key of a nested report is copied in full. -/
def NestedFits (block : FetchBlock) (row : Bytes × Bytes) : Prop :=
  row.1.length < block.key_size ∧ row.2.length < block.index_size ∧
    row.2.length < PINBA_MAX_LINE_LEN

/-- The cursor of a scan of a nested report that has returned the row `last`. -/
def NestedAt : Option (Bytes × Bytes) → IndexCursor → Prop
  | none, c => c.str = none
  | some row, c => c.str = some row.1 ∧ c.subindex = some row.2

theorem deliver_spec {lookup : Bytes × Bytes → Option R} {l : List (Bytes × Bytes)}
    {index_key : Bytes} (hfits : block.NestedFits (name, key)) (hdata : lookup (name, key) = some data)
    (hstr : c.str = some name) :
    Answers ((name, key) :: l) lookup NestedAt (block.deliver name index_key key data c) := by
  obtain ⟨-, hindex, hline⟩ := hfits
  unfold deliver
  simp only [snprintf_s_of_lt hline, if_neg (Nat.not_le.mpr hindex)]
  exact ⟨_, data, hdata, rfl, hstr, rfl⟩

/-- The inner map of a name in the order of its keys. -/
theorem inner_of_lookup {results : NestedResults R} {key_map : PinbaMap R}
    (h : results.map.lookup name = some key_map) : results.keys name = key_map.keys := by
  unfold NestedResults.keys KeyedStore.inner
  rw [h]
  rfl

theorem nestedGet_of_lookup {results : NestedResults R} {key_map : PinbaMap R}
    (h : results.map.lookup name = some key_map) (hkey : key_map.lookup key = some data) :
    KeyedStore.nestedGet results.map (name, key) = some data := by
  unfold KeyedStore.nestedGet
  rw [h]
  exact hkey

/-- The first row below a name. -/
theorem first_below {results : NestedResults R} {key_map : PinbaMap R} (names : List Bytes)
    (h : results.map.lookup name = some key_map) :
    ∃ key data l, key_map.data_first = some (key, data) ∧
      KeyedStore.nestedGet results.map (name, key) = some data ∧ key ∈ results.keys name ∧
      results.below (name :: names) = (name, key) :: l := by
  obtain ⟨key, l, hkeys⟩ := List.exists_cons_of_ne_nil (results.inner_ne name key_map h)
  obtain ⟨data, hdata, hfirst⟩ := PinbaMap.data_first_of_cons hkeys
  refine ⟨key, data, l.map (name, ·) ++ results.below names, hfirst, nestedGet_of_lookup h hdata, ?_, ?_⟩
  · rw [inner_of_lookup h, hkeys]
    exact List.mem_cons_self
  · rw [NestedResults.below_cons, inner_of_lookup h, hkeys]
    rfl

section nested
variable {results : NestedResults R} (hfits : ∀ row ∈ results.rows, block.NestedFits row)

include hfits

/-- The rows of the first name that follows; no inner map is empty, so that one turn is enough. -/
theorem repeat_with_next_key_spec (turns : Nat) (name : Bytes) (c : IndexCursor) :
    Answers (results.below (after name results.map.keys)) (KeyedStore.nestedGet results.map) NestedAt
      (block.repeat_with_next_key results.map (turns + 1) name c) := by
  rw [repeat_with_next_key]
  cases hrest : after name results.map.keys with
  | nil =>
    rw [PinbaMap.data_next_of_nil hrest]
    rfl
  | cons name' names =>
    obtain ⟨key_map, hmap, hnext⟩ := PinbaMap.data_next_of_cons hrest
    obtain ⟨key, data, l, hfirst, hdata, hkey, hbelow⟩ :=
      first_below names hmap
    have hfit := hfits _ (NestedResults.mem_rows.mpr hkey)
    rw [hnext, hbelow]
    simp only [hfirst, snprintf_s_of_lt hfit.1]
    exact deliver_spec hfit hdata rfl

theorem nested_fetch_row_start (hstr : c.str = none) :
    Answers results.rows (KeyedStore.nestedGet results.map) NestedAt
      (block.nested_fetch_row results.map c) := by
  unfold nested_fetch_row NestedResults.rows
  rw [hstr]
  simp only
  cases hkeys : results.map.keys with
  | nil =>
    rw [PinbaMap.data_first_of_nil hkeys]
    rfl
  | cons name names =>
    obtain ⟨key_map, hmap, hfound⟩ := PinbaMap.data_first_of_cons hkeys
    obtain ⟨key, data, l, hfirst, hdata, hkey, hbelow⟩ :=
      first_below names hmap
    have hfit := hfits _ (NestedResults.mem_rows.mpr hkey)
    rw [hfound, hbelow]
    simp only [hfirst, snprintf_s_of_lt hfit.1]
    exact deliver_spec hfit hdata rfl

theorem nested_fetch_row_resume (hlast : block.NestedFits (name, key))
    (hat : NestedAt (some (name, key)) c) :
    Answers (results.follow (name, key)) (KeyedStore.nestedGet results.map) NestedAt
      (block.nested_fetch_row results.map c) := by
  obtain ⟨hstr, hsub⟩ := hat
  unfold nested_fetch_row NestedResults.follow
  simp only [hstr, snprintf_s_of_lt hlast.1]
  cases hmap : results.map.data_get name with
  | none =>
    -- the inner map is gone: the end is answered, and nothing is ahead
    have hnot : name ∉ results.map.keys := AList.lookup_eq_none.mp hmap
    rw [NestedResults.keys_of_notMem hnot, after_of_notMem hnot]
    rfl
  | some key_map =>
    simp only [next_in, hsub, snprintf_s_of_lt hlast.2.1]
    rw [inner_of_lookup hmap]
    cases hrest : after key key_map.keys with
    | nil =>
      -- the inner map is exhausted, or the key is gone: on to the next name
      rw [PinbaMap.data_next_of_nil hrest]
      obtain ⟨turns, hturns⟩ : ∃ turns, results.map.keys.length = turns + 1 := by
        have hmem : name ∈ results.map.keys := by
          refine AList.lookup_isSome.mp ?_
          exact Option.isSome_iff_exists.mpr ⟨key_map, hmap⟩
        exact ⟨_, (Nat.succ_pred_eq_of_pos (List.length_pos_of_mem hmem)).symm⟩
      rw [hturns]
      exact repeat_with_next_key_spec hfits turns name _
    | cons key' l =>
      obtain ⟨data, hdata, hnext⟩ := PinbaMap.data_next_of_cons hrest
      have hkey : key' ∈ results.keys name := by
        rw [inner_of_lookup hmap]
        exact mem_of_mem_after (hrest ▸ List.mem_cons_self)
      rw [hnext]
      exact deliver_spec (hfits _ (NestedResults.mem_rows.mpr hkey)) (nestedGet_of_lookup hmap hdata)
        rfl

theorem nested_fetch_row_spec {last : Option (Bytes × Bytes)} (hat : NestedAt last c)
    (hlast : ∀ row ∈ last, block.NestedFits row) :
    Answers ((nestedRows R).rest results last) (KeyedStore.nestedGet results.map) NestedAt
      (block.nested_fetch_row results.map c) := by
  cases last with
  | none => exact nested_fetch_row_start hfits hat
  | some row => exact nested_fetch_row_resume hfits (hlast row rfl) hat

end nested

end FetchBlock

/-! ## Section 5: Deletions between the calls -/

section deletions
variable {R : Type}

/-- A row of a flat report is deleted; the order of the others stays. -/
def FlatDeleted (key : Bytes) (results results' : PinbaMap R) : Prop :=
  key ∈ results.keys ∧ results'.keys = results.keys.erase key

/-- A row of a nested report is deleted, and its inner map with it if it was the last one. -/
structure NestedDeleted (row : Bytes × Bytes) (results results' : NestedResults R) : Prop where
  mem : row.2 ∈ results.keys row.1
  inner : ∀ name, results'.keys name =
    if name = row.1 then (results.keys name).erase row.2 else results.keys name
  outer : results'.map.keys =
    if results'.keys row.1 = [] then results.map.keys.erase row.1 else results.map.keys

namespace NestedDeleted

variable {row : Bytes × Bytes} {results results' : NestedResults R} {name name' key key' : Bytes}

theorem mem_keys (h : NestedDeleted row results results') :
    key ∈ results'.keys name ↔ key ∈ results.keys name ∧ (name, key) ≠ row := by
  rw [h.inner]
  split
  · next hname =>
    have hnd : (results.keys name).Nodup := AList.keys_nodup _
    subst hname
    rw [hnd.mem_erase_iff, and_comm]
    refine and_congr_right fun _ => not_congr ⟨fun hkey => Prod.ext rfl hkey, fun heq => ?_⟩
    exact (Prod.ext_iff.mp heq).2
  · next hname =>
    exact ⟨fun hkey => ⟨hkey, fun heq => hname (Prod.ext_iff.mp heq).1⟩, fun hkey => hkey.1⟩

theorem mem_rows (h : NestedDeleted row results results') (place : Bytes × Bytes) :
    place ∈ results'.rows ↔ place ∈ results.rows ∧ place ≠ row := by
  obtain ⟨name, key⟩ := place
  rw [NestedResults.mem_rows, NestedResults.mem_rows, h.mem_keys]

/-- A deletion puts nothing behind another row. -/
theorem mem_follow_of_deleted (h : NestedDeleted row results results')
    (hmem : (name', key') ∈ results'.follow (name, key)) :
    (name', key') ∈ results.follow (name, key) := by
  rw [NestedResults.mem_follow] at hmem ⊢
  rcases hmem with ⟨rfl, hkey⟩ | ⟨hname, hkey⟩
  -- below the same name
  · left
    refine ⟨rfl, ?_⟩
    rw [h.inner] at hkey
    split at hkey
    · exact mem_after_of_erase hkey
    · exact hkey
  -- below a later name
  · right
    refine ⟨?_, (h.mem_keys.mp hkey).1⟩
    rw [h.outer] at hname
    split at hname
    · exact mem_after_of_erase hname
    · exact hname

/-- A deletion takes no row from behind a row that stays. -/
theorem mem_follow_deleted (h : NestedDeleted row results results') (hplace : (name, key) ≠ row)
    (hhere : key ∈ results.keys name) (hmem : (name', key') ∈ results.follow (name, key))
    (hkeep : (name', key') ∈ results'.rows) : (name', key') ∈ results'.follow (name, key) := by
  have hkey' := NestedResults.mem_rows.mp hkeep
  rw [NestedResults.mem_follow] at hmem ⊢
  rcases hmem with ⟨rfl, hkey⟩ | ⟨hname, hkey⟩
  · left
    refine ⟨rfl, ?_⟩
    rw [h.inner]
    split
    · next hrow =>
      refine mem_after_erase (fun heq => hplace (Prod.ext hrow heq)) (fun heq => ?_) hkey
      exact (h.mem_keys.mp hkey').2 (Prod.ext hrow heq)
    · exact hkey
  · right
    refine ⟨?_, hkey'⟩
    rw [h.outer]
    split
    · -- the deleted row was the last one below its name
      next hnone =>
      refine mem_after_erase ?_ ?_ hname
      · rintro rfl
        have hstays := h.mem_keys.mpr ⟨hhere, hplace⟩
        rw [hnone] at hstays
        cases hstays
      · rintro rfl
        rw [hnone] at hkey'
        cases hkey'
    · exact hname

end NestedDeleted

end deletions

/-! ## Section 6: Fetch functions -/

/-- A fetch function, with the rows that it scans. -/
structure ReportFetch (S K R : Type) extends Collection S K where
  fetch : S → IndexCursor → Fetched K R × IndexCursor
  data : S → K → Option R
  /-- The key of a row is copied in full. -/
  Fits : K → Prop
  /-- The cursor of a scan that has returned a row last. -/
  At : Option K → IndexCursor → Prop
  Deleted : K → S → S → Prop
  at_start : At none .rnd_init
  fetch_spec : ∀ s last c, At last c → (∀ k ∈ rows s, Fits k) → (∀ k ∈ last, Fits k) →
    Answers (rest s last) (data s) At (fetch s c)
  deleted_rows : ∀ k s s', Deleted k s s' → ∀ k', k' ∈ rows s' ↔ k' ∈ rows s ∧ k' ≠ k
  deleted_rest : ∀ k s s', Deleted k s s' → ∀ last, ∀ k' ∈ rest s' last, k' ∈ rest s last
  deleted_keeps : ∀ k s s', Deleted k s s' → ∀ place ∈ rows s, place ≠ k →
    toCollection.Keeps (some place) s s'

namespace FetchBlock

variable (block : FetchBlock) (R : Type)

/-- The fetch functions of flat reports. -/
def flatFetch : ReportFetch (PinbaMap R) Bytes R where
  toCollection := flatRows R
  fetch := block.flat_fetch_row
  data results := results.data_get
  Fits := block.FlatFits
  At := FlatAt
  Deleted := FlatDeleted
  at_start := rfl
  fetch_spec _ _ _ hat hfits hlast := flat_fetch_row_spec hat hfits hlast
  deleted_rows k s s' h k' := by
    show k' ∈ s'.keys ↔ k' ∈ s.keys ∧ k' ≠ k
    rw [h.2, s.keys_nodup.mem_erase_iff, and_comm]
  deleted_rest k s s' h last k' hk' := by
    cases last with
    | none =>
      have hk' : k' ∈ s'.keys := hk'
      rw [h.2] at hk'
      exact List.mem_of_mem_erase hk'
    | some last =>
      have hk' : k' ∈ after last s'.keys := hk'
      rw [h.2] at hk'
      exact mem_after_of_erase hk'
  deleted_keeps k s s' h place _ hne k' hk' hkeep := by
    have hkeep : k' ∈ s'.keys := hkeep
    show k' ∈ after place s'.keys
    rw [h.2] at hkeep ⊢
    exact mem_after_erase hne (s.keys_nodup.mem_erase_iff.mp hkeep).1 hk'

/-- The fetch functions of nested reports. -/
def nestedFetch : ReportFetch (NestedResults R) (Bytes × Bytes) R where
  toCollection := nestedRows R
  fetch results := block.nested_fetch_row results.map
  data results := KeyedStore.nestedGet results.map
  Fits := block.NestedFits
  At := NestedAt
  Deleted := NestedDeleted
  at_start := rfl
  fetch_spec _ _ _ hat hfits hlast := nested_fetch_row_spec hfits hat hlast
  deleted_rows _ _ _ h := h.mem_rows
  deleted_rest k s s' h last k' hk' := by
    cases last with
    | none => exact ((h.mem_rows k').mp hk').1
    | some last => exact h.mem_follow_of_deleted hk'
  deleted_keeps k s s' h place hplace hne k' hk' hkeep :=
    h.mem_follow_deleted hne (NestedResults.mem_rows.mp hplace) hk' hkeep

end FetchBlock

/-- `report->results` with its iteration order. -/
abbrev Results (R : Type) : Bool → Type
  | false => PinbaMap R
  | true => NestedResults R

/-- The fetch function with some block. -/
def FetchBlock.reportFetch (block : FetchBlock) (R : Type) :
    (nested : Bool) → ReportFetch (Results R nested) (RowKey nested) R
  | false => block.flatFetch R
  | true => block.nestedFetch R

/-! ## Section 7: Scans -/

/-- A scan: the report, the cursor of the handler, the places returned so far, last one first,
    and whether the end was answered. -/
structure ReportScan (S K : Type) where
  results : S
  cursor : IndexCursor
  returned : List K
  finished : Bool

/-- What happens to a report and its scan. -/
inductive ScanEvent (S K : Type) where
  /-- A call of the fetch function. -/
  | fetch
  | delete (place : K) (results : S)
  | insert (place : K) (results : S)

namespace ReportFetch

variable {S K R : Type} (rf : ReportFetch S K R)

/-- The steps. A call that overflows a buffer or meets a null row has no defined outcome. -/
inductive Step (st : ReportScan S K) : ScanEvent S K → ReportScan S K → Prop
  | row (place : K) (index_value : Bytes) (data : R) (c : IndexCursor) (hopen : st.finished = false)
    (hfetch : rf.fetch st.results st.cursor = (.row place index_value data, c)) :
    Step st .fetch { st with cursor := c, returned := place :: st.returned }
  | end_of_file (c : IndexCursor) (hopen : st.finished = false)
    (hfetch : rf.fetch st.results st.cursor = (.end_of_file, c)) :
    Step st .fetch { st with cursor := c, finished := true }
  | delete (place : K) (results : S) (h : rf.Deleted place st.results results) :
    Step st (.delete place results) { st with results := results }
  | insert (place : K) (results : S) (hnew : place ∉ rf.rows st.results)
    (h : (rf.rows results).Perm (place :: rf.rows st.results)) :
    Step st (.insert place results) { st with results := results }

/-- A scan of `results` from its first call on, with all states of the report. -/
inductive Run (Allowed : ReportScan S K → ScanEvent S K → Prop) (results : S) :
    List S → ReportScan S K → Prop
  | start : Run Allowed results [results] ⟨results, .rnd_init, [], false⟩
  | step {visited : List S} {st st' : ReportScan S K} (e : ScanEvent S K) :
    Run Allowed results visited st → Allowed st e → rf.Step st e st' →
      Run Allowed results (st'.results :: visited) st'

/-- The row that was returned last is not deleted while other rows follow it, and no insertion
    moves a row that follows it to before it. -/
def Harmless (st : ReportScan S K) : ScanEvent S K → Prop
  | .fetch => True
  | .delete place _ =>
    st.returned.head? = some place → rf.rest st.results (some place) = []
  | .insert _ results => ∀ last ∈ st.returned.head?, last ∈ rf.rows st.results →
    ∀ place ∈ rf.rest st.results (some last), place ∈ rf.rest results (some last)

/-- The report only loses rows. -/
def NoInsert (_ : ReportScan S K) : ScanEvent S K → Prop
  | .insert _ _ => False
  | _ => True

variable {rf} {Allowed : ReportScan S K → ScanEvent S K → Prop} {results : S} {visited : List S}
  {st st' : ReportScan S K} {e : ScanEvent S K}

/-- The cursor remembers the last row, which was there when it was returned. -/
structure Tracks (rf : ReportFetch S K R) (visited : List S) (st : ReportScan S K) : Prop where
  cursor : st.finished = false → rf.At st.returned.head? st.cursor
  seen : ∀ place ∈ st.returned.head?, ∃ v ∈ visited, place ∈ rf.rows v
  current : st.results ∈ visited

/-- What a call returns is what is ahead. -/
theorem fetch_answers (h : rf.Tracks visited st)
    (hfits : ∀ v ∈ visited, ∀ place ∈ rf.rows v, rf.Fits place) (hopen : st.finished = false) :
    Answers (rf.rest st.results st.returned.head?) (rf.data st.results) rf.At
      (rf.fetch st.results st.cursor) := by
  refine rf.fetch_spec _ _ _ (h.cursor hopen) (hfits _ h.current) ?_
  intro place hplace
  obtain ⟨v, hv, hmem⟩ := h.seen place hplace
  exact hfits v hv place hmem

/-- A row is returned: it was the first one ahead. -/
theorem rest_of_row (h : rf.Tracks visited st)
    (hfits : ∀ v ∈ visited, ∀ place ∈ rf.rows v, rf.Fits place) (hopen : st.finished = false)
    {place : K} {index_value : Bytes} {data : R} {c : IndexCursor}
    (hfetch : rf.fetch st.results st.cursor = (.row place index_value data, c)) :
    ∃ l, rf.rest st.results st.returned.head? = place :: l ∧ rf.At (some place) c := by
  have hanswer := fetch_answers h hfits hopen
  rw [hfetch] at hanswer
  cases hrest : rf.rest st.results st.returned.head? with
  | nil =>
    rw [hrest] at hanswer
    cases hanswer
  | cons place' l =>
    rw [hrest] at hanswer
    obtain ⟨_, _, -, hrow, hat⟩ := hanswer
    obtain ⟨rfl, -, -⟩ := Fetched.row.inj hrow
    exact ⟨l, rfl, hat⟩

/-- The end is answered: nothing is ahead. -/
theorem rest_of_end (h : rf.Tracks visited st)
    (hfits : ∀ v ∈ visited, ∀ place ∈ rf.rows v, rf.Fits place) (hopen : st.finished = false)
    {c : IndexCursor} (hfetch : rf.fetch st.results st.cursor = (.end_of_file, c)) :
    rf.rest st.results st.returned.head? = [] := by
  have hanswer := fetch_answers h hfits hopen
  rw [hfetch] at hanswer
  cases hrest : rf.rest st.results st.returned.head? with
  | nil => rfl
  | cons place' l =>
    rw [hrest] at hanswer
    obtain ⟨_, _, -, hrow, -⟩ := hanswer
    cases hrow

theorem tracks_step (h : rf.Tracks visited st)
    (hfits : ∀ v ∈ visited, ∀ place ∈ rf.rows v, rf.Fits place) (hstep : rf.Step st e st') :
    rf.Tracks (st'.results :: visited) st' := by
  have hseen : ∀ place ∈ st.returned.head?, ∃ v ∈ st'.results :: visited, place ∈ rf.rows v := by
    intro place hplace
    obtain ⟨v, hv, hmem⟩ := h.seen place hplace
    exact ⟨v, List.mem_cons_of_mem _ hv, hmem⟩
  cases hstep with
  -- only a row moves the cursor
  | row place index_value data c hopen hfetch =>
    obtain ⟨l, hrest, hat⟩ := rest_of_row h hfits hopen hfetch
    refine ⟨fun _ => hat, ?_, List.mem_cons_self⟩
    intro place' hplace'
    obtain rfl : place = place' := Option.some.inj hplace'
    exact ⟨_, List.mem_cons_self, rf.mem_rows _ _ _ (hrest ▸ List.mem_cons_self)⟩
  | end_of_file c hopen hfetch =>
    exact ⟨fun hfinished => absurd hfinished (by simp), hseen, List.mem_cons_self⟩
  | delete place results hdel => exact ⟨h.cursor, hseen, List.mem_cons_self⟩
  | insert place results hnew hins => exact ⟨h.cursor, hseen, List.mem_cons_self⟩

theorem tracks_of_run (hrun : rf.Run Allowed results visited st)
    (hfits : ∀ v ∈ visited, ∀ place ∈ rf.rows v, rf.Fits place) : rf.Tracks visited st := by
  induction hrun with
  | start => exact ⟨fun _ => rf.at_start, fun _ h => absurd h (Option.not_mem_none _),
    List.mem_cons_self⟩
  | step e _ _ hstep ih =>
    have hfits' := fun v hv => hfits v (List.mem_cons_of_mem _ hv)
    exact tracks_step (ih hfits') hfits' hstep

/-- All rows that were there in every visited state have been returned. -/
def Complete (rf : ReportFetch S K R) (visited : List S) (st : ReportScan S K) : Prop :=
  ∀ place, (∀ v ∈ visited, place ∈ rf.rows v) → place ∈ st.returned

/-- The row that was returned last is there, and what has not been returned follows it. -/
structure Pending (rf : ReportFetch S K R) (visited : List S) (st : ReportScan S K) : Prop where
  hopen : st.finished = false
  here : ∀ last ∈ st.returned.head?, last ∈ rf.rows st.results
  covers : rf.Covers visited st.returned st.results

theorem complete_of_subset (h : rf.Complete visited st) (hsub : st.returned ⊆ st'.returned)
    (v : S) : rf.Complete (v :: visited) st' :=
  fun place hplace => hsub (h place fun v hv => hplace v (List.mem_cons_of_mem _ hv))

theorem pending_fetch (h : rf.Pending visited st) (htracks : rf.Tracks visited st)
    (hfits : ∀ v ∈ visited, ∀ place ∈ rf.rows v, rf.Fits place) (hstep : rf.Step st .fetch st') :
    rf.Complete (st'.results :: visited) st' ∨ rf.Pending (st'.results :: visited) st' := by
  have hvisit : rf.Covers (st.results :: visited) st.returned st.results :=
    Collection.covers_change h.covers fun _ hk _ => hk
  cases hstep with
  | row place index_value data c hopen hfetch =>
    obtain ⟨l, hrest, -⟩ := rest_of_row htracks hfits hopen hfetch
    refine .inr ⟨hopen, ?_, Collection.covers_next hvisit hrest⟩
    intro last hlast
    obtain rfl : place = last := Option.some.inj hlast
    exact rf.mem_rows _ _ _ (hrest ▸ List.mem_cons_self)
  | end_of_file c hopen hfetch =>
    refine .inl fun place hplace => ?_
    exact Collection.returned_of_covers hvisit (rest_of_end htracks hfits hopen hfetch) hplace

theorem pending_delete (h : rf.Pending visited st) {place : K} {results' : S}
    (hdel : rf.Deleted place st.results results') (hok : rf.Harmless st (.delete place results')) :
    rf.Complete (results' :: visited) { st with results := results' } ∨
      rf.Pending (results' :: visited) { st with results := results' } := by
  by_cases hlast : st.returned.head? = some place
  · -- nothing follows the row: all rows that lasted have been returned
    left
    intro place' hplace'
    refine Collection.returned_of_covers h.covers ?_ fun v hv => hplace' v (List.mem_cons_of_mem _ hv)
    rw [hlast]
    exact hok hlast
  · right
    refine ⟨h.hopen, ?_, Collection.covers_change h.covers ?_⟩
    · intro last hmem
      refine (rf.deleted_rows _ _ _ hdel last).mpr ⟨h.here last hmem, ?_⟩
      rintro rfl
      exact hlast hmem
    · cases hhead : st.returned.head? with
      | none =>
        intro place' _ hkeep
        rw [rf.rest_none]
        exact hkeep
      | some last =>
        refine rf.deleted_keeps _ _ _ hdel last (h.here last hhead) ?_
        rintro rfl
        exact hlast hhead

theorem pending_insert (h : rf.Pending visited st) {place : K} {results' : S}
    (hins : (rf.rows results').Perm (place :: rf.rows st.results))
    (hok : rf.Harmless st (.insert place results')) :
    rf.Pending (results' :: visited) { st with results := results' } := by
  have hmem : ∀ place' ∈ rf.rows st.results, place' ∈ rf.rows results' :=
    fun place' hplace' => hins.mem_iff.mpr (List.mem_cons_of_mem _ hplace')
  refine ⟨h.hopen, fun last hlast => hmem last (h.here last hlast), Collection.covers_change h.covers ?_⟩
  cases hhead : st.returned.head? with
  | none =>
    intro place' _ hkeep
    rw [rf.rest_none]
    exact hkeep
  | some last =>
    intro place' hplace' _
    exact hok last hhead (h.here last hhead) place' hplace'

/-- A scan in which only harmless changes happen misses no row. -/
theorem complete_or_pending (hrun : rf.Run rf.Harmless results visited st)
    (hfits : ∀ v ∈ visited, ∀ place ∈ rf.rows v, rf.Fits place) :
    rf.Complete visited st ∨ rf.Pending visited st := by
  induction hrun with
  | start =>
    exact .inr ⟨rfl, fun _ h => absurd h (Option.not_mem_none _), Collection.covers_start⟩
  | step e hrun hok hstep ih =>
    have hfits' := fun v hv => hfits v (List.mem_cons_of_mem _ hv)
    rcases ih hfits' with hcomplete | hpending
    -- a complete scan stays complete, whatever happens
    · refine .inl (complete_of_subset hcomplete ?_ _)
      cases hstep with
      | row place index_value data c hopen hfetch => exact List.subset_cons_self _ _
      | _ => exact List.Subset.refl _
    · cases e with
      | fetch => exact pending_fetch hpending (tracks_of_run hrun hfits') hfits' hstep
      | delete place results' =>
        cases hstep with
        | delete _ _ hdel => exact pending_delete hpending hdel hok
      | insert place results' =>
        cases hstep with
        | insert _ _ _ hins => exact .inr (pending_insert hpending hins hok)

/-- As long as a report only loses rows, no row is returned twice. -/
theorem fresh_of_run (hrun : rf.Run NoInsert results visited st)
    (hfits : ∀ v ∈ visited, ∀ place ∈ rf.rows v, rf.Fits place) :
    rf.Fresh st.returned st.results := by
  induction hrun with
  | start => exact Collection.fresh_start
  | step e hrun hok hstep ih =>
    have hfits' := fun v hv => hfits v (List.mem_cons_of_mem _ hv)
    have hfresh := ih hfits'
    cases hstep with
    | row place index_value data c hopen hfetch =>
      obtain ⟨l, hrest, -⟩ := rest_of_row (tracks_of_run hrun hfits') hfits' hopen hfetch
      exact Collection.fresh_next hfresh hrest
    | end_of_file c hopen hfetch => exact hfresh
    | delete place results' hdel =>
      -- nothing is put behind the cursor that was returned before
      exact Collection.fresh_change hfresh (rf.deleted_rest _ _ _ hdel _)
    | insert place results' hnew hins => exact absurd hok id

end ReportFetch

/-- Scans of every report table, with keys that fit the buffers: if no deletion removes the
    row that was returned last while other rows follow it, and no insertion moves a row that
    follows it to before it, then at the end every row that was there all the time has been
    returned; and if there is no insertion, no row is returned twice. -/
theorem report_scan_complete (R : Type) (type : TableType) (block : FetchBlock) :
    let rf := block.reportFetch R type.nested
    (∀ results visited st, rf.Run rf.Harmless results visited st →
      (∀ v ∈ visited, ∀ place ∈ rf.rows v, rf.Fits place) → st.finished = true →
      ∀ place, (∀ v ∈ visited, place ∈ rf.rows v) → place ∈ st.returned) ∧
    (∀ results visited st, rf.Run ReportFetch.NoInsert results visited st →
      (∀ v ∈ visited, ∀ place ∈ rf.rows v, rf.Fits place) → st.returned.Nodup) := by
  intro rf
  refine ⟨?_, fun results visited st hrun hfits => (ReportFetch.fresh_of_run hrun hfits).1⟩
  intro results visited st hrun hfits hfinished
  rcases ReportFetch.complete_or_pending hrun hfits with hcomplete | hpending
  · exact hcomplete
  · rw [hpending.hopen] at hfinished
    cases hfinished

/-- A report with the rows `a` and `b`, and what a deletion leaves of it. -/
def two_rows : PinbaMap Unit := ((∅ : PinbaMap Unit).insert (ascii "b") ()).insert (ascii "a") ()

def row_b : PinbaMap Unit := (∅ : PinbaMap Unit).insert (ascii "b") ()

/-- The block of `report1_fetch_row`. -/
def report1_block : FetchBlock := ⟨0, PINBA_MAX_LINE_LEN, true, none⟩

/-- A new row before those of the report. -/
def three_rows : PinbaMap Unit := two_rows.insert (ascii "c") ()

/-- A row that comes in before the last one does no harm. -/
theorem report_scan_complete_two_rows :
    fetch_block 0 (.base_report .report1) = some report1_block ∧
      ∃ visited st, (report1_block.flatFetch Unit).Run (report1_block.flatFetch Unit).Harmless two_rows
        visited st ∧ st.results = three_rows ∧ st.finished = true ∧
        ascii "a" ∈ st.returned ∧ ascii "b" ∈ st.returned := by
  have hfirst : (report1_block.flatFetch Unit).Run (report1_block.flatFetch Unit).Harmless two_rows
      [two_rows, two_rows] ⟨two_rows, ⟨1, some (ascii "a"), none⟩, [ascii "a"], false⟩ :=
    .step .fetch .start trivial (.row (ascii "a") (ascii "a") () _ rfl rfl)
  have hinserted : (report1_block.flatFetch Unit).Run (report1_block.flatFetch Unit).Harmless two_rows
      [three_rows, two_rows, two_rows] ⟨three_rows, ⟨1, some (ascii "a"), none⟩, [ascii "a"], false⟩ := by
    refine .step (.insert (ascii "c") three_rows) hfirst ?_ (.insert _ _ ?_ ?_)
    · intro last hlast _ place hplace
      obtain rfl : ascii "a" = last := Option.some.inj hlast
      exact hplace
    · show ascii "c" ∉ two_rows.keys
      decide
    · exact .refl _
  have hrun : (report1_block.flatFetch Unit).Run (report1_block.flatFetch Unit).Harmless two_rows
      [three_rows, three_rows, three_rows, two_rows, two_rows]
      ⟨three_rows, ⟨2, none, none⟩, [ascii "b", ascii "a"], true⟩ :=
    .step .fetch (.step .fetch hinserted trivial (.row (ascii "b") (ascii "b") ()
      ⟨2, some (ascii "b"), none⟩ rfl rfl)) trivial (.end_of_file ⟨2, none, none⟩ rfl rfl)
  have hvisited : ∀ v ∈ [three_rows, three_rows, three_rows, two_rows, two_rows],
      v = three_rows ∨ v = two_rows := by
    intro v hv
    simpa using hv
  have hcomplete := (report_scan_complete Unit (.base_report .report1) report1_block).1 _ _ _ hrun (by
    intro v hv place hplace
    have hkeys : ∀ k ∈ three_rows.keys ++ two_rows.keys, report1_block.FlatFits k := by
      unfold FetchBlock.FlatFits
      decide
    refine hkeys place (List.mem_append.mpr ?_)
    rcases hvisited v hv with rfl | rfl
    · exact .inl hplace
    · exact .inr hplace) rfl
  refine ⟨rfl, _, _, hrun, rfl, rfl, hcomplete (ascii "a") ?_, hcomplete (ascii "b") ?_⟩
  · intro v hv
    show ascii "a" ∈ v.keys
    rcases hvisited v hv with rfl | rfl <;> decide
  · intro v hv
    show ascii "b" ∈ v.keys
    rcases hvisited v hv with rfl | rfl <;> decide

/-- The row that the scan returned last expires before the next call, which then answers the
    end: the other row is missed. -/
theorem report_scan_misses_row :
    ∃ visited st, (report1_block.flatFetch Unit).Run (fun _ _ => True) two_rows visited st ∧
      (∀ v ∈ visited, ∀ place ∈ v.keys, report1_block.FlatFits place) ∧
      st.finished = true ∧ (∀ v ∈ visited, ascii "b" ∈ v.keys) ∧ ascii "b" ∉ st.returned := by
  refine ⟨[row_b, row_b, two_rows, two_rows], ⟨row_b, ⟨1, none, none⟩, [ascii "a"], true⟩, ?_, ?_, rfl,
    ?_, by decide⟩
  · have hdel : FlatDeleted (ascii "a") two_rows row_b := ⟨by decide, by decide⟩
    exact .step .fetch (.step (.delete (ascii "a") row_b) (.step .fetch .start trivial
      (.row (ascii "a") (ascii "a") () ⟨1, some (ascii "a"), none⟩ rfl rfl)) trivial
      (.delete _ _ hdel)) trivial (.end_of_file ⟨1, none, none⟩ rfl rfl)
  · unfold FetchBlock.FlatFits
    decide
  · decide

end PinbaEngine
