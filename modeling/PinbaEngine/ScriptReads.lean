import PinbaEngine.LookupKeys

/-! # Reading a tag report by script name

    `index_read` saves the script name in the cursor and returns the first row
    below it; `index_next` goes on from there.

    - The block of the kinds with one or two tags tests the row and answers the
      end after the last one.
    - The block of the kinds with any number of tags tests the inner map a second
      time in place of the row. It answers the end only for a name that is not
      there; below one that is, the call after the last row uses a null pointer.

    An empty script name leaves a null pointer in the cursor, which both blocks take
    for a read that starts with the first name of the report.
-/

namespace PinbaEngine

open SavedCursor

/-! ## Section 1: `index_read` -/

namespace ScriptKind

variable (k : ScriptKind) (block : FetchBlock) {R : Type}

/-- `ha_pinba::read_row_by_key` for the tables with an index on the script name. There is no result
    if `netstr_to_key` stores outside of its copy. -/
def read_row_by_key (results : PinbaMap (PinbaMap R)) (key : Block UInt8) (c : IndexCursor) :
    Option (Fetched (Bytes × Bytes) R × IndexCursor) :=
  -- `ival` shares its bytes with `str.val` and is cleared first
  (netstr_to_key key).map fun index =>
    k.fetch_row_by_script block results { c with str := index.val.map (Block.string 0) }

/-- `ha_pinba::index_read`. -/
def index_read (results : PinbaMap (PinbaMap R)) (key : Block UInt8) (c : IndexCursor) :
    Option (Fetched (Bytes × Bytes) R × IndexCursor) :=
  (k.read_row_by_key block results key { c with subindex := none, position := 0 }).map counted

end ScriptKind

/-- A call with this answer, and the calls that follow it, return these rows and then the end of
    file. -/
inductive ReturnsAfter {K R : Type} (call : IndexCursor → Fetched K R × IndexCursor) :
    Fetched K R × IndexCursor → List K → Prop
  | end_of_file {c : IndexCursor} : ReturnsAfter call (.end_of_file, c) []
  | row {c : IndexCursor} {place : K} {index_value : Bytes} {data : R} {places : List K}
    (hrest : Returns call c places) : ReturnsAfter call (.row place index_value data, c) (place :: places)

/-- `index_read` and then `index_next` return every row of the inner map below `name` once and then
    the end of file; no other answer, and so no row through a null pointer, comes before. -/
def ReadsScript {R : Type} (k : ScriptKind) (block : FetchBlock) (results : NestedResults R)
    (name : Bytes) (key : Block UInt8) (c : IndexCursor) : Prop :=
  ∃ answer places, k.index_read block results.map key c = some answer ∧
    ReturnsAfter (k.index_next block results.map) answer places ∧ places.Perm (results.below [name])

/-- The name whose inner map is read when the cursor holds this string. -/
def NestedResults.found_name {R : Type} (results : NestedResults R) : Option Bytes → Option Bytes
  | some name => (results.map.lookup name).map fun _ => name
  | none => results.map.keys.head?

/-! ## Section 2: The calls of a read -/

theorem returnsAfter_unique {K R : Type} {call : IndexCursor → Fetched K R × IndexCursor}
    {answer : Fetched K R × IndexCursor} {places places' : List K}
    (h : ReturnsAfter call answer places) (h' : ReturnsAfter call answer places') : places = places' := by
  cases h with
  | end_of_file =>
    cases h' with
    | end_of_file => rfl
  | row hrest =>
    cases h' with
    | row hrest' => rw [returns_unique hrest hrest']

namespace ScriptKind

variable {R : Type} {k : ScriptKind} {block : FetchBlock} {results : NestedResults R}
  {key : Block UInt8} {str : Option Bytes} {name : Bytes}

/-- The first fetch of a read. -/
def first_fetch (k : ScriptKind) (block : FetchBlock) (results : NestedResults R) (str : Option Bytes) :
    Fetched (Bytes × Bytes) R × IndexCursor :=
  counted (k.fetch_row_by_script block results.map ⟨0, str, none⟩)

theorem index_read_eq {index : IndexStr} (hindex : netstr_to_key key = some index) (c : IndexCursor) :
    k.index_read block results.map key c =
      some (k.first_fetch block results (index.val.map (Block.string 0))) := by
  unfold index_read read_row_by_key first_fetch
  rw [hindex]
  rfl

/-- Without an inner map to read, the end is answered at once. -/
theorem first_fetch_nothing (hfound : results.found_name str = none) :
    k.first_fetch block results str = (.end_of_file, ⟨0, str, none⟩) := by
  unfold first_fetch fetch_row_by_script
  cases str with
  | none =>
    have hkeys : results.map.keys = [] := List.head?_eq_none_iff.mp hfound
    have hfirst := PinbaMap.data_first_of_nil hkeys
    cases k.nary with
    | true => simp only [if_true, FetchBlock.tagN_fetch_row_by_key, hfirst, counted]
    | false => simp only [Bool.false_eq_true, if_false, FetchBlock.tag_fetch_row_by_key, hfirst, counted]
  | some name =>
    have hget : results.map.data_get name = none := Option.map_eq_none_iff.mp hfound
    cases k.nary with
    | true => simp only [if_true, FetchBlock.tagN_fetch_row_by_key, hget, counted]
    | false => simp only [Bool.false_eq_true, if_false, FetchBlock.tag_fetch_row_by_key, hget, counted]

/-- The inner map that is read, and how the cursor came to its name. -/
theorem lookup_of_found (hfound : results.found_name str = some name) :
    ∃ key_map, results.map.lookup name = some key_map ∧
      (str = some name ∨ str = none ∧ results.map.data_first = some (name, key_map)) := by
  cases str with
  | none =>
    obtain ⟨names, hkeys⟩ := List.head?_eq_some_iff.mp hfound
    obtain ⟨key_map, hmap, hfirst⟩ := PinbaMap.data_first_of_cons hkeys
    exact ⟨key_map, hmap, .inr ⟨rfl, hfirst⟩⟩
  | some name' =>
    obtain ⟨key_map, hmap, rfl⟩ := Option.map_eq_some_iff.mp hfound
    exact ⟨key_map, hmap, .inl rfl⟩

/-- The kinds with one or two tags return the rows of this inner map, and then the end. -/
theorem returnsAfter_first_fetch (hk : k.nary = false)
    (hfits : ∀ row ∈ results.rows, block.NestedFits row) (hfound : results.found_name str = some name) :
    ReturnsAfter (k.index_next block results.map) (k.first_fetch block results str)
      (results.below [name]) := by
  obtain ⟨key_map, hmap, hstr⟩ := lookup_of_found hfound
  have hget : results.map.data_get name = some key_map := hmap
  have hfits' : ∀ key ∈ key_map.keys, block.NestedFits (name, key) := by
    intro key hkey
    exact hfits _ (NestedResults.mem_rows.mpr (FetchBlock.inner_of_lookup hmap ▸ hkey))
  -- both ways to the name lead to the same fetch below it
  have hcall : ∃ index_key, k.first_fetch block results str =
      counted (block.fetch_below name index_key key_map ⟨0, some name, none⟩) := by
    rcases hstr with rfl | ⟨rfl, hfirst⟩
    · refine ⟨[], ?_⟩
      simp only [first_fetch, fetch_row_by_script, hk, Bool.false_eq_true, if_false,
        FetchBlock.tag_fetch_row_by_key, hget]
    · -- the name is copied to the cursor, in full
      obtain ⟨key, keys, hkeys⟩ := List.exists_cons_of_ne_nil (results.inner_ne name key_map hmap)
      have hname := (hfits' key (hkeys ▸ List.mem_cons_self)).1
      refine ⟨name, ?_⟩
      simp only [first_fetch, fetch_row_by_script, hk, Bool.false_eq_true, if_false,
        FetchBlock.tag_fetch_row_by_key, hfirst, snprintf_s_of_lt hname]
  obtain ⟨index_key, hcall⟩ := hcall
  obtain ⟨key, data, places, hbelow, hrow, hrest⟩ := first_row_below hk hmap hfits' index_key
  rw [hcall, hrow, hbelow]
  exact .row hrest

/-- The kinds with any number of tags never come to the end. -/
theorem not_returnsAfter_first_fetch (hk : k.nary = true) (hfound : results.found_name str = some name)
    (hname : name.length < PINBA_SCRIPT_NAME_SIZE) {places : List (Bytes × Bytes)} :
    ¬ ReturnsAfter (k.index_next block results.map) (k.first_fetch block results str) places := by
  obtain ⟨key_map, hmap, hstr⟩ := lookup_of_found hfound
  have hget : results.map.data_get name = some key_map := hmap
  have hstays : StaysBelow name (k.first_fetch block results str) := by
    have hbelow := tagN_fetch_below_stays block name key_map
      (show (⟨0, some name, none⟩ : IndexCursor).str = some name from rfl)
    rcases hstr with rfl | ⟨rfl, hfirst⟩
    · simpa only [first_fetch, fetch_row_by_script, hk, if_true, FetchBlock.tagN_fetch_row_by_key,
        hget] using hbelow
    -- here the name is copied to `index`, which may be too short for it
    · have hline : name.length < PINBA_MAX_LINE_LEN := hname.trans (by decide)
      simp only [first_fetch, fetch_row_by_script, hk, if_true, FetchBlock.tagN_fetch_row_by_key,
        hfirst, snprintf_s_of_lt hline]
      split
      · exact .inr (.inr rfl)
      · exact hbelow
  intro h
  rcases hanswer : k.first_fetch block results str with ⟨answer, c⟩
  rw [hanswer] at h hstays
  cases h with
  | end_of_file => exact hstays.ne_end
  | row hrest => exact not_returns hk hmap hrest hstays.str_of_row

end ScriptKind

/-! ## Section 3: Which reads are complete -/

section reads
variable {R : Type} {k : ScriptKind} {block : FetchBlock} {results : NestedResults R} {name : Bytes}

/-- What the cursor holds of a script name. -/
def saved_name (name : Bytes) : Option Bytes := if name = [] then none else some name

theorem netstr_to_key_script_name (name : CString PINBA_SCRIPT_NAME_SIZE) (after : Bytes) :
    ∃ index, netstr_to_key (netstr name.bytes after) = some index ∧
      index.val.map (Block.string 0) = saved_name name.bytes := by
  unfold saved_name
  split
  · next hnil =>
    rw [hnil]
    exact ⟨_, netstr_to_key_null rfl, rfl⟩
  · next hne =>
    have hlt : name.bytes.length < 256 := name.length_lt.trans (by decide)
    obtain ⟨val, hval, hstring⟩ := @netstr_to_key_free _ after (List.length_pos_iff.mpr hne) hlt
      name.nul_free
    exact ⟨_, hval, congrArg some hstring⟩

theorem below_of_notMem (h : name ∉ results.map.keys) : results.below [name] = [] := by
  rw [NestedResults.below_cons, NestedResults.keys_of_notMem h]
  rfl

/-- The rows below two names are the same only for one name. -/
theorem below_perm_iff {first : Bytes} (hfirst : first ∈ results.map.keys) :
    (results.below [first]).Perm (results.below [name]) ↔ first = name := by
  constructor
  · intro hperm
    obtain ⟨key, hrow⟩ := exists_row hfirst
    have hmem : (first, key) ∈ results.below [first] :=
      NestedResults.mem_below.mpr ⟨List.mem_singleton_self _, NestedResults.mem_rows.mp hrow⟩
    exact List.mem_singleton.mp (NestedResults.mem_below.mp (hperm.mem_iff.mp hmem)).1
  · rintro rfl
    exact .refl _

/-- Nothing is found for a name only if it is not there. -/
theorem notMem_of_found_none (h : results.found_name (saved_name name) = none) :
    name ∉ results.map.keys := by
  unfold saved_name at h
  split at h
  · have hkeys : results.map.keys = [] := List.head?_eq_none_iff.mp h
    rw [hkeys]
    exact List.not_mem_nil
  · exact AList.lookup_eq_none.mp (Option.map_eq_none_iff.mp h)

/-- What is found is there, and it is the name itself if that is not empty. -/
theorem found_spec {first : Bytes} (h : results.found_name (saved_name name) = some first) :
    first ∈ results.map.keys ∧
      (first = name ↔ (name = [] → ∀ first ∈ results.map.keys.head?, first = [])) := by
  unfold saved_name at h
  split at h
  · next hnil =>
    have hhead : results.map.keys.head? = some first := h
    refine ⟨List.mem_of_mem_head? hhead, ?_⟩
    rw [hhead, hnil]
    simp
  · next hne =>
    obtain ⟨key_map, hmap, rfl⟩ := Option.map_eq_some_iff.mp h
    exact ⟨AList.lookup_isSome.mp (Option.isSome_iff_exists.mpr ⟨key_map, hmap⟩), by simp [hne]⟩

end reads

/-- A read by a script name returns the rows below it once and then the end of file, without using
    a null pointer, if and only if the name, where it is empty, is the first one of the report or
    there is none, and, for the kinds with any number of tags, the name is not there. -/
theorem script_read_iff (R : Type) (tags_cnt : Nat) (k : ScriptKind) (block : FetchBlock)
    (hblock : fetch_block tags_cnt (.tag_report k.kind) = some block) (results : NestedResults R)
    (hkeyed : k.Keyed results) (name : CString PINBA_SCRIPT_NAME_SIZE) (after : Bytes)
    (c : IndexCursor) :
    ReadsScript k block results name.bytes (netstr name.bytes after) c ↔
      (name.bytes = [] → ∀ first ∈ results.map.keys.head?, first = []) ∧
        (k.nary = true → name.bytes ∉ results.map.keys) := by
  obtain ⟨index, hindex, hsaved⟩ := netstr_to_key_script_name name after
  have hcall := @ScriptKind.index_read_eq R k block results _ index hindex c
  rw [hsaved] at hcall
  have hreads : ReadsScript k block results name.bytes (netstr name.bytes after) c ↔
      ∃ places, ReturnsAfter (k.index_next block results.map)
        (k.first_fetch block results (saved_name name.bytes)) places ∧
          places.Perm (results.below [name.bytes]) := by
    unfold ReadsScript
    rw [hcall]
    simp only [Option.some.injEq, exists_and_left, exists_eq_left']
  rw [hreads]
  cases hfound : results.found_name (saved_name name.bytes) with
  | none =>
    -- nothing to read: the end is right
    have habsent := notMem_of_found_none hfound
    rw [ScriptKind.first_fetch_nothing hfound, below_of_notMem habsent]
    refine ⟨fun _ => ⟨?_, fun _ => habsent⟩, fun _ => ⟨[], .end_of_file, .refl _⟩⟩
    intro hnil first hfirst
    rw [hnil] at hfound
    have hnone : results.map.keys.head? = none := hfound
    rw [hnone] at hfirst
    cases hfirst
  | some first =>
    obtain ⟨hmem, hiff⟩ := found_spec hfound
    cases hk : k.nary with
    | true =>
      constructor
      · rintro ⟨places, hplaces, -⟩
        have hname := name_length hkeyed hmem
        exact absurd hplaces (ScriptKind.not_returnsAfter_first_fetch hk hfound hname)
      · rintro ⟨hhead, habsent⟩
        exact absurd (hiff.mpr hhead ▸ hmem) (habsent rfl)
    | false =>
      have hfits : ∀ row ∈ results.rows, block.NestedFits row := by
        intro row hrow
        obtain ⟨d, ws, rfl⟩ := hkeyed row hrow
        exact ScriptKind.fits_index hk hblock d ws
      have hreturns := ScriptKind.returnsAfter_first_fetch hk hfits hfound
      rw [← hiff, ← below_perm_iff hmem]
      constructor
      · rintro ⟨places, hplaces, hperm⟩
        rw [returnsAfter_unique hplaces hreturns] at hperm
        exact ⟨hperm, fun h => absurd h (by simp)⟩
      · rintro ⟨hperm, -⟩
        exact ⟨_, hreturns, hperm⟩

theorem script_read_one_script :
    ReadsScript .tag_report tag_report_block one_script script_a.bytes (netstr script_a.bytes [0])
      .rnd_init :=
  (script_read_iff Unit 1 .tag_report tag_report_block rfl one_script keyed_one_script script_a [0]
    .rnd_init).mpr ⟨fun h => absurd h (by decide), fun h => absurd h (by decide)⟩

/-- The block of `tagN_report_fetch_row_by_script` with one tag. -/
def tagN_report_block : FetchBlock :=
  ⟨PINBA_SCRIPT_NAME_SIZE + 1, tagN_index_size 1, true, some (tagN_value_size 1)⟩

/-- The inner map with one row, for one tag with an empty value. -/
def empty_value_bar : PinbaMap Unit := (∅ : PinbaMap Unit).insert [bar] ()

/-- A report on any number of tags with one script name and one row. -/
def one_script_nary : NestedResults Unit where
  map := (∅ : PinbaMap (PinbaMap Unit)).insert script_a.bytes empty_value_bar
  inner_ne name key_map h := by
    rw [KeyedStore.lookup_insert_if] at h
    split at h
    · obtain rfl := Option.some.inj h
      decide
    · cases h

/-- With any number of tags, the row of a script is returned, and the call that should answer the
    end uses a null pointer. -/
theorem script_read_null_row :
    fetch_block 1 (.tag_report .tagN_report) = some tagN_report_block ∧
      ScriptKind.tagN_report.Keyed one_script_nary ∧
      (∃ index_value c, ScriptKind.tagN_report.index_read tagN_report_block one_script_nary.map
          (netstr script_a.bytes [0]) .rnd_init = some (.row (script_a.bytes, [bar]) index_value (), c) ∧
        (ScriptKind.tagN_report.index_next tagN_report_block one_script_nary.map c).1 = .null_row) ∧
      ¬ ReadsScript .tagN_report tagN_report_block one_script_nary script_a.bytes
        (netstr script_a.bytes [0]) .rnd_init := by
  have hkeyed : ScriptKind.tagN_report.Keyed one_script_nary := by
    intro row hrow
    have hrow : row ∈ [(script_a.bytes, [bar])] := hrow
    obtain rfl := List.mem_singleton.mp hrow
    exact ⟨script_request script_a, [default], rfl⟩
  have hrow : ScriptKind.tagN_report.index_read tagN_report_block one_script_nary.map
      (netstr script_a.bytes [0]) .rnd_init =
        some (.row (script_a.bytes, [bar]) [97, bar, bar] (), ⟨1, some script_a.bytes, some [bar]⟩) := rfl
  have hnull : (ScriptKind.tagN_report.index_next tagN_report_block one_script_nary.map
      ⟨1, some script_a.bytes, some [bar]⟩).1 = .null_row := rfl
  refine ⟨rfl, hkeyed, ⟨_, _, hrow, hnull⟩, ?_⟩
  rintro ⟨answer, places, hread, hreturns, -⟩
  obtain rfl := Option.some.inj (hrow.symm.trans hread)
  -- the next call is the one through the null pointer
  cases hreturns with
  | row hrest =>
    cases hrest with
    | end_of_file h =>
      rw [h] at hnull
      cases hnull
    | row h _ =>
      rw [h] at hnull
      cases hnull

end PinbaEngine
