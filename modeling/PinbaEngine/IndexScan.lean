import PinbaEngine.ReportScan

/-! # Reading a tag report through its index

    The tables that keep their rows per script name have an index on the script
    name, and the engine tells the server that it can be read in order: a whole table
    may be read as `index_first` followed by `index_next` up to the end of file. Both
    run the fetch functions by script, which stay below one script name.

    - For the kinds with one or two tags the scan ends after the rows of the first
      script name.
    - For the kinds with any number of tags the block tests the inner map where it
      should test the row, so that a call after the last row reads the columns through
      a null pointer: the end is never answered.
-/

namespace PinbaEngine

open SavedCursor

/-! ## Section 1: Fetch functions by script -/

namespace FetchBlock

variable (block : FetchBlock) {R : Type}

/-- The second half of `TAG_REPORT_TOP_BLOCK_BY_KEY`. -/
def fetch_below (name index_key : Bytes) (key_map : PinbaMap R) (c : IndexCursor) :
    Fetched (Bytes × Bytes) R × IndexCursor :=
  let found := block.next_in key_map c
  let c := { c with subindex := none }
  match found with
  | none => (.end_of_file, c)
  | some (key, data) => block.deliver name index_key key data c

/-- `TAG_REPORT_TOP_BLOCK_BY_KEY`. The buffer `index_key` is only filled if the cursor has no
    name yet. -/
def tag_fetch_row_by_key (results : PinbaMap (PinbaMap R)) (c : IndexCursor) :
    Fetched (Bytes × Bytes) R × IndexCursor :=
  match c.str with
  | none =>
    match results.data_first with
    | none => (.end_of_file, c)
    | some (name, key_map) =>
      let index_key := snprintf_s block.key_size name
      block.fetch_below name index_key key_map { c with str := some index_key }
  | some str =>
    match results.data_get str with
    | none => (.end_of_file, c)
    -- `index_key` keeps its zeros
    | some key_map => block.fetch_below str [] key_map c

/-- The second half of `TAGN_REPORT_TOP_BLOCK_BY_KEY`: it tests `key_map` once more, not `data`. -/
def tagN_fetch_below (name : Bytes) (key_map : PinbaMap R) (c : IndexCursor) :
    Fetched (Bytes × Bytes) R × IndexCursor :=
  match block.next_in key_map c with
  | none =>
    -- `index` goes to the cursor, and the columns are read from the row that is not there
    let index := c.subindex.elim [] (snprintf_s block.index_size)
    (.null_row, { c with subindex := some index })
  | some (key, data) => block.deliver name (c.str.getD []) key data { c with subindex := none }

/-- `TAGN_REPORT_TOP_BLOCK_BY_KEY`. -/
def tagN_fetch_row_by_key (results : PinbaMap (PinbaMap R)) (c : IndexCursor) :
    Fetched (Bytes × Bytes) R × IndexCursor :=
  match c.str with
  | none =>
    match results.data_first with
    | none => (.end_of_file, c)
    | some (name, key_map) =>
      let index := snprintf_s PINBA_MAX_LINE_LEN name
      if block.index_size ≤ index.length then (.overflow, c)
      else block.tagN_fetch_below name key_map { c with str := some index }
  | some str =>
    match results.data_get str with
    | none => (.end_of_file, c)
    | some key_map => block.tagN_fetch_below str key_map c

end FetchBlock

/-- The kinds that keep their rows per script name. -/
inductive ScriptKind where
  | tag_report | tag2_report | tag_report2 | tag2_report2 | tagN_report | tagN_report2
deriving DecidableEq

namespace ScriptKind

def kind : ScriptKind → TagKind
  | tag_report => .tag_report
  | tag2_report => .tag2_report
  | tag_report2 => .tag_report2
  | tag2_report2 => .tag2_report2
  | tagN_report => .tagN_report
  | tagN_report2 => .tagN_report2

/-- The kinds whose fetch functions use the `TAGN` blocks. -/
def nary : ScriptKind → Bool
  | tagN_report | tagN_report2 => true
  | _ => false

/-- The row key that the add function builds. -/
def index : ScriptKind → RequestData → List Word → Bytes × Bytes
  | tag_report => TagKind.index .tag_report
  | tag2_report => TagKind.index .tag2_report
  | tag_report2 => TagKind.index .tag_report2
  | tag2_report2 => TagKind.index .tag2_report2
  | tagN_report => TagKind.index .tagN_report
  | tagN_report2 => TagKind.index .tagN_report2

variable (k : ScriptKind) (block : FetchBlock) {R : Type}

/-- `tag_report_fetch_row_by_script` and its siblings. -/
def fetch_row_by_script : PinbaMap (PinbaMap R) → IndexCursor → Fetched (Bytes × Bytes) R × IndexCursor :=
  if k.nary then block.tagN_fetch_row_by_key else block.tag_fetch_row_by_key

/-- `ha_pinba::read_index_first`. -/
def read_index_first (results : PinbaMap (PinbaMap R)) (c : IndexCursor) :
    Fetched (Bytes × Bytes) R × IndexCursor :=
  let c := { c with str := none, subindex := none }
  match results.data_first with
  | none => (.end_of_file, c)
  | some (name, _) =>
    let index := snprintf_s PINBA_MAX_LINE_LEN name
    -- `index` has the size of a script name
    if PINBA_SCRIPT_NAME_SIZE + 1 ≤ index.length then (.overflow, c)
    else k.fetch_row_by_script block results { c with str := some index }

/-- `ha_pinba::read_next_row` by key. -/
def read_next_row (results : PinbaMap (PinbaMap R)) (c : IndexCursor) :
    Fetched (Bytes × Bytes) R × IndexCursor :=
  match k.fetch_row_by_script block results c with
  | (.row place index_value data, c) => (.row place index_value data, c)
  | (answer, c) => (answer, { c with str := none })

/-- A row is counted. -/
def counted {K : Type} : Fetched K R × IndexCursor → Fetched K R × IndexCursor
  | (.row place index_value data, c) =>
    (.row place index_value data, { c with position := c.position + 1 })
  | answer => answer

/-- `ha_pinba::index_first`. -/
def index_first (results : PinbaMap (PinbaMap R)) (c : IndexCursor) :
    Fetched (Bytes × Bytes) R × IndexCursor :=
  counted (k.read_index_first block results { c with position := 0 })

/-- `ha_pinba::index_next`. -/
def index_next (results : PinbaMap (PinbaMap R)) (c : IndexCursor) :
    Fetched (Bytes × Bytes) R × IndexCursor :=
  counted (k.read_next_row block results c)

end ScriptKind

/-! ## Section 2: Whole scans -/

/-- The calls from some cursor on return these rows and then the end of file. -/
inductive Returns {K R : Type} (call : IndexCursor → Fetched K R × IndexCursor) :
    IndexCursor → List K → Prop
  | end_of_file {c c' : IndexCursor} (h : call c = (.end_of_file, c')) : Returns call c []
  | row {c c' : IndexCursor} {place : K} {index_value : Bytes} {data : R} {places : List K}
    (h : call c = (.row place index_value data, c')) (hrest : Returns call c' places) :
    Returns call c (place :: places)

/-- `index_first`, then `index_next`, return these rows and then the end of file. -/
inductive IndexReturns {R : Type} (k : ScriptKind) (block : FetchBlock) (results : PinbaMap (PinbaMap R))
    (c : IndexCursor) : List (Bytes × Bytes) → Prop
  | end_of_file {c' : IndexCursor} (h : k.index_first block results c = (.end_of_file, c')) :
    IndexReturns k block results c []
  | row {c' : IndexCursor} {place : Bytes × Bytes} {index_value : Bytes} {data : R}
    {places : List (Bytes × Bytes)}
    (h : k.index_first block results c = (.row place index_value data, c'))
    (hrest : Returns (k.index_next block results) c' places) :
    IndexReturns k block results c (place :: places)

section returns
variable {K R S : Type}

/-- A sequence of calls has one outcome. -/
theorem returns_unique {call : IndexCursor → Fetched K R × IndexCursor} {c : IndexCursor}
    {places places' : List K} (h : Returns call c places) (h' : Returns call c places') :
    places = places' := by
  induction h generalizing places' with
  | end_of_file heq =>
    cases h' with
    | end_of_file heq' => rfl
    | row heq' _ =>
      rw [heq] at heq'
      cases heq'
  | row heq _ ih =>
    cases h' with
    | end_of_file heq' =>
      rw [heq] at heq'
      cases heq'
    | row heq' hrest' =>
      rw [heq] at heq'
      cases heq'
      rw [ih hrest']

/-- A fetch function returns all rows that are ahead, in their order. -/
theorem returns_rest (rf : ReportFetch S K R) {s : S} (hfits : ∀ place ∈ rf.rows s, rf.Fits place)
    {last : Option K} {c : IndexCursor} (hat : rf.At last c) (hlast : ∀ place ∈ last, rf.Fits place) :
    Returns (rf.fetch s) c (rf.rest s last) := by
  generalize hrest : rf.rest s last = places
  induction places generalizing last c with
  | nil =>
    have hanswer := rf.fetch_spec s last c hat hfits hlast
    rw [hrest] at hanswer
    exact .end_of_file (Prod.ext hanswer rfl)
  | cons place places ih =>
    have hanswer := rf.fetch_spec s last c hat hfits hlast
    rw [hrest] at hanswer
    obtain ⟨index_value, data, -, hrow, hat'⟩ := hanswer
    refine .row (Prod.ext hrow rfl) (ih hat' ?_ (rf.rest_next s last place places hrest))
    intro place' hplace'
    obtain rfl : place = place' := Option.some.inj hplace'
    exact hfits _ (rf.mem_rows s last _ (hrest ▸ List.mem_cons_self))

end returns

/-! ## Section 3: Keys of reports by script -/

namespace ScriptKind

variable {k : ScriptKind} {block : FetchBlock} {tags_cnt : Nat}

theorem index_fst (k : ScriptKind) (d : RequestData) (ws : List Word) :
    (k.index d ws).1 = d.script_name.bytes := by
  cases k <;> rfl

/-- The inner keys of the kinds with one or two tags: at most four fields of 64 bytes. -/
theorem length_index_snd (hk : k.nary = false) (d : RequestData) (ws : List Word) :
    (k.index d ws).2.length < 260 := by
  cases k with
  | tag_report =>
    simp only [index, TagKind.index]
    exact (CString.length_lt _).trans (by decide)
  | tag2_report =>
    simp only [index, TagKind.index]
    exact length_tag2_report_index _ _
  | tag_report2 =>
    simp only [index, TagKind.index]
    exact length_tag_report2_index _ _
  | tag2_report2 =>
    simp only [index, TagKind.index]
    exact length_tag2_report2_index _ _ _
  | tagN_report => cases hk
  | tagN_report2 => cases hk

/-- The buffers of the kinds with one or two tags. -/
theorem block_of_not_nary (hk : k.nary = false)
    (hblock : fetch_block tags_cnt (.tag_report k.kind) = some block) :
    block = ⟨PINBA_SCRIPT_NAME_SIZE + 1, PINBA_MAX_LINE_LEN, true, some (PINBA_MAX_LINE_LEN - 1)⟩ := by
  cases k with
  | tagN_report => cases hk
  | tagN_report2 => cases hk
  | _ => exact (Option.some.inj hblock).symm

theorem fits_index (hk : k.nary = false)
    (hblock : fetch_block tags_cnt (.tag_report k.kind) = some block) (d : RequestData)
    (ws : List Word) : block.NestedFits (k.index d ws) := by
  rw [block_of_not_nary hk hblock]
  have hname := d.script_name.length_lt
  have hkey := length_index_snd hk d ws
  have hline : PINBA_MAX_LINE_LEN = 8192 := rfl
  refine ⟨?_, ?_, ?_⟩
  · rw [index_fst]
    simp only at hname ⊢
    omega
  · simp only
    omega
  · omega

end ScriptKind

/-! ## Section 4: The rows of the first script name -/

namespace ScriptKind

variable {R : Type} {k : ScriptKind} {block : FetchBlock} {results : NestedResults R}
  {key_map : PinbaMap R} {c : IndexCursor} {name key : Bytes}

/-- The kinds with one or two tags: a call goes on below the name of the cursor. -/
theorem fetch_row_by_script_below (hk : k.nary = false)
    (hmap : results.map.lookup name = some key_map)
    (hat : FetchBlock.NestedAt (some (name, key)) c) (hkey : block.NestedFits (name, key)) :
    k.fetch_row_by_script block results.map c =
      match key_map.data_next key with
      | none => (.end_of_file, { c with subindex := none })
      | some (key', data) => block.deliver name [] key' data { c with subindex := none } := by
  obtain ⟨hstr, hsub⟩ := hat
  have hget : results.map.data_get name = some key_map := hmap
  simp only [fetch_row_by_script, hk, Bool.false_eq_true, if_false, FetchBlock.tag_fetch_row_by_key,
    hstr, hget, FetchBlock.fetch_below, FetchBlock.next_in, hsub, snprintf_s_of_lt hkey.2.1]

/-- They return what follows below this name. -/
theorem returns_below (hk : k.nary = false) (hmap : results.map.lookup name = some key_map)
    (hfits : ∀ key ∈ key_map.keys, block.NestedFits (name, key))
    (hat : FetchBlock.NestedAt (some (name, key)) c) (hkey : block.NestedFits (name, key)) :
    Returns (k.index_next block results.map) c ((after key key_map.keys).map (name, ·)) := by
  -- induction on the keys that follow in the inner map
  generalize hrest : after key key_map.keys = keys
  induction keys generalizing key c with
  | nil =>
    refine @Returns.end_of_file _ _ _ c { c with str := none, subindex := none } ?_
    simp only [index_next, read_next_row, fetch_row_by_script_below hk hmap hat hkey,
      PinbaMap.data_next_of_nil hrest, counted]
  | cons key' keys ih =>
    have hmem : key' ∈ after key key_map.keys := hrest ▸ List.mem_cons_self
    obtain ⟨data, -, hnext⟩ := PinbaMap.data_next_of_cons hrest
    have hkey' := hfits key' (mem_of_mem_after hmem)
    have hafter : after key' key_map.keys = keys := by
      refine after_of_suffix key_map.keys_nodup ?_
      rw [← hrest]
      exact after_suffix key _
    have hat' : FetchBlock.NestedAt (some (name, key')) ⟨c.position + 1, c.str, some key'⟩ :=
      ⟨hat.1, rfl⟩
    refine @Returns.row _ _ _ c _ _ (block.index_value [] key') data _ ?_ (ih hat' hkey' hafter)
    simp only [index_next, read_next_row, fetch_row_by_script_below hk hmap hat hkey, hnext,
      FetchBlock.deliver, snprintf_s_of_lt hkey'.2.2, if_neg (Nat.not_le.mpr hkey'.2.1), counted]

theorem indexReturns_nil (hkeys : results.map.keys = []) (c : IndexCursor) :
    IndexReturns k block results.map c [] := by
  refine @IndexReturns.end_of_file _ k block results.map c ⟨0, none, none⟩ ?_
  simp only [index_first, read_index_first, PinbaMap.data_first_of_nil hkeys, counted]

/-- The kinds with one or two tags: the first call below a name returns a row of it, and the calls
    that follow return the others. -/
theorem first_row_below (hk : k.nary = false) (hmap : results.map.lookup name = some key_map)
    (hfits : ∀ key ∈ key_map.keys, block.NestedFits (name, key)) (index_key : Bytes) :
    ∃ key data places, results.below [name] = (name, key) :: places ∧
      counted (block.fetch_below name index_key key_map ⟨0, some name, none⟩) =
        (.row (name, key) (block.index_value index_key key) data, ⟨1, some name, some key⟩) ∧
      Returns (k.index_next block results.map) ⟨1, some name, some key⟩ places := by
  obtain ⟨key, keys, hfirst⟩ := List.exists_cons_of_ne_nil (results.inner_ne name key_map hmap)
  obtain ⟨data, -, hrow⟩ := PinbaMap.data_first_of_cons hfirst
  have hkey := hfits key (hfirst ▸ List.mem_cons_self)
  have hafter : after key key_map.keys = keys :=
    after_of_suffix key_map.keys_nodup (hfirst ▸ List.suffix_refl _)
  refine ⟨key, data, (after key key_map.keys).map (name, ·), ?_, ?_, ?_⟩
  · rw [NestedResults.below_cons, FetchBlock.inner_of_lookup hmap, hafter, hfirst]
    exact List.append_nil _
  · simp only [FetchBlock.fetch_below, FetchBlock.next_in, hrow, FetchBlock.deliver,
      snprintf_s_of_lt hkey.2.2, if_neg (Nat.not_le.mpr hkey.2.1), counted]
  · exact returns_below hk hmap hfits ⟨rfl, rfl⟩ hkey

/-- The kinds with one or two tags: the scan returns the rows of the first name. -/
theorem indexReturns_first (hk : k.nary = false) {names : List Bytes}
    (hkeys : results.map.keys = name :: names) (hname : name.length < PINBA_SCRIPT_NAME_SIZE)
    (hfits : ∀ row ∈ results.rows, block.NestedFits row) (c : IndexCursor) :
    IndexReturns k block results.map c (results.below [name]) := by
  obtain ⟨key_map, hmap, hfound⟩ := PinbaMap.data_first_of_cons hkeys
  have hinner := FetchBlock.inner_of_lookup hmap
  have hfits' : ∀ key ∈ key_map.keys, block.NestedFits (name, key) := by
    intro key hkey
    exact hfits _ (NestedResults.mem_rows.mpr (hinner ▸ hkey))
  -- one row by `index_first`, the others by `index_next`
  obtain ⟨key, data, places, hbelow, hrow, hrest⟩ := first_row_below hk hmap hfits' []
  have hget : results.map.data_get name = some key_map := hmap
  have hline : name.length < PINBA_MAX_LINE_LEN := hname.trans (by decide)
  have hindex : ¬ PINBA_SCRIPT_NAME_SIZE + 1 ≤ name.length := by
    simp only [PINBA_SCRIPT_NAME_SIZE] at hname ⊢
    omega
  have hcall : k.index_first block results.map c =
      counted (block.fetch_below name [] key_map ⟨0, some name, none⟩) := by
    simp only [index_first, read_index_first, hfound, snprintf_s_of_lt hline, if_neg hindex,
      fetch_row_by_script, hk, Bool.false_eq_true, if_false, FetchBlock.tag_fetch_row_by_key, hget]
  rw [hbelow]
  exact .row (hcall.trans hrow) hrest

theorem indexReturns_unique {places places' : List (Bytes × Bytes)}
    (h : IndexReturns k block results.map c places) (h' : IndexReturns k block results.map c places') :
    places = places' := by
  cases h with
  | end_of_file heq =>
    cases h' with
    | end_of_file heq' => rfl
    | row heq' _ =>
      rw [heq] at heq'
      cases heq'
  | row heq hrest =>
    cases h' with
    | end_of_file heq' =>
      rw [heq] at heq'
      cases heq'
    | row heq' hrest' =>
      rw [heq] at heq'
      cases heq'
      rw [returns_unique hrest hrest']

/-! ## Section 5: The kinds with any number of tags -/

/-- The answer is a row, with the name still in the cursor, or has no defined outcome. -/
def StaysBelow (name : Bytes) (answer : Fetched (Bytes × Bytes) R × IndexCursor) : Prop :=
  (∃ place index_value data c', answer = (.row place index_value data, c') ∧ c'.str = some name) ∨
    answer.1 = .null_row ∨ answer.1 = .overflow

/-- Below a name that is there, the block never answers the end. -/
theorem tagN_fetch_below_stays (block : FetchBlock) (name' : Bytes) (key_map : PinbaMap R)
    (hstr : c.str = some name) : StaysBelow name (counted (block.tagN_fetch_below name' key_map c)) := by
  unfold FetchBlock.tagN_fetch_below
  cases block.next_in key_map c with
  | none => exact .inr (.inl rfl)
  | some entry =>
    simp only [FetchBlock.deliver]
    by_cases hsize : block.index_size ≤ (snprintf_s PINBA_MAX_LINE_LEN entry.1).length
    · simp only [if_pos hsize]
      exact .inr (.inr rfl)
    · simp only [if_neg hsize]
      exact .inl ⟨_, _, _, _, rfl, hstr⟩

theorem StaysBelow.ne_end {c' : IndexCursor}
    (h : StaysBelow name ((.end_of_file, c') : Fetched (Bytes × Bytes) R × IndexCursor)) : False := by
  rcases h with ⟨_, _, _, _, hrow, -⟩ | hnull | hover
  · cases hrow
  · cases hnull
  · cases hover

theorem StaysBelow.str_of_row {c' : IndexCursor} {place : Bytes × Bytes} {index_value : Bytes}
    {data : R} (h : StaysBelow name (.row place index_value data, c')) : c'.str = some name := by
  rcases h with ⟨_, _, _, _, hrow, hstr⟩ | hnull | hover
  · cases hrow
    exact hstr
  · cases hnull
  · cases hover

/-- `index_next` frees the name after an error only. -/
theorem index_next_stays (hk : k.nary = true) (block : FetchBlock)
    (hmap : results.map.lookup name = some key_map) (hstr : c.str = some name) :
    StaysBelow name (k.index_next block results.map c) := by
  have hget : results.map.data_get name = some key_map := hmap
  have hstays := tagN_fetch_below_stays block name key_map hstr
  have hfetch : k.fetch_row_by_script block results.map c = block.tagN_fetch_below name key_map c := by
    simp only [fetch_row_by_script, hk, if_true, FetchBlock.tagN_fetch_row_by_key, hstr, hget]
  unfold index_next read_next_row
  rw [hfetch]
  rcases hanswer : block.tagN_fetch_below name key_map c with ⟨answer, c'⟩
  rw [hanswer] at hstays
  cases answer with
  | row place index_value data => exact hstays
  | end_of_file => exact hstays.ne_end.elim
  | overflow => exact .inr (.inr rfl)
  | null_row => exact .inr (.inl rfl)

/-- The end of file is never answered. -/
theorem not_returns (hk : k.nary = true) (hmap : results.map.lookup name = some key_map)
    {places : List (Bytes × Bytes)} (h : Returns (k.index_next block results.map) c places) :
    c.str ≠ some name := by
  induction h with
  | end_of_file heq =>
    intro hstr
    exact (heq ▸ index_next_stays hk block hmap hstr).ne_end
  | row heq _ ih =>
    intro hstr
    exact ih (heq ▸ index_next_stays hk block hmap hstr).str_of_row

/-- A scan of a report that is not empty does not come to its end. -/
theorem not_indexReturns (hk : k.nary = true) {names : List Bytes}
    (hkeys : results.map.keys = name :: names) (hname : name.length < PINBA_SCRIPT_NAME_SIZE)
    (places : List (Bytes × Bytes)) : ¬ IndexReturns k block results.map c places := by
  obtain ⟨key_map, hmap, hfound⟩ := PinbaMap.data_first_of_cons hkeys
  have hget : results.map.data_get name = some key_map := hmap
  have hline : name.length < PINBA_MAX_LINE_LEN := hname.trans (by decide)
  have hindex : ¬ PINBA_SCRIPT_NAME_SIZE + 1 ≤ name.length := by
    simp only [PINBA_SCRIPT_NAME_SIZE] at hname ⊢
    omega
  have hfirst : k.index_first block results.map c =
      counted (block.tagN_fetch_below name key_map ⟨0, some name, none⟩) := by
    simp only [index_first, read_index_first, hfound, snprintf_s_of_lt hline, if_neg hindex,
      fetch_row_by_script, hk, if_true, FetchBlock.tagN_fetch_row_by_key, hget]
  have hstays : StaysBelow name (k.index_first block results.map c) :=
    hfirst ▸ tagN_fetch_below_stays block name key_map rfl
  intro h
  cases h with
  | end_of_file heq => exact (heq ▸ hstays).ne_end
  -- a row leaves the name in the cursor
  | row heq hrest => exact not_returns hk hmap hrest (heq ▸ hstays).str_of_row

end ScriptKind

/-! ## Section 6: Index scans and table scans -/

/-- The rows of a report have the keys that its add function builds. -/
def ScriptKind.Keyed {R : Type} (k : ScriptKind) (results : NestedResults R) : Prop :=
  ∀ row ∈ results.rows, ∃ d ws, k.index d ws = row

section keyed
variable {R : Type} {k : ScriptKind} {results : NestedResults R} {name : Bytes} {names : List Bytes}

theorem exists_row (hmem : name ∈ results.map.keys) : ∃ key, (name, key) ∈ results.rows := by
  obtain ⟨key_map, hmap⟩ := Option.isSome_iff_exists.mp (AList.lookup_isSome.mpr hmem)
  obtain ⟨key, keys, hfirst⟩ := List.exists_cons_of_ne_nil (results.inner_ne name key_map hmap)
  refine ⟨key, ?_⟩
  rw [NestedResults.mem_rows, FetchBlock.inner_of_lookup hmap, hfirst]
  exact List.mem_cons_self

theorem name_length (hkeyed : k.Keyed results) (hmem : name ∈ results.map.keys) :
    name.length < PINBA_SCRIPT_NAME_SIZE := by
  obtain ⟨key, hrow⟩ := exists_row hmem
  obtain ⟨d, ws, hindex⟩ := hkeyed _ hrow
  rw [show name = (k.index d ws).1 by rw [hindex], ScriptKind.index_fst]
  exact d.script_name.length_lt

/-- The rows of the first name are all rows if there is no other name. -/
theorem below_first_perm_iff (hkeys : results.map.keys = name :: names) :
    (results.below [name]).Perm results.rows ↔ names = [] := by
  constructor
  · intro hperm
    cases names with
    | nil => rfl
    | cons name' names =>
      -- a row of the second name
      obtain ⟨key, hrow⟩ : ∃ key, (name', key) ∈ results.rows := exists_row (by simp [hkeys])
      have hfirst := NestedResults.mem_below.mp (hperm.mem_iff.mpr hrow)
      have hnd := results.map.keys_nodup
      rw [hkeys, List.nodup_cons] at hnd
      have heq : name' = name := List.mem_singleton.mp hfirst.1
      exact absurd (heq ▸ List.mem_cons_self) hnd.1
  · rintro rfl
    rw [NestedResults.rows, hkeys]

end keyed

/-- The index scan of a report by script returns every row once, as a table scan does, if and
    only if the report has at most one script name; with any number of tags, only if it is
    empty. -/
theorem index_scan_complete_iff (R : Type) (tags_cnt : Nat) (k : ScriptKind) (block : FetchBlock)
    (hblock : fetch_block tags_cnt (.tag_report k.kind) = some block) (results : NestedResults R)
    (hkeyed : k.Keyed results) (c : IndexCursor) :
    (∃ places rows, IndexReturns k block results.map c places ∧
        Returns (block.nested_fetch_row results.map) .rnd_init rows ∧ places.Perm rows) ↔
      results.map.keys.length ≤ if k.nary then 0 else 1 := by
  have htable : (∀ row ∈ results.rows, block.NestedFits row) →
      Returns (block.nested_fetch_row results.map) .rnd_init results.rows := fun hfits =>
    returns_rest (block.nestedFetch R) hfits (block.nestedFetch R).at_start
      fun _ h => absurd h (Option.not_mem_none _)
  cases hkeys : results.map.keys with
  | nil =>
    -- both scans answer the end at once
    have hrows : results.rows = [] := by
      rw [NestedResults.rows, hkeys]
      rfl
    rw [hrows] at htable
    refine ⟨fun _ => Nat.zero_le _, fun _ => ⟨[], [], ScriptKind.indexReturns_nil hkeys c, ?_, .refl _⟩⟩
    exact htable fun row hrow => absurd hrow List.not_mem_nil
  | cons name names =>
    have hfirst : name.length < PINBA_SCRIPT_NAME_SIZE := name_length hkeyed (by simp [hkeys])
    cases hk : k.nary with
    | true =>
      constructor
      · rintro ⟨places, _, hindex, -⟩
        exact absurd hindex (ScriptKind.not_indexReturns hk hkeys hfirst places)
      · intro hle
        exact absurd hle (by simp)
    | false =>
      have hfits : ∀ row ∈ results.rows, block.NestedFits row := by
        intro row hrow
        obtain ⟨d, ws, rfl⟩ := hkeyed row hrow
        exact ScriptKind.fits_index hk hblock d ws
      have hindex := ScriptKind.indexReturns_first hk hkeys hfirst hfits c
      have hone : (name :: names).length ≤ (if false = true then 0 else 1) ↔ names = [] := by
        simp
      rw [hone, ← below_first_perm_iff hkeys]
      constructor
      · rintro ⟨places, rows, hplaces, hrows, hperm⟩
        rw [ScriptKind.indexReturns_unique hplaces hindex, returns_unique hrows (htable hfits)] at hperm
        exact hperm
      · intro hperm
        exact ⟨_, _, hindex, htable hfits, hperm⟩

/-- The block of `tag_report_fetch_row`. -/
def tag_report_block : FetchBlock :=
  ⟨PINBA_SCRIPT_NAME_SIZE + 1, PINBA_MAX_LINE_LEN, true, some (PINBA_MAX_LINE_LEN - 1)⟩

/-- A request for some script. -/
def script_request (name : CString PINBA_SCRIPT_NAME_SIZE) : RequestData :=
  { (default : RequestData) with script_name := name }

def script_a : CString PINBA_SCRIPT_NAME_SIZE := ⟨ascii "a", by decide, by decide⟩

def script_b : CString PINBA_SCRIPT_NAME_SIZE := ⟨ascii "b", by decide, by decide⟩

/-- The inner map with one row, for an empty tag value. -/
def empty_value : PinbaMap Unit := (∅ : PinbaMap Unit).insert [] ()

/-- A report with one script name. -/
def one_script : NestedResults Unit where
  map := (∅ : PinbaMap (PinbaMap Unit)).insert script_a.bytes empty_value
  inner_ne name key_map h := by
    rw [KeyedStore.lookup_insert_if] at h
    split at h
    · obtain rfl := Option.some.inj h
      decide
    · cases h

/-- A report with two script names. -/
def two_scripts : NestedResults Unit where
  map := one_script.map.insert script_b.bytes empty_value
  inner_ne name key_map h := by
    rw [KeyedStore.lookup_insert_if] at h
    split at h
    · obtain rfl := Option.some.inj h
      decide
    · exact one_script.inner_ne name key_map h

theorem keyed_one_script : ScriptKind.tag_report.Keyed one_script := by
  intro row hrow
  have hrow : row ∈ [(script_a.bytes, ([] : Bytes))] := hrow
  obtain rfl := List.mem_singleton.mp hrow
  exact ⟨script_request script_a, [], rfl⟩

theorem keyed_two_scripts : ScriptKind.tag_report.Keyed two_scripts := by
  intro row hrow
  have hrow : row ∈ [(script_b.bytes, ([] : Bytes)), (script_a.bytes, [])] := hrow
  rcases List.mem_cons.mp hrow with rfl | hrow
  · exact ⟨script_request script_b, [], rfl⟩
  · obtain rfl := List.mem_singleton.mp hrow
    exact ⟨script_request script_a, [], rfl⟩

theorem index_scan_complete_one_script :
    fetch_block 1 (.tag_report .tag_report) = some tag_report_block ∧
      ScriptKind.tag_report.Keyed one_script ∧
      ∃ places rows, IndexReturns .tag_report tag_report_block one_script.map .rnd_init places ∧
        Returns (tag_report_block.nested_fetch_row one_script.map) .rnd_init rows ∧
          places.Perm rows := by
  refine ⟨rfl, keyed_one_script, (index_scan_complete_iff Unit 1 .tag_report tag_report_block rfl
    one_script keyed_one_script .rnd_init).mpr ?_⟩
  decide

/-- With two script names, the index scan ends after the rows of the first one. -/
theorem index_scan_misses_script :
    fetch_block 1 (.tag_report .tag_report) = some tag_report_block ∧
      ScriptKind.tag_report.Keyed two_scripts ∧
      ¬ ∃ places rows, IndexReturns .tag_report tag_report_block two_scripts.map .rnd_init places ∧
        Returns (tag_report_block.nested_fetch_row two_scripts.map) .rnd_init rows ∧
          places.Perm rows := by
  refine ⟨rfl, keyed_two_scripts, ?_⟩
  have hindex : IndexReturns .tag_report tag_report_block two_scripts.map .rnd_init
      [(script_b.bytes, [])] := .row rfl (.end_of_file rfl)
  have htable : Returns (tag_report_block.nested_fetch_row two_scripts.map) .rnd_init
      [(script_b.bytes, []), (script_a.bytes, [])] := .row rfl (.row rfl (.end_of_file rfl))
  rintro ⟨places, rows, hplaces, hrows, hperm⟩
  rw [ScriptKind.indexReturns_unique hplaces hindex, returns_unique hrows htable] at hperm
  exact absurd hperm.length_eq (by decide)

end PinbaEngine
