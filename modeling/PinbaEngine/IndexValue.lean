import PinbaEngine.IndexScan
import PinbaEngine.TableRegistry

/-! # From a row to its histogram

    A row of a report table shows an `index_value`; given as the key of a histogram
    view on the same report it should lead back to the row. The view splits the keys
    of four kinds at the first bar into a script name and an inner key, looks all
    others up as they are, and looks reports that are not base reports up among the
    timer tag reports only.

    What a key leads to is the place of a row in the results of the report, so that
    two rows with equal histograms are not taken for each other.
-/

namespace PinbaEngine

open SavedCursor

/-! ## Section 1: The histogram view -/

/-- The results of a report of any kind. -/
inductive ReportRows (R : Type) where
  | flat (results : PinbaMap R)
  | nested (results : NestedResults R)

/-- The place of a row in the results of a report. -/
inductive Place where
  | flat (index : Bytes)
  | nested (name index : Bytes)
deriving DecidableEq

/-- What the key of a histogram view leads to. -/
inductive Reached where
  | nothing
  | row (place : Place)
  /-- An inner map, which is then read as if it were a row. -/
  | inner_map (name : Bytes)
  /-- A terminator is written beyond the end of a buffer. -/
  | overflow
deriving DecidableEq

/-- The text before and after the first bar (`strchr`). -/
def split_bar (str : Bytes) : Option (Bytes × Bytes) :=
  match str.dropWhile (· ≠ bar) with
  | [] => none
  | _ :: rest => some (str.takeWhile (· ≠ bar), rest)

namespace ReportRows

variable {R : Type}

/-- Look up the whole key. -/
def get (rows : ReportRows R) (str : Bytes) : Reached :=
  match rows with
  | .flat results => if (results.data_get str).isSome then .row (.flat str) else .nothing
  | .nested results => if (results.map.data_get str).isSome then .inner_map str else .nothing

/-- Look up a script name and an inner key. The terminators are stored behind the lengths that
    the texts would have without a limit. -/
def get_below (rows : ReportRows R) (script tag : Bytes) : Reached :=
  if PINBA_SCRIPT_NAME_SIZE + 1 ≤ script.length ∨ PINBA_MAX_LINE_LEN ≤ tag.length then .overflow
  else
    let index_script := snprintf_s PINBA_SCRIPT_NAME_SIZE script
    let index_tag := snprintf_s PINBA_MAX_LINE_LEN tag
    match rows with
    | .flat _ => .nothing
    | .nested results =>
      match results.map.data_get index_script with
      | none => .nothing
      | some key_map =>
        if (key_map.data_get index_tag).isSome then .row (.nested index_script index_tag)
        else .nothing

/-- Look up a key that is split at its first bar. -/
def get_composite (rows : ReportRows R) (str : Bytes) : Reached :=
  match split_bar str with
  | none => .nothing
  | some (script, tag) => rows.get_below script tag

end ReportRows

/-- The kinds whose keys the histogram view splits. -/
def TableType.by_script : TableType → Bool
  | .tag_report .tag_report | .tag_report .tag2_report | .tag_report .tag_report2
  | .tag_report .tag2_report2 => true
  | _ => false

/-- `ha_pinba::histogram_fetch_row_by_key`, up to `histogram_data`, for the string in
    `this_index[0].str.val`: the null pointer that `netstr_to_key` leaves there for some keys
    is not in this model. `contents` are the results of the reports in memory. -/
def histogram_fetch_row_by_key {R : Type} (reg : Registry) (contents : Nat → ReportRows R)
    (share : TableShare) (str : Bytes) : Reached :=
  if share.report_kind = .base then
    match (reg.maps .base).lookup share.index with
    | none => .nothing
    | some report => (contents report).get str
  else
    -- `pinba_get_tag_report`, also for the request tag reports
    match (reg.maps .tag).lookup share.index with
    | none => .nothing
    | some tag_report =>
      if share.hv_table_type.by_script then (contents tag_report).get_composite str
      else (contents tag_report).get str

/-! ## Section 2: The strings that rows show -/

/-- How a row is fetched; a fetch by key starts from the name in the cursor, if there is one. -/
inductive FetchPath where
  | full_scan
  | by_key (name : Option Bytes)
deriving DecidableEq

/-- The kinds that keep their rows per host name. -/
inductive HostKind where
  | rtag_report | rtag2_report | rtagN_report

namespace HostKind

def kind : HostKind → RtagKind
  | rtag_report => .rtag_report
  | rtag2_report => .rtag2_report
  | rtagN_report => .rtagN_report

/-- `rtag_report_fetch_row_by_host` and its siblings. -/
def fetch_row_by_host {R : Type} (k : HostKind) (block : FetchBlock) :
    PinbaMap (PinbaMap R) → IndexCursor → Fetched (Bytes × Bytes) R × IndexCursor :=
  match k with
  | rtagN_report => block.tagN_fetch_row_by_key
  | _ => block.tag_fetch_row_by_key

end HostKind

/-- The `index_value` that a fetch function of a table shows for a row. -/
inductive Shows {R : Type} (tags_cnt : Nat) (type : TableType) :
    FetchPath → ReportRows R → Place → Bytes → Prop
  | flat_scan {block : FetchBlock} {results : PinbaMap R} {c c' : IndexCursor}
    {key index_value : Bytes} {data : R} (hflat : type.nested = false)
    (hblock : fetch_block tags_cnt type = some block)
    (h : block.flat_fetch_row results c = (.row key index_value data, c')) :
    Shows tags_cnt type .full_scan (.flat results) (.flat key) index_value
  | nested_scan {block : FetchBlock} {results : NestedResults R} {c c' : IndexCursor}
    {name key index_value : Bytes} {data : R} (hnested : type.nested = true)
    (hblock : fetch_block tags_cnt type = some block)
    (h : block.nested_fetch_row results.map c = (.row (name, key) index_value data, c')) :
    Shows tags_cnt type .full_scan (.nested results) (.nested name key) index_value
  | by_script {k : ScriptKind} {block : FetchBlock} {results : NestedResults R} {c c' : IndexCursor}
    {name key index_value : Bytes} {data : R} (htype : type = .tag_report k.kind)
    (hblock : fetch_block tags_cnt type = some block)
    (h : k.fetch_row_by_script block results.map c = (.row (name, key) index_value data, c')) :
    Shows tags_cnt type (.by_key c.str) (.nested results) (.nested name key) index_value
  | by_host {k : HostKind} {block : FetchBlock} {results : NestedResults R} {c c' : IndexCursor}
    {name key index_value : Bytes} {data : R} (htype : type = .rtag_report k.kind)
    (hblock : fetch_block tags_cnt type = some block)
    (h : k.fetch_row_by_host block results.map c = (.row (name, key) index_value data, c')) :
    Shows tags_cnt type (.by_key c.str) (.nested results) (.nested name key) index_value

/-! ### What a returned row is -/

theorem snprintf_s_idem (buf_size : Nat) (str : Bytes) :
    snprintf_s buf_size (snprintf_s buf_size str) = snprintf_s buf_size str := by
  simp [snprintf_s]

namespace PinbaMap

variable {V : Type} {map : PinbaMap V} {key index : Bytes} {value : V}

theorem get_of_entry {key' : Bytes} (h : map.entry key' = some (key, value)) :
    map.data_get key = some value := by
  obtain ⟨value', hvalue, heq⟩ := Option.map_eq_some_iff.mp h
  cases heq
  exact hvalue

theorem get_of_first (h : map.data_first = some (key, value)) : map.data_get key = some value := by
  obtain ⟨key', -, hentry⟩ := Option.bind_eq_some_iff.mp h
  exact get_of_entry hentry

theorem get_of_next (h : map.data_next index = some (key, value)) : map.data_get key = some value := by
  obtain ⟨key', -, hentry⟩ := Option.bind_eq_some_iff.mp h
  exact get_of_entry hentry

end PinbaMap

namespace FetchBlock

variable {R : Type} {block : FetchBlock} {c c' : IndexCursor} {name key index_value : Bytes} {data : R}

theorem get_of_next_in {key_map : PinbaMap R} (h : block.next_in key_map c = some (key, data)) :
    key_map.data_get key = some data := by
  unfold next_in at h
  split at h
  · exact PinbaMap.get_of_first h
  · exact PinbaMap.get_of_next h

theorem deliver_row {name' index_key key' : Bytes} {data' : R}
    (h : block.deliver name' index_key key' data' c = (.row (name, key) index_value data, c')) :
    name' = name ∧ key' = key ∧ data' = data ∧
      index_value = block.index_value index_key (snprintf_s PINBA_MAX_LINE_LEN key) := by
  unfold deliver at h
  simp only at h
  split at h
  · cases h
  · cases h
    exact ⟨rfl, rfl, rfl, rfl⟩

/-- A row of a flat report shows its key. -/
theorem flat_fetch_row_row {results : PinbaMap R}
    (h : block.flat_fetch_row results c = (.row key index_value data, c')) :
    results.data_get key = some data ∧ index_value = snprintf_s PINBA_MAX_LINE_LEN key := by
  unfold flat_fetch_row at h
  simp only at h
  split at h
  · cases h
  · next key' data' hfound =>
    have hget : results.data_get key' = some data' := by
      split at hfound
      · exact PinbaMap.get_of_first hfound
      · exact PinbaMap.get_of_next hfound
    split at h
    · cases h
    · cases h
      exact ⟨hget, rfl⟩

/-- The row at `(name, key)` is there and shows `index_value`. -/
def ShowsRow (block : FetchBlock) (results : PinbaMap (PinbaMap R)) (name key : Bytes) (data : R)
    (index_key index_value : Bytes) : Prop :=
  ∃ key_map, results.data_get name = some key_map ∧ key_map.data_get key = some data ∧
    index_value = block.index_value index_key (snprintf_s PINBA_MAX_LINE_LEN key)

theorem showsRow_of_deliver {results : PinbaMap (PinbaMap R)} {key_map : PinbaMap R}
    {name' index_key key' : Bytes} {data' : R} (hmap : results.data_get name' = some key_map)
    (hkey : key_map.data_get key' = some data')
    (h : block.deliver name' index_key key' data' c = (.row (name, key) index_value data, c')) :
    name' = name ∧ block.ShowsRow results name key data index_key index_value := by
  obtain ⟨rfl, rfl, rfl, hvalue⟩ := deliver_row h
  exact ⟨rfl, key_map, hmap, hkey, hvalue⟩

theorem repeat_with_next_key_row {results : PinbaMap (PinbaMap R)} (turns : Nat) (index_key : Bytes)
    (h : block.repeat_with_next_key results turns index_key c =
      (.row (name, key) index_value data, c')) :
    block.ShowsRow results name key data (snprintf_s block.key_size name) index_value := by
  induction turns generalizing index_key c with
  | zero => cases h
  | succ turns ih =>
    rw [repeat_with_next_key] at h
    split at h
    · cases h
    · next name' key_map hnext =>
      simp only at h
      split at h
      · exact ih _ h
      · next key' data' hfirst =>
        obtain ⟨rfl, hrow⟩ := showsRow_of_deliver (PinbaMap.get_of_next hnext)
          (PinbaMap.get_of_first hfirst) h
        exact hrow

/-- A row of a table scan shows its name and its key. -/
theorem nested_fetch_row_row {results : PinbaMap (PinbaMap R)}
    (h : block.nested_fetch_row results c = (.row (name, key) index_value data, c')) :
    block.ShowsRow results name key data (snprintf_s block.key_size name) index_value := by
  unfold nested_fetch_row at h
  split at h
  -- the first call
  · split at h
    · cases h
    · next name' key_map hfirst =>
      simp only at h
      split at h
      · cases h
      · next key' data' hfirst' =>
        obtain ⟨rfl, hrow⟩ := showsRow_of_deliver (PinbaMap.get_of_first hfirst)
          (PinbaMap.get_of_first hfirst') h
        exact hrow
  -- later calls; the name in the cursor was copied already
  · next str hstr =>
    simp only at h
    split at h
    · cases h
    · next key_map hmap =>
      split at h
      · exact repeat_with_next_key_row _ _ h
      · next key' data' hfound =>
        obtain ⟨rfl, hrow⟩ := showsRow_of_deliver hmap (get_of_next_in hfound) h
        rw [snprintf_s_idem]
        exact hrow

theorem fetch_below_row {results : PinbaMap (PinbaMap R)} {key_map : PinbaMap R}
    {name' index_key : Bytes} (hmap : results.data_get name' = some key_map)
    (h : block.fetch_below name' index_key key_map c = (.row (name, key) index_value data, c')) :
    name' = name ∧ block.ShowsRow results name key data index_key index_value := by
  unfold fetch_below at h
  simp only at h
  split at h
  · cases h
  · next key' data' hfound => exact showsRow_of_deliver hmap (get_of_next_in hfound) h

/-- A row of a fetch by a given name shows an empty name. -/
theorem tag_fetch_row_by_key_row {results : PinbaMap (PinbaMap R)} {str : Bytes}
    (hstr : c.str = some str)
    (h : block.tag_fetch_row_by_key results c = (.row (name, key) index_value data, c')) :
    block.ShowsRow results name key data [] index_value := by
  unfold tag_fetch_row_by_key at h
  rw [hstr] at h
  simp only at h
  split at h
  · cases h
  · next key_map hmap => exact (fetch_below_row hmap h).2

/-- Without a given name the first one is taken, and shown. -/
theorem tag_fetch_row_by_key_first {results : PinbaMap (PinbaMap R)} (hstr : c.str = none)
    (h : block.tag_fetch_row_by_key results c = (.row (name, key) index_value data, c')) :
    block.ShowsRow results name key data (snprintf_s block.key_size name) index_value := by
  unfold tag_fetch_row_by_key at h
  rw [hstr] at h
  simp only at h
  split at h
  · cases h
  · next name' key_map hfirst =>
    obtain ⟨rfl, hrow⟩ := fetch_below_row (PinbaMap.get_of_first hfirst) h
    exact hrow

end FetchBlock

/-! ## Section 3: Reports are filed under their kind -/

section kinds
variable {share share' : TableShare}

/-- The parts of a comment leave the kind of a share alone. -/
theorem parse_parts_kind {text : Bytes} (h : parse_parts share text = some share') :
    share'.report_kind = share.report_kind := by
  unfold parse_parts at h
  simp only at h
  split at h
  · cases h
  split at h
  · cases h
    rfl
  · obtain ⟨conds, -, h⟩ := Option.bind_eq_some_iff.mp h
    obtain ⟨percentiles, -, h⟩ := Option.bind_eq_some_iff.mp h
    cases h
    rfl

theorem parse_text_kind {str : Bytes} {parse_only : Bool} {n : Nat}
    (h : parse_text share str parse_only = some (n, share')) :
    share'.report_kind = share.report_kind := by
  unfold parse_text at h
  split at h
  · cases h
    rfl
  · split at h
    · cases h
    · obtain ⟨parsed, hparsed, heq⟩ := Option.map_eq_some_iff.mp h
      cases heq
      exact parse_parts_kind hparsed

/-- The kind that goes with the name of a report table. -/
theorem kind_of_table_type {str : Bytes} {kind : ReportKind}
    (h : (pinba_get_table_type str).1.report_kind = some kind) : (pinba_get_table_type str).2 = kind := by
  have hnamed : ∀ name, (named_type name).1.report_kind = some kind → (named_type name).2 = kind := by
    intro name hname
    unfold named_type at hname ⊢
    split at hname
    · next entry hentry =>
      have hall : ∀ e ∈ table_names, ∀ kind ∈ e.2.2.report_kind, e.2.1 = kind := by decide
      exact hall entry (List.mem_of_find?_eq_some hentry) kind hname
    · cases hname
  unfold pinba_get_table_type at h ⊢
  simp only at h ⊢
  split at h
  · cases h
  · next hhv =>
    rw [if_neg hhv]
    exact hnamed _ h

/-- The kind of a share is that of the report behind it. -/
theorem kind_of_get_share {comment : Text} {kind : ReportKind} (h : get_share comment = some share)
    (hkind : share.type.report_kind = some kind) : share.report_kind = kind := by
  unfold get_share at h
  simp only at h
  split at h
  · cases h
  obtain ⟨⟨n, parsed⟩, hparsed, rfl⟩ := Option.map_eq_some_iff.mp h
  show parsed.report_kind = kind
  unfold TableShare.opened TableShare.type at hkind
  simp only at hkind
  have hspec := parse_params_spec rfl hparsed
  unfold pinba_parse_params at hparsed
  split at hparsed
  · next hview =>
    simp only at hparsed
    split at hparsed
    · cases hparsed
    · rw [parse_text_kind hparsed]
      -- the name behind `hv.` decides
      rw [if_pos hview, (parse_text_spec rfl hparsed).2] at hkind
      exact kind_of_table_type hkind
  · next hview =>
    simp only at hparsed
    rw [parse_text_kind hparsed]
    rw [if_neg hview] at hkind
    exact kind_of_table_type hkind

end kinds

namespace Registry

variable {s s' : Registry} {name index : Bytes} {share : TableShare} {p : Nat}

/-- The open shares come from comments, and the map of a kind holds reports of that kind only. -/
structure Filed (s : Registry) : Prop where
  shares : ∀ name share n, s.open_tables.lookup name = some (share, n) →
    ∃ comment, get_share comment = some share
  filed : ∀ kind index p, (s.maps kind).lookup index = some p →
    ∃ comment share, get_share comment = some share ∧ share.index = index ∧
      share.type.report_kind = some kind

/-- Nothing is opened or filed. -/
theorem Filed.of_same (h : s.Filed) (htables : s'.open_tables = s.open_tables)
    (hmaps : s'.maps = s.maps) : s'.Filed where
  shares := htables ▸ h.shares
  filed := hmaps ▸ h.filed

/-- A report is removed from the map of its kind. -/
theorem Filed.of_erase (h : s.Filed) {kind : ReportKind} (htables : s'.open_tables = s.open_tables)
    (hmaps : s'.maps = Function.update s.maps kind ((s.maps kind).erase index)) : s'.Filed where
  shares := htables ▸ h.shares
  filed kind' index' p hlookup := by
    refine h.filed kind' index' p ?_
    rw [hmaps] at hlookup
    by_cases hk : kind' = kind
    · subst hk
      rw [Function.update_self, KeyedStore.lookup_erase_if] at hlookup
      split at hlookup
      · cases hlookup
      · exact hlookup
    · rwa [Function.update_of_ne hk] at hlookup

/-- A table is opened with some share. -/
theorem Filed.of_open (h : s.Filed) {n : Nat} (hshare : ∃ comment, get_share comment = some share)
    (htables : s'.open_tables = s.open_tables.insert name (share, n)) (hmaps : s'.maps = s.maps) :
    s'.Filed where
  shares := htables ▸ FromComments.insert h.shares hshare name n
  filed := hmaps ▸ h.filed

theorem attach_open_tables (s : Registry) (name : Bytes) (share : TableShare) :
    (s.attach name share).open_tables = s.open_tables ∧ (s.attach name share).maps = s.maps := by
  unfold attach
  simp only
  split <;> split <;> (try split) <;> exact ⟨rfl, rfl⟩

theorem Filed.of_attach (h : s.Filed) (name : Bytes) (share : TableShare) :
    (s.attach name share).Filed :=
  h.of_same (attach_open_tables s name share).1 (attach_open_tables s name share).2

theorem filed_open_table (h : s.Filed) (name : Bytes) (comment : Text) :
    (s.open_table name comment).Filed := by
  unfold open_table
  split
  · next share n hopen =>
    refine Filed.of_attach ?_ name share
    exact h.of_open (h.shares name share n hopen) rfl rfl
  · split
    · exact h
    · next share hshare =>
      refine Filed.of_attach ?_ name share
      exact h.of_open ⟨comment, hshare⟩ rfl rfl

theorem filed_close (h : s.Filed) (name : Bytes) : (s.close name).Filed := by
  unfold close
  split
  · exact h
  · next share n hopen =>
    split
    · exact ⟨FromComments.erase h.shares name, h.filed⟩
    · exact h.of_open (h.shares name share n hopen) rfl rfl

theorem filed_rename_table (h : s.Filed) (src dst : Bytes) : (s.rename_table src dst).Filed := by
  unfold rename_table
  split
  · exact h
  · split
    · exact h
    · exact h.of_same rfl rfl

theorem filed_delete_table (h : s.Filed) (hs' : s.delete_table name = some s') : s'.Filed := by
  unfold delete_table at hs'
  split at hs'
  · cases hs'
    exact h
  · unfold detach at hs'
    split at hs'
    · cases hs'
      exact h.of_same rfl rfl
    · simp only at hs'
      split at hs'
      · cases hs'
        exact h.of_same rfl rfl
      · split at hs'
        · cases hs'
        · split at hs'
          · unfold destroy at hs'
            split at hs'
            · cases hs'
            · cases hs'
              exact h.of_erase rfl rfl
          · cases hs'
            exact h.of_same rfl rfl

theorem update_report_tables_same {std : ReportIdentity}
    (hs' : s.pinba_update_report_tables p std index = some s') :
    s'.open_tables = s.open_tables ∧ s'.maps = s.maps := by
  unfold pinba_update_report_tables at hs'
  split at hs'
  · cases hs'
  · split at hs' <;> cases hs' <;> exact ⟨rfl, rfl⟩

theorem filed_stored (h : s.Filed) {kind : ReportKind} {comment : Text} {std : ReportIdentity}
    (hshare : get_share comment = some share) (hkind : share.type.report_kind = some kind) :
    (s.stored kind share.index p std).Filed where
  shares := h.shares
  filed kind' index' p' hlookup := by
    have hlookup : (Function.update s.maps kind ((s.maps kind).insert share.index p) kind').lookup
      index' = some p' := hlookup
    by_cases hk : kind' = kind
    · subst hk
      rw [Function.update_self, KeyedStore.lookup_insert_if] at hlookup
      split at hlookup
      · next hindex => exact ⟨comment, share, hshare, hindex.symm, hkind⟩
      · exact h.filed _ _ _ hlookup
    · rw [Function.update_of_ne hk] at hlookup
      exact h.filed _ _ _ hlookup

theorem filed_register (h : s.Filed) {kind : ReportKind} {comment : Text}
    (hshare : get_share comment = some share) (hkind : share.type.report_kind = some kind) :
    (s.register kind share p).Filed := by
  have hstored : ∀ std, (s.stored kind share.index p std).Filed := fun std =>
    filed_stored h hshare hkind
  unfold register
  simp only
  split
  · next s' hs' =>
    obtain ⟨htables, hmaps⟩ := update_report_tables_same hs'
    exact (hstored _).of_same htables hmaps
  · cases kind with
    | base => exact (hstored ⟨.base, share.type, stored_index share, 0⟩).of_erase rfl rfl
    | tag => exact (hstored ⟨.tag, share.type, stored_index share, 0⟩).of_same rfl rfl
    | rtag => exact (hstored ⟨.rtag, share.type, stored_index share, 0⟩).of_same rfl rfl

theorem filed_regenerate (h : s.Filed) {known : Bytes → Bool}
    (hs' : s.regenerate name known p = some s') : s'.Filed := by
  unfold regenerate at hs'
  split at hs'
  · cases hs'
  · next share n hopen =>
    obtain ⟨comment, hshare⟩ := h.shares name share n hopen
    split at hs'
    · cases hs'
      exact h
    · next kind hkind =>
      split at hs'
      · cases hs'
        exact h
      · split at hs'
        · cases hs'
        · cases hs'
          exact h
        · split at hs'
          · cases hs'
          · cases hs'
            exact filed_register h hshare hkind

/-- Whatever the server calls, every report is filed under its kind. -/
theorem filed_of_reachable {Allowed : Registry → Event → Prop} (h : Reachable Allowed s) : s.Filed := by
  induction h with
  | init =>
    refine ⟨fun name share n hlookup => ?_, fun kind index p hlookup => ?_⟩
    · cases hlookup
    · cases hlookup
  | step e _ _ hs' ih =>
    cases e with
    | open_table name comment =>
      obtain rfl := Option.some.inj hs'
      exact filed_open_table ih name comment
    | close name =>
      obtain rfl := Option.some.inj hs'
      exact filed_close ih name
    | rename_table src dst =>
      obtain rfl := Option.some.inj hs'
      exact filed_rename_table ih src dst
    | delete_table name => exact filed_delete_table ih hs'
    | regenerate name known p => exact filed_regenerate ih hs'

/-- A share of another kind finds nothing in the map of a kind. -/
theorem Filed.lookup_other (h : s.Filed) {comment : Text} (hshare : get_share comment = some share)
    {kind kind' : ReportKind} (hkind : share.type.report_kind = some kind) (hne : kind' ≠ kind) :
    (s.maps kind').lookup share.index = none := by
  by_contra hsome
  obtain ⟨p, hp⟩ := Option.ne_none_iff_exists'.mp hsome
  obtain ⟨comment', share', hshare', hindex, hkind'⟩ := h.filed kind' _ p hp
  rw [type_of_index hshare' hshare hindex, hkind] at hkind'
  exact hne (Option.some.inj hkind').symm

end Registry

/-! ## Section 4: Which rows are linked -/

/-- The `index_value` of a row leads back to it: rows of flat base and timer tag reports with a
    key that the buffers hold; rows of the four kinds by script for names without a bar, and
    through the fetch by a given name for the empty name only. -/
def Linked (type : TableType) (path : FetchPath) : Place → Prop
  | .flat index => type.report_kind ≠ some .rtag ∧ index.length < PINBA_MAX_LINE_LEN
  | .nested name _ => type.by_script = true ∧
      match path with
      | .full_scan | .by_key none => bar ∉ name
      | .by_key (some _) => name = []

/-- A row by script has a key that the add function of its kind builds. -/
def PlaceOf (type : TableType) : Place → Prop
  | .flat _ => True
  | .nested name index => ∀ k : ScriptKind, type = .tag_report k.kind →
      ∃ d ws, k.index d ws = (name, index)

theorem split_bar_append {name rest : Bytes} (h : bar ∉ name) :
    split_bar (name ++ bar :: rest) = some (name, rest) := by
  have hall : ∀ c ∈ name, decide (c ≠ bar) = true := by
    intro c hc
    simpa using fun heq : c = bar => h (heq ▸ hc)
  unfold split_bar
  rw [List.dropWhile_append_of_pos hall, List.takeWhile_append_of_pos hall]
  simp

/-- A name with a bar is cut off at it. -/
theorem split_bar_of_mem {name rest script tag : Bytes} (h : bar ∈ name)
    (hsplit : split_bar (name ++ rest) = some (script, tag)) : script.length < name.length := by
  obtain ⟨before, behind, rfl, hbefore⟩ := List.eq_append_cons_of_mem h
  rw [List.append_assoc, List.cons_append, split_bar_append hbefore] at hsplit
  cases hsplit
  simp

section reach
variable {R : Type} {results : PinbaMap R} {nested : NestedResults R} {key_map : PinbaMap R}
  {name key script tag : Bytes} {data : R}

/-- A key that is cut off is another one. -/
theorem snprintf_s_eq_iff {buf_size : Nat} (hpos : 0 < buf_size) {str : Bytes} :
    snprintf_s buf_size str = str ↔ str.length < buf_size := by
  unfold snprintf_s
  rw [List.take_eq_self_iff]
  omega

theorem get_flat_iff (hdata : results.data_get key = some data) :
    (ReportRows.flat results).get (snprintf_s PINBA_MAX_LINE_LEN key) = .row (.flat key) ↔
      key.length < PINBA_MAX_LINE_LEN := by
  rw [← snprintf_s_eq_iff (by decide)]
  constructor
  · intro h
    unfold ReportRows.get at h
    simp only at h
    split at h
    · exact Place.flat.inj (Reached.row.inj h)
    · cases h
  · intro h
    rw [h]
    unfold ReportRows.get
    simp only [hdata, Option.isSome_some, if_true]

theorem get_below_of_mem (hmap : nested.map.data_get name = some key_map)
    (hdata : key_map.data_get key = some data) (hname : name.length < PINBA_SCRIPT_NAME_SIZE)
    (hkey : key.length < PINBA_MAX_LINE_LEN) :
    (ReportRows.nested nested).get_below name key = .row (.nested name key) := by
  have hsizes : ¬ (PINBA_SCRIPT_NAME_SIZE + 1 ≤ name.length ∨ PINBA_MAX_LINE_LEN ≤ key.length) := by
    rw [not_or]
    omega
  unfold ReportRows.get_below
  simp only [if_neg hsizes, snprintf_s_of_lt hname, snprintf_s_of_lt hkey, hmap, hdata,
    Option.isSome_some, if_true]

/-- The name that is reached is no longer than the one looked up. -/
theorem length_of_get_below {rows : ReportRows R}
    (h : rows.get_below script tag = .row (.nested name key)) : name.length ≤ script.length := by
  unfold ReportRows.get_below at h
  simp only at h
  split at h
  · cases h
  · split at h
    · cases h
    · split at h
      · cases h
      · split at h
        -- the name may have been cut off
        · obtain ⟨hname, -⟩ := Place.nested.inj (Reached.row.inj h)
          rw [← hname, snprintf_s]
          exact List.length_take_le' _ _
        · cases h

theorem get_composite_joined_iff (hmap : nested.map.data_get name = some key_map)
    (hdata : key_map.data_get key = some data) (hname : name.length < PINBA_SCRIPT_NAME_SIZE)
    (hkey : key.length < PINBA_MAX_LINE_LEN) :
    (ReportRows.nested nested).get_composite (name ++ bar :: key) = .row (.nested name key) ↔ bar ∉ name := by
  unfold ReportRows.get_composite
  constructor
  · intro h hmem
    split at h
    · cases h
    · next script tag hsplit =>
      -- the text before the bar is shorter than the name
      have hshort := split_bar_of_mem hmem hsplit
      have hlong := length_of_get_below h
      omega
  · intro hbar
    rw [split_bar_append hbar]
    exact get_below_of_mem hmap hdata hname hkey

theorem get_composite_unnamed_iff (hmap : nested.map.data_get name = some key_map)
    (hdata : key_map.data_get key = some data) (hkey : key.length < PINBA_MAX_LINE_LEN) :
    (ReportRows.nested nested).get_composite (bar :: key) = .row (.nested name key) ↔ name = [] := by
  have hsplit : split_bar (bar :: key) = some ([], key) := by
    have h : bar ∉ ([] : Bytes) := List.not_mem_nil
    exact split_bar_append h
  unfold ReportRows.get_composite
  rw [hsplit]
  constructor
  · intro h
    have hlong := length_of_get_below h
    exact List.eq_nil_of_length_eq_zero (by simpa using hlong)
  · rintro rfl
    exact get_below_of_mem hmap hdata (by decide) hkey

end reach

/-- The four kinds by script. -/
theorem exists_script_kind {type : TableType} (h : type.by_script = true) :
    ∃ k : ScriptKind, type = .tag_report k.kind ∧ k.nary = false := by
  unfold TableType.by_script at h
  split at h
  · exact ⟨.tag_report, rfl, rfl⟩
  · exact ⟨.tag2_report, rfl, rfl⟩
  · exact ⟨.tag_report2, rfl, rfl⟩
  · exact ⟨.tag2_report2, rfl, rfl⟩
  · cases h

section view
variable {R : Type} {reg : Registry} {contents : Nat → ReportRows R} {view : TableShare} {p : Nat}

theorem histogram_of_base (hkind : view.report_kind = .base)
    (hp : (reg.maps .base).lookup view.index = some p) (str : Bytes) :
    histogram_fetch_row_by_key reg contents view str = (contents p).get str := by
  simp only [histogram_fetch_row_by_key, hkind, if_true, hp]

theorem histogram_of_tag (hkind : view.report_kind = .tag)
    (hp : (reg.maps .tag).lookup view.index = some p) (str : Bytes) :
    histogram_fetch_row_by_key reg contents view str =
      if view.hv_table_type.by_script then (contents p).get_composite str
      else (contents p).get str := by
  simp only [histogram_fetch_row_by_key, hkind, reduceCtorEq, if_false, hp]

theorem histogram_of_rtag (hkind : view.report_kind = .rtag)
    (hnone : (reg.maps .tag).lookup view.index = none) (str : Bytes) :
    histogram_fetch_row_by_key reg contents view str = .nothing := by
  simp only [histogram_fetch_row_by_key, hkind, reduceCtorEq, if_false, hnone]

end view

section links
variable {R : Type} {type : TableType} {tags_cnt : Nat} {path : FetchPath} {rows : ReportRows R}
  {place : Place} {index_value : Bytes}

/-- Whole keys lead to rows of flat reports. -/
theorem get_iff (hshows : Shows tags_cnt type path rows place index_value)
    (hkind : type.report_kind ≠ some .rtag) (hsplit : type.by_script = false) :
    rows.get index_value = .row place ↔ Linked type path place := by
  have hnested : ∀ {results : NestedResults R} {name key v : Bytes},
      (ReportRows.nested results).get v = .row (.nested name key) ↔
        Linked type path (.nested name key) := by
    intro results name key v
    refine ⟨fun h => ?_, fun h => ?_⟩
    · unfold ReportRows.get at h
      simp only at h
      split at h <;> cases h
    · rw [h.1] at hsplit
      cases hsplit
  cases hshows with
  | flat_scan hflat hblock h =>
    obtain ⟨hdata, rfl⟩ := FetchBlock.flat_fetch_row_row h
    rw [get_flat_iff hdata]
    exact ⟨fun hlen => ⟨hkind, hlen⟩, fun hlinked => hlinked.2⟩
  | nested_scan _ _ h => exact hnested
  | by_script _ _ h => exact hnested
  | by_host _ _ h => exact hnested

/-- The rows of the four kinds by script have short names and keys. -/
theorem length_of_place {k : ScriptKind} (hk : k.nary = false) {name key : Bytes}
    (hplace : PlaceOf (.tag_report k.kind) (.nested name key)) :
    name.length < PINBA_SCRIPT_NAME_SIZE ∧ key.length < 260 := by
  obtain ⟨d, ws, hindex⟩ := hplace k rfl
  have hname := ScriptKind.index_fst k d ws
  have hkey := ScriptKind.length_index_snd hk d ws
  rw [hindex] at hname hkey
  have hlen := d.script_name.length_lt
  rw [← hname] at hlen
  exact ⟨hlen, hkey⟩

/-- Their `index_value` is not cut off. -/
theorem index_value_of_short {k : ScriptKind} (hk : k.nary = false) {block : FetchBlock}
    (hblock : fetch_block tags_cnt (.tag_report k.kind) = some block) {name key : Bytes}
    (hname : name.length < PINBA_SCRIPT_NAME_SIZE) (hkey : key.length < 260) :
    block.index_value name (snprintf_s PINBA_MAX_LINE_LEN key) = name ++ bar :: key := by
  have hline : PINBA_MAX_LINE_LEN = 8192 := rfl
  rw [snprintf_s_of_lt (by omega : key.length < PINBA_MAX_LINE_LEN),
    ScriptKind.block_of_not_nary hk hblock]
  refine snprintf_s_of_lt ?_
  simp only [PINBA_SCRIPT_NAME_SIZE] at hname
  simp only [List.length_append, List.length_cons]
  omega

/-- Keys that are split lead to rows of the four kinds by script. -/
theorem get_composite_iff (hshows : Shows tags_cnt type path rows place index_value)
    (hplace : PlaceOf type place) (hsplit : type.by_script = true) :
    rows.get_composite index_value = .row place ↔ Linked type path place := by
  obtain ⟨k, rfl, hk⟩ := exists_script_kind hsplit
  have hline : 260 < PINBA_MAX_LINE_LEN := by decide
  -- a row that shows its name
  have hnamed : ∀ {block : FetchBlock} {results : NestedResults R} {name key v : Bytes} {data : R},
      fetch_block tags_cnt (.tag_report k.kind) = some block →
      PlaceOf (.tag_report k.kind) (.nested name key) →
      block.ShowsRow results.map name key data (snprintf_s block.key_size name) v →
      ((ReportRows.nested results).get_composite v = .row (.nested name key) ↔ bar ∉ name) := by
    intro block results name key v data hblock hplace hrow
    obtain ⟨hname, hkey⟩ := length_of_place hk hplace
    obtain ⟨key_map, hmap, hdata, rfl⟩ := hrow
    have hindex_key : snprintf_s block.key_size name = name := by
      rw [ScriptKind.block_of_not_nary hk hblock]
      exact snprintf_s_of_lt (hname.trans (Nat.lt_succ_self _))
    rw [hindex_key, index_value_of_short hk hblock hname hkey,
      get_composite_joined_iff hmap hdata hname (hkey.trans hline)]
  cases hshows with
  | flat_scan hflat _ _ => cases k <;> cases hflat
  | nested_scan hnested hblock h =>
    rw [hnamed hblock hplace (FetchBlock.nested_fetch_row_row h)]
    exact ⟨fun hbar => ⟨hsplit, hbar⟩, fun hlinked => hlinked.2⟩
  | @by_script k' block results c c' name key _ data htype hblock h =>
    obtain rfl : k = k' := by
      cases k <;> cases k' <;> first | rfl | cases htype
    have h : block.tag_fetch_row_by_key results.map c = (.row (name, key) index_value data, c') := by
      simpa only [ScriptKind.fetch_row_by_script, hk, Bool.false_eq_true, if_false] using h
    unfold Linked
    cases hstr : c.str with
    | none =>
      rw [hnamed hblock hplace (FetchBlock.tag_fetch_row_by_key_first hstr h)]
      exact ⟨fun hbar => ⟨hsplit, hbar⟩, fun hlinked => hlinked.2⟩
    | some str =>
      obtain ⟨-, hkey⟩ := length_of_place hk hplace
      obtain ⟨key_map, hmap, hdata, rfl⟩ := FetchBlock.tag_fetch_row_by_key_row hstr h
      -- the name is missing from the text
      rw [index_value_of_short hk hblock (by decide) hkey, List.nil_append,
        get_composite_unnamed_iff hmap hdata (hkey.trans hline)]
      exact ⟨fun hnil => ⟨hsplit, hnil⟩, fun hlinked => hlinked.2⟩
  | by_host htype _ _ => cases htype

end links

/-- For every report table and every histogram view on its report: the `index_value` that a
    fetch function shows for a row, as the string in `this_index[0].str.val`, leads back to
    that row exactly if the row is linked. -/
theorem index_value_reaches_row_iff (R : Type) (tags_cnt : Nat) (reg : Registry)
    (hreg : Registry.Reachable (fun _ _ => True) reg) (comment : Text) (view : TableShare)
    (hview : get_share comment = some view) (htable : view.table_type = .histogram_view)
    (kind : ReportKind) (hkind : view.hv_table_type.report_kind = some kind) (p : Nat)
    (hp : (reg.maps kind).lookup view.index = some p) (contents : Nat → ReportRows R)
    (path : FetchPath) (place : Place) (index_value : Bytes)
    (hplace : PlaceOf view.hv_table_type place)
    (hshows : Shows tags_cnt view.hv_table_type path (contents p) place index_value) :
    histogram_fetch_row_by_key reg contents view index_value = .row place ↔
      Linked view.hv_table_type path place := by
  have htype : view.type = view.hv_table_type := if_pos htable
  rw [← htype] at hkind
  have hshare := kind_of_get_share hview hkind
  rw [htype] at hkind
  cases kind with
  | base =>
    rw [histogram_of_base hshare hp]
    -- base reports are flat
    refine get_iff hshows (by rw [hkind]; decide) ?_
    by_contra hsplit
    obtain ⟨k, heq, -⟩ := exists_script_kind (by simpa using hsplit)
    rw [heq] at hkind
    cases hkind
  | tag =>
    rw [histogram_of_tag hshare hp]
    split
    · next hsplit => exact get_composite_iff hshows hplace hsplit
    · next hsplit => exact get_iff hshows (by rw [hkind]; decide) (by simpa using hsplit)
  | rtag =>
    -- the view looks among the timer tag reports
    have hnone := (Registry.filed_of_reachable hreg).lookup_other hview (htype ▸ hkind)
      (show ReportKind.tag ≠ .rtag by decide)
    rw [histogram_of_rtag hshare hnone]
    constructor
    · intro h
      cases h
    · intro hlinked
      cases place with
      | flat index => exact absurd hkind hlinked.1
      | nested name index =>
        obtain ⟨k, heq, -⟩ := exists_script_kind hlinked.1
        rw [heq] at hkind
        cases hkind

/-- The comments of a `tag_report` table and of a histogram view on its report. -/
def tag_report_comment : Text := ⟨ascii "tag_report:t", by decide⟩

def tag_report_view_comment : Text := ⟨ascii "hv.tag_report:t", by decide⟩

/-- The report is registered, and the view has its index. -/
theorem exists_tag_report_view : ∃ reg view, Registry.Reachable (fun _ _ => True) reg ∧
    get_share tag_report_view_comment = some view ∧ view.table_type = .histogram_view ∧
    view.hv_table_type = .tag_report .tag_report ∧ (reg.maps .tag).lookup view.index = some 0 := by
  have hreg : (Registry.selected tag_report_comment).isSome := by decide
  have hview : (get_share tag_report_view_comment).isSome := by decide
  obtain ⟨reg, hreg⟩ := Option.isSome_iff_exists.mp hreg
  obtain ⟨view, hview⟩ := Option.isSome_iff_exists.mp hview
  have htypes : (get_share tag_report_view_comment).map (fun v => (v.table_type, v.hv_table_type)) =
      some (.histogram_view, .tag_report .tag_report) := by decide
  have hlookup : ((Registry.selected tag_report_comment).bind fun s =>
      (get_share tag_report_view_comment).bind fun v => (s.maps .tag).lookup v.index) = some 0 := by
    decide
  rw [hview] at htypes
  rw [hreg, hview] at hlookup
  obtain ⟨htable, htype⟩ := Prod.mk.inj (Option.some.inj htypes)
  exact ⟨reg, view, Registry.reachable_selected trivial trivial hreg, hview, htable, htype, hlookup⟩

/-- The only row of `one_script`. -/
theorem placeOf_one_script : PlaceOf (.tag_report .tag_report) (.nested script_a.bytes []) := by
  intro k hk
  obtain rfl : ScriptKind.tag_report = k := by
    cases k <;> first | rfl | cases hk
  exact ⟨script_request script_a, [], rfl⟩

theorem index_value_reaches_row_plain_name : ∃ reg view,
    Registry.Reachable (fun _ _ => True) reg ∧ get_share tag_report_view_comment = some view ∧
      Shows 1 view.hv_table_type .full_scan (.nested one_script) (.nested script_a.bytes []) (ascii "a|") ∧
      histogram_fetch_row_by_key reg (fun _ => .nested one_script) view (ascii "a|") =
        .row (.nested script_a.bytes []) := by
  obtain ⟨reg, view, hreg, hview, htable, htype, hlookup⟩ := exists_tag_report_view
  have hshows : Shows 1 view.hv_table_type .full_scan (.nested one_script)
      (.nested script_a.bytes []) (ascii "a|") := by
    rw [htype]
    exact @Shows.nested_scan _ 1 _ tag_report_block one_script .rnd_init _ _ _ _ () rfl rfl rfl
  refine ⟨reg, view, hreg, hview, hshows, ?_⟩
  refine (index_value_reaches_row_iff Unit 1 reg hreg tag_report_view_comment view hview htable .tag ?_ 0
    hlookup _ .full_scan _ _ ?_ hshows).mpr ?_
  · rw [htype]
    rfl
  · rw [htype]
    exact placeOf_one_script
  · rw [htype]
    exact ⟨rfl, by decide⟩

/-- A fetch by script name shows the row without the name, and the view finds nothing. -/
theorem index_value_by_key_reaches_nothing : ∃ reg view,
    Registry.Reachable (fun _ _ => True) reg ∧ get_share tag_report_view_comment = some view ∧
      view.table_type = .histogram_view ∧ (reg.maps .tag).lookup view.index = some 0 ∧
      PlaceOf view.hv_table_type (.nested script_a.bytes []) ∧
      Shows 1 view.hv_table_type (.by_key (some (ascii "a"))) (.nested one_script)
        (.nested script_a.bytes []) (ascii "|") ∧
      histogram_fetch_row_by_key reg (fun _ => .nested one_script) view (ascii "|") = .nothing := by
  obtain ⟨reg, view, hreg, hview, htable, htype, hlookup⟩ := exists_tag_report_view
  refine ⟨reg, view, hreg, hview, htable, hlookup, ?_, ?_, ?_⟩
  · rw [htype]
    exact placeOf_one_script
  · rw [htype]
    exact @Shows.by_script _ 1 _ .tag_report tag_report_block one_script ⟨0, some (ascii "a"), none⟩ _
      _ _ _ () rfl rfl rfl
  · have hkind : view.report_kind = .tag := by
      refine kind_of_get_share hview ?_
      rw [TableShare.type, if_pos htable, htype]
      rfl
    rw [histogram_of_tag hkind hlookup, htype]
    decide

end PinbaEngine
