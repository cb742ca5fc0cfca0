import PinbaEngine.KeyInjectivity
import PinbaEngine.TableComment

/-! # The registry of tables and reports

    Several SQL tables may share one report. `tables_to_reports` leads from the
    name of a table to the index of its report, `reports_to_tables` from the
    index to the tables that are attached to it and, once a `SELECT` has
    constructed it, to the report itself. The report is also stored in the map
    and in the array of its kind, where ingest and expiry find it, and counts
    its tables in `use_cnt`; the last `DROP` destroys it.

    - An event is one call of the server: each runs under `share_mutex`, and
      the constructors and `delete_table` also under the registry locks.
    - A step is `none` where the code has no defined behaviour: a null or a
      dangling pointer is followed, or a missing parameter is read.
    - Memory is always available. Addresses of new reports are not in use.

    `Consistent` says how the four structures fit together. Every event keeps
    it, except for three (`Sound`): the constructor of `tagN_report2` leaves
    `std.index` null, the constructors of tag reports leave a freed report in
    the map and the array when their table is not attached, and `open` does
    not move a table to another index. -/

namespace PinbaEngine

open KeyedStore

/-! ## Section 1: State -/

/-- The kind of the report that is constructed for a table of some type. -/
def TableType.report_kind : TableType → Option ReportKind
  | .base_report _ => some .base
  | .tag_report _ => some .tag
  | .rtag_report _ => some .rtag
  | _ => none

/-- The identity of a report in `pinba_std_report`; a null index is `none`. -/
structure ReportIdentity where
  report_kind : ReportKind
  type : TableType
  index : Option Bytes
  use_cnt : Nat
deriving DecidableEq

/-- `pinba_report_tables`. -/
structure ReportTables where
  std : Option Nat
  tables : AList fun _ : Bytes => TableType

/-- The registries of the daemon, the open shares and the reports in memory. -/
structure Registry where
  open_tables : AList fun _ : Bytes => TableShare × Nat
  tables_to_reports : AList fun _ : Bytes => Bytes
  reports_to_tables : AList fun _ : Bytes => ReportTables
  maps : ReportKind → AList fun _ : Bytes => Nat
  arrays : ReportKind → List Nat
  heap : AList fun _ : Nat => ReportIdentity

namespace Registry

variable (s : Registry)

def init : Registry := ⟨∅, ∅, ∅, fun _ => ∅, fun _ => [], ∅⟩

/-! ## Section 2: Operations -/

/-- Change `use_cnt` of a report, if there is one. -/
def recount (heap : AList fun _ : Nat => ReportIdentity) (std : Option Nat) (f : Nat → Nat) :
    AList fun _ : Nat => ReportIdentity :=
  match std with
  | none => heap
  | some p =>
    match heap.lookup p with
    | none => heap
    | some std => heap.insert p { std with use_cnt := f std.use_cnt }

/-- `ha_pinba::open`: attach a table to the report of its share. -/
def attach (name : Bytes) (share : TableShare) : Registry :=
  let s := match s.reports_to_tables.lookup share.index with
    | none => { s with
        reports_to_tables := s.reports_to_tables.insert share.index
          ⟨none, (∅ : AList fun _ : Bytes => TableType).insert name share.table_type⟩ }
    | some rt =>
      if rt.tables.lookup name ≠ none then s
      else { s with
        -- count SQL tables sharing a report, not cached handler instances
        heap := recount s.heap rt.std (· + 1)
        reports_to_tables := s.reports_to_tables.insert share.index
          { rt with tables := rt.tables.insert name share.table_type } }
  if s.tables_to_reports.lookup name ≠ none then s
  else { s with tables_to_reports := s.tables_to_reports.insert name share.index }

/-- `ha_pinba::open`. The comment is only parsed where the table is not open yet. -/
def open_table (name : Bytes) (comment : Text) : Registry :=
  match s.open_tables.lookup name with
  | some (share, n) =>
    { s with open_tables := s.open_tables.insert name (share, n + 1) }.attach name share
  | none =>
    match get_share comment with
    | none => s
    | some share =>
      { s with open_tables := s.open_tables.insert name (share, 1) }.attach name share

/-- `ha_pinba::close`, that is `free_share`. -/
def close (name : Bytes) : Registry :=
  match s.open_tables.lookup name with
  | none => s
  | some (share, n) =>
    if n ≤ 1 then { s with open_tables := s.open_tables.erase name }
    else { s with open_tables := s.open_tables.insert name (share, n - 1) }

/-- `ha_pinba::rename_table`. -/
def rename_table (src dst : Bytes) : Registry :=
  match s.tables_to_reports.lookup src with
  | none => s
  | some index =>
    if s.tables_to_reports.lookup dst ≠ none then s
    else { s with
      tables_to_reports := (s.tables_to_reports.erase src).insert dst index
      reports_to_tables := match s.reports_to_tables.lookup index with
        | none => s.reports_to_tables
        | some rt => s.reports_to_tables.insert index { rt with
            tables := (rt.tables.erase src).insert dst
              ((rt.tables.lookup src).getD .unknown) } }

/-- The index that a constructor stores in its report: `pinba_regenerate_tagN_report2` stores
    none, all others a copy of the index of the share. -/
def stored_index (share : TableShare) : Option Bytes :=
  if share.type = .tag_report .tagN_report2 then none else some share.index

/-- Put a new report into the map and the array of its kind. -/
def stored (kind : ReportKind) (index : Bytes) (p : Nat) (std : ReportIdentity) : Registry :=
  { s with
    maps := Function.update s.maps kind ((s.maps kind).insert index p)
    arrays := Function.update s.arrays kind (s.arrays kind ++ [p])
    heap := s.heap.insert p std }

/-- `pinba_update_report_tables`; `none` when the report has no tables. -/
def pinba_update_report_tables (p : Nat) (std : ReportIdentity) (index : Bytes) :
    Option Registry :=
  match s.reports_to_tables.lookup index with
  | none => none
  | some rt =>
    match rt.std with
    | some _ => some s
    | none => some { s with
        heap := s.heap.insert p { std with use_cnt := entryCount rt.tables }
        reports_to_tables := s.reports_to_tables.insert index { rt with std := some p } }

/-- The registration at the end of a constructor. -/
def register (kind : ReportKind) (share : TableShare) (p : Nat) : Registry :=
  let std : ReportIdentity := ⟨kind, share.type, stored_index share, 0⟩
  let new := s.stored kind share.index p std
  match new.pinba_update_report_tables p std share.index with
  | some s => s
  | none =>
    match kind with
    | .base =>
      -- undo: `pinba_array_delete`, `pinba_map_delete`, `free`
      { new with
        maps := Function.update new.maps kind ((new.maps kind).erase share.index)
        arrays := Function.update new.arrays kind ((new.arrays kind).erase p)
        heap := new.heap.erase p }
    -- the destructor frees the report and leaves it in the map and the array
    | .tag | .rtag => { new with heap := new.heap.erase p }

/-- `pinba_regenerate_*`, called by `info` or `read_index_first` on an open table. -/
def regenerate (name : Bytes) (known : Bytes → Bool) (p : Nat) : Option Registry :=
  match s.open_tables.lookup name with
  | none => none
  | some (share, _) =>
    match share.type.report_kind with
    | none => some s
    | some kind =>
      if (s.maps kind).lookup share.index ≠ none then some s
      else match info_params share known with
        | .error .out_of_bounds => none
        | .ok false => some s
        | .ok true => if s.heap.lookup p ≠ none then none else some (s.register kind share p)

/-- The report of `index` loses its last table: remove and destroy it. The key of the map is
    `std->index`; hashing a null key is undefined. -/
def destroy (index : Bytes) (p : Nat) (std : ReportIdentity) : Option Registry :=
  match std.index with
  | none => none
  | some key => some { s with
      reports_to_tables := s.reports_to_tables.erase index
      maps := Function.update s.maps std.report_kind ((s.maps std.report_kind).erase key)
      arrays := Function.update s.arrays std.report_kind ((s.arrays std.report_kind).erase p)
      heap := s.heap.erase p }

/-- `pinba_table_to_report_dtor`, with the table detached from `tables_to_reports`. -/
def detach (name index : Bytes) : Option Registry :=
  match s.reports_to_tables.lookup index with
  | none => some s
  | some rt =>
    let rt := { rt with tables := rt.tables.erase name }
    match rt.std with
    | none => some { s with
        reports_to_tables := if rt.tables.keys = [] then s.reports_to_tables.erase index
          else s.reports_to_tables.insert index rt }
    | some p =>
      match s.heap.lookup p with
      | none => none
      | some std =>
        -- `--std->use_cnt == 0`
        if std.use_cnt = 1 then s.destroy index p std
        else some { s with
          heap := recount s.heap (some p) (· - 1)
          reports_to_tables := s.reports_to_tables.insert index rt }

/-- `ha_pinba::delete_table`. -/
def delete_table (name : Bytes) : Option Registry :=
  match s.tables_to_reports.lookup name with
  | none => some s
  | some index =>
    { s with tables_to_reports := s.tables_to_reports.erase name }.detach name index

/-! ## Section 3: Consistency -/

/-- A report in memory is registered under an index with its tables. -/
structure Registered (index : Bytes) (rt : ReportTables) (p : Nat) (std : ReportIdentity) :
    Prop where
  live : s.heap.lookup p = some std
  key : std.index = some index
  use_cnt : std.use_cnt = entryCount rt.tables
  map : (s.maps std.report_kind).lookup index = some p
  array : (s.arrays std.report_kind).count p = 1

/-- The two name maps, the report maps and the report arrays fit together. -/
structure Consistent : Prop where
  attached : ∀ name index, s.tables_to_reports.lookup name = some index ↔
    ∃ rt, s.reports_to_tables.lookup index = some rt ∧ rt.tables.lookup name ≠ none
  used : ∀ index rt, s.reports_to_tables.lookup index = some rt → rt.tables.keys ≠ []
  registered : ∀ index rt p, s.reports_to_tables.lookup index = some rt → rt.std = some p →
    ∃ std, s.Registered index rt p std
  stored : ∀ kind index p, (s.maps kind).lookup index = some p →
    ∃ rt std, s.reports_to_tables.lookup index = some rt ∧ rt.std = some p ∧
      s.heap.lookup p = some std ∧ std.report_kind = kind
  listed : ∀ kind p, p ∈ s.arrays kind → ∃ index, (s.maps kind).lookup index = some p

/-- Consistency, and what it rests on: the open shares come from comments, and the kind of a
    registered report is that of a share with its index. -/
structure Inv : Prop extends s.Consistent where
  shares : ∀ name share n, s.open_tables.lookup name = some (share, n) →
    ∃ comment, get_share comment = some share
  typed : ∀ index rt p std, s.reports_to_tables.lookup index = some rt → rt.std = some p →
    s.heap.lookup p = some std → ∃ comment share, get_share comment = some share ∧
      share.index = index ∧ share.type.report_kind = some std.report_kind

variable {s} {name index : Bytes} {share : TableShare} {rt : ReportTables} {p : Nat}
  {std : ReportIdentity}

namespace Consistent

/-- A report that is not in memory is nowhere. -/
theorem std_ne_of_free (h : s.Consistent) (hp : s.heap.lookup p = none)
    (hrt : s.reports_to_tables.lookup index = some rt) : rt.std ≠ some p := by
  intro hstd
  obtain ⟨std, hreg⟩ := h.registered index rt p hrt hstd
  rw [hreg.live] at hp
  cases hp

theorem notMem_array_of_free (h : s.Consistent) (hp : s.heap.lookup p = none) (kind : ReportKind) :
    p ∉ s.arrays kind := by
  intro hmem
  obtain ⟨index, hindex⟩ := h.listed kind p hmem
  obtain ⟨rt, std, -, -, hlive, -⟩ := h.stored kind index p hindex
  rw [hlive] at hp
  cases hp

/-- A report is registered under one index only. -/
theorem index_unique (h : s.Consistent) {index' : Bytes} {rt' : ReportTables}
    (hrt : s.reports_to_tables.lookup index = some rt) (hstd : rt.std = some p)
    (hrt' : s.reports_to_tables.lookup index' = some rt') (hstd' : rt'.std = some p) :
    index' = index := by
  obtain ⟨std, hreg⟩ := h.registered index rt p hrt hstd
  obtain ⟨std', hreg'⟩ := h.registered index' rt' p hrt' hstd'
  obtain rfl : std = std' := Option.some.inj (hreg.live.symm.trans hreg'.live)
  exact Option.some.inj (hreg'.key.symm.trans hreg.key)

/-- A registered report is in the map of its kind only. -/
theorem map_kind (h : s.Consistent) (hrt : s.reports_to_tables.lookup index = some rt)
    (hreg : s.Registered index rt p std) {kind : ReportKind} {q : Nat}
    (hq : (s.maps kind).lookup index = some q) (hstd : rt.std = some p) :
    q = p ∧ kind = std.report_kind := by
  obtain ⟨rt', std', hrt', hstd', hlive, hkind⟩ := h.stored kind index q hq
  obtain rfl : rt = rt' := Option.some.inj (hrt.symm.trans hrt')
  obtain rfl : p = q := Option.some.inj (hstd.symm.trans hstd')
  obtain rfl : std = std' := Option.some.inj (hreg.live.symm.trans hlive)
  exact ⟨rfl, hkind.symm⟩

end Consistent

theorem consistent_init : init.Consistent where
  attached name index := by simp [init]
  used index rt h := by simp [init] at h
  registered index rt p h := by simp [init] at h
  stored kind index p h := by simp [init] at h
  listed kind p h := by simp [init] at h

theorem inv_init : init.Inv where
  toConsistent := consistent_init
  shares name share n h := by simp [init] at h
  typed index rt p std h := by simp [init] at h

/-! ## Section 4: Changing the tables of a report -/

variable {s' : Registry} {tables : AList fun _ : Bytes => TableType}

/-- The reports in memory after the report of `rt` has counted its tables again. -/
def Recounted (s s' : Registry) (rt : ReportTables) (n : Nat) : Prop :=
  ∀ q, s'.heap.lookup q = if rt.std = some q then
    (s.heap.lookup q).map fun std => { std with use_cnt := n } else s.heap.lookup q

theorem lookup_recount (heap : AList fun _ : Nat => ReportIdentity) (std : Option Nat)
    (f : Nat → Nat) (q : Nat) : (recount heap std f).lookup q =
      if std = some q then
        (heap.lookup q).map fun std => { std with use_cnt := f std.use_cnt }
      else heap.lookup q := by
  unfold recount
  cases std with
  | none => rw [if_neg (by simp)]
  | some p =>
    cases hp : heap.lookup p with
    | none =>
      simp only [hp]
      by_cases hq : p = q
      · subst hq
        rw [if_pos rfl, hp, Option.map_none]
      · rw [if_neg fun heq => hq (Option.some.inj heq)]
    | some std =>
      simp only [hp, lookup_insert_if]
      by_cases hq : q = p
      · subst hq
        rw [if_pos rfl, if_pos rfl, hp, Option.map_some]
      · rw [if_neg hq, if_neg fun heq => hq (Option.some.inj heq).symm]

/-- Counting one table more or less comes down to the number of tables. -/
theorem recounted_of_recount (h : s.Consistent) (hrt : s.reports_to_tables.lookup index = some rt)
    {f : Nat → Nat} {n : Nat} (hn : f (entryCount rt.tables) = n)
    (hheap : s'.heap = recount s.heap rt.std f) : Recounted s s' rt n := by
  intro q
  rw [hheap, lookup_recount]
  split
  · next hq =>
    obtain ⟨std, hreg⟩ := h.registered index rt q hrt hq
    rw [hreg.live, Option.map_some, Option.map_some, hreg.use_cnt, hn]
  · rfl

/-- Giving a report other tables, and counting them, keeps the registry consistent as long as
    the names follow. -/
theorem inv_retable (h : s.Inv) (hrt : s.reports_to_tables.lookup index = some rt)
    (hne : tables.keys ≠ [])
    (hrtt : s'.reports_to_tables = s.reports_to_tables.insert index { rt with tables })
    (hheap : Recounted s s' rt (entryCount tables)) (hmaps : s'.maps = s.maps)
    (harrays : s'.arrays = s.arrays)
    (hattached : ∀ name i, s'.tables_to_reports.lookup name = some i ↔
      ∃ rt', s'.reports_to_tables.lookup i = some rt' ∧ rt'.tables.lookup name ≠ none)
    (hshares : ∀ name share n, s'.open_tables.lookup name = some (share, n) →
      ∃ comment, get_share comment = some share) : s'.Inv := by
  -- entries of other indices are those of before; their reports are other reports
  have hold : ∀ {i rt'}, s'.reports_to_tables.lookup i = some rt' →
      (i = index ∧ rt' = { rt with tables }) ∨
        (i ≠ index ∧ s.reports_to_tables.lookup i = some rt') := by
    intro i rt' hi
    rw [hrtt, lookup_insert_if] at hi
    split at hi
    · next heq => exact .inl ⟨heq, (Option.some.inj hi).symm⟩
    · next hne => exact .inr ⟨hne, hi⟩
  have hother : ∀ {i rt' q}, i ≠ index → s.reports_to_tables.lookup i = some rt' →
      rt'.std = some q → rt.std ≠ some q := by
    intro i rt' q hi hrt' hq hp
    exact hi (h.index_unique hrt hp hrt' hq)
  have hstd : ∀ {i rt'}, s.reports_to_tables.lookup i = some rt' →
      ∃ rt'', s'.reports_to_tables.lookup i = some rt'' ∧ rt''.std = rt'.std := by
    intro i rt' hi
    rw [hrtt, lookup_insert_if]
    split
    · next heq =>
      subst heq
      obtain rfl : rt = rt' := Option.some.inj (hrt.symm.trans hi)
      exact ⟨_, rfl, rfl⟩
    · exact ⟨rt', hi, rfl⟩
  constructor
  · constructor
    · exact hattached
    · intro i rt' hi
      rcases hold hi with ⟨-, rfl⟩ | ⟨-, hi⟩
      · exact hne
      · exact h.used i rt' hi
    · intro i rt' q hi hq
      rcases hold hi with ⟨rfl, rfl⟩ | ⟨hi', hi⟩
      · obtain ⟨std, hreg⟩ := h.registered i rt q hrt hq
        refine ⟨{ std with use_cnt := entryCount tables }, ?_, hreg.key, rfl, ?_, ?_⟩
        · rw [hheap, if_pos hq, hreg.live]
          rfl
        · rw [hmaps]
          exact hreg.map
        · rw [harrays]
          exact hreg.array
      · obtain ⟨std, hreg⟩ := h.registered i rt' q hi hq
        refine ⟨std, ?_, hreg.key, hreg.use_cnt, ?_, ?_⟩
        · rw [hheap, if_neg (hother hi' hi hq)]
          exact hreg.live
        · rw [hmaps]
          exact hreg.map
        · rw [harrays]
          exact hreg.array
    · intro kind i q hq
      rw [hmaps] at hq
      obtain ⟨rt', std, hi, hstd', hlive, hkind⟩ := h.stored kind i q hq
      obtain ⟨rt'', hrt'', hsame⟩ := hstd hi
      by_cases hp : rt.std = some q
      · exact ⟨rt'', { std with use_cnt := entryCount tables }, hrt'', hsame.trans hstd',
          by rw [hheap, if_pos hp, hlive]; rfl, hkind⟩
      · exact ⟨rt'', std, hrt'', hsame.trans hstd', by rw [hheap, if_neg hp, hlive], hkind⟩
    · intro kind q hq
      rw [harrays] at hq
      rw [hmaps]
      exact h.listed kind q hq
  · exact hshares
  · intro i rt' q std' hi hq hlive
    rcases hold hi with ⟨rfl, rfl⟩ | ⟨hi', hi⟩
    · rw [hheap, if_pos hq] at hlive
      obtain ⟨std, hstd', rfl⟩ := Option.map_eq_some_iff.mp hlive
      exact h.typed i rt q std hrt hq hstd'
    · rw [hheap, if_neg (hother hi' hi hq)] at hlive
      exact h.typed i rt' q std' hi hq hlive

/-- The shares of open tables matter to no report. -/
theorem inv_open_tables (h : s.Inv) {tables : AList fun _ : Bytes => TableShare × Nat}
    (hshares : ∀ name share n, tables.lookup name = some (share, n) →
      ∃ comment, get_share comment = some share) :
    { s with open_tables := tables }.Inv where
  attached := h.attached
  used := h.used
  registered index rt p hrt hstd := by
    obtain ⟨std, hreg⟩ := h.registered index rt p hrt hstd
    exact ⟨std, hreg.live, hreg.key, hreg.use_cnt, hreg.map, hreg.array⟩
  stored := h.stored
  listed := h.listed
  shares := hshares
  typed := h.typed

/-- The first table of an index. -/
theorem inv_first_table (h : s.Inv) (hrt : s.reports_to_tables.lookup index = none)
    (hname : s.tables_to_reports.lookup name = none) (type : TableType) :
    { s with
      reports_to_tables := s.reports_to_tables.insert index
        ⟨none, (∅ : AList fun _ : Bytes => TableType).insert name type⟩
      tables_to_reports := s.tables_to_reports.insert name index }.Inv := by
  have hold : ∀ {i rt'}, (s.reports_to_tables.insert index
      ⟨none, (∅ : AList fun _ : Bytes => TableType).insert name type⟩).lookup i = some rt' →
      (i = index ∧ rt' = ⟨none, (∅ : AList fun _ : Bytes => TableType).insert name type⟩) ∨
        s.reports_to_tables.lookup i = some rt' := by
    intro i rt' hi
    rw [lookup_insert_if] at hi
    split at hi
    · next heq => exact .inl ⟨heq, (Option.some.inj hi).symm⟩
    · exact .inr hi
  have hkept : ∀ {i rt'}, s.reports_to_tables.lookup i = some rt' →
      (s.reports_to_tables.insert index
        ⟨none, (∅ : AList fun _ : Bytes => TableType).insert name type⟩).lookup i = some rt' := by
    intro i rt' hi
    have hne : i ≠ index := by
      rintro rfl
      rw [hrt] at hi
      cases hi
    rw [lookup_insert_if, if_neg hne]
    exact hi
  constructor
  · constructor
    · intro n i
      rw [lookup_insert_if]
      split
      · next heq =>
        -- the new table is in the new entry, and in no other one
        subst heq
        constructor
        · intro hi
          obtain rfl := Option.some.inj hi
          refine ⟨_, AList.lookup_insert _, ?_⟩
          rw [AList.lookup_insert]
          simp
        · rintro ⟨rt', hi, hmem⟩
          rcases hold hi with ⟨rfl, -⟩ | hi
          · rfl
          · have := (h.attached n i).mpr ⟨rt', hi, hmem⟩
            rw [hname] at this
            cases this
      · next hne =>
        rw [h.attached]
        constructor
        · rintro ⟨rt', hi, hmem⟩
          exact ⟨rt', hkept hi, hmem⟩
        · rintro ⟨rt', hi, hmem⟩
          rcases hold hi with ⟨-, rfl⟩ | hi
          · rw [lookup_insert_if, if_neg hne] at hmem
            exact absurd (AList.lookup_empty n) hmem
          · exact ⟨rt', hi, hmem⟩
    · intro i rt' hi
      rcases hold hi with ⟨-, rfl⟩ | hi
      · simp
      · exact h.used i rt' hi
    · intro i rt' q hi hq
      rcases hold hi with ⟨-, rfl⟩ | hi
      · cases hq
      · obtain ⟨std, hreg⟩ := h.registered i rt' q hi hq
        exact ⟨std, hreg.live, hreg.key, hreg.use_cnt, hreg.map, hreg.array⟩
    · intro kind i q hq
      obtain ⟨rt', std, hi, hstd, hlive, hkind⟩ := h.stored kind i q hq
      exact ⟨rt', std, hkept hi, hstd, hlive, hkind⟩
    · exact h.listed
  · exact h.shares
  · intro i rt' q std hi hq hlive
    rcases hold hi with ⟨-, rfl⟩ | hi
    · cases hq
    · exact h.typed i rt' q std hi hq hlive

/-- The names after a new table has joined an index. -/
theorem attached_insert (h : s.Consistent) (hrt : s.reports_to_tables.lookup index = some rt)
    (hname : s.tables_to_reports.lookup name = none) {type : TableType} (n i : Bytes) :
    (s.tables_to_reports.insert name index).lookup n = some i ↔
      ∃ rt', (s.reports_to_tables.insert index
        { rt with tables := rt.tables.insert name type }).lookup i = some rt' ∧
          rt'.tables.lookup n ≠ none := by
  rw [lookup_insert_if, lookup_insert_if]
  by_cases hi : i = index
  · subst hi
    rw [if_pos rfl]
    by_cases hn : n = name
    · subst hn
      simp
    · have hatt := h.attached n i
      rw [hrt] at hatt
      simpa [hn, lookup_insert_if] using hatt
  · rw [if_neg hi, ← h.attached]
    by_cases hn : n = name
    · subst hn
      simp [hname, Ne.symm hi]
    · rw [if_neg hn]

/-- Attaching a table that is new, or already attached to the same index. -/
theorem inv_attach (h : s.Inv)
    (hsame : ∀ i, s.tables_to_reports.lookup name = some i → i = share.index) :
    (s.attach name share).Inv := by
  unfold attach
  cases hrt : s.reports_to_tables.lookup share.index with
  | none =>
    -- the first table of an index cannot be attached elsewhere
    have hname : s.tables_to_reports.lookup name = none := by
      by_contra hsome
      obtain ⟨i, hi⟩ := Option.ne_none_iff_exists'.mp hsome
      obtain ⟨rt, hrt', -⟩ := (h.attached name i).mp hi
      rw [hsame i hi, hrt] at hrt'
      cases hrt'
    simp only [hname, ne_eq, not_true_eq_false, if_false]
    exact inv_first_table h hrt hname share.table_type
  | some rt =>
    simp only
    by_cases hmem : rt.tables.lookup name = none
    · -- a new table of a known index: the count of its report goes up
      have hname : s.tables_to_reports.lookup name = none := by
        by_contra hsome
        obtain ⟨i, hi⟩ := Option.ne_none_iff_exists'.mp hsome
        obtain ⟨rt', hrt', hmem'⟩ := (h.attached name i).mp hi
        rw [hsame i hi, hrt] at hrt'
        obtain rfl := Option.some.inj hrt'
        exact hmem' hmem
      rw [if_neg (not_not_intro hmem)]
      simp only [hname, ne_eq, not_true_eq_false, if_false]
      refine inv_retable h hrt
        (by simp : (rt.tables.insert name share.table_type).keys ≠ []) rfl ?_ rfl rfl ?_ h.shares
      · exact recounted_of_recount h.toConsistent hrt (entryCount_insert_new hmem).symm rfl
      · exact attached_insert h.toConsistent hrt hname
    · -- the table is attached already
      have hname : s.tables_to_reports.lookup name ≠ none := by
        rw [(h.attached name share.index).mpr ⟨rt, hrt, hmem⟩]
        simp
      rw [if_pos hmem, if_pos hname]
      exact h

theorem recounted_same (h : s.Consistent) (hrt : s.reports_to_tables.lookup index = some rt)
    {n : Nat} (hn : entryCount rt.tables = n) (hheap : s'.heap = s.heap) :
    Recounted s s' rt n := by
  intro q
  rw [hheap]
  split
  · next hq =>
    obtain ⟨std, hreg⟩ := h.registered index rt q hrt hq
    rw [hreg.live, Option.map_some, ← hn, ← hreg.use_cnt]
  · rfl

/-- The names after a table of an index got another name. -/
theorem attached_rename (h : s.Consistent) {src dst : Bytes}
    (hrt : s.reports_to_tables.lookup index = some rt)
    (hsrc : s.tables_to_reports.lookup src = some index)
    (hdst : s.tables_to_reports.lookup dst = none) {type : TableType} (n i : Bytes) :
    ((s.tables_to_reports.erase src).insert dst index).lookup n = some i ↔
      ∃ rt', (s.reports_to_tables.insert index
        { rt with tables := (rt.tables.erase src).insert dst type }).lookup i = some rt' ∧
          rt'.tables.lookup n ≠ none := by
  rw [lookup_insert_if, lookup_erase_if, lookup_insert_if]
  have hatt := h.attached n i
  by_cases hi : i = index
  · subst hi
    rw [hrt] at hatt
    by_cases hn : n = dst
    · subst hn
      simp
    · by_cases hs : n = src
      · subst hs
        simp [hn]
      · simpa [hn, hs, lookup_insert_if, lookup_erase_if] using hatt
  · rw [if_neg hi, ← hatt]
    by_cases hn : n = dst
    · subst hn
      simp [hdst, Ne.symm hi]
    · by_cases hs : n = src
      · subst hs
        simp [hn, hsrc, Ne.symm hi]
      · rw [if_neg hn, if_neg hs]

theorem inv_rename_table (h : s.Inv) (src dst : Bytes) : (s.rename_table src dst).Inv := by
  unfold rename_table
  split
  · exact h
  · next index hsrc =>
    split
    · exact h
    · next hdst =>
      have hdst : s.tables_to_reports.lookup dst = none := not_not.mp hdst
      obtain ⟨rt, hrt, hmem⟩ := (h.attached src index).mp hsrc
      obtain ⟨type, htype⟩ := Option.ne_none_iff_exists'.mp hmem
      have hnew : (rt.tables.erase src).lookup dst = none := by
        rw [lookup_erase_if]
        split
        · rfl
        · by_contra hdst'
          have := (h.attached dst index).mpr ⟨rt, hrt, hdst'⟩
          rw [hdst] at this
          cases this
      simp only [hrt]
      refine inv_retable h hrt (by simp) rfl ?_ rfl rfl
        (attached_rename h.toConsistent hrt hsrc hdst) h.shares
      apply recounted_same h.toConsistent hrt ?_ rfl
      -- one table less, one table more
      rw [entryCount_insert_new hnew, entryCount_erase htype]

/-! ## Section 5: Constructing a report -/

/-- What follows the type in an index does not begin with a digit. -/
theorem head_of_parts (params : List Bytes) (conds : List (Bytes × Bytes)) :
    ∀ x ∈ (params.flatMap (124 :: ·) ++ conditions_id conds).head?, x = 124 := by
  intro x hx
  cases params with
  | cons param params =>
    simp at hx
    exact hx.symm
  | nil =>
    cases conds with
    | nil => simp [conditions_id] at hx
    | cons cond conds =>
      simp [conditions_id] at hx
      exact hx.symm

theorem value_lt (type : TableType) : type.value < 42 := by
  cases type with
  | base_report k => cases k <;> decide
  | tag_report k => cases k <;> decide
  | rtag_report k => cases k <;> decide
  | _ => decide

/-- The enumerator of a value. -/
def of_value : Nat → TableType
  | 0 => .unknown
  | 1 => .status
  | 2 => .active_reports
  | 3 => .request
  | 4 => .timer
  | 5 => .timertag
  | 6 => .tag
  | 7 => .histogram_view
  | n =>
    if n < 27 then .base_report (.ofNat (n - 8))
    else if n < 36 then .tag_report (.ofNat (n - 27))
    else .rtag_report (.ofNat (n - 36))

theorem of_value_value (type : TableType) : of_value type.value = type := by
  cases type with
  | base_report k => cases k <;> rfl
  | tag_report k => cases k <;> rfl
  | rtag_report k => cases k <;> rfl
  | _ => rfl

theorem length_type_digits (type : TableType) : (sprintf_u type.value).length ≤ 2 := by
  have hlt : type.value < 10 ^ 2 := lt_trans (value_lt type) (by decide)
  rw [sprintf_u, List.length_map]
  exact (Nat.length_toDigits_le_iff (by decide) (by decide)).mpr hlt

/-- Cutting off an index leaves the type and a part of what follows. -/
theorem take_index (type : TableType) {rest : Bytes} (hhead : ∀ x ∈ rest.head?, x = 124) :
    ∃ rest' : Bytes, (sprintf_u type.value ++ rest).take (PINBA_MAX_LINE_LEN - 1) =
      sprintf_u type.value ++ rest' ∧ ∀ x ∈ rest'.head?, x = 124 := by
  have hlen := length_type_digits type
  refine ⟨rest.take (PINBA_MAX_LINE_LEN - 1 - (sprintf_u type.value).length), ?_, ?_⟩
  · rw [List.take_append, List.take_of_length_le (hlen.trans (by decide))]
  · intro x hx
    apply hhead x
    rw [List.head?_take] at hx
    split at hx
    · cases hx
    · exact hx

/-- The index of a share begins with its type, followed by no digit. -/
theorem index_of_get_share {comment : Text} (h : get_share comment = some share) :
    ∃ rest : Bytes, share.index = sprintf_u share.type.value ++ rest ∧
      ∀ x ∈ rest.head?, x = 124 := by
  unfold get_share at h
  simp only at h
  split at h
  · cases h
  · obtain ⟨parsed, -, rfl⟩ := Option.map_eq_some_iff.mp h
    unfold TableShare.opened
    simp only
    split
    · obtain ⟨rest, hrest⟩ := take_index (TableShare.type
        { parsed.2 with table_type := (pinba_get_table_type comment.bytes).1 })
        (head_of_parts [] parsed.2.conds)
      exact ⟨rest, hrest⟩
    · obtain ⟨rest, hrest⟩ := take_index (TableShare.type
        { parsed.2 with table_type := (pinba_get_table_type comment.bytes).1 })
        (head_of_parts parsed.2.params parsed.2.conds)
      rw [← List.append_assoc] at hrest
      exact ⟨rest, hrest⟩

/-- Tables with one index have the same type. -/
theorem type_of_index {comment comment' : Text} {share' : TableShare}
    (h : get_share comment = some share) (h' : get_share comment' = some share')
    (hindex : share.index = share'.index) : share.type = share'.type := by
  obtain ⟨rest, hrest, hhead⟩ := index_of_get_share h
  obtain ⟨rest', hrest', hhead'⟩ := index_of_get_share h'
  rw [hrest, hrest'] at hindex
  have hdigits : ∀ {b : UInt8} {n : Nat}, b ∈ sprintf_u n → b ≠ 124 := by
    rintro b n hb rfl
    exact absurd (CompositeKind.isDigit_of_mem_sprintf_u hb) (by decide)
  obtain ⟨hvalue, -⟩ := Delimited.append_unique (· ≠ 124) (fun _ => hdigits) (fun _ => hdigits)
    (fun x hx => not_not_intro (hhead x hx)) (fun x hx => not_not_intro (hhead' x hx)) hindex
  have hinj : Function.LeftInverse of_value TableType.value := of_value_value
  exact hinj.injective (CompositeKind.sprintf_u_injective hvalue)

/-- Where the map of a kind has no report for a share, the index has no report at all. -/
theorem std_eq_none (h : s.Inv) {comment : Text} (hshare : get_share comment = some share)
    {kind : ReportKind} (hkind : share.type.report_kind = some kind)
    (hmap : (s.maps kind).lookup share.index = none)
    (hrt : s.reports_to_tables.lookup share.index = some rt) : rt.std = none := by
  by_contra hsome
  obtain ⟨p, hp⟩ := Option.ne_none_iff_exists'.mp hsome
  obtain ⟨std, hreg⟩ := h.registered _ rt p hrt hp
  obtain ⟨comment', share', hshare', hindex, hkind'⟩ := h.typed _ rt p std hrt hp hreg.live
  rw [type_of_index hshare' hshare hindex, hkind] at hkind'
  obtain rfl := Option.some.inj hkind'
  rw [hreg.map] at hmap
  cases hmap

/-- A new report of an index without one. -/
theorem inv_registered (h : s.Inv) {comment : Text} (hshare : get_share comment = some share)
    {kind : ReportKind} (hkind : share.type.report_kind = some kind)
    (hmap : (s.maps kind).lookup share.index = none) (hfree : s.heap.lookup p = none)
    (hrt : s.reports_to_tables.lookup share.index = some rt)
    (hs' : s' = { s.stored kind share.index p
        ⟨kind, share.type, some share.index, entryCount rt.tables⟩ with
      reports_to_tables := s.reports_to_tables.insert share.index { rt with std := some p } }) :
    s'.Inv := by
  have hnone := std_eq_none h hshare hkind hmap hrt
  have hold : ∀ {i rt'}, s'.reports_to_tables.lookup i = some rt' →
      (i = share.index ∧ rt' = { rt with std := some p }) ∨
        (i ≠ share.index ∧ s.reports_to_tables.lookup i = some rt') := by
    intro i rt' hi
    rw [hs', lookup_insert_if] at hi
    split at hi
    · next heq => exact .inl ⟨heq, (Option.some.inj hi).symm⟩
    · next hne => exact .inr ⟨hne, hi⟩
  have hheap : ∀ {q}, q ≠ p → s'.heap.lookup q = s.heap.lookup q := by
    intro q hq
    rw [hs']
    exact AList.lookup_insert_ne hq
  have hlive : s'.heap.lookup p =
      some ⟨kind, share.type, some share.index, entryCount rt.tables⟩ := by
    rw [hs']
    exact AList.lookup_insert _
  have hmaps : ∀ k i, (s'.maps k).lookup i =
      if k = kind ∧ i = share.index then some p else (s.maps k).lookup i := by
    intro k i
    rw [hs']
    by_cases hk : k = kind
    · subst hk
      simp [stored, lookup_insert_if]
    · simp [stored, hk]
  have harrays : ∀ k, s'.arrays k = if k = kind then s.arrays k ++ [p] else s.arrays k := by
    intro k
    rw [hs']
    by_cases hk : k = kind
    · subst hk
      simp [stored]
    · simp [stored, hk]
  have hnew : ∀ k, p ∉ s.arrays k := h.notMem_array_of_free hfree
  -- a report of before is not the new one
  have hbefore : ∀ {i rt' q}, s.reports_to_tables.lookup i = some rt' → rt'.std = some q →
      q ≠ p := by
    rintro i rt' q hi hq rfl
    exact h.std_ne_of_free hfree hi hq
  constructor
  · constructor
    · intro n i
      rw [hs']
      simp only [stored, lookup_insert_if]
      rw [h.attached n i]
      by_cases hi : i = share.index
      · subst hi
        simp [hrt]
      · rw [if_neg hi]
    · intro i rt' hi
      rcases hold hi with ⟨-, rfl⟩ | ⟨-, hi⟩
      · exact h.used _ rt hrt
      · exact h.used i rt' hi
    · intro i rt' q hi hq
      rcases hold hi with ⟨rfl, rfl⟩ | ⟨hi', hi⟩
      · obtain rfl := Option.some.inj hq
        refine ⟨_, hlive, rfl, rfl, ?_, ?_⟩
        · rw [hmaps, if_pos ⟨rfl, rfl⟩]
        · rw [harrays, if_pos rfl, List.count_append, List.count_eq_zero_of_not_mem (hnew _)]
          simp
      · obtain ⟨std, hreg⟩ := h.registered i rt' q hi hq
        refine ⟨std, ?_, hreg.key, hreg.use_cnt, ?_, ?_⟩
        · rw [hheap (hbefore hi hq)]
          exact hreg.live
        · rw [hmaps, if_neg fun heq => hi' heq.2]
          exact hreg.map
        · rw [harrays]
          split
          · rw [List.count_append, hreg.array, List.count_singleton,
              if_neg (by simpa using Ne.symm (hbefore hi hq))]
          · exact hreg.array
    · intro k i q hq
      rw [hmaps] at hq
      split at hq
      · next heq =>
        obtain ⟨rfl, rfl⟩ := heq
        obtain rfl := Option.some.inj hq
        exact ⟨{ rt with std := some p }, _, by rw [hs']; exact AList.lookup_insert _, rfl, hlive,
          rfl⟩
      · obtain ⟨rt', std, hi, hstd, hlive', hk⟩ := h.stored k i q hq
        have hne : i ≠ share.index := by
          rintro rfl
          obtain rfl := Option.some.inj (hrt.symm.trans hi)
          rw [hnone] at hstd
          cases hstd
        refine ⟨rt', std, ?_, hstd, ?_, hk⟩
        · rw [hs']
          exact (AList.lookup_insert_ne hne).trans hi
        · rw [hheap (hbefore hi hstd)]
          exact hlive'
    · intro k q hq
      rw [harrays] at hq
      split at hq
      · next hk =>
        subst hk
        rcases List.mem_append.mp hq with hq | hq
        · obtain ⟨i, hi⟩ := h.listed k q hq
          refine ⟨i, ?_⟩
          rw [hmaps, if_neg]
          · exact hi
          · rintro ⟨-, rfl⟩
            rw [hmap] at hi
            cases hi
        · obtain rfl := List.mem_singleton.mp hq
          exact ⟨share.index, by rw [hmaps, if_pos ⟨rfl, rfl⟩]⟩
      · next hk =>
        obtain ⟨i, hi⟩ := h.listed k q hq
        exact ⟨i, by rw [hmaps, if_neg fun heq => hk heq.1, hi]⟩
  · rw [hs']
    exact h.shares
  · intro i rt' q std hi hq hlive'
    rcases hold hi with ⟨rfl, rfl⟩ | ⟨hi', hi⟩
    · obtain rfl := Option.some.inj hq
      obtain rfl := Option.some.inj (hlive.symm.trans hlive')
      exact ⟨comment, share, hshare, rfl, hkind⟩
    · rw [hheap (hbefore hi hq)] at hlive'
      exact h.typed i rt' q std hi hq hlive'

/-- A base report that could not be registered is taken back. -/
theorem register_unattached (h : s.Inv) (hfree : s.heap.lookup p = none)
    (hmap : (s.maps .base).lookup share.index = none)
    (hrt : s.reports_to_tables.lookup share.index = none) : s.register .base share p = s := by
  have hold : (s.arrays .base ++ [p]).erase p = s.arrays .base := by
    rw [List.erase_append_right _ (h.notMem_array_of_free hfree .base)]
    simp
  unfold register pinba_update_report_tables stored
  simp only [hrt, Function.update_self, Function.update_idem]
  rw [erase_insert_new hmap, erase_insert_new hfree, hold, Function.update_eq_self,
    Function.update_eq_self]

/-- A constructor that goes through and finds its tables. -/
theorem register_attached (h : s.Inv) {comment : Text} (hshare : get_share comment = some share)
    {kind : ReportKind} (hkind : share.type.report_kind = some kind)
    (hindexed : share.type ≠ .tag_report .tagN_report2)
    (hmap : (s.maps kind).lookup share.index = none)
    (hrt : s.reports_to_tables.lookup share.index = some rt) :
    s.register kind share p = { s.stored kind share.index p
        ⟨kind, share.type, some share.index, entryCount rt.tables⟩ with
      reports_to_tables := s.reports_to_tables.insert share.index { rt with std := some p } } := by
  have hnone := std_eq_none h hshare hkind hmap hrt
  have hstored : stored_index share = some share.index := if_neg hindexed
  unfold register pinba_update_report_tables stored
  simp only [hrt, hnone, hstored, AList.insert_insert]

/-- A constructor that may run: it stores its index, and a tag report has its tables. -/
def Constructible (s : Registry) (share : TableShare) : Prop :=
  share.type ≠ .tag_report .tagN_report2 ∧
    (s.reports_to_tables.lookup share.index ≠ none ∨ share.type.report_kind = some .base)

theorem inv_regenerate (h : s.Inv) {known : Bytes → Bool}
    (hsound : ∀ share n, s.open_tables.lookup name = some (share, n) → s.Constructible share)
    (hs' : s.regenerate name known p = some s') : s'.Inv := by
  unfold regenerate at hs'
  split at hs'
  -- the table is not open
  · cases hs'
  next share n hopen =>
  obtain ⟨comment, hshare⟩ := h.shares name share n hopen
  obtain ⟨hindexed, htables⟩ := hsound share n hopen
  split at hs'
  -- a table without a report
  · obtain rfl := Option.some.inj hs'
    exact h
  next kind hkind =>
  split at hs'
  -- the report exists
  · obtain rfl := Option.some.inj hs'
    exact h
  next hmap =>
  have hmap : (s.maps kind).lookup share.index = none := not_not.mp hmap
  split at hs'
  · cases hs'
  -- some tag is not known
  · obtain rfl := Option.some.inj hs'
    exact h
  · split at hs'
    · cases hs'
    next hfree =>
    have hfree : s.heap.lookup p = none := not_not.mp hfree
    obtain rfl := Option.some.inj hs'
    cases hrt : s.reports_to_tables.lookup share.index with
    | none =>
      rcases htables with htables | htables
      · exact absurd hrt htables
      · obtain rfl := Option.some.inj (hkind.symm.trans htables)
        rw [register_unattached h hfree hmap hrt]
        exact h
    | some rt =>
      exact inv_registered h hshare hkind hmap hfree hrt
        (register_attached h hshare hkind hindexed hmap hrt)

/-! ## Section 6: Dropping a table -/

/-- The names after a table has left. -/
theorem attached_erase (h : s.Consistent)
    (hname : s.tables_to_reports.lookup name = some index)
    (hrt : s.reports_to_tables.lookup index = some rt) (rt' : ReportTables)
    (htables : rt'.tables = rt.tables.erase name) (n i : Bytes) :
    (s.tables_to_reports.erase name).lookup n = some i ↔
      ∃ rt₁, (s.reports_to_tables.insert index rt').lookup i = some rt₁ ∧
        rt₁.tables.lookup n ≠ none := by
  rw [lookup_erase_if, lookup_insert_if]
  have hatt := h.attached n i
  by_cases hi : i = index
  · subst hi
    rw [hrt] at hatt
    by_cases hn : n = name
    · subst hn
      simp [htables]
    · simpa [hn, htables, lookup_erase_if] using hatt
  · rw [if_neg hi, ← hatt]
    by_cases hn : n = name
    · subst hn
      simp [hname, Ne.symm hi]
    · rw [if_neg hn]

/-- An entry without tables can go. -/
theorem attached_erase_entry (rtt : AList fun _ : Bytes => ReportTables) {rt' : ReportTables}
    (hempty : rt'.tables.keys = []) (n i : Bytes) :
    (∃ rt₁, (rtt.insert index rt').lookup i = some rt₁ ∧ rt₁.tables.lookup n ≠ none) ↔
      ∃ rt₁, (rtt.erase index).lookup i = some rt₁ ∧ rt₁.tables.lookup n ≠ none := by
  rw [lookup_insert_if, lookup_erase_if]
  by_cases hi : i = index
  · have hlookup : rt'.tables.lookup n = none := by
      rw [AList.lookup_eq_none]
      intro hmem
      have : n ∈ rt'.tables.keys := hmem
      rw [hempty] at this
      cases this
    simp [hi, hlookup]
  · rw [if_neg hi, if_neg hi]

/-- The last table leaves: the entry goes, and its report with it. -/
theorem inv_last_table (h : s.Inv) (hname : s.tables_to_reports.lookup name = some index)
    (hrt : s.reports_to_tables.lookup index = some rt) (hlast : (rt.tables.erase name).keys = [])
    (hrtt : s'.reports_to_tables = s.reports_to_tables.erase index)
    (hnames : s'.tables_to_reports = s.tables_to_reports.erase name)
    (hopen : s'.open_tables = s.open_tables)
    (hheap : ∀ q, rt.std ≠ some q → s'.heap.lookup q = s.heap.lookup q)
    (hmaps : ∀ kind i, (s'.maps kind).lookup i =
      if i = index then none else (s.maps kind).lookup i)
    (harrays : ∀ kind q, (s'.arrays kind).count q =
      if rt.std = some q then 0 else (s.arrays kind).count q) : s'.Inv := by
  -- all other entries stay
  have hold : ∀ {i rt'}, s'.reports_to_tables.lookup i = some rt' →
      i ≠ index ∧ s.reports_to_tables.lookup i = some rt' := by
    intro i rt' hi
    rw [hrtt, lookup_erase_if] at hi
    split at hi
    · cases hi
    · next hne => exact ⟨hne, hi⟩
  -- and their reports are other ones
  have hother : ∀ {i rt' q}, i ≠ index → s.reports_to_tables.lookup i = some rt' →
      rt'.std = some q → rt.std ≠ some q := by
    intro i rt' q hi hrt' hq hp
    exact hi (h.index_unique hrt hp hrt' hq)
  constructor
  · constructor
    · intro n i
      rw [hnames, hrtt, attached_erase h.toConsistent hname hrt ⟨none, rt.tables.erase name⟩ rfl]
      exact attached_erase_entry _ hlast n i
    · intro i rt' hi
      exact h.used i rt' (hold hi).2
    · intro i rt' q hi hq
      obtain ⟨hne, hi⟩ := hold hi
      obtain ⟨std, hreg⟩ := h.registered i rt' q hi hq
      refine ⟨std, ?_, hreg.key, hreg.use_cnt, ?_, ?_⟩
      · rw [hheap q (hother hne hi hq)]
        exact hreg.live
      · rw [hmaps, if_neg hne]
        exact hreg.map
      · rw [harrays, if_neg (hother hne hi hq)]
        exact hreg.array
    · intro kind i q hq
      rw [hmaps] at hq
      split at hq
      · cases hq
      · next hne =>
        obtain ⟨rt', std, hi, hstd, hlive, hkind⟩ := h.stored kind i q hq
        refine ⟨rt', std, ?_, hstd, ?_, hkind⟩
        · rw [hrtt, lookup_erase_if, if_neg hne]
          exact hi
        · rw [hheap q (hother hne hi hstd)]
          exact hlive
    · intro kind q hq
      have hcount := List.count_pos_iff.mpr hq
      rw [harrays] at hcount
      split at hcount
      · cases hcount
      · next hstd =>
        obtain ⟨i, hi⟩ := h.listed kind q (List.count_pos_iff.mp hcount)
        refine ⟨i, ?_⟩
        rw [hmaps, if_neg]
        · exact hi
        · rintro rfl
          obtain ⟨rt', std, hrt', hstd', -, -⟩ := h.stored kind i q hi
          obtain rfl := Option.some.inj (hrt.symm.trans hrt')
          exact hstd hstd'
  · rw [hopen]
    exact h.shares
  · intro i rt' q std hi hq hlive
    obtain ⟨hne, hi⟩ := hold hi
    rw [hheap q (hother hne hi hq)] at hlive
    exact h.typed i rt' q std hi hq hlive

/-- A report has been destroyed: it is not in memory, and in no map and no array. -/
def Lacks (s : Registry) (index : Bytes) (p : Nat) : Prop :=
  s.heap.lookup p = none ∧ ∀ kind, (s.maps kind).lookup index = none ∧ p ∉ s.arrays kind

/-- A report is in use: in memory, in the map and in the array of its kind. -/
def Holds (s : Registry) (index : Bytes) (p : Nat) : Prop :=
  ∃ std, s.heap.lookup p = some std ∧ (s.maps std.report_kind).lookup index = some p ∧
    p ∈ s.arrays std.report_kind

theorem holds_of_consistent (h : s.Consistent) (hrt : s.reports_to_tables.lookup index = some rt)
    (hstd : rt.std = some p) : s.Holds index p := by
  obtain ⟨std, hreg⟩ := h.registered index rt p hrt hstd
  refine ⟨std, hreg.live, hreg.map, ?_⟩
  rw [← List.count_pos_iff, hreg.array]
  exact Nat.one_pos

theorem keys_eq_nil_iff {tables : AList fun _ : Bytes => TableType} :
    tables.keys = [] ↔ entryCount tables = 0 := by
  rw [entryCount, List.length_eq_zero_iff]

/-- The only table of an index is the one that leaves. -/
theorem keys_eq_singleton (htype : rt.tables.lookup name ≠ none) :
    (rt.tables.erase name).keys = [] ↔ rt.tables.keys = [name] := by
  have hmem : name ∈ rt.tables.keys := by
    by_contra hno
    exact htype (AList.lookup_eq_none.mpr hno)
  obtain ⟨type, hsome⟩ := Option.ne_none_iff_exists'.mp htype
  have hcount := entryCount_erase hsome
  rw [keys_eq_nil_iff]
  constructor
  · intro hzero
    rw [hzero] at hcount
    obtain ⟨only, honly⟩ := List.length_eq_one_iff.mp hcount.symm
    rw [honly] at hmem ⊢
    rw [List.mem_singleton.mp hmem]
  · intro hkeys
    rw [entryCount, entryCount, hkeys] at hcount
    exact Nat.succ.inj hcount

/-- An index without a report is in no map. -/
theorem lookup_map_none (h : s.Consistent) (hrt : s.reports_to_tables.lookup index = some rt)
    (hstd : rt.std = none) (kind : ReportKind) : (s.maps kind).lookup index = none := by
  by_contra hsome
  obtain ⟨q, hq⟩ := Option.ne_none_iff_exists'.mp hsome
  obtain ⟨rt', std, hrt', hstd', -⟩ := h.stored kind index q hq
  obtain rfl := Option.some.inj (hrt.symm.trans hrt')
  rw [hstd] at hstd'
  cases hstd'

/-- What destroying a report leaves. -/
theorem destroy_spec (h : s.Inv) (hname : s.tables_to_reports.lookup name = some index)
    (hrt : s.reports_to_tables.lookup index = some rt) (hlast : (rt.tables.erase name).keys = [])
    (hstd : rt.std = some p) (hreg : s.Registered index rt p std) :
    ∃ s', { s with tables_to_reports := s.tables_to_reports.erase name }.destroy index p std =
      some s' ∧ s'.Inv ∧ s'.reports_to_tables = s.reports_to_tables.erase index ∧
        s'.Lacks index p := by
  have hmaps : ∀ kind i, (Function.update s.maps std.report_kind
      ((s.maps std.report_kind).erase index) kind).lookup i =
        if i = index then none else (s.maps kind).lookup i := by
    intro kind i
    by_cases hk : kind = std.report_kind
    · subst hk
      simp [lookup_erase_if]
    · rw [Function.update_of_ne hk]
      split
      · next hi =>
        -- the report is in the map of its kind only
        subst hi
        by_contra hsome
        obtain ⟨q, hq⟩ := Option.ne_none_iff_exists'.mp hsome
        exact hk (h.map_kind hrt hreg hq hstd).2
      · rfl
  have harrays : ∀ kind q, (Function.update s.arrays std.report_kind
      ((s.arrays std.report_kind).erase p) kind).count q =
        if rt.std = some q then 0 else (s.arrays kind).count q := by
    intro kind q
    rw [hstd]
    by_cases hk : kind = std.report_kind
    · subst hk
      rw [Function.update_self, List.count_erase]
      by_cases hq : p = q
      · subst hq
        simp [hreg.array]
      · simp [hq]
    · rw [Function.update_of_ne hk]
      split
      · next hq =>
        obtain rfl := Option.some.inj hq
        rw [List.count_eq_zero]
        intro hmem
        obtain ⟨i, hi⟩ := h.listed kind p hmem
        obtain ⟨rt', std', hrt', hstd', hlive, hkind⟩ := h.stored kind i p hi
        obtain rfl := Option.some.inj (hreg.live.symm.trans hlive)
        exact hk hkind.symm
      · rfl
  unfold destroy
  simp only [hreg.key]
  refine ⟨_, rfl, ?_, rfl, ?_⟩
  · refine inv_last_table h hname hrt hlast rfl rfl rfl ?_ ?_ ?_
    · intro q hq
      exact AList.lookup_erase_ne fun heq => hq (heq ▸ hstd)
    · exact hmaps
    · exact harrays
  · refine ⟨AList.lookup_erase _ _, fun kind => ⟨?_, ?_⟩⟩
    · exact (hmaps kind index).trans (if_pos rfl)
    · rw [← List.count_eq_zero]
      exact (harrays kind p).trans (if_pos hstd)

/-- The only table of an index is attached to it. -/
theorem attached_of_only (h : s.Consistent) (hrt : s.reports_to_tables.lookup index = some rt)
    (hkeys : rt.tables.keys = [name]) : s.tables_to_reports.lookup name = some index := by
  refine (h.attached name index).mpr ⟨rt, hrt, ?_⟩
  rw [ne_eq, AList.lookup_eq_none, not_not]
  change name ∈ rt.tables.keys
  rw [hkeys]
  exact List.mem_singleton_self name

/-- A drop leaves every report but that of the last table where it was. -/
structure Dropped (s s' : Registry) (name : Bytes) : Prop where
  inv : s'.Inv
  last : ∀ index rt p, s.reports_to_tables.lookup index = some rt → rt.std = some p →
    rt.tables.keys = [name] → s'.Lacks index p
  others : ∀ index rt p, s.reports_to_tables.lookup index = some rt → rt.std = some p →
    rt.tables.keys ≠ [name] → s'.Holds index p

/-- The entry of an index stays, with other tables. -/
theorem dropped_of_retable (hname : s.tables_to_reports.lookup name = some index)
    (h : s.Consistent) (hrt : s.reports_to_tables.lookup index = some rt)
    (hne : (rt.tables.erase name).keys ≠ [])
    (hrtt : s'.reports_to_tables =
      s.reports_to_tables.insert index { rt with tables := rt.tables.erase name })
    (hinv : s'.Inv) : Dropped s s' name := by
  have hmem : rt.tables.lookup name ≠ none := by
    obtain ⟨rt', hrt', hmem⟩ := (h.attached name index).mp hname
    obtain rfl := Option.some.inj (hrt.symm.trans hrt')
    exact hmem
  refine ⟨hinv, ?_, ?_⟩
  · intro i rt' p hi hstd hkeys
    obtain rfl := Option.some.inj (hname.symm.trans (attached_of_only h hi hkeys))
    obtain rfl := Option.some.inj (hrt.symm.trans hi)
    -- the table is not the last one
    exact absurd ((keys_eq_singleton hmem).mpr hkeys) hne
  · intro i rt' p hi hstd _
    by_cases heq : i = index
    · subst heq
      obtain rfl := Option.some.inj (hrt.symm.trans hi)
      have hnew : s'.reports_to_tables.lookup i =
          some { rt with tables := rt.tables.erase name } := by
        rw [hrtt, AList.lookup_insert]
      exact holds_of_consistent hinv.toConsistent hnew hstd
    · refine holds_of_consistent hinv.toConsistent ?_ hstd
      rw [hrtt, AList.lookup_insert_ne heq]
      exact hi

/-- The entry of an index goes. -/
theorem dropped_of_last (h : s.Consistent) (hrt : s.reports_to_tables.lookup index = some rt)
    (hrtt : s'.reports_to_tables = s.reports_to_tables.erase index) (hinv : s'.Inv)
    (hmem : rt.tables.lookup name ≠ none) (hlast : (rt.tables.erase name).keys = [])
    (hname : s.tables_to_reports.lookup name = some index)
    (hlacks : ∀ p, rt.std = some p → s'.Lacks index p) : Dropped s s' name := by
  refine ⟨hinv, ?_, ?_⟩
  · intro i rt' p hi hstd hkeys
    obtain rfl := Option.some.inj (hname.symm.trans (attached_of_only h hi hkeys))
    obtain rfl := Option.some.inj (hrt.symm.trans hi)
    exact hlacks p hstd
  · intro i rt' p hi hstd hkeys
    -- an index with another set of tables is another one
    have hne : i ≠ index := by
      rintro rfl
      obtain rfl := Option.some.inj (hrt.symm.trans hi)
      exact hkeys ((keys_eq_singleton hmem).mp hlast)
    refine holds_of_consistent hinv.toConsistent ?_ hstd
    rw [hrtt, AList.lookup_erase_ne hne]
    exact hi

/-- A table leaves an index that has no report. -/
theorem detach_without_report (h : s.Inv) (hname : s.tables_to_reports.lookup name = some index)
    (hrt : s.reports_to_tables.lookup index = some rt) (hmem : rt.tables.lookup name ≠ none)
    (hstd : rt.std = none) :
    ∃ s', { s with tables_to_reports := s.tables_to_reports.erase name }.detach name index = some s' ∧
      Dropped s s' name := by
  simp only [detach, hrt, hstd]
  by_cases hlast : (rt.tables.erase name).keys = []
  · rw [if_pos hlast]
    refine ⟨_, rfl, dropped_of_last h.toConsistent hrt rfl ?_ hmem hlast hname ?_⟩
    · refine inv_last_table h hname hrt hlast rfl rfl rfl (fun _ _ => rfl) ?_ ?_
      · intro kind i
        split
        · next hi =>
          subst hi
          exact lookup_map_none h.toConsistent hrt hstd kind
        · rfl
      · intro kind q
        rw [hstd, if_neg (by simp)]
    · intro p hp
      rw [hstd] at hp
      cases hp
  · rw [if_neg hlast]
    refine ⟨_, rfl, dropped_of_retable hname h.toConsistent hrt hlast (by rw [hstd]) ?_⟩
    refine inv_retable h hrt hlast (by rw [hstd]) ?_ rfl rfl
      (attached_erase h.toConsistent hname hrt _ rfl) h.shares
    intro q
    rw [hstd, if_neg (by simp)]

/-- A table leaves an index with a report; the count of the report decides. -/
theorem detach_with_report (h : s.Inv) (hname : s.tables_to_reports.lookup name = some index)
    (hrt : s.reports_to_tables.lookup index = some rt) (hmem : rt.tables.lookup name ≠ none)
    (hstd : rt.std = some p) :
    ∃ s', { s with tables_to_reports := s.tables_to_reports.erase name }.detach name index = some s' ∧
      Dropped s s' name := by
  obtain ⟨type, htype⟩ := Option.ne_none_iff_exists'.mp hmem
  obtain ⟨std, hreg⟩ := h.registered index rt p hrt hstd
  -- the count of the report is the number of its tables, this one included
  have hcount := entryCount_erase htype
  have hused := hreg.use_cnt
  simp only [detach, hrt, hstd, hreg.live]
  by_cases hone : std.use_cnt = 1
  · have hlast : (rt.tables.erase name).keys = [] := by
      rw [keys_eq_nil_iff]
      omega
    obtain ⟨s', hs', hinv, hrtt, hlacks⟩ := destroy_spec h hname hrt hlast hstd hreg
    rw [if_pos hone]
    refine ⟨s', hs', dropped_of_last h.toConsistent hrt hrtt hinv hmem hlast hname ?_⟩
    intro q hq
    obtain rfl := Option.some.inj (hstd.symm.trans hq)
    exact hlacks
  · have hlast : (rt.tables.erase name).keys ≠ [] := by
      rw [ne_eq, keys_eq_nil_iff]
      omega
    rw [if_neg hone]
    refine ⟨_, rfl, dropped_of_retable hname h.toConsistent hrt hlast (by rw [hstd]) ?_⟩
    refine inv_retable h hrt hlast (by rw [hstd]) ?_ rfl rfl
      (attached_erase h.toConsistent hname hrt _ rfl) h.shares
    refine recounted_of_recount h.toConsistent hrt (f := fun n => n - 1) ?_ (by rw [hstd])
    omega

/-- `delete_table` has a defined result, and destroys the report of the last table only. -/
theorem delete_table_spec (h : s.Inv) (name : Bytes) :
    ∃ s', s.delete_table name = some s' ∧ Dropped s s' name := by
  unfold delete_table
  cases hname : s.tables_to_reports.lookup name with
  | none =>
    refine ⟨s, rfl, h, ?_, ?_⟩
    · intro index rt p hrt hstd hkeys
      rw [attached_of_only h.toConsistent hrt hkeys] at hname
      cases hname
    · intro index rt p hrt hstd _
      exact holds_of_consistent h.toConsistent hrt hstd
  | some index =>
    obtain ⟨rt, hrt, hmem⟩ := (h.attached name index).mp hname
    cases hstd : rt.std with
    | none => exact detach_without_report h hname hrt hmem hstd
    | some p => exact detach_with_report h hname hrt hmem hstd

/-! ## Section 7: Runs -/

/-- A call of the server. A constructor runs in `info` or `read_index_first` of an open table;
    `known` are the tag names it finds, `p` is the address of the new report. -/
inductive Event where
  | open_table (name : Bytes) (comment : Text)
  | close (name : Bytes)
  | rename_table (src dst : Bytes)
  | delete_table (name : Bytes)
  | regenerate (name : Bytes) (known : Bytes → Bool) (p : Nat)

def step (s : Registry) : Event → Option Registry
  | .open_table name comment => some (s.open_table name comment)
  | .close name => some (s.close name)
  | .rename_table src dst => some (s.rename_table src dst)
  | .delete_table name => s.delete_table name
  | .regenerate name known p => s.regenerate name known p

/-- The share that `open` gets for a table. -/
def share_of (s : Registry) (name : Bytes) (comment : Text) : Option TableShare :=
  match s.open_tables.lookup name with
  | some (share, _) => some share
  | none => get_share comment

/-- A call that the registry copes with: an attached table is opened with the index it is
    attached to, and constructors run for attached tables, not for `tagN_report2`. -/
def Sound (s : Registry) : Event → Prop
  | .open_table name comment => ∀ share index, s.share_of name comment = some share →
      s.tables_to_reports.lookup name = some index → index = share.index
  | .regenerate name _ _ => ∀ share n, s.open_tables.lookup name = some (share, n) →
      s.Constructible share
  | _ => True

/-- The states of the runs whose calls are all allowed. -/
inductive Reachable (Allowed : Registry → Event → Prop) : Registry → Prop
  | init : Reachable Allowed init
  | step {s s' : Registry} (e : Event) : Reachable Allowed s → Allowed s e → s.step e = some s' →
      Reachable Allowed s'

/-- The shares of the open tables come from comments. -/
abbrev FromComments (open_tables : AList fun _ : Bytes => TableShare × Nat) : Prop :=
  ∀ name share n, open_tables.lookup name = some (share, n) → ∃ comment, get_share comment = some share

theorem FromComments.insert {open_tables : AList fun _ : Bytes => TableShare × Nat}
    (h : FromComments open_tables) (hshare : ∃ comment, get_share comment = some share)
    (name : Bytes) (n : Nat) : FromComments (open_tables.insert name (share, n)) := by
  intro name' share' n' hlookup
  rw [lookup_insert_if] at hlookup
  split at hlookup
  · cases hlookup
    exact hshare
  · exact h name' share' n' hlookup

theorem FromComments.erase {open_tables : AList fun _ : Bytes => TableShare × Nat}
    (h : FromComments open_tables) (name : Bytes) : FromComments (open_tables.erase name) := by
  intro name' share' n' hlookup
  rw [lookup_erase_if] at hlookup
  split at hlookup
  · cases hlookup
  · exact h name' share' n' hlookup

theorem inv_open_table (h : s.Inv) {comment : Text}
    (hsound : ∀ share index, s.share_of name comment = some share →
      s.tables_to_reports.lookup name = some index → index = share.index) :
    (s.open_table name comment).Inv := by
  have hshares : FromComments s.open_tables := h.shares
  unfold open_table
  split
  · next share n hopen =>
    apply inv_attach (inv_open_tables h (hshares.insert (h.shares name share n hopen) name _))
    exact fun i hi => hsound share i (by rw [share_of, hopen]) hi
  · next hopen =>
    split
    · exact h
    · next share hshare =>
      apply inv_attach (inv_open_tables h (hshares.insert ⟨comment, hshare⟩ name _))
      exact fun i hi => hsound share i (by rw [share_of, hopen]; exact hshare) hi

theorem inv_close (h : s.Inv) (name : Bytes) : (s.close name).Inv := by
  have hshares : FromComments s.open_tables := h.shares
  unfold close
  split
  · exact h
  · next share n hopen =>
    split
    · exact inv_open_tables h (hshares.erase name)
    · exact inv_open_tables h (hshares.insert (h.shares name share n hopen) name _)

theorem inv_step {e : Event} (h : s.Inv) (hsound : s.Sound e) (hs' : s.step e = some s') :
    s'.Inv := by
  cases e with
  | open_table name comment =>
    obtain rfl := Option.some.inj hs'
    exact inv_open_table h hsound
  | close name =>
    obtain rfl := Option.some.inj hs'
    exact inv_close h name
  | rename_table src dst =>
    obtain rfl := Option.some.inj hs'
    exact inv_rename_table h src dst
  | delete_table name =>
    obtain ⟨s₁, hs₁, hdropped⟩ := delete_table_spec h name
    obtain rfl := Option.some.inj (hs₁.symm.trans hs')
    exact hdropped.inv
  | regenerate name known p => exact inv_regenerate h hsound hs'

theorem inv_reachable (h : Reachable Sound s) : s.Inv := by
  induction h with
  | init => exact inv_init
  | step e _ hsound hs' ih => exact inv_step ih hsound hs'

/-- In every run of sound calls the registry is consistent, each report is stored in the map
    of one kind, and dropping a table destroys a report exactly when it was the last one. -/
theorem registry_consistent (s : Registry) (h : Reachable Sound s) :
    s.Consistent ∧
    (∀ index rt p, s.reports_to_tables.lookup index = some rt → rt.std = some p →
      ∃! kind, (s.maps kind).lookup index = some p) ∧
    (∀ name, ∃ s', s.delete_table name = some s' ∧
      ∀ index rt p, s.reports_to_tables.lookup index = some rt → rt.std = some p →
        (rt.tables.keys = [name] → s'.Lacks index p) ∧
        (rt.tables.keys ≠ [name] → s'.Holds index p)) := by
  have hinv := inv_reachable h
  refine ⟨hinv.toConsistent, ?_, ?_⟩
  · intro index rt p hrt hstd
    obtain ⟨std, hreg⟩ := hinv.registered index rt p hrt hstd
    refine ⟨std.report_kind, hreg.map, ?_⟩
    intro kind hkind
    exact (hinv.map_kind hrt hreg hkind hstd).2
  · intro name
    obtain ⟨s', hs', hdropped⟩ := delete_table_spec hinv name
    exact ⟨s', hs', fun index rt p hrt hstd =>
      ⟨hdropped.last index rt p hrt hstd, hdropped.others index rt p hrt hstd⟩⟩

/-- A table whose report was constructed. -/
def selected (comment : Text) : Option Registry :=
  (init.open_table [116] comment).regenerate [116] (fun _ => true) 0

theorem reachable_selected {Allowed : Registry → Event → Prop} {comment : Text}
    (hopen : Allowed init (.open_table [116] comment))
    (hselect : Allowed (init.open_table [116] comment) (.regenerate [116] (fun _ => true) 0))
    (hs : selected comment = some s) : Reachable Allowed s :=
  .step (.regenerate [116] (fun _ => true) 0) (.step (.open_table [116] comment) .init hopen rfl)
    hselect hs

/-- The table of a `report1` report. -/
theorem registry_consistent_report1 :
    ∃ s, selected ⟨ascii "report1", by decide⟩ = some s ∧ s.arrays .base = [0] ∧ s.Consistent := by
  have hsome : (selected ⟨ascii "report1", by decide⟩).isSome := by decide
  obtain ⟨s, hs⟩ := Option.isSome_iff_exists.mp hsome
  have harray : (selected ⟨ascii "report1", by decide⟩).map (fun s => s.arrays .base) =
      some [0] := by decide
  rw [hs] at harray
  refine ⟨s, hs, Option.some.inj harray, (registry_consistent s ?_).1⟩
  apply reachable_selected _ _ hs
  · intro share index _ hindex
    exact absurd hindex (by simp [init])
  · intro share n hopen
    have hshare : ((init.open_table [116] ⟨ascii "report1", by decide⟩).open_tables.lookup
        [116]).map (fun e => e.1.type) = some (.base_report .report1) := by decide
    rw [hopen] at hshare
    have htype : share.type = .base_report .report1 := Option.some.inj hshare
    exact ⟨by rw [htype]; simp, .inr (by rw [htype]; rfl)⟩

/-- The report of a `tagN_report2` table does not know its index, and `DROP` follows the null
    pointer. -/
theorem unnamed_report_breaks_registry :
    ∃ s, Reachable (fun _ _ => True) s ∧ ¬ s.Consistent ∧ s.delete_table [116] = none := by
  have hsome : (selected ⟨ascii "tagN_report2:a", by decide⟩).isSome := by decide
  obtain ⟨s, hs⟩ := Option.isSome_iff_exists.mp hsome
  have hentry : (selected ⟨ascii "tagN_report2:a", by decide⟩).map
      (fun s => (s.reports_to_tables.lookup (ascii "35|a")).map ReportTables.std) =
        some (some (some 0)) := by decide
  have hindex : (selected ⟨ascii "tagN_report2:a", by decide⟩).map
      (fun s => (s.heap.lookup 0).map ReportIdentity.index) = some (some none) := by decide
  have hdrop : (selected ⟨ascii "tagN_report2:a", by decide⟩).map
      (fun s => (s.delete_table [116]).isNone) = some true := by decide
  rw [hs] at hentry hindex hdrop
  refine ⟨s, reachable_selected trivial trivial hs, ?_, Option.isNone_iff_eq_none.mp
    (Option.some.inj hdrop)⟩
  intro hcons
  obtain ⟨rt, hrt, hstd⟩ := Option.map_eq_some_iff.mp (Option.some.inj hentry)
  obtain ⟨std, hreg⟩ := hcons.registered _ rt 0 hrt hstd
  have hnull : (s.heap.lookup 0).map ReportIdentity.index = some none := Option.some.inj hindex
  rw [hreg.live, Option.map_some, hreg.key] at hnull
  cases hnull

end Registry

end PinbaEngine
