import PinbaEngine.Lib.Calls
import PinbaEngine.Lib.Turns
import PinbaEngine.ReportScan
import PinbaEngine.TableRegistry

/-! # The list of active reports

    The table `active_reports` has a row for every SQL table that is attached to a
    constructed report, except for the histogram views. Its fetch function walks
    through `reports_to_tables`, a map of maps, and remembers the last row by the two
    keys of it.

    The first call of a scan starts in a branch of its own; where its first table is a
    histogram view it goes on in the branch of the later calls. A histogram view ends
    the tables of its report, also those behind it in the order of the map.
-/

namespace PinbaEngine

open SavedCursor

/-! ## Section 1: The walk -/

/-- A row, with the report that the other columns are read from. -/
structure ActiveReport where
  id : Bytes
  name : Bytes
  std : Nat
deriving DecidableEq

inductive ActiveAnswer where
  | row (report : ActiveReport)
  | end_of_file
deriving DecidableEq

/-- The loop of the first call, or the label `repeat_with_next_report`. -/
inductive WalkPoint where
  | first_report | repeat_with_next_report
deriving DecidableEq

/-- The variables of `active_reports_fetch_row`. -/
structure ReportWalk where
  point : WalkPoint
  tables : Option ReportTables
  index : Bytes
  cursor : IndexCursor

namespace ReportWalk

section turn
variable (reports_to_tables : PinbaMap ReportTables) (w : ReportWalk)

/-- `tables = pinba_map_next(D->reports_to_tables, index)`. -/
def next_report : ReportWalk :=
  match reports_to_tables.data_next w.index with
  | none => { w with tables := none }
  | some (index, tables) =>
    { w with tables := some tables, index := snprintf_s PINBA_MAX_LINE_LEN index }

/-- A table was found. -/
def show_table (std : Nat) (name : Bytes) (table_type : TableType) :
    ReportWalk ⊕ (ActiveAnswer × IndexCursor) :=
  if table_type = .histogram_view then
    -- do not display histograms
    .inl { w.next_report reports_to_tables with point := .repeat_with_next_report }
  else
    let index_sub := snprintf_s PINBA_MAX_LINE_LEN name
    .inr (.row ⟨w.index, index_sub, std⟩, ⟨w.cursor.position + 1, some w.index, some index_sub⟩)

/-- From a test of `tables && !tables->std` to the next one, or to an answer. -/
def turn : ReportWalk ⊕ (ActiveAnswer × IndexCursor) :=
  match w.tables with
  | none =>
    match w.point with
    | .first_report => .inr (.end_of_file, w.cursor)
    | .repeat_with_next_report => .inr (.end_of_file, { w.cursor with str := none })
  -- ignore empty records
  | some ⟨none, _⟩ => .inl (w.next_report reports_to_tables)
  | some ⟨some std, tables⟩ =>
    match w.point with
    | .first_report =>
      match PinbaMap.data_first tables with
      | none => .inr (.end_of_file, w.cursor)
      | some (name, table_type) => w.show_table reports_to_tables std name table_type
    | .repeat_with_next_report =>
      let found := match w.cursor.subindex with
        | none => PinbaMap.data_first tables
        | some subindex => PinbaMap.data_next tables (snprintf_s PINBA_MAX_LINE_LEN subindex)
      let w := { w with cursor := { w.cursor with subindex := none } }
      match found with
      | none => .inl (w.next_report reports_to_tables)
      | some (name, table_type) => w.show_table reports_to_tables std name table_type

/-- The state at the first test. -/
def start (c : IndexCursor) : ReportWalk :=
  if c.position = 0 ∨ c.str = none then
    match reports_to_tables.data_first with
    | none => ⟨.first_report, none, [], c⟩
    | some (index, tables) => ⟨.first_report, some tables, snprintf_s PINBA_MAX_LINE_LEN index, c⟩
  else
    let index := snprintf_s PINBA_MAX_LINE_LEN (c.str.getD [])
    ⟨.repeat_with_next_report, reports_to_tables.data_get index, index, c⟩

end turn

end ReportWalk

/-- `active_reports_fetch_row`. -/
def active_reports_fetch_row (reports_to_tables : PinbaMap ReportTables) (c : IndexCursor)
    (answer : ActiveAnswer) (c' : IndexCursor) : Prop :=
  Leaves (ReportWalk.turn reports_to_tables) (ReportWalk.start reports_to_tables c) (answer, c')

/-! ## Section 2: What a walk shows -/

/-- A table that is not a histogram view. -/
def ReportTables.shows (rt : ReportTables) (name : Bytes) : Bool :=
  rt.tables.lookup name ≠ some .histogram_view

section shown
variable (reports_to_tables : PinbaMap ReportTables)

/-- The rows of some tables in a row, up to the first histogram view. -/
def rows_from (rt : ReportTables) (std : Nat) (index : Bytes) (names : List Bytes) : List ActiveReport :=
  (names.takeWhile rt.shows).map fun name => ⟨index, name, std⟩

/-- The rows of a report; none before it is constructed. -/
def rows_of (index : Bytes) : List ActiveReport :=
  match reports_to_tables.lookup index with
  | none => []
  | some rt => rt.std.elim [] fun std => rows_from rt std index rt.tables.keys

def rows_below (indexes : List Bytes) : List ActiveReport := indexes.flatMap (rows_of reports_to_tables)

/-- The report has been constructed. -/
def constructed (index : Bytes) : Bool :=
  (reports_to_tables.lookup index).any fun rt => rt.std.isSome

/-- The rows that a scan answers: none at all if the first constructed report has no tables. -/
def scan_rows (indexes : List Bytes) : List ActiveReport :=
  match indexes.find? (constructed reports_to_tables) with
  | none => []
  | some index =>
    if (reports_to_tables.lookup index).any (fun rt => rt.tables.keys = []) then []
    else rows_below reports_to_tables indexes

/-- Report indexes and table names fit in the buffers they are copied to. -/
structure NamesFit : Prop where
  indexes : ∀ index ∈ reports_to_tables.keys, index.length < PINBA_MAX_LINE_LEN
  names : ∀ index rt, reports_to_tables.lookup index = some rt →
    ∀ name ∈ rt.tables.keys, name.length < PINBA_MAX_LINE_LEN

/-- The table `name` is attached to the report `id`, which has been constructed, and is not a
    histogram view. -/
def Active (r : ActiveReport) : Prop :=
  ∃ rt, reports_to_tables.lookup r.id = some rt ∧ rt.std = some r.std ∧
    r.name ∈ rt.tables.keys ∧ rt.shows r.name

/-- Behind a histogram view, in the order of the map, there are only histogram views. -/
def ReportTables.ViewsLast (rt : ReportTables) : Prop :=
  rt.tables.keys.Pairwise fun name name' => rt.shows name = false → rt.shows name' = false

/-- The first constructed report has a table, unless there is no row to show. -/
def FirstFilled : Prop :=
  ∀ index rt, reports_to_tables.keys.find? (constructed reports_to_tables) = some index →
    reports_to_tables.lookup index = some rt → rt.tables.keys = [] → ∀ row, ¬ Active reports_to_tables row

end shown

/-! ## Section 3: Between the calls -/

section walk
variable {reports_to_tables : PinbaMap ReportTables} {w : ReportWalk} {rt : ReportTables} {std : Nat}
  {index name : Bytes} {indexes names : List Bytes} {rows : List ActiveReport} {c : IndexCursor}

/-- The cursor remembers a row, and these rows are ahead of it. -/
def AheadOf (reports_to_tables : PinbaMap ReportTables) (rows : List ActiveReport) (c : IndexCursor) :
    Prop :=
  ∃ index name rt std, c = ⟨c.position, some index, some name⟩ ∧ c.position ≠ 0 ∧
    reports_to_tables.lookup index = some rt ∧ rt.std = some std ∧ name ∈ rt.tables.keys ∧
    rows = rows_from rt std index (after name rt.tables.keys) ++
      rows_below reports_to_tables (after index reports_to_tables.keys)

/-- The walk answers with the first of some rows, and the others are ahead. -/
def WalksTo (reports_to_tables : PinbaMap ReportTables) (rows : List ActiveReport) (w : ReportWalk) :
    Prop :=
  match rows with
  | [] => ∃ c, Leaves (ReportWalk.turn reports_to_tables) w (.end_of_file, c)
  | row :: rows => ∃ c, Leaves (ReportWalk.turn reports_to_tables) w (.row row, c) ∧
      AheadOf reports_to_tables rows c

theorem walksTo_of_inl {w' : ReportWalk} (hturn : w.turn reports_to_tables = .inl w')
    (h : WalksTo reports_to_tables rows w') : WalksTo reports_to_tables rows w := by
  cases rows with
  | nil =>
    obtain ⟨c, hc⟩ := h
    exact ⟨c, (leaves_inl_iff hturn).mpr hc⟩
  | cons row rows =>
    obtain ⟨c, hc, hahead⟩ := h
    exact ⟨c, (leaves_inl_iff hturn).mpr hc, hahead⟩

/-- `tables` and `index` are at the first of some reports. -/
structure AtReport (reports_to_tables : PinbaMap ReportTables) (indexes : List Bytes) (w : ReportWalk) :
    Prop where
  tables : w.tables = indexes.head?.bind reports_to_tables.lookup
  index : ∀ index ∈ indexes.head?, w.index = index

theorem next_report_spec (hfit : NamesFit reports_to_tables) (w : ReportWalk) :
    AtReport reports_to_tables (after w.index reports_to_tables.keys) (w.next_report reports_to_tables) ∧
      (w.next_report reports_to_tables).cursor = w.cursor ∧
      (w.next_report reports_to_tables).point = w.point := by
  unfold ReportWalk.next_report
  cases hrest : after w.index reports_to_tables.keys with
  | nil =>
    rw [PinbaMap.data_next_of_nil hrest]
    exact ⟨⟨rfl, nofun⟩, rfl, rfl⟩
  | cons index indexes =>
    obtain ⟨rt, hrt, hfound⟩ := PinbaMap.data_next_of_cons hrest
    have hmem : index ∈ reports_to_tables.keys := mem_of_mem_after (hrest ▸ List.mem_cons_self)
    rw [hfound]
    refine ⟨⟨hrt.symm, ?_⟩, rfl, rfl⟩
    rintro _ ⟨⟩
    exact snprintf_s_of_lt (hfit.indexes index hmem)

theorem rows_from_cons_of_view (h : rt.shows name = false) :
    rows_from rt std index (name :: names) = [] := by
  rw [rows_from, List.takeWhile_cons_of_neg (by simp [h])]
  rfl

theorem rows_from_cons_of_shows (h : rt.shows name = true) :
    rows_from rt std index (name :: names) = ⟨index, name, std⟩ :: rows_from rt std index names := by
  rw [rows_from, List.takeWhile_cons_of_pos h]
  rfl

/-- The walk from the tables of a report: they are shown up to the first histogram view, then
    the walk goes on with the next report. -/
theorem walksTo_tables (hfit : NamesFit reports_to_tables)
    (hrt : reports_to_tables.lookup index = some rt) (hstd : rt.std = some std)
    (hsuffix : names <:+ rt.tables.keys) {w' : ReportWalk} (hindex : w'.index = index)
    (hpoint : names = [] → w'.point = .repeat_with_next_report) (hsub : w'.cursor.subindex = none)
    (hturn : w.turn reports_to_tables = match names.head?.bind (PinbaMap.entry rt.tables) with
      | none => .inl (w'.next_report reports_to_tables)
      | some (name, table_type) => w'.show_table reports_to_tables std name table_type)
    (hnext : ∀ w'', AtReport reports_to_tables (after index reports_to_tables.keys) w'' →
      w''.point = .repeat_with_next_report → w''.cursor.subindex = none →
      WalksTo reports_to_tables (rows_below reports_to_tables (after index reports_to_tables.keys)) w'') :
    WalksTo reports_to_tables (rows_from rt std index names ++
      rows_below reports_to_tables (after index reports_to_tables.keys)) w := by
  obtain ⟨hat, hcursor, hsame⟩ := next_report_spec hfit w'
  rw [hindex] at hat
  cases names with
  | nil =>
    refine walksTo_of_inl hturn (hnext _ hat (hsame.trans (hpoint rfl)) ?_)
    rw [hcursor, hsub]
  | cons name names =>
    have hmem : name ∈ rt.tables.keys := hsuffix.subset List.mem_cons_self
    obtain ⟨table_type, htype, hentry⟩ := PinbaMap.entry_of_mem hmem
    rw [List.head?_cons, Option.bind_some, hentry] at hturn
    simp only [ReportWalk.show_table] at hturn
    by_cases hview : table_type = .histogram_view
    · -- the rest of the report is passed over
      have hshows : rt.shows name = false := by simp [ReportTables.shows, htype, hview]
      rw [rows_from_cons_of_view hshows]
      rw [if_pos hview] at hturn
      refine walksTo_of_inl hturn (hnext _ ⟨hat.tables, hat.index⟩ rfl ?_)
      rw [hcursor, hsub]
    · have hshows : rt.shows name = true := by simp [ReportTables.shows, htype, hview]
      rw [rows_from_cons_of_shows hshows]
      rw [if_neg hview, hindex, snprintf_s_of_lt (hfit.names index rt hrt name hmem)] at hturn
      refine ⟨_, leaves_of_inr hturn, index, name, rt, std, rfl, Nat.succ_ne_zero _, hrt, hstd, hmem, ?_⟩
      rw [after_of_suffix rt.tables.keys_nodup hsuffix]
      rfl

/-- The walk from the label on. -/
theorem walksTo_label (hfit : NamesFit reports_to_tables) (hsuffix : indexes <:+ reports_to_tables.keys)
    (hat : AtReport reports_to_tables indexes w) (hpoint : w.point = .repeat_with_next_report)
    (hsub : w.cursor.subindex = none) :
    WalksTo reports_to_tables (rows_below reports_to_tables indexes) w := by
  -- induction on the reports that are ahead
  induction indexes generalizing w with
  | nil =>
    have hturn : w.turn reports_to_tables = .inr (.end_of_file, { w.cursor with str := none }) := by
      rw [ReportWalk.turn, hat.tables, hpoint]
      rfl
    exact ⟨_, leaves_of_inr hturn⟩
  | cons index indexes ih =>
    have hmem : index ∈ reports_to_tables.keys := hsuffix.subset List.mem_cons_self
    obtain ⟨rt, hrt⟩ := Option.isSome_iff_exists.mp (AList.lookup_isSome.mpr hmem)
    have hindex : w.index = index := hat.index index rfl
    have hafter : after index reports_to_tables.keys = indexes :=
      after_of_suffix reports_to_tables.keys_nodup hsuffix
    have hrest : indexes <:+ reports_to_tables.keys := (List.suffix_cons index indexes).trans hsuffix
    have htables : w.tables = some rt := by
      rw [hat.tables, List.head?_cons, Option.bind_some, hrt]
    have hbelow : rows_below reports_to_tables (index :: indexes) =
        rows_of reports_to_tables index ++ rows_below reports_to_tables indexes := rfl
    rw [hbelow, rows_of, hrt]
    obtain ⟨std, tables⟩ := rt
    cases std with
    | none =>
      have hturn : w.turn reports_to_tables = .inl (w.next_report reports_to_tables) := by
        rw [ReportWalk.turn, htables]
      obtain ⟨hat', hcursor, hsame⟩ := next_report_spec hfit w
      rw [hindex, hafter] at hat'
      exact walksTo_of_inl hturn (ih hrest hat' (hsame.trans hpoint) (by rw [hcursor, hsub]))
    | some std =>
      rw [← hafter]
      have hturn : w.turn reports_to_tables = match tables.keys.head?.bind (PinbaMap.entry tables) with
          | none => .inl (ReportWalk.next_report reports_to_tables
              { w with cursor := { w.cursor with subindex := none } })
          | some (name, table_type) => ReportWalk.show_table reports_to_tables
              { w with cursor := { w.cursor with subindex := none } } std name table_type := by
        rw [ReportWalk.turn, htables]
        simp only [hpoint, hsub]
        rfl
      refine walksTo_tables hfit hrt rfl (List.suffix_refl _) ?_ ?_ ?_ hturn ?_
      · exact hindex
      · exact fun _ => hpoint
      · rfl
      · rw [hafter]
        exact fun w'' hat'' hpoint'' hsub'' => ih hrest hat'' hpoint'' hsub''

/-- A later call of a scan. -/
theorem fetch_ahead (hfit : NamesFit reports_to_tables) (hahead : AheadOf reports_to_tables rows c) :
    WalksTo reports_to_tables rows (ReportWalk.start reports_to_tables c) := by
  obtain ⟨index, name, ⟨std, tables⟩, std', hc, hpos, hrt, rfl, hname, rfl⟩ := hahead
  have hindex : index ∈ reports_to_tables.keys :=
    AList.lookup_isSome.mp (Option.isSome_iff_exists.mpr ⟨_, hrt⟩)
  have hcopy := snprintf_s_of_lt (hfit.indexes index hindex)
  have hcopy_sub := snprintf_s_of_lt (hfit.names index _ hrt name hname)
  have hstart : ReportWalk.start reports_to_tables c =
      ⟨.repeat_with_next_report, some ⟨some std', tables⟩, index, c⟩ := by
    rw [ReportWalk.start, if_neg (by rw [hc]; simp [hpos]), hc]
    simp only [Option.getD_some, PinbaMap.data_get]
    rw [hcopy, hrt]
  rw [hstart]
  have hturn : ReportWalk.turn reports_to_tables
      ⟨.repeat_with_next_report, some ⟨some std', tables⟩, index, c⟩ =
      match (after name tables.keys).head?.bind (PinbaMap.entry tables) with
      | none => .inl (ReportWalk.next_report reports_to_tables
          ⟨.repeat_with_next_report, some ⟨some std', tables⟩, index, { c with subindex := none }⟩)
      | some (name, table_type) => ReportWalk.show_table reports_to_tables
          ⟨.repeat_with_next_report, some ⟨some std', tables⟩, index, { c with subindex := none }⟩
          std' name table_type := by
    rw [hc, ReportWalk.turn]
    simp only [hcopy_sub]
    rfl
  refine walksTo_tables hfit hrt rfl (after_suffix _ _) ?_ ?_ ?_ hturn ?_
  · rfl
  · exact fun _ => rfl
  · rfl
  · exact fun w'' hat'' hpoint'' hsub'' => walksTo_label hfit (after_suffix _ _) hat'' hpoint'' hsub''

/-- The first call of a scan. -/
theorem walksTo_first (hfit : NamesFit reports_to_tables) (hsuffix : indexes <:+ reports_to_tables.keys)
    (hat : AtReport reports_to_tables indexes w) (hpoint : w.point = .first_report)
    (hsub : w.cursor.subindex = none) :
    WalksTo reports_to_tables (scan_rows reports_to_tables indexes) w := by
  -- induction on the reports that are ahead
  induction indexes generalizing w with
  | nil =>
    have hturn : w.turn reports_to_tables = .inr (.end_of_file, w.cursor) := by
      rw [ReportWalk.turn, hat.tables, hpoint]
      rfl
    exact ⟨_, leaves_of_inr hturn⟩
  | cons index indexes ih =>
    have hmem : index ∈ reports_to_tables.keys := hsuffix.subset List.mem_cons_self
    obtain ⟨⟨std, tables⟩, hrt⟩ := Option.isSome_iff_exists.mp (AList.lookup_isSome.mpr hmem)
    have hindex : w.index = index := hat.index index rfl
    have hafter : after index reports_to_tables.keys = indexes :=
      after_of_suffix reports_to_tables.keys_nodup hsuffix
    have hrest : indexes <:+ reports_to_tables.keys := (List.suffix_cons index indexes).trans hsuffix
    have htables : w.tables = some ⟨std, tables⟩ := by
      rw [hat.tables, List.head?_cons, Option.bind_some, hrt]
    cases std with
    | none =>
      have hturn : w.turn reports_to_tables = .inl (w.next_report reports_to_tables) := by
        rw [ReportWalk.turn, htables]
      obtain ⟨hat', hcursor, hsame⟩ := next_report_spec hfit w
      rw [hindex, hafter] at hat'
      have hskip : scan_rows reports_to_tables (index :: indexes) = scan_rows reports_to_tables indexes := by
        have hunset : constructed reports_to_tables index = false := by simp [constructed, hrt]
        have hnone : rows_of reports_to_tables index = [] := by rw [rows_of, hrt]; rfl
        simp only [scan_rows, List.find?_cons, hunset, rows_below, List.flatMap_cons, hnone,
          List.nil_append]
      rw [hskip]
      exact walksTo_of_inl hturn (ih hrest hat' (hsame.trans hpoint) (by rw [hcursor, hsub]))
    | some std =>
      have hset : constructed reports_to_tables index = true := by simp [constructed, hrt]
      rw [scan_rows, List.find?_cons, hset]
      simp only [hrt, Option.any_some]
      cases hkeys : tables.keys with
      | nil =>
        -- a report without tables ends the scan
        have hturn : w.turn reports_to_tables = .inr (.end_of_file, w.cursor) := by
          rw [ReportWalk.turn, htables]
          simp only [hpoint, PinbaMap.data_first_of_nil hkeys]
        exact ⟨_, leaves_of_inr hturn⟩
      | cons name names =>
        have hbelow : rows_below reports_to_tables (index :: indexes) =
            rows_from ⟨some std, tables⟩ std index tables.keys ++
              rows_below reports_to_tables (after index reports_to_tables.keys) := by
          rw [hafter]
          simp only [rows_below, List.flatMap_cons, rows_of, hrt, Option.elim_some]
        rw [if_neg (by simp), hbelow]
        have hturn : w.turn reports_to_tables = match tables.keys.head?.bind (PinbaMap.entry tables) with
            | none => .inl (w.next_report reports_to_tables)
            | some (name, table_type) => w.show_table reports_to_tables std name table_type := by
          obtain ⟨table_type, -, hentry⟩ := PinbaMap.data_first_of_cons hkeys
          have hentry' : tables.keys.head?.bind (PinbaMap.entry tables) = some (name, table_type) := hentry
          rw [ReportWalk.turn, htables, hentry']
          simp only [hpoint, hentry]
        refine walksTo_tables hfit hrt rfl (List.suffix_refl _) hindex ?_ hsub hturn ?_
        · intro hnil
          rw [show tables.keys = [] from hnil] at hkeys
          cases hkeys
        · rw [hafter]
          exact fun w'' hat'' hpoint'' hsub'' => walksTo_label hfit hrest hat'' hpoint'' hsub''

/-- A walk and the calls after it answer its rows, and then the end of file. -/
theorem calls_of_walksTo (hfit : NamesFit reports_to_tables)
    (h : WalksTo reports_to_tables rows (ReportWalk.start reports_to_tables c)) :
    Calls (active_reports_fetch_row reports_to_tables) (active_reports_fetch_row reports_to_tables) c
      (rows.map .row ++ [.end_of_file]) := by
  induction rows generalizing c with
  | nil =>
    obtain ⟨c', hc'⟩ := h
    exact .cons hc' .nil
  | cons row rows ih =>
    obtain ⟨c', hc', hahead⟩ := h
    exact .cons hc' (ih (fetch_ahead hfit hahead))

theorem deterministic_fetch : Deterministic (active_reports_fetch_row reports_to_tables) := by
  intro c a t a' t' h h'
  exact Prod.mk.inj (leaves_unique h h')

end walk

/-! ## Section 4: Which scans are complete -/

/-- The answers to `rnd_next` after `rnd_init`, up to the end of file. -/
def Scans (reports_to_tables : PinbaMap ReportTables) (rows : List ActiveReport) : Prop :=
  ReadsUntil (· = .end_of_file) (active_reports_fetch_row reports_to_tables)
    (active_reports_fetch_row reports_to_tables) .rnd_init (rows.map .row)

section scan
variable {reports_to_tables : PinbaMap ReportTables} {rows : List ActiveReport} {row : ActiveReport}
  {rt : ReportTables} {index : Bytes} {indexes : List Bytes}

theorem scans_scan_rows (hfit : NamesFit reports_to_tables) :
    Scans reports_to_tables (scan_rows reports_to_tables reports_to_tables.keys) := by
  refine ⟨.end_of_file, rfl, ?_, calls_of_walksTo hfit ?_⟩
  · intro answer hanswer
    obtain ⟨row, -, rfl⟩ := List.mem_map.mp hanswer
    exact ActiveAnswer.noConfusion
  · have hstart : ReportWalk.start reports_to_tables .rnd_init =
        match reports_to_tables.data_first with
        | none => ⟨.first_report, none, [], .rnd_init⟩
        | some (index, tables) =>
          ⟨.first_report, some tables, snprintf_s PINBA_MAX_LINE_LEN index, .rnd_init⟩ := by
      rw [ReportWalk.start, if_pos (.inl rfl)]
    rw [hstart]
    cases hkeys : reports_to_tables.keys with
    | nil =>
      rw [PinbaMap.data_first_of_nil hkeys]
      exact walksTo_first hfit (hkeys ▸ List.suffix_refl _) ⟨rfl, nofun⟩ rfl rfl
    | cons index indexes =>
      obtain ⟨rt, hrt, hfound⟩ := PinbaMap.data_first_of_cons hkeys
      rw [hfound]
      refine walksTo_first hfit (hkeys ▸ List.suffix_refl _) ⟨hrt.symm, ?_⟩ rfl rfl
      rintro _ ⟨⟩
      exact snprintf_s_of_lt (hfit.indexes index (hkeys ▸ List.mem_cons_self))

theorem scans_unique {rows' : List ActiveReport} (h : Scans reports_to_tables rows)
    (h' : Scans reports_to_tables rows') : rows = rows' := by
  have hinj : Function.Injective ActiveAnswer.row := fun _ _ heq => ActiveAnswer.row.inj heq
  exact List.map_injective_iff.mpr hinj (readsUntil_unique deterministic_fetch deterministic_fetch h h')

theorem mem_rows_below : row ∈ rows_below reports_to_tables indexes ↔ row.id ∈ indexes ∧
    ∃ rt, reports_to_tables.lookup row.id = some rt ∧ rt.std = some row.std ∧
      row.name ∈ rt.tables.keys.takeWhile rt.shows := by
  obtain ⟨id, name, std⟩ := row
  simp only [rows_below, List.mem_flatMap]
  constructor
  · rintro ⟨index, hindex, hrow⟩
    rw [rows_of] at hrow
    cases hrt : reports_to_tables.lookup index with
    | none =>
      rw [hrt] at hrow
      cases hrow
    | some rt =>
      simp only [hrt] at hrow
      cases hstd : rt.std with
      | none =>
        rw [hstd] at hrow
        cases hrow
      | some std' =>
        rw [hstd, Option.elim_some] at hrow
        obtain ⟨name', hname, heq⟩ := List.mem_map.mp hrow
        cases heq
        exact ⟨hindex, rt, hrt, hstd, hname⟩
  · rintro ⟨hid, rt, hrt, hstd, hname⟩
    refine ⟨id, hid, ?_⟩
    simp only [rows_of, hrt, hstd, Option.elim_some]
    exact List.mem_map.mpr ⟨name, hname, rfl⟩

theorem nodup_rows_below (h : indexes.Nodup) : (rows_below reports_to_tables indexes).Nodup := by
  refine List.nodup_flatMap.mpr ⟨fun index _ => ?_, h.imp ?_⟩
  · rw [rows_of]
    cases hrt : reports_to_tables.lookup index with
    | none => exact .nil
    | some rt =>
      cases hstd : rt.std with
      | none => simp only [hstd, Option.elim_none, List.nodup_nil]
      | some std =>
        simp only [hstd, Option.elim_some]
        refine List.Nodup.map (fun name name' heq => (ActiveReport.mk.inj heq).2.1) ?_
        exact rt.tables.keys_nodup.sublist (List.takeWhile_sublist _)
  · intro index index' hne row hrow hrow'
    have hid : ∀ {i}, row ∈ rows_of reports_to_tables i → row.id = i := by
      intro i hi
      have hmem : row ∈ rows_below reports_to_tables [i] := by
        rw [rows_below, List.flatMap_singleton]
        exact hi
      exact List.mem_singleton.mp (mem_rows_below.mp hmem).1
    exact hne ((hid hrow).symm.trans (hid hrow'))

theorem active_of_mem (h : row ∈ rows_below reports_to_tables indexes) : Active reports_to_tables row := by
  obtain ⟨-, rt, hrt, hstd, hname⟩ := mem_rows_below.mp h
  exact ⟨rt, hrt, hstd, (List.takeWhile_sublist _).subset hname, List.mem_takeWhile_imp hname⟩

/-- A scan answers the rows of all reports, or none if the first report has no tables. -/
theorem scan_rows_cases (indexes : List Bytes) :
    scan_rows reports_to_tables indexes = rows_below reports_to_tables indexes ∨
      scan_rows reports_to_tables indexes = [] ∧
        ∃ index rt, indexes.find? (constructed reports_to_tables) = some index ∧
          reports_to_tables.lookup index = some rt ∧ rt.tables.keys = [] := by
  unfold scan_rows
  cases hfirst : indexes.find? (constructed reports_to_tables) with
  | none =>
    refine .inl (List.eq_nil_iff_forall_not_mem.mpr fun row hrow => ?_).symm
    obtain ⟨hid, rt, hrt, hstd, -⟩ := mem_rows_below.mp hrow
    have hunset := List.find?_eq_none.mp hfirst row.id hid
    simp [constructed, hrt, hstd] at hunset
  | some index =>
    simp only
    split
    · next hempty =>
      rw [Option.any_eq_true] at hempty
      obtain ⟨rt, hrt, hkeys⟩ := hempty
      exact .inr ⟨rfl, index, rt, rfl, hrt, of_decide_eq_true hkeys⟩
    · exact .inl rfl

/-- Everything good is at the front of a list exactly if nothing good is behind something else. -/
theorem takeWhile_covers_iff {α : Type} {good : α → Bool} {xs : List α} (hnd : xs.Nodup) :
    (∀ x ∈ xs, good x = true → x ∈ xs.takeWhile good) ↔
      xs.Pairwise fun x y => good x = false → good y = false := by
  induction xs with
  | nil => simp
  | cons x xs ih =>
    obtain ⟨hx, hnd⟩ := List.nodup_cons.mp hnd
    rw [List.pairwise_cons, ← ih hnd]
    cases hgood : good x with
    | true =>
      rw [List.takeWhile_cons_of_pos hgood]
      constructor
      · intro h
        refine ⟨nofun, fun y hy hgood_y => ?_⟩
        rcases List.mem_cons.mp (h y (List.mem_cons_of_mem _ hy) hgood_y) with rfl | hmem
        · exact absurd hy hx
        · exact hmem
      · rintro ⟨-, h⟩ y hy hgood_y
        rcases List.mem_cons.mp hy with rfl | hy
        · exact List.mem_cons_self
        · exact List.mem_cons_of_mem _ (h y hy hgood_y)
    | false =>
      rw [List.takeWhile_cons_of_neg (by simp [hgood])]
      constructor
      · intro h
        have hall : ∀ y ∈ xs, good y = false := by
          intro y hy
          by_contra hy'
          rw [Bool.not_eq_false] at hy'
          exact List.not_mem_nil (h y (List.mem_cons_of_mem _ hy) hy')
        refine ⟨fun y hy _ => hall y hy, fun y hy hgood_y => ?_⟩
        rw [hall y hy] at hgood_y
        cases hgood_y
      · rintro ⟨h, -⟩ y hy hgood_y
        rcases List.mem_cons.mp hy with rfl | hy
        · rw [hgood] at hgood_y
          cases hgood_y
        · rw [h y hy rfl] at hgood_y
          cases hgood_y

end scan

/-- A scan of an unchanged registry answers every table of every constructed report once, and
    nothing else before the end of file, exactly if in these reports the histogram views come
    last and the first of them has a table. In any case it answers only such tables, each once. -/
theorem active_reports_scan_iff (reports_to_tables : PinbaMap ReportTables)
    (hfit : NamesFit reports_to_tables) :
    ((∃ rows, Scans reports_to_tables rows ∧ rows.Nodup ∧
      ∀ row, row ∈ rows ↔ Active reports_to_tables row) ↔
        (∀ index rt, reports_to_tables.lookup index = some rt → rt.std ≠ none → rt.ViewsLast) ∧
          FirstFilled reports_to_tables) ∧
    ∃ rows, Scans reports_to_tables rows ∧ rows.Nodup ∧
      ∀ row ∈ rows, Active reports_to_tables row := by
  have hscan := scans_scan_rows hfit
  -- what the scan shows is a part of all rows
  have hsub : ∀ row ∈ scan_rows reports_to_tables reports_to_tables.keys,
      row ∈ rows_below reports_to_tables reports_to_tables.keys := by
    intro row hrow
    rcases scan_rows_cases reports_to_tables.keys with hall | ⟨hnone, -⟩
    · exact hall ▸ hrow
    · rw [hnone] at hrow
      cases hrow
  have hnodup : (scan_rows reports_to_tables reports_to_tables.keys).Nodup := by
    rcases @scan_rows_cases reports_to_tables reports_to_tables.keys with hall | ⟨hnone, -⟩
    · rw [hall]
      exact nodup_rows_below reports_to_tables.keys_nodup
    · rw [hnone]
      exact .nil
  refine ⟨⟨?_, ?_⟩, _, hscan, hnodup, fun row hrow => active_of_mem (hsub row hrow)⟩
  -- there is only one scan
  · rintro ⟨rows, hrows, -, hmem⟩
    obtain rfl := scans_unique hrows hscan
    constructor
    · intro index rt hrt hstd
      obtain ⟨std, hstd⟩ := Option.ne_none_iff_exists'.mp hstd
      refine (takeWhile_covers_iff rt.tables.keys_nodup).mp fun name hname hshows => ?_
      have hrow := hsub _ ((hmem ⟨index, name, std⟩).mpr ⟨rt, hrt, hstd, hname, hshows⟩)
      obtain ⟨-, rt', hrt', -, hname'⟩ := mem_rows_below.mp hrow
      obtain rfl := Option.some.inj (hrt.symm.trans hrt')
      exact hname'
    · intro index rt hfirst hrt hkeys row hactive
      have hrow := (hmem row).mpr hactive
      rw [scan_rows, hfirst] at hrow
      simp [hrt, hkeys] at hrow
  · rintro ⟨hlast, hfilled⟩
    refine ⟨_, hscan, hnodup, fun row => ⟨fun hrow => active_of_mem (hsub row hrow), fun hactive => ?_⟩⟩
    rcases scan_rows_cases reports_to_tables.keys with hall | ⟨-, index, rt, hfirst, hrt, hkeys⟩
    · rw [hall, mem_rows_below]
      obtain ⟨rt, hrt, hstd, hname, hshows⟩ := hactive
      refine ⟨AList.lookup_isSome.mp (Option.isSome_iff_exists.mpr ⟨rt, hrt⟩), rt, hrt, hstd, ?_⟩
      have hviews := hlast row.id rt hrt (by rw [hstd]; exact Option.some_ne_none _)
      exact (takeWhile_covers_iff rt.tables.keys_nodup).mpr hviews row.name hname hshows
    · exact absurd hactive (hfilled index rt hfirst hrt hkeys row)

/-- A report table with a histogram view behind it. -/
theorem active_reports_scan_view_last :
    let tables : AList fun _ : Bytes => TableType :=
      ((∅ : AList fun _ : Bytes => TableType).insert (ascii "view") .histogram_view).insert
        (ascii "table") (.base_report .report1)
    let reports_to_tables : PinbaMap ReportTables :=
      (∅ : PinbaMap ReportTables).insert (ascii "9") ⟨some 0, tables⟩
    ∃ rows, Scans reports_to_tables rows ∧ rows.Nodup ∧
      ∀ row, row ∈ rows ↔ Active reports_to_tables row := by
  intro tables reports_to_tables
  have hentry : ∀ index rt, reports_to_tables.lookup index = some rt →
      index = ascii "9" ∧ rt = ⟨some 0, tables⟩ := by
    intro index rt hrt
    by_cases hindex : index = ascii "9"
    · subst hindex
      rw [AList.lookup_insert] at hrt
      exact ⟨rfl, (Option.some.inj hrt).symm⟩
    · rw [AList.lookup_insert_ne hindex] at hrt
      cases hrt
  have hfit : NamesFit reports_to_tables := by
    refine ⟨by decide, fun index rt hrt => ?_⟩
    obtain ⟨-, rfl⟩ := hentry index rt hrt
    decide
  apply (active_reports_scan_iff reports_to_tables hfit).1.mpr
  constructor
  · intro index rt hrt _
    obtain ⟨-, rfl⟩ := hentry index rt hrt
    unfold ReportTables.ViewsLast
    decide
  · intro index rt _ hrt hkeys
    obtain ⟨-, rfl⟩ := hentry index rt hrt
    exact absurd hkeys (by decide)

/-- The same table with the view in front of it: the first call answers the end of file. -/
theorem view_hides_report :
    let tables : AList fun _ : Bytes => TableType :=
      ((∅ : AList fun _ : Bytes => TableType).insert (ascii "table") (.base_report .report1)).insert
        (ascii "view") .histogram_view
    let reports_to_tables : PinbaMap ReportTables :=
      (∅ : PinbaMap ReportTables).insert (ascii "9") ⟨some 0, tables⟩
    Scans reports_to_tables [] ∧ Active reports_to_tables ⟨ascii "9", ascii "table", 0⟩ ∧
      ¬ ∃ rows, Scans reports_to_tables rows ∧ rows.Nodup ∧
        ∀ row, row ∈ rows ↔ Active reports_to_tables row := by
  intro tables reports_to_tables
  have hfirst : active_reports_fetch_row reports_to_tables .rnd_init .end_of_file .rnd_init := ⟨2, rfl⟩
  have hscan : Scans reports_to_tables [] := ⟨.end_of_file, rfl, nofun, .cons hfirst .nil⟩
  have hactive : Active reports_to_tables ⟨ascii "9", ascii "table", 0⟩ :=
    ⟨⟨some 0, tables⟩, AList.lookup_insert _, rfl, by decide, by decide⟩
  refine ⟨hscan, hactive, ?_⟩
  rintro ⟨rows, hrows, -, hmem⟩
  obtain rfl := scans_unique hrows hscan
  exact List.not_mem_nil ((hmem _).mpr hactive)

/-! ## Section 5: The registry of a run -/

namespace NamesFit

variable {m : PinbaMap ReportTables} {rt : ReportTables} {index : Bytes}

theorem insert (h : NamesFit m) (hindex : index.length < PINBA_MAX_LINE_LEN)
    (hnames : ∀ name ∈ rt.tables.keys, name.length < PINBA_MAX_LINE_LEN) :
    NamesFit (AList.insert index rt m) := by
  constructor
  · intro index' hmem
    rcases (AList.mem_insert _).mp (AList.mem_keys.mpr hmem) with rfl | hmem
    · exact hindex
    · exact h.indexes index' (AList.mem_keys.mp hmem)
  · intro index' rt' hrt'
    rw [KeyedStore.lookup_insert_if] at hrt'
    split at hrt'
    · obtain rfl := Option.some.inj hrt'
      exact hnames
    · exact h.names index' rt' hrt'

theorem erase (h : NamesFit m) (index : Bytes) : NamesFit (AList.erase index m) := by
  constructor
  · intro index' hmem
    exact h.indexes index' (AList.mem_keys.mp (AList.mem_erase.mp (AList.mem_keys.mpr hmem)).2)
  · intro index' rt' hrt'
    rw [KeyedStore.lookup_erase_if] at hrt'
    split at hrt'
    · cases hrt'
    · exact h.names index' rt' hrt'

/-- An entry that is there gets other tables. -/
theorem retable (h : NamesFit m) (hrt : m.lookup index = some rt) {rt' : ReportTables}
    (hnames : ∀ name ∈ rt'.tables.keys, name ∈ rt.tables.keys ∨ name.length < PINBA_MAX_LINE_LEN) :
    NamesFit (AList.insert index rt' m) := by
  refine h.insert (h.indexes index ?_) fun name hname => ?_
  · exact AList.lookup_isSome.mp (Option.isSome_iff_exists.mpr ⟨rt, hrt⟩)
  · rcases hnames name hname with hold | hshort
    · exact h.names index rt hrt name hold
    · exact hshort

end NamesFit

/-- The index of a share is in a buffer. -/
theorem length_index {comment : Text} {share : TableShare} (h : get_share comment = some share) :
    share.index.length < PINBA_MAX_LINE_LEN := by
  have htake : ∀ text : Bytes, (text.take (PINBA_MAX_LINE_LEN - 1)).length < PINBA_MAX_LINE_LEN := by
    intro text
    exact lt_of_le_of_lt (List.length_take_le _ _) (by decide)
  unfold get_share at h
  simp only at h
  split at h
  · cases h
  · obtain ⟨parsed, -, rfl⟩ := Option.map_eq_some_iff.mp h
    simp only [TableShare.opened]
    split
    · exact htake _
    · exact htake _

namespace Registry

variable {s s' : Registry} {name : Bytes} {share : TableShare}

/-- The server names tables with at most as many characters as a buffer has. -/
def Named : Event → Prop
  | .open_table name _ => name.length < PINBA_MAX_LINE_LEN
  | .rename_table _ dst => dst.length < PINBA_MAX_LINE_LEN
  | _ => True

theorem names_fit_attach (h : NamesFit s.reports_to_tables) (hname : name.length < PINBA_MAX_LINE_LEN)
    (hindex : share.index.length < PINBA_MAX_LINE_LEN) :
    NamesFit (s.attach name share).reports_to_tables := by
  have hrtt : ∀ s : Registry, NamesFit s.reports_to_tables → NamesFit (
      if s.tables_to_reports.lookup name ≠ none then s
      else { s with tables_to_reports := s.tables_to_reports.insert name share.index }).reports_to_tables := by
    intro s hs
    split <;> exact hs
  unfold attach
  apply hrtt
  split
  · refine h.insert hindex fun name' hname' => ?_
    rcases (AList.mem_insert _).mp (AList.mem_keys.mpr hname') with rfl | hmem
    · exact hname
    · exact absurd hmem (AList.notMem_empty _)
  · next rt hrt =>
    split
    · exact h
    · refine h.retable hrt fun name' hname' => ?_
      rcases (AList.mem_insert _).mp (AList.mem_keys.mpr hname') with rfl | hmem
      · exact .inr hname
      · exact .inl (AList.mem_keys.mp hmem)

theorem names_fit_open_table (h : NamesFit s.reports_to_tables) (hshares : FromComments s.open_tables)
    (hname : name.length < PINBA_MAX_LINE_LEN) (comment : Text) :
    NamesFit (s.open_table name comment).reports_to_tables := by
  unfold open_table
  split
  · next share n hopen =>
    obtain ⟨comment', hshare⟩ := hshares name share n hopen
    exact names_fit_attach h hname (length_index hshare)
  · split
    · exact h
    · next share hshare => exact names_fit_attach h hname (length_index hshare)

theorem names_fit_rename_table {src dst : Bytes} (h : NamesFit s.reports_to_tables)
    (hdst : dst.length < PINBA_MAX_LINE_LEN) :
    NamesFit (s.rename_table src dst).reports_to_tables := by
  unfold rename_table
  split
  · exact h
  · split
    · exact h
    · simp only
      split
      · exact h
      · next rt hrt =>
        refine h.retable hrt fun name hname => ?_
        rcases (AList.mem_insert _).mp (AList.mem_keys.mpr hname) with rfl | hmem
        · exact .inr hdst
        · exact .inl (AList.mem_keys.mp (AList.mem_erase.mp hmem).2)

theorem names_fit_detach {index : Bytes} (h : NamesFit s.reports_to_tables)
    (hs' : s.detach name index = some s') : NamesFit s'.reports_to_tables := by
  unfold detach at hs'
  split at hs'
  · cases hs'
    exact h
  · next rt hrt =>
    have hkept : NamesFit (s.reports_to_tables.insert index { rt with tables := rt.tables.erase name }) :=
      h.retable hrt fun name' hname' =>
        .inl (AList.mem_keys.mp (AList.mem_erase.mp (AList.mem_keys.mpr hname')).2)
    simp only at hs'
    split at hs'
    · cases hs'
      simp only
      split
      · exact h.erase index
      · exact hkept
    · split at hs'
      · cases hs'
      · split at hs'
        · unfold destroy at hs'
          split at hs'
          · cases hs'
          · cases hs'
            exact h.erase index
        · cases hs'
          exact hkept

theorem names_fit_register (h : NamesFit s.reports_to_tables) (kind : ReportKind) (share : TableShare)
    (p : Nat) : NamesFit (s.register kind share p).reports_to_tables := by
  unfold register
  simp only
  split
  · next s' hs' =>
    unfold pinba_update_report_tables at hs'
    split at hs'
    · cases hs'
    · next rt hrt =>
      split at hs'
      · cases hs'
        exact h
      · cases hs'
        exact h.retable hrt fun name hname => .inl hname
  · split <;> exact h

theorem names_fit_step {e : Event} (h : NamesFit s.reports_to_tables)
    (hshares : FromComments s.open_tables) (hnamed : Named e) (hs' : s.step e = some s') :
    NamesFit s'.reports_to_tables := by
  cases e with
  | open_table name comment =>
    obtain rfl := Option.some.inj hs'
    exact names_fit_open_table h hshares hnamed comment
  | close name =>
    obtain rfl := Option.some.inj hs'
    unfold close
    split
    · exact h
    · split <;> exact h
  | rename_table src dst =>
    obtain rfl := Option.some.inj hs'
    exact names_fit_rename_table h hnamed
  | delete_table name =>
    rw [step, delete_table] at hs'
    split at hs'
    · cases hs'
      exact h
    · refine names_fit_detach ?_ hs'
      exact h
  | regenerate name known p =>
    rw [step, regenerate] at hs'
    split at hs'
    · cases hs'
    · split at hs'
      · cases hs'
        exact h
      · split at hs'
        · cases hs'
          exact h
        · split at hs'
          · cases hs'
          · cases hs'
            exact h
          · split at hs'
            · cases hs'
            · cases hs'
              exact names_fit_register h _ _ _

/-- In a run of sound calls the names fit in the buffers, and only the order of the tables
    decides whether a scan is complete. -/
theorem scans_of_run (h : Reachable (fun s e => s.Sound e ∧ Named e) s) :
    NamesFit s.reports_to_tables ∧ FirstFilled s.reports_to_tables := by
  have hrun : s.Inv ∧ NamesFit s.reports_to_tables := by
    induction h with
    | init => exact ⟨inv_init, nofun, nofun⟩
    | step e _ hallowed hs' ih =>
      exact ⟨inv_step ih.1 hallowed.1 hs', names_fit_step ih.2 ih.1.shares hallowed.2 hs'⟩
  refine ⟨hrun.2, ?_⟩
  intro index rt _ hrt hkeys
  exact absurd hkeys (hrun.1.used index rt hrt)

end Registry

end PinbaEngine
