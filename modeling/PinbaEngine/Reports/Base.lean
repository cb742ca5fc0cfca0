import PinbaEngine.Keys
import PinbaEngine.Reports.Family

/-! # Base reports

    `report_info` and `report1` to `report18`, from `pinba_update_report.h`.
    The eighteen indexed kinds are generated from one template there and differ
    in the key only; `report_info` has no rows and keeps its count and its
    histogram in the report header.

    Every row counts requests. The report totals are updated before the row is
    looked up, in both directions.
-/

namespace PinbaEngine

/-! ## Section 1: Reports -/

/-- The base report kinds. -/
inductive BaseKind where
  | report_info
  | report1 | report2 | report3 | report4 | report5 | report6 | report7 | report8 | report9
  | report10 | report11 | report12 | report13 | report14 | report15 | report16 | report17
  | report18
deriving DecidableEq

/-- A row of a base or request tag report; `members` is `req_count`. -/
abbrev RequestRow := CountRow RowSums

/-- `pinba_report`. -/
structure BaseReport where
  kind : BaseKind
  std : StdReport
  /-- `std.histogram_data`, used by `report_info`. -/
  histogram_data : Histogram
  /-- `results` and `std.results_cnt`. -/
  results : Table (AList fun _ : Bytes => RequestRow)
  /-- `time_total`, `ru_utime_total`, `ru_stime_total`, `kbytes_total`, `memory_footprint`. -/
  totals : RequestSums

/-- A report as its regenerate function creates it. -/
def BaseReport.created (kind : BaseKind) (cond : Conditions) (buckets : BucketChoice) :
    BaseReport :=
  ⟨kind, .created cond buckets, ∅, ⟨∅, 0⟩, .zero⟩

/-! ## Section 2: Update functions -/

/-- `pinba_update_report_info_add`. -/
def pinba_update_report_info_add (report : BaseReport) (record : StatsRecord) : BaseReport :=
  { report with
    totals := report.totals.add record.data
    results := { report.results with rowCount := report.results.rowCount + 1 }
    histogram_data := pinba_update_histogram report.std.buckets report.histogram_data
      record.data.req_time.toTimeval 1 }

/-- `pinba_update_report_info_delete`. -/
def pinba_update_report_info_delete (report : BaseReport) (record : StatsRecord) : BaseReport :=
  if report.results.rowCount = 0 then report
  else if report.std.delete_check record then report
  else
    { report with
      totals := report.totals.sub record.data
      results := { report.results with rowCount := report.results.rowCount - 1 }
      histogram_data := pinba_update_histogram report.std.buckets report.histogram_data
        record.data.req_time.toTimeval (-1) }

/-- The add function of the indexed kinds. -/
def base_add (index : RequestData → Bytes) (report : BaseReport) (record : StatsRecord) :
    BaseReport :=
  let o := report.results.rows.lookup (index record.data)
  -- a missing row is allocated with zeroed fields and linked first
  let data := o.getD ⟨0, (rowSums report.std.buckets).zero⟩
  let data := { members := data.members + 1
                acc := (rowSums report.std.buckets).add record.data data.acc }
  { report with
    totals := report.totals.add record.data
    results :=
      { rows := report.results.rows.insert (index record.data) data
        rowCount := if o.isNone then report.results.rowCount + 1 else report.results.rowCount } }

/-- The delete function of the indexed kinds. -/
def base_delete (index : RequestData → Bytes) (report : BaseReport) (record : StatsRecord) :
    BaseReport :=
  if report.results.rowCount = 0 then report
  else if report.std.delete_check record then report
  else
    let report := { report with totals := report.totals.sub record.data }
    match report.results.rows.lookup (index record.data) with
    | none => report
    | some data =>
      if data.members = 1 then
        { report with
          results :=
            { rows := report.results.rows.erase (index record.data)
              rowCount := report.results.rowCount - 1 } }
      else
        { report with
          results :=
            { report.results with
              rows := report.results.rows.insert (index record.data)
                { members := data.members - 1
                  acc := (rowSums report.std.buckets).sub record.data data.acc } } }

/-- `pinba_update_report1_add`. -/
def pinba_update_report1_add : BaseReport → StatsRecord → BaseReport := base_add report1_index

/-- `pinba_update_report1_delete`. -/
def pinba_update_report1_delete : BaseReport → StatsRecord → BaseReport :=
  base_delete report1_index

/-- `pinba_update_report2_add`. -/
def pinba_update_report2_add : BaseReport → StatsRecord → BaseReport := base_add report2_index

/-- `pinba_update_report2_delete`. -/
def pinba_update_report2_delete : BaseReport → StatsRecord → BaseReport :=
  base_delete report2_index

/-- `pinba_update_report3_add`. -/
def pinba_update_report3_add : BaseReport → StatsRecord → BaseReport := base_add report3_index

/-- `pinba_update_report3_delete`. -/
def pinba_update_report3_delete : BaseReport → StatsRecord → BaseReport :=
  base_delete report3_index

/-- `pinba_update_report4_add`. -/
def pinba_update_report4_add : BaseReport → StatsRecord → BaseReport := base_add report4_index

/-- `pinba_update_report4_delete`. -/
def pinba_update_report4_delete : BaseReport → StatsRecord → BaseReport :=
  base_delete report4_index

/-- `pinba_update_report5_add`. -/
def pinba_update_report5_add : BaseReport → StatsRecord → BaseReport := base_add report5_index

/-- `pinba_update_report5_delete`. -/
def pinba_update_report5_delete : BaseReport → StatsRecord → BaseReport :=
  base_delete report5_index

/-- `pinba_update_report6_add`. -/
def pinba_update_report6_add : BaseReport → StatsRecord → BaseReport := base_add report6_index

/-- `pinba_update_report6_delete`. -/
def pinba_update_report6_delete : BaseReport → StatsRecord → BaseReport :=
  base_delete report6_index

/-- `pinba_update_report7_add`. -/
def pinba_update_report7_add : BaseReport → StatsRecord → BaseReport := base_add report7_index

/-- `pinba_update_report7_delete`. -/
def pinba_update_report7_delete : BaseReport → StatsRecord → BaseReport :=
  base_delete report7_index

/-- `pinba_update_report8_add`. -/
def pinba_update_report8_add : BaseReport → StatsRecord → BaseReport := base_add report8_index

/-- `pinba_update_report8_delete`. -/
def pinba_update_report8_delete : BaseReport → StatsRecord → BaseReport :=
  base_delete report8_index

/-- `pinba_update_report9_add`. -/
def pinba_update_report9_add : BaseReport → StatsRecord → BaseReport := base_add report9_index

/-- `pinba_update_report9_delete`. -/
def pinba_update_report9_delete : BaseReport → StatsRecord → BaseReport :=
  base_delete report9_index

/-- `pinba_update_report10_add`. -/
def pinba_update_report10_add : BaseReport → StatsRecord → BaseReport := base_add report10_index

/-- `pinba_update_report10_delete`. -/
def pinba_update_report10_delete : BaseReport → StatsRecord → BaseReport :=
  base_delete report10_index

/-- `pinba_update_report11_add`. -/
def pinba_update_report11_add : BaseReport → StatsRecord → BaseReport := base_add report11_index

/-- `pinba_update_report11_delete`. -/
def pinba_update_report11_delete : BaseReport → StatsRecord → BaseReport :=
  base_delete report11_index

/-- `pinba_update_report12_add`. -/
def pinba_update_report12_add : BaseReport → StatsRecord → BaseReport := base_add report12_index

/-- `pinba_update_report12_delete`. -/
def pinba_update_report12_delete : BaseReport → StatsRecord → BaseReport :=
  base_delete report12_index

/-- `pinba_update_report13_add`. -/
def pinba_update_report13_add : BaseReport → StatsRecord → BaseReport := base_add report13_index

/-- `pinba_update_report13_delete`. -/
def pinba_update_report13_delete : BaseReport → StatsRecord → BaseReport :=
  base_delete report13_index

/-- `pinba_update_report14_add`. -/
def pinba_update_report14_add : BaseReport → StatsRecord → BaseReport := base_add report14_index

/-- `pinba_update_report14_delete`. -/
def pinba_update_report14_delete : BaseReport → StatsRecord → BaseReport :=
  base_delete report14_index

/-- `pinba_update_report15_add`. -/
def pinba_update_report15_add : BaseReport → StatsRecord → BaseReport := base_add report15_index

/-- `pinba_update_report15_delete`. -/
def pinba_update_report15_delete : BaseReport → StatsRecord → BaseReport :=
  base_delete report15_index

/-- `pinba_update_report16_add`. -/
def pinba_update_report16_add : BaseReport → StatsRecord → BaseReport := base_add report16_index

/-- `pinba_update_report16_delete`. -/
def pinba_update_report16_delete : BaseReport → StatsRecord → BaseReport :=
  base_delete report16_index

/-- `pinba_update_report17_add`. -/
def pinba_update_report17_add : BaseReport → StatsRecord → BaseReport := base_add report17_index

/-- `pinba_update_report17_delete`. -/
def pinba_update_report17_delete : BaseReport → StatsRecord → BaseReport :=
  base_delete report17_index

/-- `pinba_update_report18_add`. -/
def pinba_update_report18_add : BaseReport → StatsRecord → BaseReport := base_add report18_index

/-- `pinba_update_report18_delete`. -/
def pinba_update_report18_delete : BaseReport → StatsRecord → BaseReport :=
  base_delete report18_index

/-- `std.add_func`, as the regenerate function of the kind sets it. -/
def BaseReport.add_func (report : BaseReport) : StatsRecord → BaseReport :=
  match report.kind with
  | .report_info => pinba_update_report_info_add report
  | .report1 => pinba_update_report1_add report
  | .report2 => pinba_update_report2_add report
  | .report3 => pinba_update_report3_add report
  | .report4 => pinba_update_report4_add report
  | .report5 => pinba_update_report5_add report
  | .report6 => pinba_update_report6_add report
  | .report7 => pinba_update_report7_add report
  | .report8 => pinba_update_report8_add report
  | .report9 => pinba_update_report9_add report
  | .report10 => pinba_update_report10_add report
  | .report11 => pinba_update_report11_add report
  | .report12 => pinba_update_report12_add report
  | .report13 => pinba_update_report13_add report
  | .report14 => pinba_update_report14_add report
  | .report15 => pinba_update_report15_add report
  | .report16 => pinba_update_report16_add report
  | .report17 => pinba_update_report17_add report
  | .report18 => pinba_update_report18_add report

/-- `std.delete_func`. -/
def BaseReport.delete_func (report : BaseReport) : StatsRecord → BaseReport :=
  match report.kind with
  | .report_info => pinba_update_report_info_delete report
  | .report1 => pinba_update_report1_delete report
  | .report2 => pinba_update_report2_delete report
  | .report3 => pinba_update_report3_delete report
  | .report4 => pinba_update_report4_delete report
  | .report5 => pinba_update_report5_delete report
  | .report6 => pinba_update_report6_delete report
  | .report7 => pinba_update_report7_delete report
  | .report8 => pinba_update_report8_delete report
  | .report9 => pinba_update_report9_delete report
  | .report10 => pinba_update_report10_delete report
  | .report11 => pinba_update_report11_delete report
  | .report12 => pinba_update_report12_delete report
  | .report13 => pinba_update_report13_delete report
  | .report14 => pinba_update_report14_delete report
  | .report15 => pinba_update_report15_delete report
  | .report16 => pinba_update_report16_delete report
  | .report17 => pinba_update_report17_delete report
  | .report18 => pinba_update_report18_delete report

/-- The driver's view of base reports. The slot number is not used. -/
def baseOps : ReportOps BaseReport where
  std := BaseReport.std
  with_std report std := { report with std := std }
  add_func _ report record := report.add_func record
  delete_func _ report record := report.delete_func record

/-! ## Section 3: Accounting -/

/-- The key function of a kind; `report_info` has none. -/
def BaseKind.index : BaseKind → Option (RequestData → Bytes)
  | .report_info => none
  | .report1 => some report1_index
  | .report2 => some report2_index
  | .report3 => some report3_index
  | .report4 => some report4_index
  | .report5 => some report5_index
  | .report6 => some report6_index
  | .report7 => some report7_index
  | .report8 => some report8_index
  | .report9 => some report9_index
  | .report10 => some report10_index
  | .report11 => some report11_index
  | .report12 => some report12_index
  | .report13 => some report13_index
  | .report14 => some report14_index
  | .report15 => some report15_index
  | .report16 => some report16_index
  | .report17 => some report17_index
  | .report18 => some report18_index

/-- The request data of the entries of a window. -/
def dataOf (w : List Entry) : List RequestData := w.map fun e => e.2.data

namespace BaseReport

/-- The report is the exact aggregation of the entries `w`: its totals, and per
    key a row that counts the requests with this key, sums them up and holds
    their buckets. `report_info` counts all of them in one place. -/
structure Accounts (report : BaseReport) (w : List Entry) : Prop where
  totals : report.totals.Of (dataOf w)
  rows : match report.kind.index with
    | none => report.results.rowCount = (dataOf w).length ∧
        RequestHistogram report.std.buckets report.histogram_data (dataOf w)
    | some index => Table.Counts KeyedStore.flat (rowSums report.std.buckets) report.results
        ((dataOf w).map fun d => (index d, d))

variable {report : BaseReport} {record : StatsRecord} {w : List Entry} {slot : Nat}

theorem add_func_eq (report : BaseReport) : report.add_func =
    match report.kind.index with
    | none => pinba_update_report_info_add report
    | some index => base_add index report := by
  unfold add_func BaseKind.index
  cases report.kind <;> rfl

theorem delete_func_eq (report : BaseReport) : report.delete_func =
    match report.kind.index with
    | none => pinba_update_report_info_delete report
    | some index => base_delete index report := by
  unfold delete_func BaseKind.index
  cases report.kind <;> rfl

/-- The add function on rows is the table operation. -/
theorem base_add_eq (index : RequestData → Bytes) : base_add index report record =
    { report with
      totals := report.totals.add record.data
      results := Table.insertOne KeyedStore.flat (rowSums report.std.buckets) report.results
        (index record.data, record.data) } := rfl

/-- So is the delete function, once both guards are passed. -/
theorem base_delete_eq (index : RequestData → Bytes) (h0 : report.results.rowCount ≠ 0)
    (hd : report.std.delete_check record = false) : base_delete index report record =
    { report with
      totals := report.totals.sub record.data
      results := Table.removeOne KeyedStore.flat (rowSums report.std.buckets) report.results
        (index record.data, record.data) } := by
  simp only [base_delete, if_neg h0, hd, Bool.false_eq_true, if_false, Table.removeOne,
    KeyedStore.flat]
  cases report.results.rows.lookup (index record.data) with
  | none => rfl
  | some data =>
    have hiff : data.members - 1 = 0 ↔ data.members = 1 := by omega
    by_cases h1 : data.members = 1
    · simp [CountRow.remove, h1]
    · simp [CountRow.remove, h1, hiff]

theorem base_delete_old (index : RequestData → Bytes) (hd : report.std.delete_check record = true) :
    base_delete index report record = report := by
  simp [base_delete, hd]

theorem std_base_delete (index : RequestData → Bytes) (report : BaseReport)
    (record : StatsRecord) : (base_delete index report record).std = report.std := by
  unfold base_delete
  split
  · rfl
  · split
    · rfl
    · simp only
      split
      · rfl
      · split <;> rfl

theorem std_add_func (report : BaseReport) (record : StatsRecord) :
    (report.add_func record).std = report.std := by
  rw [add_func_eq]
  cases report.kind.index <;> rfl

theorem std_delete_func (report : BaseReport) (record : StatsRecord) :
    (report.delete_func record).std = report.std := by
  rw [delete_func_eq]
  cases report.kind.index with
  | none =>
    show (pinba_update_report_info_delete report record).std = report.std
    unfold pinba_update_report_info_delete
    split
    · rfl
    · split <;> rfl
  | some index => exact std_base_delete index report record

theorem dataOf_snoc : dataOf (w ++ [(slot, record)]) = dataOf w ++ [record.data] := by
  simp [dataOf]

theorem coe_dataOf_snoc : (dataOf (w ++ [(slot, record)]) : Multiset RequestData) =
    record.data ::ₘ ↑(dataOf w) := by
  rw [dataOf_snoc, ← Multiset.coe_add, Multiset.coe_singleton, Multiset.add_comm]
  rfl

theorem accounts_add (h : report.Accounts w) :
    (report.add_func record).Accounts (w ++ [(slot, record)]) := by
  obtain ⟨htot, hrows⟩ := h
  rw [add_func_eq]
  cases hi : report.kind.index with
  | none =>
    rw [hi] at hrows
    refine ⟨?_, ?_⟩
    · rw [coe_dataOf_snoc]
      exact RequestSums.of_add _ htot
    · simp only [pinba_update_report_info_add, hi]
      refine ⟨?_, ?_⟩
      · rw [hrows.1, dataOf_snoc]
        simp
      · rw [coe_dataOf_snoc]
        exact histogramOf_add hrows.2
  | some index =>
    rw [hi] at hrows
    simp only [base_add_eq]
    refine ⟨?_, ?_⟩
    · rw [coe_dataOf_snoc]
      exact RequestSums.of_add _ htot
    · simp only [hi, dataOf_snoc, List.map_append, List.map_singleton]
      exact Table.counts_insertOne hrows

theorem accounts_delete (hd : report.std.delete_check record = false)
    (h : report.Accounts ((slot, record) :: w)) : (report.delete_func record).Accounts w := by
  obtain ⟨htot, hrows⟩ := h
  rw [delete_func_eq]
  cases hi : report.kind.index with
  | none =>
    rw [hi] at hrows
    obtain ⟨hc, hh⟩ := hrows
    have h0 : report.results.rowCount ≠ 0 := by
      rw [hc]
      simp [dataOf]
      omega
    simp only [pinba_update_report_info_delete, if_neg h0, hd, Bool.false_eq_true, if_false]
    refine ⟨RequestSums.of_sub _ htot, ?_⟩
    simp only [hi]
    refine ⟨?_, histogramOf_sub hh⟩
    rw [hc]
    simp [dataOf]
  | some index =>
    rw [hi] at hrows
    have hrows' : Table.Counts KeyedStore.flat (rowSums report.std.buckets) report.results
        ((index record.data, record.data) :: (dataOf w).map fun d => (index d, d)) := hrows
    simp only [base_delete_eq index (Table.rowCount_ne_zero hrows') hd]
    refine ⟨RequestSums.of_sub _ htot, ?_⟩
    simp only [hi]
    exact Table.counts_removeOne hrows'

theorem delete_old (hd : report.std.delete_check record = true) :
    report.delete_func record = report := by
  rw [delete_func_eq]
  cases report.kind.index with
  | none =>
    show pinba_update_report_info_delete report record = report
    simp [pinba_update_report_info_delete, hd]
  | some index => exact base_delete_old index hd

/-- An empty report returns at its first guard. -/
theorem delete_empty (h : report.Accounts []) : report.delete_func record = report := by
  obtain ⟨_, hrows⟩ := h
  rw [delete_func_eq]
  cases hi : report.kind.index with
  | none =>
    rw [hi] at hrows
    exact if_pos hrows.1
  | some index =>
    rw [hi] at hrows
    exact if_pos (Table.rowCount_of_nil hrows)

theorem accounts_created (kind : BaseKind) (cond : Conditions) (buckets : BucketChoice) :
    (created kind cond buckets).Accounts [] := by
  refine ⟨RequestSums.of_zero, ?_⟩
  show match kind.index with
    | none => _
    | some index => _
  cases kind.index with
  | none => exact ⟨rfl, histogramOf_empty⟩
  | some index => exact Table.counts_empty

end BaseReport

/-- Base reports account for every record that reaches them. -/
def baseLaws : ReportLaws baseOps where
  Accounts := BaseReport.Accounts
  Valid _ := True
  Idle _ := False
  WellFormed _ := True
  std_with_std _ _ := rfl
  std_add _ := BaseReport.std_add_func
  std_delete _ := BaseReport.std_delete_func
  wf_with_std _ _ _ := trivial
  wf_add _ _ _ _ := trivial
  wf_delete _ _ _ _ := trivial
  accounts_set_start _ _ _ h := ⟨h.totals, h.rows⟩
  accounts_add _ _ _ _ _ _ h := BaseReport.accounts_add h
  delete_old _ _ _ hd := BaseReport.delete_old hd
  accounts_delete _ _ _ _ _ _ hd h := BaseReport.accounts_delete hd h
  delete_empty _ _ _ _ h := by
    show BaseReport.Accounts (BaseReport.delete_func _ _) []
    rw [BaseReport.delete_empty h]
    exact h
  accounts_idle _ _ _ _ _ _ hidle := hidle.elim

end PinbaEngine
