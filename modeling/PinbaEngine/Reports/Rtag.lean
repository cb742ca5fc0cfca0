import PinbaEngine.Keys
import PinbaEngine.Reports.Base

/-! # Request tag reports

    `rtag_info`, `rtag2_info`, `rtagN_info` and their `_report` variants, from
    `data.cc`. A report selects the requests that carry its tags and groups
    them by the tag values, the `_report` kinds in one map per host name.

    Tags are compared by pointer. The delete functions look the row up before
    they touch the totals, unlike those of the base reports.
-/

namespace PinbaEngine

/-! ## Section 1: Reports -/

/-- The request tag report kinds. -/
inductive RtagKind where
  | rtag_info | rtag2_info | rtagN_info | rtag_report | rtag2_report | rtagN_report
deriving DecidableEq

/-- Whether the kind keeps its rows per host name. -/
abbrev RtagKind.nested : RtagKind → Bool
  | .rtag_info | .rtag2_info | .rtagN_info => false
  | .rtag_report | .rtag2_report | .rtagN_report => true

/-- `pinba_rtag_report`. The scratch array `values` is left out: the code only
    reads entries that it has written in the same call. -/
structure RtagReport (k : RtagKind) where
  std : StdReport
  tags : List Word
  /-- `results` and `std.results_cnt`. -/
  results : Table (RowStore RequestRow k.nested)
  totals : RequestSums

/-- A report as its regenerate function creates it. -/
def RtagReport.created (k : RtagKind) (cond : Conditions) (buckets : BucketChoice)
    (tags : List Word) : RtagReport k :=
  ⟨.created cond buckets, tags, ⟨(rowStore RequestRow k.nested).empty, 0⟩, .zero⟩

/-! ## Section 2: Selecting requests -/

/-- The value of the first tag of the request with this name. -/
def rtag_find (tag : Word) (tags : List (Word × Word)) : Option Word :=
  (tags.find? fun t => tag.ptr = t.1.ptr).map Prod.snd

/-- The loop of the `rtag2` kinds: a later position overwrites an earlier one
    until both tags have been seen. -/
def rtag2_find (tag1 tag2 : Word) :
    List (Word × Word) → Option Word → Option Word → Option Word × Option Word
  | [], word1, word2 => (word1, word2)
  | t :: tags, word1, word2 =>
    let (word1, word2) :=
      if tag1.ptr = t.1.ptr then (some t.2, word2)
      else if tag2.ptr = t.1.ptr then (word1, some t.2)
      else (word1, word2)
    if word1.isSome && word2.isSome then (word1, word2) else rtag2_find tag1 tag2 tags word1 word2

/-- The two values, if both tags were found. -/
def rtag2_words (report_tags : List Word) (data : RequestData) : Option (Word × Word) := do
  let (word1, word2) := rtag2_find (← report_tags[0]?) (← report_tags[1]?) data.tags none none
  return (← word1, ← word2)

/-- The values of all tags of the report, in its order. -/
def rtagN_words (report_tags : List Word) (data : RequestData) : Option (List Word) :=
  if data.tags.length < report_tags.length then none
  else report_tags.mapM fun tag => rtag_find tag data.tags

/-- The row a request belongs to, if it carries the tags of the report. -/
def RtagKind.key : (k : RtagKind) → List Word → RequestData → Option (RowKey k.nested)
  | .rtag_info, tags, data =>
    (tags[0]?.bind fun tag => rtag_find tag data.tags).map fun word => word.str.bytes
  | .rtag2_info, tags, data => (rtag2_words tags data).map fun w => rtag2_index w.1 w.2
  | .rtagN_info, tags, data => (rtagN_words tags data).map tagN_index
  | .rtag_report, tags, data =>
    (tags[0]?.bind fun tag => rtag_find tag data.tags).map fun word =>
      (data.hostname.bytes, word.str.bytes)
  | .rtag2_report, tags, data =>
    (rtag2_words tags data).map fun w => (data.hostname.bytes, rtag2_index w.1 w.2)
  | .rtagN_report, tags, data =>
    (rtagN_words tags data).map fun ws => (data.hostname.bytes, tagN_index ws)

/-! ## Section 3: Update functions -/

section update
variable {k : RtagKind}

/-- The add functions: nothing happens without a matching tag. -/
def rtag_add (key : List Word → RequestData → Option (RowKey k.nested)) (report : RtagReport k)
    (record : StatsRecord) : RtagReport k :=
  match key report.tags record.data with
  | none => report
  | some index =>
    { report with
      results := Table.insertOne (rowStore RequestRow k.nested) (rowSums report.std.buckets)
        report.results (index, record.data)
      totals := report.totals.add record.data }

/-- The delete functions: nothing happens without a matching tag or a row. -/
def rtag_delete (key : List Word → RequestData → Option (RowKey k.nested)) (report : RtagReport k)
    (record : StatsRecord) : RtagReport k :=
  if report.std.delete_check record then report
  else
    match key report.tags record.data with
    | none => report
    | some index =>
      match (rowStore RequestRow k.nested).get report.results.rows index with
      | none => report
      | some _ =>
        { report with
          totals := report.totals.sub record.data
          results := Table.removeOne (rowStore RequestRow k.nested) (rowSums report.std.buckets)
            report.results (index, record.data) }

end update

/-- `pinba_update_rtag_info_add`. -/
def pinba_update_rtag_info_add : RtagReport .rtag_info → StatsRecord → RtagReport .rtag_info :=
  rtag_add RtagKind.rtag_info.key

/-- `pinba_update_rtag_info_delete`. -/
def pinba_update_rtag_info_delete : RtagReport .rtag_info → StatsRecord → RtagReport .rtag_info :=
  rtag_delete RtagKind.rtag_info.key

/-- `pinba_update_rtag2_info_add`. -/
def pinba_update_rtag2_info_add : RtagReport .rtag2_info → StatsRecord → RtagReport .rtag2_info :=
  rtag_add RtagKind.rtag2_info.key

/-- `pinba_update_rtag2_info_delete`. -/
def pinba_update_rtag2_info_delete :
    RtagReport .rtag2_info → StatsRecord → RtagReport .rtag2_info :=
  rtag_delete RtagKind.rtag2_info.key

/-- `pinba_update_rtagN_info_add`. -/
def pinba_update_rtagN_info_add : RtagReport .rtagN_info → StatsRecord → RtagReport .rtagN_info :=
  rtag_add RtagKind.rtagN_info.key

/-- `pinba_update_rtagN_info_delete`. -/
def pinba_update_rtagN_info_delete :
    RtagReport .rtagN_info → StatsRecord → RtagReport .rtagN_info :=
  rtag_delete RtagKind.rtagN_info.key

/-- `pinba_update_rtag_report_add`. -/
def pinba_update_rtag_report_add :
    RtagReport .rtag_report → StatsRecord → RtagReport .rtag_report :=
  rtag_add RtagKind.rtag_report.key

/-- `pinba_update_rtag_report_delete`. -/
def pinba_update_rtag_report_delete :
    RtagReport .rtag_report → StatsRecord → RtagReport .rtag_report :=
  rtag_delete RtagKind.rtag_report.key

/-- `pinba_update_rtag2_report_add`. -/
def pinba_update_rtag2_report_add :
    RtagReport .rtag2_report → StatsRecord → RtagReport .rtag2_report :=
  rtag_add RtagKind.rtag2_report.key

/-- `pinba_update_rtag2_report_delete`. -/
def pinba_update_rtag2_report_delete :
    RtagReport .rtag2_report → StatsRecord → RtagReport .rtag2_report :=
  rtag_delete RtagKind.rtag2_report.key

/-- `pinba_update_rtagN_report_add`. -/
def pinba_update_rtagN_report_add :
    RtagReport .rtagN_report → StatsRecord → RtagReport .rtagN_report :=
  rtag_add RtagKind.rtagN_report.key

/-- `pinba_update_rtagN_report_delete`. -/
def pinba_update_rtagN_report_delete :
    RtagReport .rtagN_report → StatsRecord → RtagReport .rtagN_report :=
  rtag_delete RtagKind.rtagN_report.key

namespace RtagReport

/-- `std.add_func`, as the regenerate function of the kind sets it. -/
def add_func : {k : RtagKind} → RtagReport k → StatsRecord → RtagReport k
  | .rtag_info => pinba_update_rtag_info_add
  | .rtag2_info => pinba_update_rtag2_info_add
  | .rtagN_info => pinba_update_rtagN_info_add
  | .rtag_report => pinba_update_rtag_report_add
  | .rtag2_report => pinba_update_rtag2_report_add
  | .rtagN_report => pinba_update_rtagN_report_add

/-- `std.delete_func`. -/
def delete_func : {k : RtagKind} → RtagReport k → StatsRecord → RtagReport k
  | .rtag_info => pinba_update_rtag_info_delete
  | .rtag2_info => pinba_update_rtag2_info_delete
  | .rtagN_info => pinba_update_rtagN_info_delete
  | .rtag_report => pinba_update_rtag_report_delete
  | .rtag2_report => pinba_update_rtag2_report_delete
  | .rtagN_report => pinba_update_rtagN_report_delete

end RtagReport

/-- The driver's view of request tag reports. The slot number is not used. -/
def rtagOps (k : RtagKind) : ReportOps (RtagReport k) where
  std := RtagReport.std
  with_std report std := { report with std := std }
  add_func _ report record := report.add_func record
  delete_func _ report record := report.delete_func record

/-! ## Section 4: Accounting -/

namespace RtagReport

variable {k : RtagKind} {report : RtagReport k} {record : StatsRecord} {w v : List Entry}
  {slot : Nat}

/-- The entries of a window that belong to a row, with that row's key. -/
def samples (k : RtagKind) (tags : List Word) (w : List Entry) :
    List (RowKey k.nested × RequestData) :=
  w.filterMap fun e => (k.key tags e.2.data).map fun index => (index, e.2.data)

/-- The report is the exact aggregation of the entries of `w` that carry its
    tags. -/
structure Accounts (report : RtagReport k) (w : List Entry) : Prop where
  totals : report.totals.Of ((samples k report.tags w).map Prod.snd)
  rows : Table.Counts (rowStore RequestRow k.nested) (rowSums report.std.buckets) report.results
    (samples k report.tags w)

theorem add_func_eq (report : RtagReport k) : report.add_func = rtag_add k.key report := by
  cases k <;> rfl

theorem delete_func_eq (report : RtagReport k) : report.delete_func = rtag_delete k.key report := by
  cases k <;> rfl

theorem samples_append {tags : List Word} :
    samples k tags (w ++ v) = samples k tags w ++ samples k tags v :=
  List.filterMap_append

theorem samples_cons_none {tags : List Word} (h : k.key tags record.data = none) :
    samples k tags ((slot, record) :: w) = samples k tags w := by
  simp [samples, h]

theorem samples_cons_some {tags : List Word} {index : RowKey k.nested}
    (h : k.key tags record.data = some index) :
    samples k tags ((slot, record) :: w) = (index, record.data) :: samples k tags w := by
  simp [samples, h]

theorem accounts_add (h : report.Accounts w) :
    (report.add_func record).Accounts (w ++ [(slot, record)]) := by
  rw [add_func_eq]
  unfold rtag_add
  cases hk : k.key report.tags record.data with
  | none =>
    have hs : samples k report.tags (w ++ [(slot, record)]) = samples k report.tags w := by
      rw [samples_append, samples_cons_none hk]
      simp [samples]
    exact ⟨by rw [hs]; exact h.totals, by rw [hs]; exact h.rows⟩
  | some index =>
    have hs : samples k report.tags (w ++ [(slot, record)]) =
        samples k report.tags w ++ [(index, record.data)] := by
      rw [samples_append, samples_cons_some hk]
      simp [samples]
    refine ⟨?_, ?_⟩
    · rw [hs, List.map_append, List.map_singleton, ← Multiset.coe_add, Multiset.coe_singleton,
        Multiset.add_comm]
      exact RequestSums.of_add _ h.totals
    · rw [hs]
      exact Table.counts_insertOne h.rows

theorem accounts_delete (hd : report.std.delete_check record = false)
    (h : report.Accounts ((slot, record) :: w)) : (report.delete_func record).Accounts w := by
  obtain ⟨htot, hrows⟩ := h
  rw [delete_func_eq]
  unfold rtag_delete
  rw [hd]
  simp only [Bool.false_eq_true, if_false]
  cases hk : k.key report.tags record.data with
  | none =>
    rw [samples_cons_none hk] at htot hrows
    exact ⟨htot, hrows⟩
  | some index =>
    rw [samples_cons_some hk] at htot hrows
    have hrow := hrows.row index
    rw [Table.samplesOf_cons_self (e := (index, record.data))] at hrow
    cases ho : (rowStore RequestRow k.nested).get report.results.rows index with
    | none =>
      rw [ho] at hrow
      exact absurd hrow Multiset.cons_ne_zero
    | some d =>
      have htot' : report.totals.Of
          (record.data ::ₘ ↑((samples k report.tags w).map Prod.snd)) := htot
      simp only [ho]
      exact ⟨RequestSums.of_sub _ htot', Table.counts_removeOne hrows⟩

theorem delete_old (hd : report.std.delete_check record = true) :
    report.delete_func record = report := by
  rw [delete_func_eq]
  exact if_pos hd

/-- In an empty report no row is found. -/
theorem delete_empty (h : report.Accounts []) : report.delete_func record = report := by
  rw [delete_func_eq]
  unfold rtag_delete
  split
  · rfl
  · split
    · rfl
    · next index _ =>
      have hrow := h.rows.row index
      cases ho : (rowStore RequestRow k.nested).get report.results.rows index with
      | none => rfl
      | some d =>
        rw [ho] at hrow
        exact absurd rfl hrow.1

theorem tags_add_func (report : RtagReport k) (record : StatsRecord) :
    (report.add_func record).tags = report.tags := by
  rw [add_func_eq]
  unfold rtag_add
  split <;> rfl

theorem tags_delete_func (report : RtagReport k) (record : StatsRecord) :
    (report.delete_func record).tags = report.tags := by
  rw [delete_func_eq]
  unfold rtag_delete
  split
  · rfl
  · split
    · rfl
    · split <;> rfl

theorem std_add_func (report : RtagReport k) (record : StatsRecord) :
    (report.add_func record).std = report.std := by
  rw [add_func_eq]
  unfold rtag_add
  split <;> rfl

theorem std_delete_func (report : RtagReport k) (record : StatsRecord) :
    (report.delete_func record).std = report.std := by
  rw [delete_func_eq]
  unfold rtag_delete
  split
  · rfl
  · split
    · rfl
    · split <;> rfl

/-- A request without tags belongs to no row of a report with tags. -/
theorem key_of_no_tags {tags : List Word} {data : RequestData} (htags : tags ≠ [])
    (hdata : data.tags = []) : k.key tags data = none := by
  obtain ⟨tag, rest, rfl⟩ := List.exists_cons_of_ne_nil htags
  have hone : rtag_find tag data.tags = none := by simp [rtag_find, hdata]
  have htwo : rtag2_words (tag :: rest) data = none := by
    simp only [rtag2_words, hdata, rtag2_find]
    cases (tag :: rest)[1]? <;> rfl
  have hmany : rtagN_words (tag :: rest) data = none := by
    simp [rtagN_words, hdata]
  cases k <;> simp [RtagKind.key, hone, htwo, hmany]

theorem accounts_idle (htags : report.tags ≠ []) (hidle : record.data.tags = []) :
    report.Accounts (w ++ (slot, record) :: v) ↔ report.Accounts (w ++ v) := by
  have hs : samples k report.tags (w ++ (slot, record) :: v) = samples k report.tags (w ++ v) := by
    rw [samples_append, samples_append, samples_cons_none (key_of_no_tags htags hidle)]
  constructor
  · intro h
    exact ⟨hs ▸ h.totals, hs ▸ h.rows⟩
  · intro h
    exact ⟨hs.symm ▸ h.totals, hs.symm ▸ h.rows⟩

theorem accounts_created (k : RtagKind) (cond : Conditions) (buckets : BucketChoice)
    (tags : List Word) : (created k cond buckets tags).Accounts [] :=
  ⟨RequestSums.of_zero, Table.counts_empty⟩

end RtagReport

/-- Request tag reports account for every record they are shown; records
    without tags do not matter to a report that has a tag. -/
def rtagLaws (k : RtagKind) : ReportLaws (rtagOps k) where
  Accounts := RtagReport.Accounts
  Valid _ := True
  Idle record := record.data.tags = []
  WellFormed report := report.tags ≠ []
  std_with_std _ _ := rfl
  std_add _ := RtagReport.std_add_func
  std_delete _ := RtagReport.std_delete_func
  wf_with_std _ _ h := h
  wf_add _ report record h := by
    show (report.add_func record).tags ≠ []
    rwa [RtagReport.tags_add_func]
  wf_delete _ report record h := by
    show (report.delete_func record).tags ≠ []
    rwa [RtagReport.tags_delete_func]
  accounts_set_start _ _ _ h := ⟨h.totals, h.rows⟩
  accounts_add _ _ _ _ _ _ h := RtagReport.accounts_add h
  delete_old _ _ _ hd := RtagReport.delete_old hd
  accounts_delete _ _ _ _ _ _ hd h := RtagReport.accounts_delete hd h
  delete_empty _ _ _ _ h := by
    show RtagReport.Accounts (RtagReport.delete_func _ _) []
    rw [RtagReport.delete_empty h]
    exact h
  accounts_idle _ _ _ _ _ hwf hidle := RtagReport.accounts_idle hwf hidle

end PinbaEngine
