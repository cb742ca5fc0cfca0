import PinbaEngine.RowRuns

/-! # Reports in memory

    The three families of reports with their rows in memory: timer tag reports, request
    tag reports and base reports. Each kind fills in the code that `RowMemory` shares, and
    through any sequence of calls its blocks hold the rows of the value-level report.
-/

namespace PinbaEngine

namespace RowMemory

open BlockMemory MapMemory

/-- A call of `std.add_func` or `std.delete_func`. -/
inductive ReportCall where
  | add (request_id : Nat) (record : StatsRecord)
  | delete (request_id : Nat) (record : StatsRecord)

def ReportCall.record : ReportCall → StatsRecord
  | .add _ record => record
  | .delete _ record => record

/-- The key of a row in its map. -/
def row_index : (nested : Bool) → RowKey nested → Bytes
  | false, index => index
  | true, (_, index) => index

/-- All samples in one bucket. -/
def single_bucket : BucketChoice := ⟨1, fun _ _ => 0, fun _ _ => Nat.one_pos⟩

/-- Two requests with one timer and one tag; the older one leaves again. -/
def two_requests : List ReportCall :=
  let record : StatsRecord :=
    { (default : StatsRecord) with
      data := { (default : RequestData) with tags := [(default, default)] }
      timers := [⟨default, default, default, 1, [(1, default)]⟩] }
  [.add 0 record, .add 1 record, .delete 0 record]

/-! ## Section 1: Updates of a table -/

section updates
variable {X D R S : Type} {nested : Bool} {st : KeyedStore (RowKey nested) R S} {model : RowModel X R}
  {lib : MapLibrary D} {code : RowCode X D} {view : D → Histogram → R}

/-- What one call makes of a table if there is memory for every row. -/
def table_update (st : KeyedStore (RowKey nested) R S) (model : RowModel X R) (t : Table S) :
    Update X → Table S
  | .add name request_id samples =>
    (keyed_samples nested name samples).foldl (insertRow st (model.insert request_id)) t
  | .delete name request_id samples =>
    (keyed_samples nested name samples).foldl (removeRow st (model.remove request_id)) t

theorem TableAfter.eq_foldl {updates : List (Update X)} {t t' : Table S}
    (hcalloc : ∀ m, lib.calloc.answer m ≠ none) (h : TableAfter lib st model updates t t') :
    t' = updates.foldl (table_update st model) t := by
  induction updates generalizing t with
  | nil => exact h
  | cons u updates ih =>
    rw [List.foldl_cons]
    cases u with
    | add name request_id samples =>
      obtain ⟨mid, hadds, hafter⟩ := h
      have hmid := hadds.eq_foldl hcalloc
      rw [← show mid = table_update st model t (.add name request_id samples) from hmid]
      exact ih hafter
    | delete name request_id samples => exact ih h

variable (st) in
/-- Whatever else is in memory: a run of the update functions has a result, and at every
    return its new blocks are a report with the rows of the table. -/
theorem update_all_in_memory (hlib : Supplied lib code) (hmodel : Models code view model)
    (hnested : code.nested = nested) (updates : List (Update X)) (m : BlockMemory (Cell D)) :
    ∃ r m', update_all lib code updates ⟨none, 0⟩ m = some (r, m') ∧ ∀ report, r = .ok report →
      ∃ t own, InMemory view nested st report t own ∧ m'.all = own + m.all ∧
        TableAfter lib st model updates ⟨st.empty, 0⟩ t ∧
        ((∀ m, lib.calloc.answer m ≠ none) → t = updates.foldl (table_update st model) ⟨st.empty, 0⟩) := by
  obtain ⟨r, m', own, hr, hm', hout⟩ :=
    runs_update_all hlib hmodel hnested updates inMemory_empty m m.all (zero_add _).symm
  refine ⟨r, m', hr, ?_⟩
  intro report hreport
  subst hreport
  obtain ⟨t, hafter, hmemory⟩ := hout
  exact ⟨t, own, hmemory, hm', hafter, fun hcalloc => hafter.eq_foldl hcalloc⟩

/-- If every call changes the rows as its update does, so do all calls. -/
theorem foldl_calls {V : Type} {call : V → ReportCall → V} {results : V → Table S}
    {update : ReportCall → Option (Update X)} {Ready : V → Prop} {Allowed : ReportCall → Prop}
    (hstep : ∀ v c, Ready v → Allowed c → Ready (call v c) ∧
      results (call v c) = (update c).elim (results v) (table_update st model (results v)))
    {v : V} {calls : List ReportCall} (hready : Ready v) (hallowed : ∀ c ∈ calls, Allowed c) :
    results (calls.foldl call v) = (calls.filterMap update).foldl (table_update st model) (results v) := by
  induction calls generalizing v with
  | nil => rfl
  | cons c calls ih =>
    obtain ⟨hready', hresults⟩ := hstep v c hready (hallowed c List.mem_cons_self)
    have hrest := ih hready' fun c' hc' => hallowed c' (List.mem_cons_of_mem c hc')
    rw [List.foldl_cons, hrest, hresults]
    cases hupdate : update c with
    | none => rw [List.filterMap_cons_none hupdate, Option.elim_none]
    | some u => rw [List.filterMap_cons_some hupdate, List.foldl_cons, Option.elim_some]

end updates

/-! ## Section 2: Timer tag reports -/

/-- The fields of a row apart from its histogram. -/
structure TagFields where
  hit_count : Int
  timer_value : Timeval
  ru_utime_value : Timeval
  ru_stime_value : Timeval

def tag_order : TagKind → RemovalOrder
  | .tag_info | .tag2_info | .tagN_info => .unlink_between
  | .tag_report | .tagN_report | .tagN_report2 => .unlink_first
  | .tag2_report | .tag_report2 | .tag2_report2 => .unlink_last

/-- The kinds with an array of tag values. -/
def tag_array : TagKind → Bool
  | .tagN_info | .tagN_report | .tagN_report2 => true
  | _ => false

/-- The update functions of the timer tag reports. -/
def tag_code (k : TagKind) (tags_cnt : Nat) (buckets : BucketChoice) : RowCode TimerRecord (SlotRow TagFields) where
  nested := k.nested
  order := tag_order k
  tag_value := tag_array k && decide (0 < tags_cnt)
  calloc_check := true
  lmap_create := false
  buckets := buckets
  time timer := timer.value.toTimeval
  count timer := timer.hit_count
  fresh request_id timer := ⟨1, request_id, -1, ⟨timer.hit_count, timer.value.toTimeval, .zero, .zero⟩⟩
  old timer data := { data with
    acc := { data.acc with
      hit_count := data.acc.hit_count + timer.hit_count
      timer_value := data.acc.timer_value.pinba_timeradd timer.value.toTimeval } }
  both request_id timer data :=
    let data := { data with
      acc := { data.acc with
        ru_utime_value := data.acc.ru_utime_value.pinba_timeradd timer.ru_utime.toTimeval
        ru_stime_value := data.acc.ru_stime_value.pinba_timeradd timer.ru_stime.toTimeval } }
    -- tag values count only once per request
    if (request_id : Int) ≠ data.lastAdd then { data with members := data.members + 1, lastAdd := request_id }
    else data
  leave request_id data :=
    if (request_id : Int) ≠ data.lastDel then { data with members := data.members - 1, lastDel := request_id }
    else data
  last data := data.members = 0
  stay timer data := { data with
    acc :=
      { hit_count := data.acc.hit_count - timer.hit_count
        timer_value := data.acc.timer_value.pinba_timersub timer.value.toTimeval
        ru_utime_value := data.acc.ru_utime_value.pinba_timersub timer.ru_utime.toTimeval
        ru_stime_value := data.acc.ru_stime_value.pinba_timersub timer.ru_stime.toTimeval } }

def tag_view (data : SlotRow TagFields) (histogram_data : Histogram) : TagRow :=
  ⟨data.members, data.lastAdd, data.lastDel, ⟨data.acc.hit_count, data.acc.timer_value, data.acc.ru_utime_value,
    data.acc.ru_stime_value, histogram_data⟩⟩

def tag_model (buckets : BucketChoice) : RowModel TimerRecord TagRow where
  insert request_id := SlotRow.insert (tagSums buckets) request_id
  remove request_id := SlotRow.remove (tagSums buckets) request_id

theorem tag_models (k : TagKind) (tags_cnt : Nat) (buckets : BucketChoice) :
    Models (tag_code k tags_cnt buckets) tag_view (tag_model buckets) where
  insert_new s x := by
    simp [tag_code, tag_view, tag_model, SlotRow.insert, tagSums]
  insert_old s x data h := by
    simp only [tag_code, tag_view, tag_model, SlotRow.insert, tagSums]
    split <;> rfl
  remove_last s x data h hlast := by
    by_cases hs : (s : Int) ≠ data.lastDel
    · simp only [tag_code, if_pos hs, decide_eq_true_eq] at hlast
      simp only [tag_view, tag_model, SlotRow.remove, if_pos hs]
      exact if_pos hlast
    · simp only [tag_code, if_neg hs, decide_eq_true_eq] at hlast
      simp only [tag_view, tag_model, SlotRow.remove, if_neg hs]
      exact if_pos hlast
  remove_stay s x data h hlast := by
    by_cases hs : (s : Int) ≠ data.lastDel
    · simp only [tag_code, if_pos hs, decide_eq_false_iff_not] at hlast
      simp only [tag_code, tag_view, tag_model, SlotRow.remove, if_pos hs]
      exact if_neg hlast
    · simp only [tag_code, if_neg hs, decide_eq_false_iff_not] at hlast
      simp only [tag_code, tag_view, tag_model, SlotRow.remove, if_neg hs]
      exact if_neg hlast

section tags
variable {k : TagKind}

/-- A call on the value-level report. -/
def tag_call (report : TagReport k) : ReportCall → TagReport k
  | .add request_id record => report.add_func request_id record
  | .delete request_id record => report.delete_func request_id record

/-- The matching timers of a record, and where their rows are below the script name. -/
def tag_samples (k : TagKind) (tag_id : List Int) (record : StatsRecord) : List (Bytes × TimerRecord) :=
  (TagReport.samples k tag_id record).map fun e => (row_index k.nested e.1, e.2)

/-- The calls that get past the checks of `delete_func`. -/
def tag_updates (k : TagKind) (std : StdReport) (tag_id : List Int) : ReportCall → Option (Update TimerRecord)
  | .add request_id record => some (.add record.data.script_name.bytes request_id (tag_samples k tag_id record))
  | .delete request_id record =>
    if std.delete_check record then none
    else some (.delete record.data.script_name.bytes request_id (tag_samples k tag_id record))

theorem row_key_index (k : TagKind) (data : RequestData) (ws : List Word) :
    row_key k.nested data.script_name.bytes (row_index k.nested (k.index data ws)) = k.index data ws := by
  cases k <;> simp only [row_key, row_index, TagKind.index]

theorem keyed_tag_samples (tag_id : List Int) (record : StatsRecord) :
    keyed_samples k.nested record.data.script_name.bytes (tag_samples k tag_id record) =
      TagReport.samples k tag_id record := by
  unfold keyed_samples tag_samples
  rw [List.map_map]
  refine (List.map_congr_left ?_).trans (List.map_id _)
  rintro ⟨key, timer⟩ hmem
  obtain ⟨t, -, ht⟩ := List.mem_filterMap.mp hmem
  obtain ⟨ws, -, hkey⟩ := Option.map_eq_some_iff.mp ht
  obtain ⟨rfl, rfl⟩ := Prod.mk.inj hkey
  exact congrArg (·, t) (row_key_index k record.data ws)

theorem tag_row_delete_eq (request_id : Nat) (buckets : BucketChoice) :
    (tag_row_delete request_id : TagRowOp k) buckets =
      removeRow (rowStore TagRow k.nested) ((tag_model buckets).remove request_id) := by
  funext t e
  unfold tag_row_delete Table.removeSample removeRow tag_model
  cases (rowStore TagRow k.nested).get t.rows e.1 with
  | none => rfl
  | some d =>
    dsimp only
    cases SlotRow.remove (tagSums buckets) request_id e.2 d <;> rfl

/-- Without a map for the script there are no rows to take samples from. -/
theorem foldl_tag_row_delete_of_missing {report : TagReport k} {record : StatsRecord} {request_id : Nat}
    (hmiss : script_map_missing k.nested report.results.rows record.data.script_name.bytes = true) :
    (TagReport.samples k report.tag_id record).foldl (tag_row_delete request_id report.std.buckets)
      report.results = report.results := by
  rw [tag_row_delete_eq]
  refine foldl_removeRow_of_none ?_
  intro e he
  obtain ⟨t, -, ht⟩ := List.mem_filterMap.mp he
  obtain ⟨ws, -, rfl⟩ := Option.map_eq_some_iff.mp ht
  cases k with
  | tag_info | tag2_info | tagN_info => exact absurd hmiss (by simp [script_map_missing])
  | _ =>
    have hnone : report.results.rows.lookup record.data.script_name.bytes = none := by
      simpa [script_map_missing] using hmiss
    simp [rowStore, KeyedStore.nested, KeyedStore.nestedGet, TagKind.index, hnone]

/-- A call changes the rows as its update does, and keeps what the selection needs. -/
theorem tag_call_results {report : TagReport k} {call : ReportCall}
    (hdistinct : ∀ timer ∈ call.record.timers, timer.DistinctTags)
    (hscratch : report.words.length = report.tag_id.length) :
    (tag_call report call).std = report.std ∧ (tag_call report call).tag_id = report.tag_id ∧
    (tag_call report call).words.length = report.tag_id.length ∧
    (tag_call report call).results = (tag_updates k report.std report.tag_id call).elim report.results
      (table_update (rowStore TagRow k.nested) (tag_model report.std.buckets) report.results) := by
  cases call with
  | add request_id record =>
    obtain ⟨hstd, hid⟩ := TagReport.sameHeader_add request_id report record
    obtain ⟨hlen, hres⟩ := TagReport.fold_timers (tag_row_add request_id) record.data hdistinct hscratch
    refine ⟨hstd, hid, ?_, ?_⟩
    · show (report.add_func request_id record).words.length = _
      rw [TagReport.add_func_eq]
      exact hlen
    · show (report.add_func request_id record).results = _
      rw [TagReport.add_func_eq, tag_updates, Option.elim_some, table_update, keyed_tag_samples]
      exact hres
  | delete request_id record =>
    obtain ⟨hstd, hid⟩ := TagReport.sameHeader_delete request_id report record
    obtain ⟨hlen, hres⟩ := TagReport.fold_timers (tag_row_delete request_id) record.data hdistinct hscratch
    refine ⟨hstd, hid, ?_⟩
    show (report.delete_func request_id record).words.length = _ ∧ (report.delete_func request_id record).results = _
    rw [TagReport.delete_func_eq, tag_delete, tag_updates]
    by_cases hcheck : report.std.delete_check record = true
    · rw [if_pos hcheck, if_pos hcheck]
      exact ⟨hscratch, rfl⟩
    · rw [if_neg hcheck, if_neg hcheck, Option.elim_some, table_update, keyed_tag_samples]
      split
      · next hmiss =>
        refine ⟨hscratch, ?_⟩
        rw [← tag_row_delete_eq, foldl_tag_row_delete_of_missing hmiss]
      · rw [← tag_row_delete_eq]
        exact ⟨hlen, hres⟩

theorem tag_calls_results {report : TagReport k} {calls : List ReportCall}
    (hdistinct : ∀ call ∈ calls, ∀ timer ∈ call.record.timers, timer.DistinctTags)
    (hscratch : report.words.length = report.tag_id.length) :
    (calls.foldl tag_call report).results = (calls.filterMap (tag_updates k report.std report.tag_id)).foldl
      (table_update (rowStore TagRow k.nested) (tag_model report.std.buckets)) report.results := by
  have hstep (v : TagReport k) (call : ReportCall)
      (hready : v.std = report.std ∧ v.tag_id = report.tag_id ∧ v.words.length = report.tag_id.length)
      (hdistinct : ∀ timer ∈ call.record.timers, timer.DistinctTags) :
      ((tag_call v call).std = report.std ∧ (tag_call v call).tag_id = report.tag_id ∧
        (tag_call v call).words.length = report.tag_id.length) ∧
      (tag_call v call).results = (tag_updates k report.std report.tag_id call).elim v.results
        (table_update (rowStore TagRow k.nested) (tag_model report.std.buckets) v.results) := by
    obtain ⟨hstd, hid, hlen⟩ := hready
    obtain ⟨hstd', hid', hlen', hresults⟩ := tag_call_results hdistinct (hlen.trans (congrArg List.length hid).symm)
    rw [hstd, hid] at hresults
    exact ⟨⟨hstd'.trans hstd, hid'.trans hid, hlen'.trans (congrArg List.length hid)⟩, hresults⟩
  exact foldl_calls hstep ⟨rfl, rfl, hscratch⟩ hdistinct

/-- Through any calls of the update functions of a timer tag report, whatever else is in
    memory: no call uses a block that is not there, and at every return the new blocks
    are a report with the rows and the row count of the table that skips the samples
    without memory. If all rows found memory and no timer repeats a tag, this is the
    value-level report. The scratch arrays `words` and `index` are no blocks here. -/
theorem tag_report_in_memory (k : TagKind) (cond : Conditions) (buckets : BucketChoice) (tag_id : List Int)
    (lib : MapLibrary (SlotRow TagFields)) (hstrdup : ∀ m, lib.strdup.answer m ≠ none) (calls : List ReportCall)
    (m : BlockMemory (Cell (SlotRow TagFields))) :
    ∃ r m', update_all lib (tag_code k tag_id.length buckets)
        (calls.filterMap (tag_updates k (.created cond buckets) tag_id)) ⟨none, 0⟩ m = some (r, m') ∧
      ∀ report, r = .ok report → ∃ t own, InMemory tag_view k.nested (rowStore TagRow k.nested) report t own ∧
        m'.all = own + m.all ∧
        TableAfter lib (rowStore TagRow k.nested) (tag_model buckets)
          (calls.filterMap (tag_updates k (.created cond buckets) tag_id)) ⟨(rowStore TagRow k.nested).empty, 0⟩ t ∧
        ((∀ m, lib.calloc.answer m ≠ none) →
          (∀ call ∈ calls, ∀ timer ∈ call.record.timers, timer.DistinctTags) →
          t = (calls.foldl tag_call (TagReport.created k cond buckets tag_id)).results) := by
  have hlib : Supplied lib (tag_code k tag_id.length buckets) := ⟨hstrdup, fun h => absurd h (by simp [tag_code])⟩
  obtain ⟨r, m', hr, hreturns⟩ := update_all_in_memory (rowStore TagRow k.nested) hlib
    (tag_models k tag_id.length buckets) rfl (calls.filterMap (tag_updates k (.created cond buckets) tag_id)) m
  refine ⟨r, m', hr, ?_⟩
  intro report hreport
  obtain ⟨t, own, hmemory, hm', hafter, hfull⟩ := hreturns report hreport
  refine ⟨t, own, hmemory, hm', hafter, ?_⟩
  intro hcalloc hdistinct
  have hscratch : (TagReport.created k cond buckets tag_id).words.length =
    (TagReport.created k cond buckets tag_id).tag_id.length := List.length_replicate
  rw [hfull hcalloc]
  exact (tag_calls_results hdistinct hscratch).symm

theorem tag_report_in_memory_two_requests : ∃ r m',
    update_all MapMemory.plenty (tag_code .tag_report 1 single_bucket)
      (two_requests.filterMap (tag_updates .tag_report (.created .none single_bucket) [1])) ⟨none, 0⟩ empty =
        some (r, m') ∧
      ∀ report, r = .ok report → ∃ own, InMemory tag_view true (rowStore TagRow true) report
        (two_requests.foldl tag_call (TagReport.created .tag_report .none single_bucket [1])).results own ∧
        m'.all = own := by
  obtain ⟨r, m', hr, hreturns⟩ := tag_report_in_memory .tag_report .none single_bucket [1] MapMemory.plenty
    (fun _ => nofun) two_requests empty
  refine ⟨r, m', hr, ?_⟩
  intro report hreport
  obtain ⟨t, own, hmemory, hm', -, hresults⟩ := hreturns report hreport
  rw [hresults (fun _ => nofun) (by decide)] at hmemory
  exact ⟨own, hmemory, hm'.trans (add_zero own)⟩

end tags

/-! ## Section 3: Request tag reports -/

/-- The kinds with an array of tag values. -/
def rtag_array : RtagKind → Bool
  | .rtagN_info | .rtagN_report => true
  | _ => false

/-- The update functions of the request tag reports. -/
def rtag_code (k : RtagKind) (tags_cnt : Nat) (buckets : BucketChoice) :
    RowCode RequestData (CountRow RequestSums) where
  nested := k.nested
  order := .unlink_last
  tag_value := rtag_array k && decide (0 < tags_cnt)
  calloc_check := true
  lmap_create := false
  buckets := buckets
  time data := data.req_time.toTimeval
  count _ := 1
  fresh _ _ := ⟨0, .zero⟩
  old _ row := row
  both _ data row := { members := row.members + 1, acc := row.acc.add data }
  leave _ row := { row with members := row.members - 1 }
  last row := row.members = 0
  stay data row := { row with acc := row.acc.sub data }

def request_view (row : CountRow RequestSums) (histogram_data : Histogram) : RequestRow :=
  ⟨row.members, { toRequestSums := row.acc, histogram_data := histogram_data }⟩

def request_model (buckets : BucketChoice) : RowModel RequestData RequestRow where
  insert _ := CountRow.insert (rowSums buckets)
  remove _ := CountRow.remove (rowSums buckets)

theorem rtag_models (k : RtagKind) (tags_cnt : Nat) (buckets : BucketChoice) :
    Models (rtag_code k tags_cnt buckets) request_view (request_model buckets) where
  insert_new _ _ := rfl
  insert_old _ _ _ _ := rfl
  remove_last s x row h hlast := by
    simp only [rtag_code, decide_eq_true_eq] at hlast
    exact if_pos hlast
  remove_stay s x row h hlast := by
    simp only [rtag_code, decide_eq_false_iff_not] at hlast
    exact if_neg hlast

section rtags
variable {k : RtagKind}

/-- A call on the value-level report. -/
def rtag_call (report : RtagReport k) : ReportCall → RtagReport k
  | .add _ record => report.add_func record
  | .delete _ record => report.delete_func record

/-- The calls that get past the checks and find the tags of the report. -/
def rtag_updates (k : RtagKind) (std : StdReport) (tags : List Word) : ReportCall → Option (Update RequestData)
  | .add request_id record => (k.key tags record.data).map fun index =>
    .add record.data.hostname.bytes request_id [(row_index k.nested index, record.data)]
  | .delete request_id record =>
    if std.delete_check record then none
    else (k.key tags record.data).map fun index =>
      .delete record.data.hostname.bytes request_id [(row_index k.nested index, record.data)]

theorem row_key_of_key {tags : List Word} {data : RequestData} {index : RowKey k.nested}
    (h : k.key tags data = some index) :
    row_key k.nested data.hostname.bytes (row_index k.nested index) = index := by
  cases k with
  | rtag_info | rtag2_info | rtagN_info => rfl
  | _ =>
    obtain ⟨_, -, rfl⟩ := Option.map_eq_some_iff.mp h
    simp only [row_key, row_index]

theorem removeOne_eq (nested : Bool) (request_id : Nat) (buckets : BucketChoice) :
    Table.removeOne (rowStore RequestRow nested) (rowSums buckets) =
      removeRow (rowStore RequestRow nested) ((request_model buckets).remove request_id) := by
  funext t e
  unfold Table.removeOne removeRow request_model
  cases (rowStore RequestRow nested).get t.rows e.1 with
  | none => rfl
  | some d =>
    dsimp only
    cases CountRow.remove (rowSums buckets) e.2 d <;> rfl

/-- A call changes the rows as its update does, and keeps what the selection needs. -/
theorem rtag_call_results (report : RtagReport k) (call : ReportCall) :
    (rtag_call report call).std = report.std ∧ (rtag_call report call).tags = report.tags ∧
    (rtag_call report call).results = (rtag_updates k report.std report.tags call).elim report.results
      (table_update (rowStore RequestRow k.nested) (request_model report.std.buckets) report.results) := by
  cases call with
  | add request_id record =>
    refine ⟨RtagReport.std_add_func report record, RtagReport.tags_add_func report record, ?_⟩
    show (report.add_func record).results = _
    rw [RtagReport.add_func_eq, rtag_add, rtag_updates]
    cases hkey : k.key report.tags record.data with
    | none => rfl
    | some index =>
      rw [Option.map_some, Option.elim_some, table_update, keyed_samples, List.map_singleton,
        row_key_of_key hkey]
      rfl
  | delete request_id record =>
    refine ⟨RtagReport.std_delete_func report record, RtagReport.tags_delete_func report record, ?_⟩
    show (report.delete_func record).results = _
    rw [RtagReport.delete_func_eq, rtag_delete, rtag_updates]
    by_cases hcheck : report.std.delete_check record = true
    · rw [if_pos hcheck, if_pos hcheck]
      rfl
    · rw [if_neg hcheck, if_neg hcheck]
      cases hkey : k.key report.tags record.data with
      | none => rfl
      | some index =>
        rw [Option.map_some, Option.elim_some, table_update, keyed_samples, List.map_singleton,
          row_key_of_key hkey, List.foldl_cons, List.foldl_nil]
        dsimp only
        cases hrow : (rowStore RequestRow k.nested).get report.results.rows index with
        | none => exact (removeRow_of_none (e := (index, record.data)) hrow).symm
        | some row => rw [← removeOne_eq]

theorem rtag_calls_results (report : RtagReport k) (calls : List ReportCall) :
    (calls.foldl rtag_call report).results = (calls.filterMap (rtag_updates k report.std report.tags)).foldl
      (table_update (rowStore RequestRow k.nested) (request_model report.std.buckets)) report.results := by
  have hstep (v : RtagReport k) (call : ReportCall) (hready : v.std = report.std ∧ v.tags = report.tags) (_ : True) :
      ((rtag_call v call).std = report.std ∧ (rtag_call v call).tags = report.tags) ∧
      (rtag_call v call).results = (rtag_updates k report.std report.tags call).elim v.results
        (table_update (rowStore RequestRow k.nested) (request_model report.std.buckets) v.results) := by
    obtain ⟨hstd, htags⟩ := hready
    obtain ⟨hstd', htags', hresults⟩ := rtag_call_results v call
    rw [hstd, htags] at hresults
    exact ⟨⟨hstd'.trans hstd, htags'.trans htags⟩, hresults⟩
  exact foldl_calls hstep ⟨rfl, rfl⟩ fun _ _ => trivial

/-- The same for request tag reports. -/
theorem rtag_report_in_memory (k : RtagKind) (cond : Conditions) (buckets : BucketChoice) (tags : List Word)
    (lib : MapLibrary (CountRow RequestSums)) (hstrdup : ∀ m, lib.strdup.answer m ≠ none)
    (calls : List ReportCall) (m : BlockMemory (Cell (CountRow RequestSums))) :
    ∃ r m', update_all lib (rtag_code k tags.length buckets)
        (calls.filterMap (rtag_updates k (.created cond buckets) tags)) ⟨none, 0⟩ m = some (r, m') ∧
      ∀ report, r = .ok report → ∃ t own,
        InMemory request_view k.nested (rowStore RequestRow k.nested) report t own ∧ m'.all = own + m.all ∧
        TableAfter lib (rowStore RequestRow k.nested) (request_model buckets)
          (calls.filterMap (rtag_updates k (.created cond buckets) tags))
          ⟨(rowStore RequestRow k.nested).empty, 0⟩ t ∧
        ((∀ m, lib.calloc.answer m ≠ none) →
          t = (calls.foldl rtag_call (RtagReport.created k cond buckets tags)).results) := by
  have hlib : Supplied lib (rtag_code k tags.length buckets) := ⟨hstrdup, fun h => absurd h (by simp [rtag_code])⟩
  obtain ⟨r, m', hr, hreturns⟩ := update_all_in_memory (rowStore RequestRow k.nested) hlib
    (rtag_models k tags.length buckets) rfl (calls.filterMap (rtag_updates k (.created cond buckets) tags)) m
  refine ⟨r, m', hr, ?_⟩
  intro report hreport
  obtain ⟨t, own, hmemory, hm', hafter, hfull⟩ := hreturns report hreport
  refine ⟨t, own, hmemory, hm', hafter, ?_⟩
  intro hcalloc
  rw [hfull hcalloc]
  exact (rtag_calls_results (RtagReport.created k cond buckets tags) calls).symm

theorem rtag_report_in_memory_two_requests : ∃ r m',
    update_all MapMemory.plenty (rtag_code .rtag_report 1 single_bucket)
      (two_requests.filterMap (rtag_updates .rtag_report (.created .none single_bucket) [default]))
      ⟨none, 0⟩ empty = some (r, m') ∧
      ∀ report, r = .ok report → ∃ own, InMemory request_view true (rowStore RequestRow true) report
        (two_requests.foldl rtag_call (RtagReport.created .rtag_report .none single_bucket [default])).results
          own ∧ m'.all = own := by
  obtain ⟨r, m', hr, hreturns⟩ := rtag_report_in_memory .rtag_report .none single_bucket [default]
    MapMemory.plenty (fun _ => nofun) two_requests empty
  refine ⟨r, m', hr, ?_⟩
  intro report hreport
  obtain ⟨t, own, hmemory, hm', -, hresults⟩ := hreturns report hreport
  rw [hresults fun _ => nofun] at hmemory
  exact ⟨own, hmemory, hm'.trans (add_zero own)⟩

end rtags

/-! ## Section 4: Base reports -/

/-- The update functions of the base reports. The histogram is made with the row, and
    nothing checks that there was memory for the row. -/
def base_code (buckets : BucketChoice) : RowCode RequestData (CountRow RequestSums) where
  nested := false
  order := .unlink_last
  tag_value := false
  calloc_check := false
  lmap_create := true
  buckets := buckets
  time data := data.req_time.toTimeval
  count _ := 1
  fresh _ _ := ⟨0, .zero⟩
  old _ row := row
  both _ data row := { members := row.members + 1, acc := row.acc.add data }
  leave _ row := row
  last row := row.members = 1
  stay data row := { members := row.members - 1, acc := row.acc.sub data }

theorem base_models (buckets : BucketChoice) : Models (base_code buckets) request_view (request_model buckets) where
  insert_new _ _ := rfl
  insert_old _ _ _ _ := rfl
  remove_last s x row h hlast := by
    simp only [base_code, decide_eq_true_eq] at hlast
    have hzero : row.members - 1 = 0 := by omega
    exact if_pos hzero
  remove_stay s x row h hlast := by
    simp only [base_code, decide_eq_false_iff_not] at hlast
    have hpos : ¬ row.members - 1 = 0 := by omega
    exact if_neg hpos

section bases
variable {lib : MapLibrary (CountRow RequestSums)} {own : Blocks (Cell (CountRow RequestSums))}
  {rows : ReportRows} {report : BaseReport} {index : RequestData → Bytes}

/-- A call on the value-level report. -/
def base_call (report : BaseReport) : ReportCall → BaseReport
  | .add _ record => report.add_func record
  | .delete _ record => report.delete_func record

/-- The calls of a report with the key `index`; deletes do nothing on an empty report. -/
def base_calls (lib : MapLibrary (CountRow RequestSums)) (index : RequestData → Bytes) (std : StdReport) :
    List ReportCall → ReportRows → MapProgram (CountRow RequestSums) ReportRows
  | [], rows => return rows
  | .add request_id record :: calls, rows => do
    base_calls lib index std calls
      (← add_request lib (base_code std.buckets) [] request_id [(index record.data, record.data)] rows)
  | .delete request_id record :: calls, rows =>
    if rows.results_cnt = 0 then base_calls lib index std calls rows
    else if std.delete_check record then base_calls lib index std calls rows
    else do
      base_calls lib index std calls
        (← delete_request lib (base_code std.buckets) [] request_id [(index record.data, record.data)] rows)

theorem kind_base_call (call : ReportCall) (hindex : report.kind.index = some index) :
    (base_call report call).kind = report.kind := by
  cases call with
  | add request_id record =>
    show (report.add_func record).kind = _
    rw [BaseReport.add_func_eq, hindex]
    rfl
  | delete request_id record =>
    show (report.delete_func record).kind = _
    rw [BaseReport.delete_func_eq, hindex]
    show (base_delete index report record).kind = _
    by_cases hzero : report.results.rowCount = 0
    · rw [base_delete, if_pos hzero]
    · cases hcheck : report.std.delete_check record with
      | true => rw [BaseReport.base_delete_old index hcheck]
      | false => rw [BaseReport.base_delete_eq index hzero hcheck]

theorem std_base_call (call : ReportCall) : (base_call report call).std = report.std := by
  cases call with
  | add request_id record => exact BaseReport.std_add_func report record
  | delete request_id record => exact BaseReport.std_delete_func report record

/-- The blocks follow the value-level report through all calls. -/
theorem runs_base_calls (hstrdup : ∀ m, lib.strdup.answer m ≠ none) (hcalloc : ∀ m, lib.calloc.answer m ≠ none)
    (calls : List ReportCall) (hindex : report.kind.index = some index)
    (hmemory : InMemory request_view false (rowStore RequestRow false) rows report.results own) :
    Runs (base_calls lib index report.std calls rows) own
      (fun rows' own' => InMemory request_view false (rowStore RequestRow false) rows'
        (calls.foldl base_call report).results own')
      terminates := by
  have hlib : Supplied lib (base_code report.std.buckets) := ⟨hstrdup, fun _ => hcalloc⟩
  induction calls generalizing report rows own with
  | nil => exact runs_pure hmemory
  | cons call calls ih =>
    have hnext {rows' : ReportRows} {own' : Blocks (Cell (CountRow RequestSums))}
        (h : InMemory request_view false (rowStore RequestRow false) rows' (base_call report call).results own') :
        Runs (base_calls lib index report.std calls rows') own'
          (fun rows' own' => InMemory request_view false (rowStore RequestRow false) rows'
            ((call :: calls).foldl base_call report).results own')
          terminates := by
      rw [← std_base_call call]
      exact ih (by rw [kind_base_call call hindex]; exact hindex) h (by rw [std_base_call]; exact hlib)
    cases call with
    | add request_id record =>
      refine runs_bind (runs_add_request hlib (base_models report.std.buckets) rfl [] request_id _ hmemory) ?_
      intro rows' own' ⟨t, hadds, hmemory'⟩
      refine hnext ?_
      show InMemory _ _ _ _ (report.add_func record).results _
      rw [BaseReport.add_func_eq, hindex]
      rw [hadds.eq_foldl hcalloc] at hmemory'
      exact hmemory'
    | delete request_id record =>
      have hresults : (base_call report (.delete request_id record)).results =
          (base_delete index report record).results := by
        show (report.delete_func record).results = _
        rw [BaseReport.delete_func_eq, hindex]
      have hcount : rows.results_cnt = report.results.rowCount := by
        obtain ⟨ns, -, hshows⟩ := hmemory
        exact hshows.results_cnt
      unfold base_calls
      by_cases hzero : rows.results_cnt = 0
      · rw [if_pos hzero]
        refine hnext ?_
        rw [hresults, base_delete, if_pos (hcount.symm.trans hzero)]
        exact hmemory
      rw [if_neg hzero]
      cases hcheck : report.std.delete_check record with
      | true =>
        rw [if_pos rfl]
        refine hnext ?_
        rw [hresults, BaseReport.base_delete_old index hcheck]
        exact hmemory
      | false =>
        rw [if_neg Bool.false_ne_true]
        refine runs_bind (runs_delete_request (base_models report.std.buckets) rfl [] request_id _ hmemory) ?_
        intro rows' own' hmemory'
        refine hnext ?_
        rw [hresults, BaseReport.base_delete_eq index (fun h => hzero (hcount.trans h)) hcheck]
        show InMemory _ _ _ _ (Table.removeOne (rowStore RequestRow false) (rowSums report.std.buckets)
          report.results (index record.data, record.data)) _
        rw [removeOne_eq false request_id]
        exact hmemory'

variable (lib) in
/-- Base reports do not check `calloc`: with memory for every row, the blocks are those of
    the value-level report after any calls. -/
theorem base_report_in_memory (kind : BaseKind) (cond : Conditions) (buckets : BucketChoice)
    (hindex : kind.index = some index) (hstrdup : ∀ m, lib.strdup.answer m ≠ none)
    (hcalloc : ∀ m, lib.calloc.answer m ≠ none) (calls : List ReportCall)
    (m : BlockMemory (Cell (CountRow RequestSums))) :
    ∃ r m', base_calls lib index (.created cond buckets) calls ⟨none, 0⟩ m = some (r, m') ∧
      ∀ rows, r = .ok rows → ∃ own, InMemory request_view false (rowStore RequestRow false) rows
        (calls.foldl base_call (BaseReport.created kind cond buckets)).results own ∧ m'.all = own + m.all := by
  have hkind : (BaseReport.created kind cond buckets).kind.index = some index := hindex
  obtain ⟨r, m', own, hr, hm', hout⟩ :=
    runs_base_calls hstrdup hcalloc calls hkind inMemory_empty m m.all (zero_add _).symm
  refine ⟨r, m', hr, ?_⟩
  intro rows hrows
  subst hrows
  exact ⟨own, hout, hm'⟩

theorem base_report_in_memory_two_requests : ∃ r m',
    base_calls MapMemory.plenty report1_index (.created .none single_bucket) two_requests ⟨none, 0⟩ empty =
        some (r, m') ∧
      ∀ rows, r = .ok rows → ∃ own, InMemory request_view false (rowStore RequestRow false) rows
        (two_requests.foldl base_call (BaseReport.created .report1 .none single_bucket)).results own ∧
        m'.all = own := by
  obtain ⟨r, m', hr, hreturns⟩ := base_report_in_memory MapMemory.plenty .report1 .none single_bucket rfl
    (fun _ => nofun) (fun _ => nofun) two_requests empty
  refine ⟨r, m', hr, ?_⟩
  intro rows hrows
  obtain ⟨own, hmemory, hm'⟩ := hreturns rows hrows
  exact ⟨own, hmemory, hm'.trans (add_zero own)⟩

end bases

end RowMemory

end PinbaEngine
