import PinbaEngine.Histogram
import PinbaEngine.Lib.SlotTable

/-! # What all reports share

    The common header of a report (`pinba_std_report`), its condition filter,
    and the start watermark that tells the records it has seen from the records
    that were already in the ring when it was created.

    The two time limits of a condition are compared with a float. They are kept
    as two predicates of the request time.
-/

namespace PinbaEngine

/-! ## Section 1: Conditions -/

/-- `pinba_conditions` and the two flags that switch its parts on. -/
structure Conditions where
  /-- `PINBA_REPORT_CONDITIONAL`. -/
  conditional : Bool
  /-- `min_time > 0.0` and the request time is below it. -/
  below_min : Timeval → Bool
  /-- `max_time > 0.0` and the request time is above it. -/
  above_max : Timeval → Bool
  /-- `PINBA_REPORT_TAGGED`. -/
  tagged : Bool
  /-- Names and values of the required tags, `tags_cnt` of them. -/
  tags : List (Word × Word)

namespace Conditions

/-- The inner loop over the tags of a record for one condition: the running
    count, and whether a wrong value ended the whole search (`goto skip`). -/
def scan_record_tags (cond : Word × Word) : List (Word × Word) → Nat → Nat × Bool
  | [], found_tags => (found_tags, false)
  | tag :: tags, found_tags =>
    if cond.1.ptr = tag.1.ptr then
      if cond.2.ptr = tag.2.ptr then scan_record_tags cond tags (found_tags + 1)
      else (found_tags, true)
    else scan_record_tags cond tags found_tags

/-- The loop over the conditions. -/
def found_tags (tags : List (Word × Word)) : List (Word × Word) → Nat → Nat
  | [], found => found
  | cond :: conds, found =>
    match scan_record_tags cond tags found with
    | (found, true) => found
    | (found, false) => found_tags tags conds found

/-- `CHECK_REPORT_CONDITIONS_CONTINUE` lets the record through. -/
def check (cond : Conditions) (data : RequestData) : Bool :=
  !(cond.conditional &&
      (cond.below_min data.req_time.toTimeval || cond.above_max data.req_time.toTimeval)) &&
    !(cond.tagged &&
      (data.tags.isEmpty || found_tags data.tags cond.tags 0 ≠ cond.tags.length))

/-- No conditions. -/
def none : Conditions := ⟨false, fun _ => false, fun _ => false, false, []⟩

@[simp] theorem check_none (data : RequestData) : none.check data = true := rfl

end Conditions

/-! ## Section 2: The report header -/

/-- The part of `pinba_std_report` that accounting depends on. The counter
    `results_cnt` is kept with the rows it counts. -/
structure StdReport where
  cond : Conditions
  buckets : BucketChoice
  /-- Time of the first record the report has seen; zero seconds if unset. -/
  start : Timeval
  request_pool_start_id : Nat

namespace StdReport

variable (std : StdReport) (record : StatsRecord)

/-- `PINBA_REPORT_DELETE_CHECK`: the record is older than the report. -/
def delete_check : Bool :=
  record.time.lt std.start ||
    (std.start.eq record.time && decide (record.counter < std.request_pool_start_id))

/-- The record is at or after the start watermark. -/
def since : Bool := !std.delete_check record

/-- `start.tv_sec == 0`. -/
def unset : Prop := std.start.tv_sec = 0

instance : Decidable std.unset := inferInstanceAs (Decidable (_ = _))

/-- Take over time and counter of a record as the start. -/
def set_start : StdReport :=
  { std with start := record.time, request_pool_start_id := record.counter }

/-- The header of a report that was just created. -/
def created (cond : Conditions) (buckets : BucketChoice) : StdReport :=
  ⟨cond, buckets, ⟨0, 0⟩, 0⟩

variable {std record}

theorem delete_check_eq_not_since : std.delete_check record = !std.since record := by
  simp [since]

/-- A record whose time and counter are at least the start's is not older. -/
theorem since_of_le (ht : record.time.lt std.start = false)
    (hc : record.time = std.start → std.request_pool_start_id ≤ record.counter) :
    std.since record = true := by
  unfold since delete_check
  rw [ht, Bool.false_or, Bool.not_eq_true', Bool.and_eq_false_iff]
  by_cases heq : std.start = record.time
  · right
    have := hc heq.symm
    simp
    omega
  · left
    exact Bool.eq_false_iff.mpr (fun h => heq (Timeval.eq_iff.mp h))

/-- A record of an earlier batch is older than a start taken from this one. -/
theorem not_since_of_before {first : StatsRecord} (ht : first.time.lt record.time = false)
    (hc : record.counter < first.counter) : (std.set_start first).since record = false := by
  have hdel : (std.set_start first).delete_check record = true := by
    unfold delete_check set_start
    simp only
    by_cases heq : record.time = first.time
    · simp [heq, Timeval.eq_iff, hc]
    · rw [Timeval.lt_of_not_lt_of_ne ht heq, Bool.true_or]
  simp [since, hdel]

end StdReport

/-! ## Section 3: Where rows are kept

    A report keeps its rows in one map, or in one map for every script or host
    name. The inner maps of the second form are created on demand and destroyed
    when `pinba_map_delete` reports them empty. -/

/-- The key of a row: its index, below an outer name if rows are nested. -/
abbrev RowKey : Bool → Type
  | false => Bytes
  | true => Bytes × Bytes

instance : (nested : Bool) → DecidableEq (RowKey nested)
  | false => inferInstanceAs (DecidableEq Bytes)
  | true => inferInstanceAs (DecidableEq (Bytes × Bytes))

/-- The key of a row below the name of its outer map, if there is one. -/
def row_key : (nested : Bool) → Bytes → Bytes → RowKey nested
  | false, _, index => index
  | true, outer, index => (outer, index)

/-- `report->results`. -/
abbrev RowStore (ρ : Type) : Bool → Type
  | false => AList fun _ : Bytes => ρ
  | true => KeyedStore.Nested Bytes Bytes ρ

/-- The map operations on `report->results`. -/
def rowStore (ρ : Type) : (nested : Bool) → KeyedStore (RowKey nested) ρ (RowStore ρ nested)
  | false => KeyedStore.flat
  | true => KeyedStore.nested

/-! ## Section 4: Sums over requests -/

/-- The totals of a report, and the sums of a row of a base or request tag
    report without its histogram. -/
structure RequestSums where
  time_total : Timeval
  ru_utime_total : Timeval
  ru_stime_total : Timeval
  kbytes_total : ℚ
  memory_footprint : ℚ

/-- The sums and the histogram of one row. -/
structure RowSums extends RequestSums where
  histogram_data : Histogram

namespace RequestSums

def zero : RequestSums := ⟨.zero, .zero, .zero, 0, 0⟩

/-- The sequence of `pinba_timeradd` and `+=` in the add functions. -/
def add (data : RequestData) (sums : RequestSums) : RequestSums where
  time_total := sums.time_total.pinba_timeradd data.req_time.toTimeval
  ru_utime_total := sums.ru_utime_total.pinba_timeradd data.ru_utime.toTimeval
  ru_stime_total := sums.ru_stime_total.pinba_timeradd data.ru_stime.toTimeval
  kbytes_total := sums.kbytes_total + data.doc_size
  memory_footprint := sums.memory_footprint + data.memory_footprint

/-- The sequence of `pinba_timersub` and `-=` in the delete functions. -/
def sub (data : RequestData) (sums : RequestSums) : RequestSums where
  time_total := sums.time_total.pinba_timersub data.req_time.toTimeval
  ru_utime_total := sums.ru_utime_total.pinba_timersub data.ru_utime.toTimeval
  ru_stime_total := sums.ru_stime_total.pinba_timersub data.ru_stime.toTimeval
  kbytes_total := sums.kbytes_total - data.doc_size
  memory_footprint := sums.memory_footprint - data.memory_footprint

/-- The sums are the exact totals of the requests `m`; time values are
    normalised. -/
structure Of (sums : RequestSums) (m : Multiset RequestData) : Prop where
  time : (timevalSum RequestData.req_time).Rep sums.time_total m
  utime : (timevalSum RequestData.ru_utime).Rep sums.ru_utime_total m
  stime : (timevalSum RequestData.ru_stime).Rep sums.ru_stime_total m
  kbytes : (Accumulator.ofSum RequestData.doc_size).Rep sums.kbytes_total m
  memory : (Accumulator.ofSum RequestData.memory_footprint).Rep sums.memory_footprint m

theorem of_zero : zero.Of 0 :=
  ⟨Accumulator.rep_zero _, Accumulator.rep_zero _, Accumulator.rep_zero _,
    Accumulator.rep_zero _, Accumulator.rep_zero _⟩

theorem of_add {sums : RequestSums} {m : Multiset RequestData} (data : RequestData)
    (h : sums.Of m) : (sums.add data).Of (data ::ₘ m) :=
  ⟨Accumulator.rep_add _ _ _ _ h.time, Accumulator.rep_add _ _ _ _ h.utime,
    Accumulator.rep_add _ _ _ _ h.stime, Accumulator.rep_add _ _ _ _ h.kbytes,
    Accumulator.rep_add _ _ _ _ h.memory⟩

theorem of_sub {sums : RequestSums} {m : Multiset RequestData} (data : RequestData)
    (h : sums.Of (data ::ₘ m)) : (sums.sub data).Of m :=
  ⟨Accumulator.rep_sub _ _ _ _ h.time, Accumulator.rep_sub _ _ _ _ h.utime,
    Accumulator.rep_sub _ _ _ _ h.stime, Accumulator.rep_sub _ _ _ _ h.kbytes,
    Accumulator.rep_sub _ _ _ _ h.memory⟩

end RequestSums

/-- The bucket samples of base and request tag rows: every request has weight
    one. -/
abbrev RequestHistogram (buckets : BucketChoice) : Histogram → Multiset RequestData → Prop :=
  HistogramOf buckets (fun data => data.req_time.toTimeval) fun _ => 1

/-- Rows of base and request tag reports. -/
def rowSums (buckets : BucketChoice) : Accumulator RequestData RowSums where
  zero := { toRequestSums := .zero, histogram_data := ∅ }
  single data :=
    { toRequestSums := RequestSums.zero.add data
      histogram_data := pinba_update_histogram buckets ∅ data.req_time.toTimeval 1 }
  add data row :=
    { toRequestSums := row.toRequestSums.add data
      histogram_data := pinba_update_histogram buckets row.histogram_data data.req_time.toTimeval 1 }
  sub data row :=
    { toRequestSums := row.toRequestSums.sub data
      histogram_data :=
        pinba_update_histogram buckets row.histogram_data data.req_time.toTimeval (-1) }
  Rep row m := row.toRequestSums.Of m ∧ RequestHistogram buckets row.histogram_data m
  rep_zero := ⟨RequestSums.of_zero, histogramOf_empty⟩
  rep_single data := ⟨RequestSums.of_add data RequestSums.of_zero, histogramOf_add histogramOf_empty⟩
  rep_add data _ _ h := ⟨RequestSums.of_add data h.1, histogramOf_add h.2⟩
  rep_sub data _ _ h := ⟨RequestSums.of_sub data h.1, histogramOf_sub h.2⟩

end PinbaEngine
