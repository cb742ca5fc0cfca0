import PinbaEngine.Reports.Base
import PinbaEngine.Reports.Rtag
import PinbaEngine.Reports.Tag

/-! # What exact accounting means

    The `Accounts` predicates of the families are made for induction. Here the
    same facts are spelled out field by field: which rows exist, what each
    column of a row sums up, what the histogram of a row holds.
-/

namespace PinbaEngine

/-! ## Section 1: Sums and histograms -/

/-- A running time is the exact sum over some samples, in normalised form. -/
structure ExactTime {X : Type*} (time : Timeval) (f : X → Duration) (samples : List X) : Prop where
  normalised : time.Normalised
  micros : time.micros = (samples.map fun x => (f x).micros).sum

/-- The sums are those of the requests. -/
structure RequestSums.Exact (sums : RequestSums) (requests : List RequestData) : Prop where
  time_total : ExactTime sums.time_total RequestData.req_time requests
  ru_utime_total : ExactTime sums.ru_utime_total RequestData.ru_utime requests
  ru_stime_total : ExactTime sums.ru_stime_total RequestData.ru_stime requests
  kbytes_total : sums.kbytes_total = (requests.map RequestData.doc_size).sum
  memory_footprint : sums.memory_footprint = (requests.map RequestData.memory_footprint).sum

/-- The sums are those of the timers. -/
structure TagSums.Exact (sums : TagSums) (timers : List TimerRecord) : Prop where
  hit_count : sums.hit_count = ((timers.map TimerRecord.hit_count).sum : Nat)
  timer_value : ExactTime sums.timer_value TimerRecord.value timers
  ru_utime_value : ExactTime sums.ru_utime_value TimerRecord.ru_utime timers
  ru_stime_value : ExactTime sums.ru_stime_value TimerRecord.ru_stime timers

/-- The histogram holds exactly the buckets of the samples, with positive counts
    below `histogram_size`. -/
structure ExactHistogram {X : Type*} (buckets : BucketChoice) (time : X → Duration)
    (weight : X → Nat) (histogram : Histogram) (samples : List X) : Prop where
  bucket : ∀ b, (histogram.lookup b).getD 0 =
    (((samples.filter fun x => buckets.slot (time x).toTimeval (weight x) = b).map weight).sum : Nat)
  mass : histogram.mass = ((samples.map weight).sum : Nat)
  stored : ∀ b v, histogram.lookup b = some v → b < buckets.histogram_size ∧ 0 < v

theorem sum_map_natCast {X : Type*} (weight : X → Nat) (samples : List X) :
    (samples.map fun x => (weight x : Int)).sum = ((samples.map weight).sum : Nat) := by
  induction samples with
  | nil => rfl
  | cons x samples ih => simp [ih]

theorem exactTime_of_rep {X : Type*} {time : Timeval} {f : X → Duration} {samples : List X}
    (h : (timevalSum f).Rep time ↑samples) : ExactTime time f samples :=
  ⟨h.1, by simpa using h.2⟩

theorem RequestSums.exact_of {sums : RequestSums} {requests : List RequestData}
    (h : sums.Of ↑requests) : sums.Exact requests :=
  ⟨exactTime_of_rep h.time, exactTime_of_rep h.utime, exactTime_of_rep h.stime,
    h.kbytes.trans (by simp), h.memory.trans (by simp)⟩

theorem exactHistogram_of {X : Type*} {buckets : BucketChoice} {time : X → Duration}
    {weight : X → Nat} {histogram : Histogram} {samples : List X}
    (h : HistogramOf buckets (fun x => (time x).toTimeval) weight histogram ↑samples) :
    ExactHistogram buckets time weight histogram samples := by
  refine ⟨?_, ?_, fun b v hv => h.mem hv⟩
  · intro b
    rw [h.bucket b, Histogram.getD_cell]
    simp [bucketMass, sum_map_natCast]
  · rw [h.mass]
    simp [sum_map_natCast]

theorem TagSums.exact_of {buckets : BucketChoice} {sums : TagSums} {timers : List TimerRecord}
    (h : sums.Of buckets ↑timers) : sums.Exact timers := by
  refine ⟨?_, exactTime_of_rep h.value, exactTime_of_rep h.utime, exactTime_of_rep h.stime⟩
  have hhits : sums.hit_count = _ := h.hits
  rw [hhits]
  simp [sum_map_natCast]

/-! ## Section 2: Rows of requests -/

section requests
variable {K S : Type*} [DecidableEq K] {st : KeyedStore K RequestRow S} {table : Table S}
  {key : RequestData → Option K} {buckets : BucketChoice} {requests : List RequestData}

/-- The requests of a group. -/
def group (key : RequestData → Option K) (requests : List RequestData) (k : K) :
    List RequestData := requests.filter fun r => key r = some k

/-- The rows are the groups of the requests: a row exists exactly for the keys
    that occur, counts and sums up its requests, and is counted in `results_cnt`. -/
structure ExactRows (st : KeyedStore K RequestRow S) (table : Table S)
    (key : RequestData → Option K) (requests : List RequestData) : Prop where
  present : ∀ k, (st.get table.rows k).isSome ↔ ∃ r ∈ requests, key r = some k
  req_count : ∀ k row, st.get table.rows k = some row →
    row.members = (group key requests k).length
  sums : ∀ k row, st.get table.rows k = some row →
    row.acc.toRequestSums.Exact (group key requests k)
  results_cnt : table.rowCount = st.size table.rows

/-- The histogram of a row holds the buckets of its requests, one each, and its
    mass is the row's `req_count`. -/
structure ExactRowHistogram (buckets : BucketChoice) (row : RequestRow)
    (requests : List RequestData) : Prop where
  histogram : ExactHistogram buckets RequestData.req_time (fun _ => 1) row.acc.histogram_data requests
  mass : row.acc.histogram_data.mass = row.members

theorem samplesOf_group (k : K) :
    Table.samplesOf k (requests.filterMap fun r => (key r).map fun i => (i, r)) =
      ↑(group key requests k) := by
  unfold group
  induction requests with
  | nil => rfl
  | cons r requests ih =>
    cases hk : key r with
    | none =>
      rw [List.filterMap_cons_none (by rw [hk]; rfl), ih, List.filter_cons_of_neg (by simp [hk])]
    | some i =>
      rw [List.filterMap_cons_some (b := (i, r)) (by rw [hk]; rfl)]
      by_cases hi : i = k
      · subst hi
        rw [Table.samplesOf_cons_self (e := (i, r)), ih, List.filter_cons_of_pos (by simp [hk])]
        rfl
      · rw [Table.samplesOf_cons_ne (e := (i, r)) (Ne.symm hi), ih,
          List.filter_cons_of_neg (by simp [hk, hi])]

section
variable (h : Table.Counts st (rowSums buckets) table
  (requests.filterMap fun r => (key r).map fun i => (i, r)))
include h

theorem row_of_counts {k : K} {row : RequestRow} (hrow : st.get table.rows k = some row) :
    group key requests k ≠ [] ∧ row.members = (group key requests k).length ∧
      (rowSums buckets).Rep row.acc ↑(group key requests k) := by
  have hk := h.row k
  rw [hrow, samplesOf_group] at hk
  obtain ⟨hne, hcard, hrep⟩ := hk
  exact ⟨fun hnil => hne (by rw [hnil]; rfl), by simpa using hcard, hrep⟩

theorem exactRows_of_counts : ExactRows st table key requests := by
  refine ⟨?_, fun k row hrow => (row_of_counts h hrow).2.1,
    fun k row hrow => RequestSums.exact_of (row_of_counts h hrow).2.2.1, h.count⟩
  intro k
  have hmem : (∃ r ∈ requests, key r = some k) ↔ group key requests k ≠ [] := by
    unfold group
    rw [ne_eq, List.filter_eq_nil_iff]
    simp
  rw [hmem]
  cases hrow : st.get table.rows k with
  | none =>
    have hk := h.row k
    rw [hrow, samplesOf_group] at hk
    have hnil : group key requests k = [] := Multiset.coe_eq_zero _ |>.mp hk
    simp [hnil]
  | some row => simp [(row_of_counts h hrow).1]

theorem exactRowHistogram_of_counts {k : K} {row : RequestRow}
    (hrow : st.get table.rows k = some row) :
    ExactRowHistogram buckets row (group key requests k) := by
  obtain ⟨-, hcard, hrep⟩ := row_of_counts h hrow
  have hexact : ExactHistogram buckets RequestData.req_time (fun _ => 1) row.acc.histogram_data
      (group key requests k) := exactHistogram_of hrep.2
  exact ⟨hexact, by rw [hexact.mass, hcard]; simp⟩

end

end requests

namespace BaseReport

variable {report : BaseReport} {w : List Entry}

/-- A base report is exact over the requests of some entries. `report_info` has
    no rows and counts its requests in `results_cnt`. -/
structure Exact (report : BaseReport) (w : List Entry) : Prop where
  totals : report.totals.Exact (dataOf w)
  rows : ∀ index, report.kind.index = some index →
    ExactRows KeyedStore.flat report.results (fun r => some (index r)) (dataOf w)
  requests : report.kind.index = none → report.results.rowCount = w.length

/-- Its histograms are. -/
structure ExactHistograms (report : BaseReport) (w : List Entry) : Prop where
  rows : ∀ index, report.kind.index = some index → ∀ k row,
    report.results.rows.lookup k = some row →
    ExactRowHistogram report.std.buckets row (group (fun r => some (index r)) (dataOf w) k)
  total : report.kind.index = none →
    ExactHistogram report.std.buckets RequestData.req_time (fun _ => 1) report.histogram_data
      (dataOf w) ∧ report.histogram_data.mass = report.results.rowCount

theorem counts_of_accounts (h : report.Accounts w) {index : RequestData → Bytes}
    (hi : report.kind.index = some index) :
    Table.Counts KeyedStore.flat (rowSums report.std.buckets) report.results
      ((dataOf w).filterMap fun r => (some (index r)).map fun i => (i, r)) := by
  have hrows := h.rows
  rw [hi] at hrows
  simpa [List.filterMap_eq_map'] using hrows

theorem exact_of_accounts (h : report.Accounts w) : report.Exact w := by
  refine ⟨RequestSums.exact_of h.totals,
    fun index hi => exactRows_of_counts (counts_of_accounts h hi), ?_⟩
  intro hi
  have hrows := h.rows
  rw [hi] at hrows
  rw [hrows.1, dataOf, List.length_map]

theorem exactHistograms_of_accounts (h : report.Accounts w) : report.ExactHistograms w := by
  refine ⟨fun index hi k row hrow =>
    exactRowHistogram_of_counts (counts_of_accounts h hi) hrow, ?_⟩
  intro hi
  have hrows := h.rows
  rw [hi] at hrows
  have hexact : ExactHistogram report.std.buckets RequestData.req_time (fun _ => 1)
      report.histogram_data (dataOf w) := exactHistogram_of hrows.2
  exact ⟨hexact, by rw [hexact.mass, hrows.1]; simp⟩

/-- A base report sees the requests of the records only. -/
theorem exact_congr {w' : List Entry} (hsame : dataOf w = dataOf w') (h : report.Exact w) :
    report.Exact w' := by
  refine ⟨hsame ▸ h.totals, hsame ▸ h.rows, ?_⟩
  intro hindex
  have hlen := congrArg List.length hsame
  unfold dataOf at hlen
  rw [List.length_map, List.length_map] at hlen
  rw [h.requests hindex, hlen]

end BaseReport

namespace RtagReport

variable {k : RtagKind} {report : RtagReport k} {w : List Entry}

/-- A request tag report is exact over the requests of some entries that carry
    its tags. -/
structure Exact (report : RtagReport k) (w : List Entry) : Prop where
  totals : report.totals.Exact ((dataOf w).filter fun r => (k.key report.tags r).isSome)
  rows : ExactRows (rowStore RequestRow k.nested) report.results (k.key report.tags) (dataOf w)

/-- Its histograms are. -/
def ExactHistograms (report : RtagReport k) (w : List Entry) : Prop :=
  ∀ key row, (rowStore RequestRow k.nested).get report.results.rows key = some row →
    ExactRowHistogram report.std.buckets row (group (k.key report.tags) (dataOf w) key)

theorem samples_eq (tags : List Word) (w : List Entry) :
    samples k tags w = (dataOf w).filterMap fun r => (k.key tags r).map fun i => (i, r) := by
  unfold samples dataOf
  rw [List.filterMap_map]
  rfl

theorem exact_of_accounts (h : report.Accounts w) : report.Exact w := by
  have hrows := h.rows
  have htotals := h.totals
  rw [samples_eq] at hrows htotals
  refine ⟨?_, exactRows_of_counts hrows⟩
  have hsnd : ((dataOf w).filterMap fun r => (k.key report.tags r).map fun i => (i, r)).map Prod.snd =
      (dataOf w).filter fun r => (k.key report.tags r).isSome := by
    generalize dataOf w = requests
    induction requests with
    | nil => rfl
    | cons r requests ih =>
      cases hk : k.key report.tags r with
      | none => simp [hk, ih]
      | some i => simp [hk, ih]
  rw [← hsnd]
  exact RequestSums.exact_of htotals

theorem exactHistograms_of_accounts (h : report.Accounts w) : report.ExactHistograms w := by
  have hrows := h.rows
  rw [samples_eq] at hrows
  exact fun key row hrow => exactRowHistogram_of_counts hrows hrow

end RtagReport

/-! ## Section 3: Rows of timers -/

namespace TagReport

variable {k : TagKind} {report : TagReport k} {w : List Entry} {key : RowKey k.nested}

/-- The entries with a matching timer in the row. -/
def requests_in (report : TagReport k) (w : List Entry) (key : RowKey k.nested) : List Entry :=
  w.filter fun e => key ∈ (samples k report.tag_id e.2).map Prod.fst

/-- The matching timers in the row. -/
def timers_in (report : TagReport k) (w : List Entry) (key : RowKey k.nested) : List TimerRecord :=
  w.flatMap fun e => ((samples k report.tag_id e.2).filter fun s => s.1 = key).map Prod.snd

/-- A timer tag report is exact over the matching timers of some entries: a row
    exists exactly for the keys of these timers, counts the entries it has timers
    of and sums up the timers, and is counted in `results_cnt`. -/
structure Exact (report : TagReport k) (w : List Entry) : Prop where
  present : ∀ key, ((rowStore TagRow k.nested).get report.results.rows key).isSome ↔
    ∃ e ∈ w, ∃ timer ∈ e.2.timers, ∃ ws,
      k.words_of report.tag_id timer = some ws ∧ k.index e.2.data ws = key
  req_count : ∀ key row, (rowStore TagRow k.nested).get report.results.rows key = some row →
    row.members = (report.requests_in w key).length
  sums : ∀ key row, (rowStore TagRow k.nested).get report.results.rows key = some row →
    row.acc.Exact (report.timers_in w key)
  results_cnt : report.results.rowCount = (rowStore TagRow k.nested).size report.results.rows

/-- Its histograms are: a timer weighs as much as its hits, and the mass of a
    row's histogram is the row's `hit_count`. -/
def ExactHistograms (report : TagReport k) (w : List Entry) : Prop :=
  ∀ key row, (rowStore TagRow k.nested).get report.results.rows key = some row →
    ExactHistogram report.std.buckets TimerRecord.value TimerRecord.hit_count
      row.acc.histogram_data (report.timers_in w key) ∧
    row.acc.histogram_data.mass = row.acc.hit_count

theorem holders_window : Table.holders key (window k report.tag_id w) =
    (report.requests_in w key).map Prod.fst := by
  unfold Table.holders window requests_in
  rw [List.filter_map, List.map_map]
  rfl

theorem windowSamples_window : Table.windowSamples key (window k report.tag_id w) =
    ↑(report.timers_in w key) := by
  unfold Table.windowSamples Table.samplesOf window timers_in
  rw [List.flatMap_map, List.filter_flatMap, List.map_flatMap]

theorem requests_in_ne_nil : report.requests_in w key ≠ [] ↔
    ∃ e ∈ w, ∃ timer ∈ e.2.timers, ∃ ws,
      k.words_of report.tag_id timer = some ws ∧ k.index e.2.data ws = key := by
  unfold requests_in
  rw [ne_eq, List.filter_eq_nil_iff]
  simp [samples]

theorem row_of_accounts (h : report.Accounts w) {row : TagRow}
    (hrow : (rowStore TagRow k.nested).get report.results.rows key = some row) :
    report.requests_in w key ≠ [] ∧ row.members = (report.requests_in w key).length ∧
      row.acc.Of report.std.buckets ↑(report.timers_in w key) := by
  have hk := h.rows.row key
  rw [hrow, holders_window, windowSamples_window] at hk
  obtain ⟨hne, hlen, hrep, -⟩ := hk
  exact ⟨fun hnil => hne (by rw [hnil]; rfl), by simpa using hlen, hrep⟩

theorem exact_of_accounts (h : report.Accounts w) : report.Exact w := by
  refine ⟨?_, fun key row hrow => (row_of_accounts h hrow).2.1,
    fun key row hrow => TagSums.exact_of (row_of_accounts h hrow).2.2, h.rows.count⟩
  intro key
  rw [← requests_in_ne_nil]
  cases hrow : (rowStore TagRow k.nested).get report.results.rows key with
  | none =>
    have hk := h.rows.row key
    rw [hrow, holders_window] at hk
    have hnil : report.requests_in w key = [] := List.map_eq_nil_iff.mp hk
    simp [hnil]
  | some row => simp [(row_of_accounts h hrow).1]

theorem exactHistograms_of_accounts (h : report.Accounts w) : report.ExactHistograms w := by
  intro key row hrow
  have hof := (row_of_accounts h hrow).2.2
  have hexact : ExactHistogram report.std.buckets TimerRecord.value _ row.acc.histogram_data _ :=
    exactHistogram_of hof.histogram
  exact ⟨hexact, by rw [hexact.mass, (TagSums.exact_of hof).hit_count]⟩

end TagReport

end PinbaEngine
