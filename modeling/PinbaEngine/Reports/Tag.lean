import PinbaEngine.Keys
import PinbaEngine.Reports.Family

/-! # Timer tag reports

    The nine kinds of `data.cc` that group timers by the values of their tags:
    `tag_info`, `tag2_info`, `tagN_info`, and the `_report` and `_report2`
    variants that add the script name (as an outer map) and the host and server
    names (inside the key).

    A row counts the requests that have a timer in it. Since one request may
    contribute several timers, a request is recognised by its ring slot: see
    `SlotRow`.

    The `N` kinds collect the values in the array `report->words`, which lives
    as long as the report. It is part of the state here; that its entries are
    always fresh when they are read is a lemma (`select_eq_words_of`).
-/

namespace PinbaEngine

/-! ## Section 1: Reports -/

/-- The timer tag report kinds. -/
inductive TagKind where
  | tag_info | tag2_info | tagN_info
  | tag_report | tag2_report | tagN_report
  | tag_report2 | tag2_report2 | tagN_report2
deriving DecidableEq

/-- Whether the kind keeps its rows per script name. -/
abbrev TagKind.nested : TagKind → Bool
  | .tag_info | .tag2_info | .tagN_info => false
  | _ => true

/-- The sums and the histogram of one row. -/
structure TagSums where
  hit_count : Int
  timer_value : Timeval
  ru_utime_value : Timeval
  ru_stime_value : Timeval
  histogram_data : Histogram

/-- A row; `members`, `lastAdd` and `lastDel` are `req_count`,
    `prev_add_request_id` and `prev_del_request_id`. -/
abbrev TagRow := SlotRow TagSums

/-- `pinba_tag_report`. -/
structure TagReport (k : TagKind) where
  std : StdReport
  tag_id : List Int
  /-- `results` and `std.results_cnt`. -/
  results : Table (RowStore TagRow k.nested)
  /-- The scratch array of the `N` kinds. -/
  words : List Word

/-- A report as its regenerate function creates it. -/
def TagReport.created (k : TagKind) (cond : Conditions) (buckets : BucketChoice)
    (tag_id : List Int) : TagReport k :=
  ⟨.created cond buckets, tag_id, ⟨(rowStore TagRow k.nested).empty, 0⟩,
    List.replicate tag_id.length default⟩

/-! ## Section 2: Sums over timers -/

namespace TagSums

/-- The sums are exact over the timers `m`, and so is the histogram. -/
structure Of (buckets : BucketChoice) (sums : TagSums) (m : Multiset TimerRecord) : Prop where
  hits : (Accumulator.ofSum fun t : TimerRecord => (t.hit_count : Int)).Rep sums.hit_count m
  value : (timevalSum TimerRecord.value).Rep sums.timer_value m
  utime : (timevalSum TimerRecord.ru_utime).Rep sums.ru_utime_value m
  stime : (timevalSum TimerRecord.ru_stime).Rep sums.ru_stime_value m
  histogram : HistogramOf buckets (fun t : TimerRecord => t.value.toTimeval)
    TimerRecord.hit_count sums.histogram_data m

end TagSums

/-- Rows of timer tag reports. A new row takes hit count and value from its
    first timer and adds the remaining sums to zero. -/
def tagSums (buckets : BucketChoice) : Accumulator TimerRecord TagSums where
  zero := ⟨0, .zero, .zero, .zero, ∅⟩
  single timer :=
    { hit_count := timer.hit_count
      timer_value := timer.value.toTimeval
      ru_utime_value := Timeval.zero.pinba_timeradd timer.ru_utime.toTimeval
      ru_stime_value := Timeval.zero.pinba_timeradd timer.ru_stime.toTimeval
      histogram_data := pinba_update_histogram buckets ∅ timer.value.toTimeval timer.hit_count }
  add timer sums :=
    { hit_count := sums.hit_count + timer.hit_count
      timer_value := sums.timer_value.pinba_timeradd timer.value.toTimeval
      ru_utime_value := sums.ru_utime_value.pinba_timeradd timer.ru_utime.toTimeval
      ru_stime_value := sums.ru_stime_value.pinba_timeradd timer.ru_stime.toTimeval
      histogram_data := pinba_update_histogram buckets sums.histogram_data timer.value.toTimeval
        timer.hit_count }
  sub timer sums :=
    { hit_count := sums.hit_count - timer.hit_count
      timer_value := sums.timer_value.pinba_timersub timer.value.toTimeval
      ru_utime_value := sums.ru_utime_value.pinba_timersub timer.ru_utime.toTimeval
      ru_stime_value := sums.ru_stime_value.pinba_timersub timer.ru_stime.toTimeval
      histogram_data := pinba_update_histogram buckets sums.histogram_data timer.value.toTimeval
        (-(timer.hit_count : Int)) }
  Rep := TagSums.Of buckets
  rep_zero := ⟨Accumulator.rep_zero _, Accumulator.rep_zero _, Accumulator.rep_zero _,
    Accumulator.rep_zero _, histogramOf_empty⟩
  rep_single _ := ⟨Accumulator.rep_single _ _, Accumulator.rep_single _ _,
    Accumulator.rep_add _ _ _ _ (Accumulator.rep_zero _),
    Accumulator.rep_add _ _ _ _ (Accumulator.rep_zero _), histogramOf_add histogramOf_empty⟩
  rep_add _ _ _ h := ⟨Accumulator.rep_add _ _ _ _ h.hits, Accumulator.rep_add _ _ _ _ h.value,
    Accumulator.rep_add _ _ _ _ h.utime, Accumulator.rep_add _ _ _ _ h.stime,
    histogramOf_add h.histogram⟩
  rep_sub _ _ _ h := ⟨Accumulator.rep_sub _ _ _ _ h.hits, Accumulator.rep_sub _ _ _ _ h.value,
    Accumulator.rep_sub _ _ _ _ h.utime, Accumulator.rep_sub _ _ _ _ h.stime,
    histogramOf_sub h.histogram⟩

/-! ## Section 3: Selecting timers -/

/-- The value of the first tag of the timer with this id. -/
def tag_find (id : Int) (tags : List (Int × Word)) : Option Word :=
  (tags.find? fun t => id = t.1).map Prod.snd

/-- The loop of the `tag2` kinds: a later position overwrites an earlier one. -/
def tag2_find (id1 id2 : Int) (tags : List (Int × Word)) : Option Word × Option Word :=
  tags.foldl (fun found t =>
    if id1 = t.1 then (some t.2, found.2)
    else if id2 = t.1 then (found.1, some t.2)
    else found) (none, none)

/-- The inner loop of the `N` kinds for the tag at position `h`. Every match
    stores its value and counts; reaching `tags_cnt` jumps out at once. The
    result is the array, the count, whether the jump was taken, and `found`. -/
def tagN_scan_timer (tags_cnt h : Nat) (id : Int) :
    List (Int × Word) → List Word → Nat → Bool → List Word × Nat × Bool × Bool
  | [], words, found_tags_cnt, found => (words, found_tags_cnt, false, found)
  | t :: tags, words, found_tags_cnt, found =>
    if id = t.1 then
      if found_tags_cnt + 1 = tags_cnt then (words.set h t.2, found_tags_cnt + 1, true, found)
      else tagN_scan_timer tags_cnt h id tags (words.set h t.2) (found_tags_cnt + 1) true
    else tagN_scan_timer tags_cnt h id tags words found_tags_cnt found

/-- The outer loop of the `N` kinds: the array, and whether the key is built. -/
def tagN_scan (tags_cnt : Nat) (tags : List (Int × Word)) :
    List Int → Nat → List Word → Nat → List Word × Bool
  | [], _, words, found_tags_cnt => (words, found_tags_cnt = tags_cnt)
  | id :: ids, h, words, found_tags_cnt =>
    match tagN_scan_timer tags_cnt h id tags words found_tags_cnt false with
    | (words, _, true, _) => (words, true)
    | (words, found_tags_cnt, false, false) => (words, found_tags_cnt = tags_cnt)
    | (words, found_tags_cnt, false, true) => tagN_scan tags_cnt tags ids (h + 1) words found_tags_cnt

/-- The new scratch array, and the words of the key if the timer matches. -/
def tagN_select (tag_id : List Int) (words : List Word) (timer : TimerRecord) :
    List Word × Option (List Word) :=
  match tagN_scan tag_id.length timer.tags tag_id 0 words 0 with
  | (words, true) => (words, some words)
  | (words, false) => (words, none)

namespace TagKind

/-- How the update functions of the kind look for the report's tags in a
    timer: the scratch array afterwards, and the words of the key. -/
def select (k : TagKind) (tag_id : List Int) (words : List Word) (timer : TimerRecord) :
    List Word × Option (List Word) :=
  match k with
  | tag_info | tag_report | tag_report2 =>
    (words, (tag_id[0]?.bind fun id => tag_find id timer.tags).map fun word => [word])
  | tag2_info | tag2_report | tag2_report2 =>
    (words, do
      let (word1, word2) := tag2_find (← tag_id[0]?) (← tag_id[1]?) timer.tags
      return [← word1, ← word2])
  | tagN_info =>
    if timer.tags.length < tag_id.length then (words, none) else tagN_select tag_id words timer
  | tagN_report | tagN_report2 => tagN_select tag_id words timer

/-- The row key that the add function builds. -/
def index : (k : TagKind) → RequestData → List Word → RowKey k.nested
  | tag_info, _, ws => (ws.getD 0 default).str.bytes
  | tag2_info, _, ws => tag2_info_index (ws.getD 0 default) (ws.getD 1 default)
  | tagN_info, _, ws => tagN_index ws
  | tag_report, d, ws => (d.script_name.bytes, (ws.getD 0 default).str.bytes)
  | tag2_report, d, ws =>
    (d.script_name.bytes, tag2_report_index (ws.getD 0 default) (ws.getD 1 default))
  | tagN_report, d, ws => (d.script_name.bytes, tagN_index ws)
  | tag_report2, d, ws => (d.script_name.bytes, tag_report2_index d (ws.getD 0 default))
  | tag2_report2, d, ws =>
    (d.script_name.bytes, tag2_report2_index d (ws.getD 0 default) (ws.getD 1 default))
  | tagN_report2, d, ws => (d.script_name.bytes, tagN_report2_index d ws)

/-- The row key that the delete function builds. -/
def delete_index : (k : TagKind) → RequestData → List Word → RowKey k.nested
  | tag_report2, d, ws => (d.script_name.bytes, tag_report2_delete_index d (ws.getD 0 default))
  | tag2_report2, d, ws =>
    (d.script_name.bytes, tag2_report2_delete_index d (ws.getD 0 default) (ws.getD 1 default))
  | k, d, ws => k.index d ws

end TagKind

/-! ## Section 4: Update functions -/

section update
variable {k : TagKind}

/-- An operation on the rows of a kind, given the report's histogram. -/
abbrev TagRowOp (k : TagKind) :=
  BucketChoice → Table (RowStore TagRow k.nested) → RowKey k.nested × TimerRecord →
    Table (RowStore TagRow k.nested)

/-- One turn of the loop over the timers of a record: select, and apply the
    operation if the timer matches. -/
def tag_timer (op : TagRowOp k) (index : RequestData → List Word → RowKey k.nested)
    (data : RequestData) (report : TagReport k) (timer : TimerRecord) : TagReport k :=
  let (words, found) := k.select report.tag_id report.words timer
  let report := { report with words := words }
  match found with
  | none => report
  | some ws =>
    { report with results := op report.std.buckets report.results (index data ws, timer) }

/-- What the add functions do with a matching timer. -/
def tag_row_add (request_id : Nat) : TagRowOp k := fun buckets =>
  Table.insertSample (rowStore TagRow k.nested) (tagSums buckets) request_id

/-- What the delete functions do with a matching timer. -/
def tag_row_delete (request_id : Nat) : TagRowOp k := fun buckets =>
  Table.removeSample (rowStore TagRow k.nested) (tagSums buckets) request_id

/-- The add functions. -/
def tag_add (index : RequestData → List Word → RowKey k.nested) (request_id : Nat)
    (report : TagReport k) (record : StatsRecord) : TagReport k :=
  record.timers.foldl (tag_timer (tag_row_add request_id) index record.data) report

/-- Whether the outer map of a nested store has no map under this name. -/
def script_map_missing : (nested : Bool) → RowStore TagRow nested → Bytes → Bool
  | false, _, _ => false
  | true, results, script_name => (results.lookup script_name).isNone

/-- The delete functions; the nested kinds return early if the script has no
    map. -/
def tag_delete (index : RequestData → List Word → RowKey k.nested) (request_id : Nat)
    (report : TagReport k) (record : StatsRecord) : TagReport k :=
  if report.std.delete_check record then report
  else if script_map_missing k.nested report.results.rows record.data.script_name.bytes then report
  else record.timers.foldl (tag_timer (tag_row_delete request_id) index record.data) report

end update

/-- `pinba_update_tag_info_add`. -/
def pinba_update_tag_info_add : Nat → TagReport .tag_info → StatsRecord → TagReport .tag_info :=
  tag_add (TagKind.tag_info.index)

/-- `pinba_update_tag_info_delete`. -/
def pinba_update_tag_info_delete : Nat → TagReport .tag_info → StatsRecord → TagReport .tag_info :=
  tag_delete (TagKind.tag_info.delete_index)

/-- `pinba_update_tag2_info_add`. -/
def pinba_update_tag2_info_add : Nat → TagReport .tag2_info → StatsRecord → TagReport .tag2_info :=
  tag_add (TagKind.tag2_info.index)

/-- `pinba_update_tag2_info_delete`. -/
def pinba_update_tag2_info_delete : Nat → TagReport .tag2_info → StatsRecord → TagReport .tag2_info :=
  tag_delete (TagKind.tag2_info.delete_index)

/-- `pinba_update_tagN_info_add`. -/
def pinba_update_tagN_info_add : Nat → TagReport .tagN_info → StatsRecord → TagReport .tagN_info :=
  tag_add (TagKind.tagN_info.index)

/-- `pinba_update_tagN_info_delete`. -/
def pinba_update_tagN_info_delete : Nat → TagReport .tagN_info → StatsRecord → TagReport .tagN_info :=
  tag_delete (TagKind.tagN_info.delete_index)

/-- `pinba_update_tag_report_add`. -/
def pinba_update_tag_report_add : Nat → TagReport .tag_report → StatsRecord → TagReport .tag_report :=
  tag_add (TagKind.tag_report.index)

/-- `pinba_update_tag_report_delete`. -/
def pinba_update_tag_report_delete : Nat → TagReport .tag_report → StatsRecord → TagReport .tag_report :=
  tag_delete (TagKind.tag_report.delete_index)

/-- `pinba_update_tag2_report_add`. -/
def pinba_update_tag2_report_add : Nat → TagReport .tag2_report → StatsRecord → TagReport .tag2_report :=
  tag_add (TagKind.tag2_report.index)

/-- `pinba_update_tag2_report_delete`. -/
def pinba_update_tag2_report_delete : Nat → TagReport .tag2_report → StatsRecord → TagReport .tag2_report :=
  tag_delete (TagKind.tag2_report.delete_index)

/-- `pinba_update_tagN_report_add`. -/
def pinba_update_tagN_report_add : Nat → TagReport .tagN_report → StatsRecord → TagReport .tagN_report :=
  tag_add (TagKind.tagN_report.index)

/-- `pinba_update_tagN_report_delete`. -/
def pinba_update_tagN_report_delete : Nat → TagReport .tagN_report → StatsRecord → TagReport .tagN_report :=
  tag_delete (TagKind.tagN_report.delete_index)

/-- `pinba_update_tag_report2_add`. -/
def pinba_update_tag_report2_add : Nat → TagReport .tag_report2 → StatsRecord → TagReport .tag_report2 :=
  tag_add (TagKind.tag_report2.index)

/-- `pinba_update_tag_report2_delete`. -/
def pinba_update_tag_report2_delete : Nat → TagReport .tag_report2 → StatsRecord → TagReport .tag_report2 :=
  tag_delete (TagKind.tag_report2.delete_index)

/-- `pinba_update_tag2_report2_add`. -/
def pinba_update_tag2_report2_add : Nat → TagReport .tag2_report2 → StatsRecord → TagReport .tag2_report2 :=
  tag_add (TagKind.tag2_report2.index)

/-- `pinba_update_tag2_report2_delete`. -/
def pinba_update_tag2_report2_delete : Nat → TagReport .tag2_report2 → StatsRecord → TagReport .tag2_report2 :=
  tag_delete (TagKind.tag2_report2.delete_index)

/-- `pinba_update_tagN_report2_add`. -/
def pinba_update_tagN_report2_add : Nat → TagReport .tagN_report2 → StatsRecord → TagReport .tagN_report2 :=
  tag_add (TagKind.tagN_report2.index)

/-- `pinba_update_tagN_report2_delete`. -/
def pinba_update_tagN_report2_delete : Nat → TagReport .tagN_report2 → StatsRecord → TagReport .tagN_report2 :=
  tag_delete (TagKind.tagN_report2.delete_index)

namespace TagReport

/-- `std.add_func`, as the regenerate function of the kind sets it. -/
def add_func : {k : TagKind} → Nat → TagReport k → StatsRecord → TagReport k
  | .tag_info => pinba_update_tag_info_add
  | .tag2_info => pinba_update_tag2_info_add
  | .tagN_info => pinba_update_tagN_info_add
  | .tag_report => pinba_update_tag_report_add
  | .tag2_report => pinba_update_tag2_report_add
  | .tagN_report => pinba_update_tagN_report_add
  | .tag_report2 => pinba_update_tag_report2_add
  | .tag2_report2 => pinba_update_tag2_report2_add
  | .tagN_report2 => pinba_update_tagN_report2_add

/-- `std.delete_func`. -/
def delete_func : {k : TagKind} → Nat → TagReport k → StatsRecord → TagReport k
  | .tag_info => pinba_update_tag_info_delete
  | .tag2_info => pinba_update_tag2_info_delete
  | .tagN_info => pinba_update_tagN_info_delete
  | .tag_report => pinba_update_tag_report_delete
  | .tag2_report => pinba_update_tag2_report_delete
  | .tagN_report => pinba_update_tagN_report_delete
  | .tag_report2 => pinba_update_tag_report2_delete
  | .tag2_report2 => pinba_update_tag2_report2_delete
  | .tagN_report2 => pinba_update_tagN_report2_delete

end TagReport

/-- The driver's view of timer tag reports. -/
def tagOps (k : TagKind) : ReportOps (TagReport k) where
  std := TagReport.std
  with_std report std := { report with std := std }
  add_func := TagReport.add_func
  delete_func := TagReport.delete_func

/-! ## Section 5: What the selection loops find

    On a timer that carries no tag id twice, the loops find the values of the
    report's tags, whatever the scratch array held before. -/

section selection
variable {id id1 id2 : Int} {tags : List (Int × Word)} {words : List Word} {h cnt tags_cnt : Nat}

theorem tag_find_cons_self {t : Int × Word} : tag_find t.1 (t :: tags) = some t.2 := by
  simp [tag_find]

theorem tag_find_cons_ne {t : Int × Word} (hne : id ≠ t.1) :
    tag_find id (t :: tags) = tag_find id tags := by
  simp [tag_find, hne]

theorem tag_find_eq_none (hid : id ∉ tags.map Prod.fst) : tag_find id tags = none := by
  rw [tag_find, Option.map_eq_none_iff, List.find?_eq_none]
  intro t ht heq
  exact hid (List.mem_map.mpr ⟨t, ht, (of_decide_eq_true heq).symm⟩)

/-- The `tag2` loop started from given positions. -/
theorem tag2_find_from (hnd : (tags.map Prod.fst).Nodup) (found : Option Word × Option Word) :
    tags.foldl (fun found t =>
      if id1 = t.1 then (some t.2, found.2)
      else if id2 = t.1 then (found.1, some t.2)
      else found) found =
    ((tag_find id1 tags).or found.1, (if id1 = id2 then none else tag_find id2 tags).or found.2) := by
  induction tags generalizing found with
  | nil => simp [tag_find]
  | cons t tags ih =>
    rw [List.map_cons, List.nodup_cons] at hnd
    rw [List.foldl_cons, ih hnd.2]
    by_cases h1 : id1 = t.1
    · subst h1
      rw [tag_find_cons_self, tag_find_eq_none hnd.1, if_pos rfl]
      by_cases h2 : t.1 = id2
      · simp [h2]
      · rw [if_neg h2, if_neg h2, tag_find_cons_ne (Ne.symm h2)]
        simp
    · rw [if_neg h1, tag_find_cons_ne h1]
      by_cases h2 : id2 = t.1
      · subst h2
        rw [if_pos rfl, if_neg h1, if_neg h1, tag_find_cons_self, tag_find_eq_none hnd.1]
        simp
      · rw [if_neg h2, tag_find_cons_ne h2]

theorem tag2_find_eq (hnd : (tags.map Prod.fst).Nodup) :
    tag2_find id1 id2 tags =
      (tag_find id1 tags, if id1 = id2 then none else tag_find id2 tags) := by
  rw [tag2_find, tag2_find_from hnd]
  simp

theorem tagN_scan_timer_of_notMem (hid : id ∉ tags.map Prod.fst) (found : Bool) :
    tagN_scan_timer tags_cnt h id tags words cnt found = (words, cnt, false, found) := by
  induction tags with
  | nil => rfl
  | cons t tags ih =>
    rw [List.map_cons, List.mem_cons, not_or] at hid
    rw [tagN_scan_timer, if_neg hid.1, ih hid.2]

theorem tagN_scan_timer_of_find {word : Word} (hnd : (tags.map Prod.fst).Nodup)
    (hw : tag_find id tags = some word) (found : Bool) :
    ∃ found', tagN_scan_timer tags_cnt h id tags words cnt found =
      (words.set h word, cnt + 1, decide (cnt + 1 = tags_cnt), found') ∧
      (cnt + 1 ≠ tags_cnt → found' = true) := by
  induction tags with
  | nil => exact absurd hw (by simp [tag_find])
  | cons t tags ih =>
    rw [List.map_cons, List.nodup_cons] at hnd
    by_cases hid : id = t.1
    · subst hid
      obtain rfl : t.2 = word := by simpa [tag_find_cons_self] using hw
      rw [tagN_scan_timer, if_pos rfl]
      by_cases hlast : cnt + 1 = tags_cnt
      · rw [if_pos hlast]
        exact ⟨found, by simp [hlast], fun hne => absurd hlast hne⟩
      · -- no later tag of this timer has the same id
        rw [if_neg hlast, tagN_scan_timer_of_notMem hnd.1]
        exact ⟨true, by simp [hlast], fun _ => rfl⟩
    · rw [tag_find_cons_ne hid] at hw
      rw [tagN_scan_timer, if_neg hid]
      exact ih hnd.2 hw

theorem take_set_succ {word : Word} (hh : h < words.length) :
    (words.set h word).take (h + 1) = words.take h ++ [word] := by
  have hget : (words.set h word)[h]? = some word := by simp [hh]
  rw [List.take_add_one, hget, List.take_set_of_le (le_refl h)]
  rfl

/-- The scan started at position `h` of the array, with all values found so
    far in place. It succeeds exactly when all remaining tags are found. -/
theorem tagN_scan_from (hnd : (tags.map Prod.fst).Nodup) {ids : List Int}
    (hlen : words.length = tags_cnt) (hh : h + ids.length = tags_cnt) :
    (tagN_scan tags_cnt tags ids h words h).1.length = tags_cnt ∧
    (tagN_scan tags_cnt tags ids h words h).2 = (ids.mapM fun id => tag_find id tags).isSome ∧
    ∀ ws, (ids.mapM fun id => tag_find id tags) = some ws →
      (tagN_scan tags_cnt tags ids h words h).1 = words.take h ++ ws := by
  induction ids generalizing words h with
  | nil =>
    have hfull : h = tags_cnt := by simpa using hh
    refine ⟨hlen, by simp [tagN_scan, hfull], ?_⟩
    intro ws hws
    obtain rfl : [] = ws := by simpa using hws
    simp [tagN_scan, ← hlen, hfull]
  | cons id ids ih =>
    rw [List.length_cons] at hh
    rw [List.mapM_cons]
    cases hw : tag_find id tags with
    | none =>
      -- a tag that the timer lacks: the count stays below the number of tags
      have hid : id ∉ tags.map Prod.fst := by
        intro hmem
        obtain ⟨t, ht, rfl⟩ := List.mem_map.mp hmem
        rw [tag_find, Option.map_eq_none_iff, List.find?_eq_none] at hw
        exact hw t ht (by simp)
      have hstep : tagN_scan tags_cnt tags (id :: ids) h words h = (words, false) := by
        rw [tagN_scan, tagN_scan_timer_of_notMem hid]
        simp
        omega
      rw [hstep]
      exact ⟨hlen, rfl, fun ws hws => absurd hws (by simp)⟩
    | some word =>
      obtain ⟨found', hscan, hfound⟩ := tagN_scan_timer_of_find hnd hw false
      have htake : (words.set h word).take (h + 1) = words.take h ++ [word] :=
        take_set_succ (by omega)
      have hset : (words.set h word).length = tags_cnt := by rw [List.length_set, hlen]
      by_cases hlast : h + 1 = tags_cnt
      · -- the last tag: the loop jumps out with the key complete
        obtain rfl : ids = [] := List.eq_nil_of_length_eq_zero (by omega)
        have hstep : tagN_scan tags_cnt tags [id] h words h = (words.set h word, true) := by
          rw [tagN_scan, hscan]
          simp [hlast]
        rw [hstep]
        refine ⟨hset, rfl, ?_⟩
        intro ws hws
        obtain rfl : [word] = ws := by simpa using hws
        rw [← htake, hlast, ← hset, List.take_length]
      · -- the count is the position of the next tag
        have hstep : tagN_scan tags_cnt tags (id :: ids) h words h =
            tagN_scan tags_cnt tags ids (h + 1) (words.set h word) (h + 1) := by
          rw [tagN_scan, hscan, hfound hlast]
          simp [hlast]
        obtain ⟨hlen', hsome, hws'⟩ := ih (h := h + 1) hset (by omega)
        rw [hstep]
        refine ⟨hlen', ?_, ?_⟩
        · rw [hsome]
          cases ids.mapM fun id => tag_find id tags <;> rfl
        · intro ws hws
          cases hrest : ids.mapM fun id => tag_find id tags with
          | none => simp [hrest] at hws
          | some rest =>
            obtain rfl : word :: rest = ws := by simpa [hrest] using hws
            rw [hws' rest hrest, htake, List.append_assoc]
            rfl

end selection

namespace TagKind

variable {k : TagKind} {tag_id : List Int} {words : List Word} {timer : TimerRecord}

/-- The values of the report's tags in the timer, if it matches. A `tag2` report
    that asks for one id twice never fills its second position. -/
def words_of (k : TagKind) (tag_id : List Int) (timer : TimerRecord) : Option (List Word) :=
  match k with
  | tag_info | tag_report | tag_report2 =>
    (tag_id[0]?.bind fun id => tag_find id timer.tags).map fun word => [word]
  | tag2_info | tag2_report | tag2_report2 => do
    let id1 ← tag_id[0]?
    let id2 ← tag_id[1]?
    if id1 = id2 then none
    else return [← tag_find id1 timer.tags, ← tag_find id2 timer.tags]
  | tagN_info =>
    if timer.tags.length < tag_id.length then none
    else tag_id.mapM fun id => tag_find id timer.tags
  | tagN_report | tagN_report2 => tag_id.mapM fun id => tag_find id timer.tags

theorem tagN_select_eq (hnd : timer.DistinctTags) (hlen : words.length = tag_id.length) :
    (tagN_select tag_id words timer).1.length = tag_id.length ∧
    (tagN_select tag_id words timer).2 = tag_id.mapM fun id => tag_find id timer.tags := by
  obtain ⟨hlen', hsome, hws⟩ := tagN_scan_from hnd hlen
    (show 0 + tag_id.length = tag_id.length from Nat.zero_add _)
  unfold tagN_select
  revert hlen' hsome hws
  rcases tagN_scan tag_id.length timer.tags tag_id 0 words 0 with ⟨words', found⟩
  intro hlen' hsome hws
  cases hm : tag_id.mapM fun id => tag_find id timer.tags with
  | none =>
    obtain rfl : found = false := by simpa [hm] using hsome
    exact ⟨hlen', rfl⟩
  | some ws =>
    obtain rfl : found = true := by simpa [hm] using hsome
    obtain rfl : words' = ws := by simpa using hws ws hm
    exact ⟨hlen', rfl⟩

/-- Whatever the scratch array held before, the words that are selected are the
    values of the report's tags. -/
theorem select_eq_words_of (hnd : timer.DistinctTags) (hlen : words.length = tag_id.length) :
    (k.select tag_id words timer).1.length = tag_id.length ∧
    (k.select tag_id words timer).2 = k.words_of tag_id timer := by
  have htwo : (do
      let (word1, word2) := tag2_find (← tag_id[0]?) (← tag_id[1]?) timer.tags
      return [← word1, ← word2]) = words_of .tag2_info tag_id timer := by
    unfold words_of
    cases tag_id[0]? with
    | none => rfl
    | some id1 =>
      cases tag_id[1]? with
      | none => rfl
      | some id2 =>
        simp only [Option.bind_eq_bind, Option.bind_some, tag2_find_eq hnd]
        by_cases h12 : id1 = id2
        · simp [h12]
        · simp [h12]
  cases k with
  | tag_info | tag_report | tag_report2 => exact ⟨hlen, rfl⟩
  | tag2_info | tag2_report | tag2_report2 => exact ⟨hlen, htwo⟩
  | tagN_info =>
    unfold select words_of
    simp only
    split
    · exact ⟨hlen, rfl⟩
    · exact tagN_select_eq hnd hlen
  | tagN_report | tagN_report2 => exact tagN_select_eq hnd hlen

/-- Add and delete functions agree on the key. -/
theorem delete_index_eq (k : TagKind) : k.delete_index = k.index := by
  funext data ws
  cases k with
  | tag_report2 => simp only [delete_index, index, tag_report2_delete_index_eq]
  | tag2_report2 => simp only [delete_index, index, tag2_report2_delete_index_eq]
  | _ => rfl

end TagKind

/-! ## Section 6: Accounting -/

namespace TagReport

variable {k : TagKind} {report : TagReport k} {record : StatsRecord} {w v : List Entry} {slot : Nat}

/-- The matching timers of a record with the keys of their rows. -/
def samples (k : TagKind) (tag_id : List Int) (record : StatsRecord) :
    List (RowKey k.nested × TimerRecord) :=
  record.timers.filterMap fun timer =>
    (k.words_of tag_id timer).map fun ws => (k.index record.data ws, timer)

/-- The samples of a window, per slot. -/
def window (k : TagKind) (tag_id : List Int) (w : List Entry) :
    List (Nat × List (RowKey k.nested × TimerRecord)) :=
  w.map fun e => (e.1, samples k tag_id e.2)

/-- The report is the exact aggregation of the matching timers of the entries
    `w`. -/
structure Accounts (report : TagReport k) (w : List Entry) : Prop where
  scratch : report.words.length = report.tag_id.length
  rows : Table.Summarises (rowStore TagRow k.nested) (tagSums report.std.buckets) report.results
    (window k report.tag_id w)

theorem add_func_eq (report : TagReport k) (request_id : Nat) :
    report.add_func request_id = tag_add k.index request_id report := by
  cases k <;> rfl

theorem delete_func_eq (report : TagReport k) (request_id : Nat) :
    report.delete_func request_id = tag_delete k.index request_id report := by
  rw [← k.delete_index_eq]
  cases k <;> rfl

/-- What the update functions leave alone. -/
structure SameHeader (report report' : TagReport k) : Prop where
  std : report'.std = report.std
  tag_id : report'.tag_id = report.tag_id

theorem sameHeader_timer (op : TagRowOp k) (data : RequestData) (report : TagReport k)
    (timer : TimerRecord) : SameHeader report (tag_timer op k.index data report timer) := by
  unfold tag_timer
  simp only
  split <;> exact ⟨rfl, rfl⟩

theorem sameHeader_timers (op : TagRowOp k) (data : RequestData) (timers : List TimerRecord)
    (report : TagReport k) :
    SameHeader report (timers.foldl (tag_timer op k.index data) report) := by
  induction timers generalizing report with
  | nil => exact ⟨rfl, rfl⟩
  | cons timer timers ih =>
    have hhead := sameHeader_timer op data report timer
    have htail := ih (tag_timer op k.index data report timer)
    exact ⟨htail.std.trans hhead.std, htail.tag_id.trans hhead.tag_id⟩

theorem sameHeader_add (request_id : Nat) (report : TagReport k) (record : StatsRecord) :
    SameHeader report (report.add_func request_id record) := by
  rw [add_func_eq]
  exact sameHeader_timers _ _ _ _

theorem sameHeader_delete (request_id : Nat) (report : TagReport k) (record : StatsRecord) :
    SameHeader report (report.delete_func request_id record) := by
  rw [delete_func_eq]
  unfold tag_delete
  split
  · exact ⟨rfl, rfl⟩
  · split
    · exact ⟨rfl, rfl⟩
    · exact sameHeader_timers _ _ _ _

/-- The loop over the timers applies the operation to the samples, and the
    scratch array keeps its length. -/
theorem fold_timers (op : TagRowOp k) (data : RequestData) {timers : List TimerRecord}
    (hdistinct : ∀ timer ∈ timers, timer.DistinctTags)
    (hlen : report.words.length = report.tag_id.length) :
    (timers.foldl (tag_timer op k.index data) report).words.length = report.tag_id.length ∧
    (timers.foldl (tag_timer op k.index data) report).results =
      (timers.filterMap fun timer => (k.words_of report.tag_id timer).map fun ws =>
        (k.index data ws, timer)).foldl (op report.std.buckets) report.results := by
  induction timers generalizing report with
  | nil => exact ⟨hlen, rfl⟩
  | cons timer timers ih =>
    have hrest : ∀ timer ∈ timers, timer.DistinctTags :=
      fun x hx => hdistinct x (List.mem_cons_of_mem _ hx)
    obtain ⟨hsel, hws⟩ := TagKind.select_eq_words_of (k := k) (hdistinct timer List.mem_cons_self) hlen
    -- the scratch array changes, the rows depend on the words that were found
    have hwords : (tag_timer op k.index data report timer).words =
        (k.select report.tag_id report.words timer).1 := by
      unfold tag_timer
      simp only
      split <;> rfl
    have hresults : (tag_timer op k.index data report timer).results =
        match k.words_of report.tag_id timer with
        | none => report.results
        | some ws => op report.std.buckets report.results (k.index data ws, timer) := by
      unfold tag_timer
      simp only [hws]
      split <;> rfl
    have hhead := sameHeader_timer op data report timer
    obtain ⟨hl, hr⟩ := @ih (tag_timer op k.index data report timer) hrest
      (by rw [hwords, hsel, hhead.tag_id])
    rw [hhead.tag_id] at hl hr
    refine ⟨hl, ?_⟩
    rw [List.foldl_cons, hr, hhead.std, hresults]
    cases hw : k.words_of report.tag_id timer with
    | none => rw [List.filterMap_cons_none (by simp [hw])]
    | some ws =>
      rw [List.filterMap_cons_some (b := (k.index data ws, timer)) (by simp [hw]), List.foldl_cons]

theorem accounts_add (hvalid : ∀ timer ∈ record.timers, timer.DistinctTags)
    (hfresh : slot ∉ w.map Prod.fst) (h : report.Accounts w) :
    (report.add_func slot record).Accounts (w ++ [(slot, record)]) := by
  obtain ⟨hstd, hid⟩ := sameHeader_add slot report record
  obtain ⟨hlen, hres⟩ := fold_timers (tag_row_add slot) record.data hvalid h.scratch
  have hfresh' : slot ∉ (window k report.tag_id w).map Prod.fst := by
    simpa [window] using hfresh
  refine ⟨?_, ?_⟩
  · rw [hid, add_func_eq]
    exact hlen
  · have hwin : window k report.tag_id (w ++ [(slot, record)]) =
        window k report.tag_id w ++ [(slot, samples k report.tag_id record)] := by
      simp [window]
    rw [hstd, hid, hwin, add_func_eq]
    unfold tag_add
    rw [hres]
    exact Table.summarises_insertAll hfresh' h.rows

/-- Without a map for its script, a record of the window has no samples. -/
theorem samples_of_script_map_missing (hrows : Table.Summarises (rowStore TagRow k.nested)
      (tagSums report.std.buckets) report.results
      ((slot, samples k report.tag_id record) :: window k report.tag_id w))
    (hmiss : script_map_missing k.nested report.results.rows record.data.script_name.bytes = true) :
    samples k report.tag_id record = [] := by
  by_contra hne
  obtain ⟨⟨key, timer⟩, hmem⟩ := List.exists_mem_of_ne_nil _ hne
  obtain ⟨t, -, ht⟩ := List.mem_filterMap.mp hmem
  obtain ⟨ws, -, hkey⟩ := Option.map_eq_some_iff.mp ht
  have hget := Table.get_of_mem hrows (k := key) (List.mem_map_of_mem (f := Prod.fst) hmem)
  obtain ⟨rfl, rfl⟩ := Prod.mk.inj hkey
  apply hget
  cases k with
  | tag_info | tag2_info | tagN_info => exact absurd hmiss (by simp [script_map_missing])
  | _ =>
    have hnone : report.results.rows.lookup record.data.script_name.bytes = none := by
      simpa [script_map_missing] using hmiss
    simp [rowStore, KeyedStore.nested, KeyedStore.nestedGet, TagKind.index, hnone]

theorem accounts_delete (hvalid : ∀ timer ∈ record.timers, timer.DistinctTags)
    (hfresh : slot ∉ w.map Prod.fst) (hd : report.std.delete_check record = false)
    (h : report.Accounts ((slot, record) :: w)) : (report.delete_func slot record).Accounts w := by
  have hrows : Table.Summarises (rowStore TagRow k.nested) (tagSums report.std.buckets)
      report.results ((slot, samples k report.tag_id record) :: window k report.tag_id w) := h.rows
  have hfresh' : slot ∉ (window k report.tag_id w).map Prod.fst := by
    simpa [window] using hfresh
  rw [delete_func_eq]
  unfold tag_delete
  simp only [hd, Bool.false_eq_true, if_false]
  by_cases hmiss : script_map_missing k.nested report.results.rows record.data.script_name.bytes = true
  · rw [if_pos hmiss]
    rw [samples_of_script_map_missing hrows hmiss] at hrows
    exact ⟨h.scratch, (Table.summarises_idle (w := [])).mp hrows⟩
  · rw [if_neg hmiss]
    obtain ⟨hstd, hid⟩ := sameHeader_timers (tag_row_delete slot) record.data record.timers report
    obtain ⟨hlen, hres⟩ := fold_timers (tag_row_delete slot) record.data hvalid h.scratch
    refine ⟨?_, ?_⟩
    · rw [hid]
      exact hlen
    · rw [hstd, hid, hres]
      exact Table.summarises_removeAll hfresh' hrows

theorem delete_old (hd : report.std.delete_check record = true) :
    report.delete_func slot record = report := by
  rw [delete_func_eq]
  exact if_pos hd

/-- In an empty report no row is found. -/
theorem delete_empty (hvalid : ∀ timer ∈ record.timers, timer.DistinctTags)
    (h : report.Accounts []) : (report.delete_func slot record).Accounts [] := by
  rw [delete_func_eq]
  unfold tag_delete
  split
  · exact h
  · split
    · exact h
    · obtain ⟨hstd, hid⟩ := sameHeader_timers (tag_row_delete slot) record.data record.timers report
      obtain ⟨hlen, hres⟩ := fold_timers (tag_row_delete slot) record.data hvalid h.scratch
      have hsame : ∀ l : List (RowKey k.nested × TimerRecord),
          l.foldl (tag_row_delete slot report.std.buckets) report.results = report.results := by
        intro l
        induction l with
        | nil => rfl
        | cons e l ih =>
          rw [List.foldl_cons, tag_row_delete, Table.removeSample_of_nil h.rows]
          exact ih
      refine ⟨?_, ?_⟩
      · rw [hid]
        exact hlen
      · rw [hstd, hid, hres, hsame]
        exact h.rows

/-- A record without timers belongs to no row. -/
theorem accounts_idle (hidle : record.timers = []) :
    report.Accounts (w ++ (slot, record) :: v) ↔ report.Accounts (w ++ v) := by
  have hwin : window k report.tag_id (w ++ (slot, record) :: v) =
      window k report.tag_id w ++ (slot, []) :: window k report.tag_id v := by
    simp [window, samples, hidle]
  have hwin' : window k report.tag_id (w ++ v) =
      window k report.tag_id w ++ window k report.tag_id v := by
    simp [window]
  constructor
  · intro h
    refine ⟨h.scratch, ?_⟩
    rw [hwin', ← Table.summarises_idle, ← hwin]
    exact h.rows
  · intro h
    refine ⟨h.scratch, ?_⟩
    rw [hwin, Table.summarises_idle, ← hwin']
    exact h.rows

theorem accounts_created (k : TagKind) (cond : Conditions) (buckets : BucketChoice)
    (tag_id : List Int) : (created k cond buckets tag_id).Accounts [] :=
  ⟨List.length_replicate, Table.summarises_empty⟩

end TagReport

/-- Timer tag reports account for every record whose timers carry no tag id
    twice; records without timers do not matter to them. -/
def tagLaws (k : TagKind) : ReportLaws (tagOps k) where
  Accounts := TagReport.Accounts
  Valid record := ∀ timer ∈ record.timers, timer.DistinctTags
  Idle record := record.timers = []
  WellFormed _ := True
  std_with_std _ _ := rfl
  std_add slot report record := (TagReport.sameHeader_add slot report record).std
  std_delete slot report record := (TagReport.sameHeader_delete slot report record).std
  wf_with_std _ _ h := h
  wf_add _ _ _ h := h
  wf_delete _ _ _ h := h
  accounts_set_start _ _ _ h := ⟨h.scratch, h.rows⟩
  accounts_add _ _ _ _ hvalid hfresh h := TagReport.accounts_add hvalid hfresh h
  delete_old _ _ _ hd := TagReport.delete_old hd
  accounts_delete _ _ _ _ hvalid hfresh hd h := TagReport.accounts_delete hvalid hfresh hd h
  delete_empty _ _ _ hvalid h := TagReport.delete_empty hvalid h
  accounts_idle _ _ _ _ _ _ hidle := TagReport.accounts_idle hidle

end PinbaEngine
