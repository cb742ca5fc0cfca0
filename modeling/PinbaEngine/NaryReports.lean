import PinbaEngine.Lib.TableRenaming
import PinbaEngine.Reports.Lockstep

/-! # The N-ary reports against the fixed-arity ones

    `tagN_info` with one or two tags does what `tag_info` and `tag2_info` do, and
    `rtagN_info` what `rtag_info` and `rtag2_info` do. The functions were written
    separately: they search the tags of a timer or a request with different loops
    and render the key with a trailing `|` or without. On records in which no tag
    occurs twice the loops find the same values, so the reports move in lockstep
    and differ in nothing but that trailing `|`.
-/

namespace PinbaEngine

/-- The key of a fixed-arity report as the N-ary report renders it. -/
def followed_by_bar (key : Bytes) : Bytes := key ++ [bar]

theorem followed_by_bar_injective : Function.Injective followed_by_bar :=
  fun _ _ h => List.append_cancel_right h

theorem tagN_index_one (w : Word) : tagN_index [w] = followed_by_bar w.str.bytes := by
  simp [tagN_index, append_words_eq, followed_by_bar]

theorem tagN_index_two (w₁ w₂ : Word) :
    tagN_index [w₁, w₂] = followed_by_bar (w₁.str.bytes ++ bar :: w₂.str.bytes) := by
  simp [tagN_index, append_words_eq, followed_by_bar]

/-! ## Section 1: Timer tag reports -/

/-- The columns of a row agree; the histogram may have other buckets. -/
structure TagSums.Same (sums sums' : TagSums) : Prop where
  hit_count : sums'.hit_count = sums.hit_count
  timer_value : sums'.timer_value = sums.timer_value
  ru_utime_value : sums'.ru_utime_value = sums.ru_utime_value
  ru_stime_value : sums'.ru_stime_value = sums.ru_stime_value

theorem tagSums_together (buckets buckets' : BucketChoice) :
    (tagSums buckets).Together (tagSums buckets') TagSums.Same where
  zero := ⟨rfl, rfl, rfl, rfl⟩
  single _ := ⟨rfl, rfl, rfl, rfl⟩
  add timer sums sums' h := by
    refine ⟨?_, ?_, ?_, ?_⟩ <;> simp only [tagSums]
    · rw [h.hit_count]
    · rw [h.timer_value]
    · rw [h.ru_utime_value]
    · rw [h.ru_stime_value]
  sub timer sums sums' h := by
    refine ⟨?_, ?_, ?_, ?_⟩ <;> simp only [tagSums]
    · rw [h.hit_count]
    · rw [h.timer_value]
    · rw [h.ru_utime_value]
    · rw [h.ru_stime_value]

/-- The tags of a timer tag report. -/
def tagParams (k : TagKind) : ReportParams (tagOps k) (List Int) where
  get := TagReport.tag_id
  get_with_std _ _ := rfl
  get_add slot report record := (TagReport.sameHeader_add slot report record).tag_id
  get_delete slot report record := (TagReport.sameHeader_delete slot report record).tag_id

namespace TagReport

variable {k k' : TagKind} {report : TagReport k} {report' : TagReport k'}
  {f : RowKey k.nested → RowKey k'.nested}

/-- The same rows under renamed keys: equal `req_count`, equal sums, equal
    `results_cnt`. -/
abbrev SameRows (f : RowKey k.nested → RowKey k'.nested) (report : TagReport k)
    (report' : TagReport k') : Prop :=
  Table.Renamed (rowStore TagRow k.nested) (rowStore TagRow k'.nested) f (SlotRow.Same TagSums.Same)
    report.results report'.results

/-- The same rows, and scratch arrays of the right length. -/
structure Twins (f : RowKey k.nested → RowKey k'.nested) (report : TagReport k)
    (report' : TagReport k') : Prop where
  scratch : report.words.length = report.tag_id.length
  scratch' : report'.words.length = report'.tag_id.length
  rows : SameRows f report report'

/-- The two kinds select the same timers of a record, under renamed keys. -/
def SameSamples (k k' : TagKind) (f : RowKey k.nested → RowKey k'.nested) (tag_id : List Int) :
    Prop :=
  ∀ record : StatsRecord, record.Plain →
    samples k' tag_id record = (samples k tag_id record).map fun e => (f e.1, e.2)

/-- One loop over the timers of a record, with an operation that keeps the
    tables the same. -/
theorem twins_fold {op : TagRowOp k} {op' : TagRowOp k'} {record : StatsRecord} {tag_id : List Int}
    (hsamples : SameSamples k k' f tag_id) (hrecord : record.Plain) (hid : report.tag_id = tag_id)
    (hid' : report'.tag_id = tag_id)
    (hop : ∀ t t' e,
      Table.Renamed (rowStore TagRow k.nested) (rowStore TagRow k'.nested) f
        (SlotRow.Same TagSums.Same) t t' →
      Table.Renamed (rowStore TagRow k.nested) (rowStore TagRow k'.nested) f
        (SlotRow.Same TagSums.Same) (op report.std.buckets t e)
        (op' report'.std.buckets t' (f e.1, e.2)))
    (h : Twins f report report') :
    Twins f (record.timers.foldl (tag_timer op k.index record.data) report)
      (record.timers.foldl (tag_timer op' k'.index record.data) report') := by
  obtain ⟨hlen, hres⟩ := fold_timers op record.data hrecord.timers h.scratch
  obtain ⟨hlen', hres'⟩ := fold_timers op' record.data hrecord.timers h.scratch'
  have hhead := sameHeader_timers op record.data record.timers report
  have hhead' := sameHeader_timers op' record.data record.timers report'
  refine ⟨?_, ?_, ?_⟩
  · rw [hlen, hhead.tag_id]
  · rw [hlen', hhead'.tag_id]
  · unfold SameRows
    rw [hres, hres', hid, hid']
    have hsame := hsamples record hrecord
    unfold samples at hsame
    rw [hsame]
    exact h.rows.foldl hop _

theorem script_map_missing_flat {nested : Bool} (h : nested = false)
    (results : RowStore TagRow nested) (script_name : Bytes) :
    script_map_missing nested results script_name = false := by
  subst h
  rfl

/-- Kinds with flat rows that select the same timers are in lockstep. -/
def lockstep (f : RowKey k.nested → RowKey k'.nested) (hf : Function.Injective f)
    (hflat : k.nested = false) (hflat' : k'.nested = false) {tag_id : List Int}
    (hsamples : SameSamples k k' f tag_id) :
    Lockstep (tagLaws k) (tagLaws k') (tagParams k) (tagParams k') tag_id where
  Same := Twins f
  same_with_std _ _ _ _ h := ⟨h.scratch, h.scratch', h.rows⟩
  same_add slot report report' record hrecord hid hid' h := by
    show Twins f (report.add_func slot record) (report'.add_func slot record)
    rw [add_func_eq, add_func_eq]
    exact twins_fold hsamples hrecord hid hid'
      (fun t t' e ht => ht.insertSample hf (tagSums_together _ _) slot e) h
  same_delete slot report report' record hrecord hid hid' hcheck h := by
    have hcheck' : report'.std.delete_check record = report.std.delete_check record := hcheck
    show Twins f (report.delete_func slot record) (report'.delete_func slot record)
    rw [delete_func_eq, delete_func_eq]
    unfold tag_delete
    -- flat reports have no inner map that may be missing
    simp only [hcheck', script_map_missing_flat hflat, script_map_missing_flat hflat',
      Bool.false_eq_true, if_false]
    split
    · exact h
    · exact twins_fold hsamples hrecord hid hid'
        (fun t t' e ht => ht.removeSample hf (tagSums_together _ _) slot e) h
  same_blank _ _ _ _ h h' :=
    ⟨h.scratch, h'.scratch, .blank (Table.get_of_nil h.rows) (Table.get_of_nil h'.rows)
      ((Table.count_of_nil h'.rows).trans (Table.count_of_nil h.rows).symm)⟩

end TagReport

/-! ## Section 2: What the loops find in a timer -/

/-- Two searches that never stop at the same element need two elements. -/
theorem two_le_length_of_find? {α : Type*} {p q : α → Bool} {xs : List α}
    (hpq : ∀ x, p x = true → q x = true → False) (hp : (xs.find? p).isSome)
    (hq : (xs.find? q).isSome) : 2 ≤ xs.length := by
  rcases xs with _ | ⟨x, _ | ⟨y, xs⟩⟩
  · simp at hp
  · simp at hp hq
    exact (hpq x hp hq).elim
  · simp

section timers
variable {id1 id2 : Int} {timer : TimerRecord}

theorem words_of_one (id : Int) (timer : TimerRecord) :
    TagKind.tagN_info.words_of [id] timer = TagKind.tag_info.words_of [id] timer := by
  unfold TagKind.words_of
  cases htags : timer.tags with
  | nil => simp [tag_find]
  | cons t tags => cases hfind : tag_find id (t :: tags) <;> simp [hfind]

theorem words_of_two (h12 : id1 ≠ id2) (timer : TimerRecord) :
    TagKind.tagN_info.words_of [id1, id2] timer = TagKind.tag2_info.words_of [id1, id2] timer := by
  -- a timer with fewer tags than the report cannot have both
  have hfew : timer.tags.length < 2 →
      (tag_find id1 timer.tags).isSome → (tag_find id2 timer.tags).isSome → False := by
    intro hlt h₁ h₂
    simp only [tag_find, Option.isSome_map] at h₁ h₂
    have := two_le_length_of_find? (fun t ht₁ ht₂ => h12 (by simp at ht₁ ht₂; omega)) h₁ h₂
    omega
  unfold TagKind.words_of
  cases h₁ : tag_find id1 timer.tags with
  | none => simp [h₁]
  | some w₁ =>
    cases h₂ : tag_find id2 timer.tags with
    | none => simp [h₁, h₂]
    | some w₂ =>
      have hlen : ¬ timer.tags.length < 2 := fun hlt => hfew hlt (by simp [h₁]) (by simp [h₂])
      simp [h₁, h₂, h12, hlen]

/-- A timer is in the row of its one value. -/
theorem sameSamples_one (id : Int) :
    TagReport.SameSamples .tag_info .tagN_info followed_by_bar [id] := by
  intro record _
  unfold TagReport.samples
  rw [List.map_filterMap]
  congr 1
  funext timer
  rw [words_of_one]
  cases hw : TagKind.tag_info.words_of [id] timer with
  | none => rfl
  | some ws =>
    obtain ⟨w, rfl⟩ : ∃ w, ws = [w] := by
      simp [TagKind.words_of] at hw
      obtain ⟨w, -, rfl⟩ := hw
      exact ⟨w, rfl⟩
    simp [TagKind.index, tagN_index_one]

/-- A timer is in the row of its two values. -/
theorem sameSamples_two (h12 : id1 ≠ id2) :
    TagReport.SameSamples .tag2_info .tagN_info followed_by_bar [id1, id2] := by
  intro record _
  unfold TagReport.samples
  rw [List.map_filterMap]
  congr 1
  funext timer
  rw [words_of_two h12]
  cases hw : TagKind.tag2_info.words_of [id1, id2] timer with
  | none => rfl
  | some ws =>
    obtain ⟨w₁, w₂, rfl⟩ : ∃ w₁ w₂, ws = [w₁, w₂] := by
      simp [TagKind.words_of, h12, Option.bind_eq_some_iff] at hw
      obtain ⟨w₁, -, w₂, -, rfl⟩ := hw
      exact ⟨w₁, w₂, rfl⟩
    simp [TagKind.index, tagN_index_two, tag2_info_index_eq]

end timers

/-! ## Section 3: Request tag reports -/

/-- The sums of a row agree; the histogram may have other buckets. -/
def RowSums.Same (sums sums' : RowSums) : Prop := sums'.toRequestSums = sums.toRequestSums

theorem rowSums_together (buckets buckets' : BucketChoice) :
    (rowSums buckets).Together (rowSums buckets') RowSums.Same where
  zero := rfl
  single _ := rfl
  add data _ _ h := congrArg (RequestSums.add data) h
  sub data _ _ h := congrArg (RequestSums.sub data) h

/-- Without requests the sums are zero. -/
theorem RequestSums.eq_zero_of {sums : RequestSums} (h : sums.Of 0) : sums = zero := by
  have htime : ∀ {f : RequestData → Duration} {t : Timeval}, (timevalSum f).Rep t 0 → t = .zero :=
    fun ht => Timeval.eq_of_micros_eq ht.1 Timeval.normalised_zero ht.2
  obtain ⟨time, utime, stime, kbytes, memory⟩ := sums
  obtain ⟨h₁, h₂, h₃, h₄, h₅⟩ := h
  simp only at h₁ h₂ h₃ h₄ h₅
  rw [htime h₁, htime h₂, htime h₃, show kbytes = 0 from h₄, show memory = 0 from h₅]
  rfl

/-- The tags of a request tag report. -/
def rtagParams (k : RtagKind) : ReportParams (rtagOps k) (List Word) where
  get := RtagReport.tags
  get_with_std _ _ := rfl
  get_add _ := RtagReport.tags_add_func
  get_delete _ := RtagReport.tags_delete_func

namespace RtagReport

variable {k k' : RtagKind} {f : RowKey k.nested → RowKey k'.nested}

/-- Equal totals, and the same rows under renamed keys: equal `req_count`, equal
    sums, equal `results_cnt`. -/
structure SameRows (f : RowKey k.nested → RowKey k'.nested) (report : RtagReport k)
    (report' : RtagReport k') : Prop where
  totals : report'.totals = report.totals
  rows : Table.Renamed (rowStore RequestRow k.nested) (rowStore RequestRow k'.nested) f
    (CountRow.Same RowSums.Same) report.results report'.results

/-- Kinds that select the same requests are in lockstep. -/
def lockstep (f : RowKey k.nested → RowKey k'.nested) (hf : Function.Injective f) {tags : List Word}
    (hkey : ∀ record : StatsRecord, record.Plain →
      k'.key tags record.data = (k.key tags record.data).map f) :
    Lockstep (rtagLaws k) (rtagLaws k') (rtagParams k) (rtagParams k') tags where
  Same := SameRows f
  same_with_std _ _ _ _ h := ⟨h.totals, h.rows⟩
  same_add slot report report' record hrecord hp hp' h := by
    have htags : report.tags = tags := hp
    have htags' : report'.tags = tags := hp'
    show SameRows f (report.add_func record) (report'.add_func record)
    rw [add_func_eq, add_func_eq]
    unfold rtag_add
    rw [htags, htags', hkey record hrecord]
    cases k.key tags record.data with
    | none => exact h
    | some index =>
      refine ⟨congrArg (RequestSums.add record.data) h.totals, ?_⟩
      exact h.rows.insertOne hf (rowSums_together _ _) (index, record.data)
  same_delete slot report report' record hrecord hp hp' hcheck h := by
    have htags : report.tags = tags := hp
    have htags' : report'.tags = tags := hp'
    have hcheck' : report'.std.delete_check record = report.std.delete_check record := hcheck
    show SameRows f (report.delete_func record) (report'.delete_func record)
    rw [delete_func_eq, delete_func_eq]
    unfold rtag_delete
    rw [hcheck', htags, htags', hkey record hrecord]
    split
    · exact h
    · cases k.key tags record.data with
      | none => exact h
      | some index =>
        have hrow := h.rows.row index
        have hremove := h.rows.removeOne hf (rowSums_together report.std.buckets
          report'.std.buckets) (index, record.data)
        simp only [Option.map_some]
        -- the row is there for both, or for neither
        generalize (rowStore RequestRow k.nested).get report.results.rows index = o,
          (rowStore RequestRow k'.nested).get report'.results.rows (f index) = o' at hrow
        cases hrow with
        | none => exact h
        | some _ => exact ⟨congrArg (RequestSums.sub record.data) h.totals, hremove⟩
  same_blank report report' _ _ h h' := by
    have htotals : report.totals = .zero := RequestSums.eq_zero_of h.totals
    have htotals' : report'.totals = .zero := RequestSums.eq_zero_of h'.totals
    refine ⟨htotals'.trans htotals.symm, ?_⟩
    exact .blank (Table.row_of_nil h.rows) (Table.row_of_nil h'.rows)
      ((Table.rowCount_of_nil h'.rows).trans (Table.rowCount_of_nil h.rows).symm)

end RtagReport

/-! ## Section 4: What the loops find in a request -/

section requests
variable {tag tag1 tag2 : Word} {tags : List (Word × Word)} {word1 word2 : Option Word}

theorem rtag_find_cons_self {t : Word × Word} (h : tag.ptr = t.1.ptr) :
    rtag_find tag (t :: tags) = some t.2 := by
  simp [rtag_find, h]

theorem rtag_find_cons_ne {t : Word × Word} (h : tag.ptr ≠ t.1.ptr) :
    rtag_find tag (t :: tags) = rtag_find tag tags := by
  simp [rtag_find, h]

/-- The `rtag2` loop, started with values whose tags do not come again. -/
theorem rtag2_find_from (h12 : tag1.ptr ≠ tag2.ptr) (hnd : (tags.map fun t => t.1.ptr).Nodup)
    (h1 : word1.isSome → tag1.ptr ∉ tags.map fun t => t.1.ptr)
    (h2 : word2.isSome → tag2.ptr ∉ tags.map fun t => t.1.ptr) :
    rtag2_find tag1 tag2 tags word1 word2 =
      (word1.or (rtag_find tag1 tags), word2.or (rtag_find tag2 tags)) := by
  induction tags generalizing word1 word2 with
  | nil => simp [rtag2_find, rtag_find]
  | cons t tags ih =>
    rw [List.map_cons, List.nodup_cons] at hnd
    rw [List.map_cons] at h1 h2
    -- once both values are known the rest of the tags has neither
    have hdone : ∀ {w₁ w₂ : Option Word},
        (w₁.isSome → tag1.ptr ∉ tags.map fun t => t.1.ptr) →
        (w₂.isSome → tag2.ptr ∉ tags.map fun t => t.1.ptr) →
        (if w₁.isSome && w₂.isSome then (w₁, w₂) else rtag2_find tag1 tag2 tags w₁ w₂) =
          (w₁.or (rtag_find tag1 tags), w₂.or (rtag_find tag2 tags)) := by
      intro w₁ w₂ hw₁ hw₂
      split
      · next hboth =>
        rw [Bool.and_eq_true] at hboth
        rw [Option.or_of_isSome hboth.1, Option.or_of_isSome hboth.2]
      · exact ih hnd.2 hw₁ hw₂
    unfold rtag2_find
    by_cases e1 : tag1.ptr = t.1.ptr
    · obtain rfl : word1 = none := by
        cases word1 with
        | none => rfl
        | some w => exact absurd (e1 ▸ List.mem_cons_self) (h1 rfl)
      have e2 : tag2.ptr ≠ t.1.ptr := fun e2 => h12 (e1.trans e2.symm)
      rw [if_pos e1, rtag_find_cons_self e1, rtag_find_cons_ne e2]
      simp only
      rw [hdone (fun _ => e1 ▸ hnd.1) fun hw hmem => h2 hw (List.mem_cons_of_mem _ hmem)]
      rfl
    · rw [if_neg e1, rtag_find_cons_ne e1]
      by_cases e2 : tag2.ptr = t.1.ptr
      · obtain rfl : word2 = none := by
          cases word2 with
          | none => rfl
          | some w => exact absurd (e2 ▸ List.mem_cons_self) (h2 rfl)
        rw [if_pos e2, rtag_find_cons_self e2]
        simp only
        rw [hdone (fun hw hmem => h1 hw (List.mem_cons_of_mem _ hmem)) fun _ => e2 ▸ hnd.1]
        rfl
      · rw [if_neg e2, rtag_find_cons_ne e2]
        simp only
        exact hdone (fun hw hmem => h1 hw (List.mem_cons_of_mem _ hmem))
          fun hw hmem => h2 hw (List.mem_cons_of_mem _ hmem)

theorem rtagN_words_one (tag : Word) (data : RequestData) :
    rtagN_words [tag] data = (rtag_find tag data.tags).map fun w => [w] := by
  unfold rtagN_words
  cases htags : data.tags with
  | nil => simp [rtag_find]
  | cons t tags => cases hfind : rtag_find tag (t :: tags) <;> simp [hfind]

theorem rtagN_words_two (h12 : tag1.ptr ≠ tag2.ptr) {data : RequestData}
    (hnd : (data.tags.map fun t => t.1.ptr).Nodup) :
    rtagN_words [tag1, tag2] data =
      (rtag2_words [tag1, tag2] data).map fun w => [w.1, w.2] := by
  have hfew : data.tags.length < 2 →
      (rtag_find tag1 data.tags).isSome → (rtag_find tag2 data.tags).isSome → False := by
    intro hlt h₁ h₂
    simp only [rtag_find, Option.isSome_map] at h₁ h₂
    have := two_le_length_of_find? (fun t ht₁ ht₂ => h12 (by simp at ht₁ ht₂; omega)) h₁ h₂
    omega
  have htwo : rtag2_words [tag1, tag2] data = (rtag_find tag1 data.tags).bind fun w₁ =>
      (rtag_find tag2 data.tags).bind fun w₂ => some (w₁, w₂) := by
    simp [rtag2_words, rtag2_find_from h12 hnd]
  rw [htwo]
  unfold rtagN_words
  cases h₁ : rtag_find tag1 data.tags with
  | none => simp [h₁]
  | some w₁ =>
    cases h₂ : rtag_find tag2 data.tags with
    | none => simp [h₁, h₂]
    | some w₂ =>
      have hlen : ¬ data.tags.length < 2 := fun hlt => hfew hlt (by simp [h₁]) (by simp [h₂])
      simp [h₁, h₂, hlen]

theorem rtagN_key_one (tag : Word) (data : RequestData) :
    RtagKind.rtagN_info.key [tag] data =
      (RtagKind.rtag_info.key [tag] data).map followed_by_bar := by
  simp only [RtagKind.key, rtagN_words_one, Option.map_map]
  cases hfind : rtag_find tag data.tags <;> simp [hfind, tagN_index_one]

theorem rtagN_key_two (h12 : tag1.ptr ≠ tag2.ptr) {data : RequestData}
    (hnd : (data.tags.map fun t => t.1.ptr).Nodup) :
    RtagKind.rtagN_info.key [tag1, tag2] data =
      (RtagKind.rtag2_info.key [tag1, tag2] data).map followed_by_bar := by
  simp only [RtagKind.key, rtagN_words_two h12 hnd, Option.map_map]
  cases rtag2_words [tag1, tag2] data <;> simp [tagN_index_two, rtag2_index_eq]

end requests

/-! ## Section 5: Whole runs -/

section pairs
variable {id1 id2 : Int} {tag1 tag2 : Word}

def tag_lockstep (id : Int) : Lockstep (tagLaws .tag_info) (tagLaws .tagN_info)
    (tagParams .tag_info) (tagParams .tagN_info) [id] :=
  TagReport.lockstep followed_by_bar followed_by_bar_injective rfl rfl (sameSamples_one id)

def tag2_lockstep (h12 : id1 ≠ id2) : Lockstep (tagLaws .tag2_info) (tagLaws .tagN_info)
    (tagParams .tag2_info) (tagParams .tagN_info) [id1, id2] :=
  TagReport.lockstep followed_by_bar followed_by_bar_injective rfl rfl (sameSamples_two h12)

def rtag_lockstep (tag : Word) : Lockstep (rtagLaws .rtag_info) (rtagLaws .rtagN_info)
    (rtagParams .rtag_info) (rtagParams .rtagN_info) [tag] :=
  RtagReport.lockstep followed_by_bar followed_by_bar_injective
    fun record _ => rtagN_key_one tag record.data

def rtag2_lockstep (h12 : tag1.ptr ≠ tag2.ptr) : Lockstep (rtagLaws .rtag2_info)
    (rtagLaws .rtagN_info) (rtagParams .rtag2_info) (rtagParams .rtagN_info) [tag1, tag2] :=
  RtagReport.lockstep followed_by_bar followed_by_bar_injective
    fun _ hrecord => rtagN_key_two h12 hrecord.tags

end pairs

namespace Daemon

variable {d : Daemon}

/-- In every run, an N-ary report with one or two different tags and the
    fixed-arity report with the same tags, filter and start have the same rows up
    to the trailing `|` of the key. -/
theorem nary_reports_refine (h : Run Event.Plain d) :
    (∀ id (r : TagReport .tag_info) (r' : TagReport .tagN_info), ⟨_, r⟩ ∈ d.tag_reports →
      ⟨_, r'⟩ ∈ d.tag_reports → r.tag_id = [id] → r'.tag_id = [id] → r.std.SameStart r'.std →
      TagReport.SameRows followed_by_bar r r') ∧
    (∀ id1 id2 (r : TagReport .tag2_info) (r' : TagReport .tagN_info), id1 ≠ id2 →
      ⟨_, r⟩ ∈ d.tag_reports → ⟨_, r'⟩ ∈ d.tag_reports → r.tag_id = [id1, id2] →
      r'.tag_id = [id1, id2] → r.std.SameStart r'.std →
      TagReport.SameRows followed_by_bar r r') ∧
    (∀ tag (r : RtagReport .rtag_info) (r' : RtagReport .rtagN_info), ⟨_, r⟩ ∈ d.rtag_reports →
      ⟨_, r'⟩ ∈ d.rtag_reports → r.tags = [tag] → r'.tags = [tag] → r.std.SameStart r'.std →
      RtagReport.SameRows followed_by_bar r r') ∧
    (∀ tag1 tag2 (r : RtagReport .rtag2_info) (r' : RtagReport .rtagN_info),
      tag1.ptr ≠ tag2.ptr → ⟨_, r⟩ ∈ d.rtag_reports → ⟨_, r'⟩ ∈ d.rtag_reports →
      r.tags = [tag1, tag2] → r'.tags = [tag1, tag2] → r.std.SameStart r'.std →
      RtagReport.SameRows followed_by_bar r r') := by
  refine ⟨?_, ?_, ?_, ?_⟩
  · intro id r r' hr hr' hp hp' hstart
    exact (tag_reports_inLockstep tagParams (tag_lockstep id) h r r' hr hr' hp hp' hstart).rows
  · intro id1 id2 r r' h12 hr hr' hp hp' hstart
    exact (tag_reports_inLockstep tagParams (tag2_lockstep h12) h r r' hr hr' hp hp' hstart).rows
  · intro tag r r' hr hr' hp hp' hstart
    exact rtag_reports_inLockstep rtagParams (rtag_lockstep tag) h r r' hr hr' hp hp' hstart
  · intro tag1 tag2 r r' h12 hr hr' hp hp' hstart
    exact rtag_reports_inLockstep rtagParams (rtag2_lockstep h12) h r r' hr hr' hp hp' hstart

/-- `tag_info` and `tagN_info` on tag 1. -/
def one_tag_pair : Daemon :=
  ((init 9 2621439).step (.register_tag .tag_info .none one_bucket [1])).step
    (.register_tag .tagN_info .none one_bucket [1])

/-- The first request with tag 1. -/
def one_tag_job (k : TagKind) : TagReport k :=
  add_job (tagOps k) (one_tag_pair.first_record ⟨100, 0⟩ [one_timer] true)
    (one_tag_pair.new_entries ⟨100, 0⟩ [one_timer] true) (.created k .none one_bucket [1])

theorem one_tag_pair_reports : (one_tag_pair.step (.ingest ⟨100, 0⟩ [one_timer] true)).tag_reports =
    [⟨.tag_info, one_tag_job .tag_info⟩, ⟨.tagN_info, one_tag_job .tagN_info⟩] := by
  show (one_tag_pair.ingest ⟨100, 0⟩ [one_timer] true).tag_reports = _
  rw [tag_reports_ingest (by simp), if_neg (by decide)]
  rfl

/-- Both reports have seen the request, in one row. -/
theorem nary_reports_refine_one_request :
    let d := one_tag_pair.step (.ingest ⟨100, 0⟩ [one_timer] true)
    Run Event.Plain d ∧ ∃ (r : TagReport .tag_info) (r' : TagReport .tagN_info),
      ⟨_, r⟩ ∈ d.tag_reports ∧ ⟨_, r'⟩ ∈ d.tag_reports ∧ r.results.rowCount = 1 ∧
      TagReport.SameRows followed_by_bar r r' := by
  intro d
  have hrun : Run Event.Plain d := by
    refine .step _ (.step _ (.step _ (.init _ _) trivial) trivial) ⟨by decide, ?_⟩
    intro r hr
    rw [List.mem_singleton.mp hr]
    exact ⟨by decide, by decide⟩
  have hr : ⟨.tag_info, one_tag_job .tag_info⟩ ∈ d.tag_reports := by
    rw [one_tag_pair_reports]
    exact List.mem_cons_self
  have hr' : ⟨.tagN_info, one_tag_job .tagN_info⟩ ∈ d.tag_reports := by
    rw [one_tag_pair_reports]
    exact List.mem_cons_of_mem _ List.mem_cons_self
  have hid : ∀ k, (one_tag_job k).tag_id = [1] := fun k => (tagParams k).get_add_job _ _ _
  have hstd : ∀ k, (one_tag_job k).std = (StdReport.created .none one_bucket).set_start
      (one_tag_pair.first_record ⟨100, 0⟩ [one_timer] true) := fun k =>
    (Tracked.std_add_job (tagLaws k) _ _ _).trans (if_pos rfl)
  refine ⟨hrun, _, _, hr, hr', by decide,
    (nary_reports_refine hrun).1 1 _ _ hr hr' (hid _) (hid _) ?_⟩
  rw [hstd, hstd]
  exact ⟨rfl, rfl, rfl⟩

end Daemon

end PinbaEngine
