import PinbaEngine.Reports.Tag

/-! # Which records and timers match

    Two search loops of the daemon count matches instead of matched tags:

    - `CHECK_REPORT_CONDITIONS_CONTINUE` compares the number of tags of a
      record that match a condition with the number of conditions, and gives
      up at the first tag with the right name and a wrong value.
    - The `tagN` kinds jump to the row as soon as the number of matching tags
      of a timer is the number of tags of the report.

    Neither requests nor timers are required to name a tag only once. The
    first loop is right for every report exactly on the records that do
    (`check_exact_iff`). The second one is right exactly when the matches of
    the leading tags do not use up the count (`tagN_select_exact_iff`). -/

namespace PinbaEngine

/-! ## Section 1: Conditions of a report -/

namespace Conditions

variable {cond : Conditions} {data : RequestData} {pair : Word × Word}
  {tags conds : List (Word × Word)} {n : Nat}

/-- The pair of words is among the tags of a record. -/
def Occurs (pair : Word × Word) (tags : List (Word × Word)) : Prop :=
  ∃ tag ∈ tags, pair.1.ptr = tag.1.ptr ∧ pair.2.ptr = tag.2.ptr

/-- The tags with the name of a condition. -/
def named (pair : Word × Word) (tags : List (Word × Word)) : List (Word × Word) :=
  tags.filter fun tag => pair.1.ptr = tag.1.ptr

/-- The tags of the report decide about the record: there are some, and the time limits
    do not exclude it. -/
structure Decisive (cond : Conditions) (data : RequestData) : Prop where
  tagged : cond.tagged = true
  some_tag : cond.tags ≠ []
  in_time : (cond.conditional &&
    (cond.below_min data.req_time.toTimeval || cond.above_max data.req_time.toTimeval)) = false

/-- The record has all tags of the conditions. -/
def AllOccur (cond : Conditions) (data : RequestData) : Prop :=
  ∀ pair ∈ cond.tags, Occurs pair data.tags

theorem named_cons_self {tag : Word × Word} (h : pair.1.ptr = tag.1.ptr) :
    named pair (tag :: tags) = tag :: named pair tags :=
  List.filter_cons_of_pos (by simpa using h)

theorem named_cons_ne {tag : Word × Word} (h : pair.1.ptr ≠ tag.1.ptr) :
    named pair (tag :: tags) = named pair tags :=
  List.filter_cons_of_neg (by simpa using h)

theorem occurs_iff_named :
    Occurs pair tags ↔ ∃ tag ∈ named pair tags, pair.2.ptr = tag.2.ptr := by
  unfold Occurs named
  simp only [List.mem_filter, decide_eq_true_eq, and_assoc]

/-- A name that no tag carries. -/
theorem scan_of_unnamed (h : named pair tags = []) : scan_record_tags pair tags n = (n, false) := by
  induction tags with
  | nil => rfl
  | cons tag tags ih =>
    have hne : pair.1.ptr ≠ tag.1.ptr := by
      intro heq
      rw [named_cons_self heq] at h
      cases h
    rw [scan_record_tags, if_neg hne]
    exact ih (by rwa [named_cons_ne hne] at h)

/-- A name that one tag carries. -/
theorem scan_of_named {tag : Word × Word} (h : named pair tags = [tag]) :
    scan_record_tags pair tags n =
      if pair.2.ptr = tag.2.ptr then (n + 1, false) else (n, true) := by
  induction tags with
  | nil => cases h
  | cons first tags ih =>
    rw [scan_record_tags]
    by_cases hname : pair.1.ptr = first.1.ptr
    · rw [named_cons_self hname] at h
      obtain ⟨rfl, hrest⟩ := List.cons.inj h
      rw [if_pos hname, scan_of_unnamed hrest]
    · rw [named_cons_ne hname] at h
      rw [if_neg hname, ih h]

/-- Where each name of a condition occurs at most once, the count tells whether all
    conditions are met. -/
theorem found_tags_spec (h : ∀ pair ∈ conds, (named pair tags).length ≤ 1) :
    found_tags tags conds n ≤ n + conds.length ∧
      (found_tags tags conds n = n + conds.length ↔ ∀ pair ∈ conds, Occurs pair tags) := by
  induction conds generalizing n with
  | nil => simp [found_tags]
  | cons pair conds ih =>
    have hone := h pair List.mem_cons_self
    have hrest : ∀ pair ∈ conds, (named pair tags).length ≤ 1 :=
      fun p hp => h p (List.mem_cons_of_mem _ hp)
    rw [List.forall_mem_cons, occurs_iff_named, List.length_cons]
    -- no tag, the right tag, or one with a wrong value
    rcases hnamed : named pair tags with - | ⟨tag, rest⟩
    · rw [found_tags, scan_of_unnamed hnamed]
      obtain ⟨hle, -⟩ := @ih n hrest
      refine ⟨by simp only; omega, ?_⟩
      simp only [List.not_mem_nil, false_and, exists_false, iff_false]
      omega
    · obtain rfl : rest = [] := by
        rw [hnamed, List.length_cons] at hone
        exact List.eq_nil_of_length_eq_zero (by omega)
      rw [found_tags, scan_of_named hnamed]
      by_cases hvalue : pair.2.ptr = tag.2.ptr
      · obtain ⟨hle, hiff⟩ := @ih (n + 1) hrest
        rw [if_pos hvalue]
        simp only [List.mem_singleton, exists_eq_left, hvalue, true_and, ← hiff]
        omega
      · rw [if_neg hvalue]
        simp only [List.mem_singleton, exists_eq_left, hvalue, false_and, iff_false]
        omega

theorem check_of_once (h : cond.Decisive data)
    (honce : ∀ pair ∈ cond.tags, (named pair data.tags).length ≤ 1) :
    cond.check data = true ↔ cond.AllOccur data := by
  obtain ⟨-, hiff⟩ := found_tags_spec (n := 0) honce
  rw [Nat.zero_add] at hiff
  unfold check AllOccur
  rw [h.in_time, h.tagged, ← hiff]
  by_cases hnil : data.tags = []
  · -- a record without tags is refused at once
    have hno : found_tags data.tags cond.tags 0 ≠ cond.tags.length := by
      rw [ne_eq, hiff, hnil]
      obtain ⟨pair, rest, hcons⟩ := List.exists_cons_of_ne_nil h.some_tag
      intro hall
      obtain ⟨tag, htag, -⟩ := hall pair (by rw [hcons]; exact List.mem_cons_self)
      cases htag
    simp [hnil] at hno ⊢
    exact hno
  · simp [hnil]

theorem found_le_scan (pair : Word × Word) (tags : List (Word × Word)) :
    n ≤ (scan_record_tags pair tags n).1 := by
  induction tags generalizing n with
  | nil => exact le_rfl
  | cons tag tags ih =>
    rw [scan_record_tags]
    split
    · split
      · exact (Nat.le_succ n).trans ih
      · exact le_rfl
    · exact ih

/-- The first tag with the name has the right value. -/
theorem scan_of_right {first : Word × Word} {rest : List (Word × Word)}
    (h : named pair tags = first :: rest) (hvalue : pair.2.ptr = first.2.ptr) :
    n + 1 ≤ (scan_record_tags pair tags n).1 := by
  induction tags with
  | nil => cases h
  | cons tag tags ih =>
    rw [scan_record_tags]
    by_cases hname : pair.1.ptr = tag.1.ptr
    · rw [named_cons_self hname] at h
      obtain ⟨rfl, -⟩ := List.cons.inj h
      rw [if_pos hname, if_pos hvalue]
      exact found_le_scan pair tags
    · rw [named_cons_ne hname] at h
      rw [if_neg hname]
      exact ih h

/-- A record that names a tag twice fails some condition that it meets. -/
theorem exists_miscounted (h : ¬ (tags.map fun tag => tag.1.ptr).Nodup) :
    ∃ pair, Occurs pair tags ∧ (scan_record_tags pair tags 0).1 ≠ 1 := by
  induction tags with
  | nil => exact absurd List.nodup_nil h
  | cons tag tags ih =>
    by_cases hmem : tag.1.ptr ∈ tags.map fun tag => tag.1.ptr
    · obtain ⟨tag', htag', hname⟩ := List.mem_map.mp hmem
      have hne : named tag tags ≠ [] :=
        List.ne_nil_of_mem (List.mem_filter.mpr ⟨htag', decide_eq_true hname.symm⟩)
      obtain ⟨first, rest, hnamed⟩ := List.exists_cons_of_ne_nil hne
      obtain ⟨hfirst, hname⟩ := List.mem_filter.mp (hnamed ▸ List.mem_cons_self : first ∈ named tag tags)
      have hname : tag.1.ptr = first.1.ptr := of_decide_eq_true hname
      by_cases hvalue : tag.2.ptr = first.2.ptr
      · -- the same value again: it counts twice
        refine ⟨tag, ⟨tag, List.mem_cons_self, rfl, rfl⟩, ?_⟩
        rw [scan_record_tags, if_pos rfl, if_pos rfl]
        have := scan_of_right (n := 0 + 1) hnamed hvalue
        omega
      · -- another value: looking for the second one ends at the first one
        refine ⟨first, ⟨first, List.mem_cons_of_mem _ hfirst, rfl, rfl⟩, ?_⟩
        rw [scan_record_tags, if_pos hname.symm, if_neg (Ne.symm hvalue)]
        exact Nat.zero_ne_one
    · have hrest : ¬ (tags.map fun tag => tag.1.ptr).Nodup := by
        intro hnodup
        exact h (List.nodup_cons.mpr ⟨hmem, hnodup⟩)
      obtain ⟨pair, ⟨tag', htag', hname, hvalue⟩, hcount⟩ := ih hrest
      have hne : pair.1.ptr ≠ tag.1.ptr := by
        intro heq
        exact hmem (List.mem_map.mpr ⟨tag', htag', by rw [← hname, heq]⟩)
      refine ⟨pair, ⟨tag', List.mem_cons_of_mem _ htag', hname, hvalue⟩, ?_⟩
      rw [scan_record_tags, if_neg hne]
      exact hcount

/-- The report whose only condition is one pair. -/
def only (pair : Word × Word) : Conditions := { none with tagged := true, tags := [pair] }

theorem decisive_only (pair : Word × Word) (data : RequestData) : (only pair).Decisive data :=
  ⟨rfl, by simp [only], rfl⟩

/-- Reports with tag conditions let exactly the records through that have all of them, for
    all conditions if and only if the record names no tag twice, and for given conditions
    if none of their names occurs twice. -/
theorem check_exact_iff (data : RequestData) :
    ((∀ cond : Conditions, cond.Decisive data →
        (cond.check data = true ↔ cond.AllOccur data)) ↔
      (data.tags.map fun tag => tag.1.ptr).Nodup) ∧
    ∀ cond : Conditions, cond.Decisive data →
      (∀ pair ∈ cond.tags, (named pair data.tags).length ≤ 1) →
        (cond.check data = true ↔ cond.AllOccur data) := by
  refine ⟨⟨?_, ?_⟩, fun cond h honce => check_of_once h honce⟩
  · intro hall
    by_contra hnodup
    obtain ⟨pair, hoccurs, hcount⟩ := exists_miscounted hnodup
    have hcheck := (hall (only pair) (decisive_only pair data)).mpr (by
      intro p hp
      obtain rfl := List.mem_singleton.mp hp
      exact hoccurs)
    have hfound : found_tags data.tags [pair] 0 = (scan_record_tags pair data.tags 0).1 := by
      rw [found_tags]
      rcases scan_record_tags pair data.tags 0 with ⟨found, stopped⟩
      cases stopped <;> rfl
    have hone : found_tags data.tags [pair] 0 = 1 := by
      simp [check, only, none] at hcheck
      exact hcheck.2
    exact hcount (hfound ▸ hone)
  · intro hnodup cond h
    apply check_of_once h
    intro pair _
    have hcount := List.nodup_iff_count_le_one.mp hnodup pair.1.ptr
    rw [List.count, List.countP_map, List.countP_eq_length_filter] at hcount
    have hnamed : named pair data.tags =
        data.tags.filter ((fun x => x == pair.1.ptr) ∘ fun tag => tag.1.ptr) := by
      apply List.filter_congr
      intro tag _
      by_cases hname : pair.1.ptr = tag.1.ptr
      · simp [hname]
      · simp [hname, Ne.symm hname]
    rw [hnamed]
    exact hcount

/-- A request tagged `a=x` and `a=y` has the tag `a=y`, and is refused. -/
theorem check_misses_second_value :
    let a : Word := ⟨1, ⟨[97], by decide, by decide⟩⟩
    let x : Word := ⟨2, ⟨[120], by decide, by decide⟩⟩
    let y : Word := ⟨3, ⟨[121], by decide, by decide⟩⟩
    let data : RequestData := { (default : RequestData) with tags := [(a, x), (a, y)] }
    (only (a, y)).Decisive data ∧ (only (a, y)).check data = false ∧
      (only (a, y)).AllOccur data := by
  intro a x y data
  refine ⟨decisive_only _ _, by decide, ?_⟩
  intro pair hpair
  obtain rfl := List.mem_singleton.mp hpair
  exact ⟨(a, y), by simp [data], rfl, rfl⟩

end Conditions

/-! ## Section 2: Timers of the `tagN` kinds -/

section tagN
variable {id : Int} {ids : List Int} {tags : List (Int × Word)} {words : List Word}
  {h cnt tags_cnt : Nat}

/-- The number of tags of a timer with some id. -/
def occurrences (id : Int) (tags : List (Int × Word)) : Nat :=
  (tags.filter fun tag => id = tag.1).length

/-- The number of matches of the leading ids, up to the first one that the timer lacks. -/
def leading (tags : List (Int × Word)) : List Int → Nat
  | [] => 0
  | id :: ids => if occurrences id tags = 0 then 0 else occurrences id tags + leading tags ids

theorem occurrences_cons_self {tag : Int × Word} :
    occurrences tag.1 (tag :: tags) = occurrences tag.1 tags + 1 := by
  simp [occurrences]

theorem occurrences_cons_ne {tag : Int × Word} (hne : id ≠ tag.1) :
    occurrences id (tag :: tags) = occurrences id tags := by
  simp [occurrences, hne]

theorem occurrences_eq_zero : occurrences id tags = 0 ↔ id ∉ tags.map Prod.fst := by
  rw [occurrences, List.length_eq_zero_iff, List.filter_eq_nil_iff, List.mem_map]
  constructor
  · rintro hno ⟨tag, htag, rfl⟩
    exact hno tag htag (by simp)
  · intro hno tag htag heq
    exact hno ⟨tag, htag, (of_decide_eq_true heq).symm⟩

/-- The inner loop when the count is not used up. -/
theorem scan_timer_short (hcnt : cnt + occurrences id tags < tags_cnt)
    (hpos : occurrences id tags ≠ 0) (found : Bool) :
    ∃ word, (id, word) ∈ tags ∧ tagN_scan_timer tags_cnt h id tags words cnt found =
      (words.set h word, cnt + occurrences id tags, false, true) := by
  induction tags generalizing words cnt found with
  | nil => exact absurd rfl hpos
  | cons tag tags ih =>
    rw [tagN_scan_timer]
    by_cases hid : id = tag.1
    · subst hid
      rw [occurrences_cons_self] at hcnt ⊢
      rw [if_pos rfl, if_neg (by omega)]
      by_cases hrest : occurrences tag.1 tags = 0
      · refine ⟨tag.2, List.mem_cons_self, ?_⟩
        rw [tagN_scan_timer_of_notMem (occurrences_eq_zero.mp hrest), hrest]
      · -- a later match overwrites the word
        obtain ⟨word, hmem, hscan⟩ := @ih (words.set h tag.2) (cnt + 1) (by omega)
          hrest true
        refine ⟨word, List.mem_cons_of_mem _ hmem, ?_⟩
        rw [hscan, List.set_set]
        congr 2
        omega
    · rw [occurrences_cons_ne hid] at hcnt hpos ⊢
      obtain ⟨word, hmem, hscan⟩ := @ih words cnt hcnt hpos found
      refine ⟨word, List.mem_cons_of_mem _ hmem, ?_⟩
      rw [if_neg hid]
      exact hscan

/-- The inner loop when the count is reached: it jumps out. -/
theorem scan_timer_full (hlt : cnt < tags_cnt) (hcnt : tags_cnt ≤ cnt + occurrences id tags)
    (found : Bool) :
    ∃ word found', (id, word) ∈ tags ∧ tagN_scan_timer tags_cnt h id tags words cnt found =
      (words.set h word, tags_cnt, true, found') := by
  induction tags generalizing words cnt found with
  | nil => exact absurd hcnt (by simpa [occurrences] using hlt)
  | cons tag tags ih =>
    rw [tagN_scan_timer]
    by_cases hid : id = tag.1
    · subst hid
      rw [occurrences_cons_self] at hcnt
      rw [if_pos rfl]
      by_cases hlast : cnt + 1 = tags_cnt
      · rw [if_pos hlast, hlast]
        exact ⟨tag.2, found, List.mem_cons_self, rfl⟩
      · obtain ⟨word, found', hmem, hscan⟩ := @ih (words.set h tag.2) (cnt + 1)
          (by omega) (by omega) true
        rw [if_neg hlast]
        refine ⟨word, found', List.mem_cons_of_mem _ hmem, ?_⟩
        rw [hscan, List.set_set]
    · rw [occurrences_cons_ne hid] at hcnt
      obtain ⟨word, found', hmem, hscan⟩ := @ih words cnt hlt hcnt found
      rw [if_neg hid]
      exact ⟨word, found', List.mem_cons_of_mem _ hmem, hscan⟩

theorem leading_cons_of_ne (hpos : occurrences id tags ≠ 0) :
    leading tags (id :: ids) = occurrences id tags + leading tags ids := if_neg hpos

theorem leading_cons_of_eq (hzero : occurrences id tags = 0) : leading tags (id :: ids) = 0 :=
  if_pos hzero

/-- What the outer loop leaves in the array, started at position `h` with count `cnt`. -/
structure ScanResult (tags_cnt : Nat) (tags : List (Int × Word)) (ids : List Int) (h cnt : Nat)
    (words : List Word) (result : List Word × Bool) : Prop where
  matched : result.2 = decide (tags_cnt ≤ cnt + leading tags ids)
  length : result.1.length = tags_cnt
  /-- The count is used up before the last id: its word stays as it was. -/
  stale : tags_cnt ≤ cnt + leading tags ids.dropLast →
    result.1[tags_cnt - 1]? = words[tags_cnt - 1]?
  /-- The count is reached by the last id: all words are values of the timer. -/
  fresh : cnt + leading tags ids.dropLast < tags_cnt → tags_cnt ≤ cnt + leading tags ids →
    (∀ i < h, result.1[i]? = words[i]?) ∧
      ∀ i id, ids[i]? = some id → ∃ word, result.1[h + i]? = some word ∧ (id, word) ∈ tags

/-- The timer lacks the next id: the loop ends. -/
theorem scanResult_missing (hlen : words.length = tags_cnt) (hlt : cnt < tags_cnt)
    (hzero : occurrences id tags = 0) :
    ScanResult tags_cnt tags (id :: ids) h cnt words (words, false) := by
  have hlead : leading tags (id :: ids).dropLast = 0 := by
    cases ids with
    | nil => rfl
    | cons next ids =>
      rw [List.dropLast_cons_of_ne_nil (by simp)]
      exact leading_cons_of_eq hzero
  refine ⟨?_, hlen, ?_, ?_⟩
  · rw [leading_cons_of_eq hzero, eq_comm, decide_eq_false_iff_not]
    omega
  · intro hle
    omega
  · intro _ hle
    rw [leading_cons_of_eq hzero] at hle
    omega

/-- The matches of the next id use the count up: the loop jumps out. -/
theorem scanResult_full {word : Word} (hlen : words.length = tags_cnt)
    (hh : h + (id :: ids).length = tags_cnt) (hlt : cnt < tags_cnt)
    (hzero : occurrences id tags ≠ 0) (hfull : tags_cnt ≤ cnt + occurrences id tags)
    (hmem : (id, word) ∈ tags) :
    ScanResult tags_cnt tags (id :: ids) h cnt words (words.set h word, true) := by
  rw [List.length_cons] at hh
  refine ⟨?_, by rw [List.length_set, hlen], ?_, ?_⟩
  · rw [leading_cons_of_ne hzero, eq_comm, decide_eq_true_iff]
    omega
  · intro hle
    -- an id before the last one: position `h` is not the last
    have hne : ids ≠ [] := by
      rintro rfl
      simp only [List.dropLast_singleton, leading] at hle
      omega
    have := List.length_pos_iff.mpr hne
    rw [List.getElem?_set_ne (by omega)]
  · intro hlast _
    have hnil : ids = [] := by
      by_contra hne
      rw [List.dropLast_cons_of_ne_nil hne, leading_cons_of_ne hzero] at hlast
      omega
    subst hnil
    refine ⟨fun i hi => List.getElem?_set_ne (by omega), ?_⟩
    intro i id' hid
    rcases i with - | i
    · obtain rfl : id = id' := by simpa using hid
      exact ⟨word, by simp [show h < words.length by omega], hmem⟩
    · simp at hid

/-- The matches of the next id leave room: the loop goes on with the count. -/
theorem scanResult_next {word : Word} {result : List Word × Bool} (hlen : words.length = tags_cnt)
    (hh : h + (id :: ids).length = tags_cnt) (hzero : occurrences id tags ≠ 0)
    (hroom : cnt + occurrences id tags < tags_cnt) (hmem : (id, word) ∈ tags)
    (hrest : ScanResult tags_cnt tags ids (h + 1) (cnt + occurrences id tags) (words.set h word)
      result) : ScanResult tags_cnt tags (id :: ids) h cnt words result := by
  rw [List.length_cons] at hh
  have hassoc : ∀ n, cnt + (occurrences id tags + n) = cnt + occurrences id tags + n :=
    fun n => (Nat.add_assoc _ _ _).symm
  refine ⟨?_, hrest.length, ?_, ?_⟩
  · rw [hrest.matched, leading_cons_of_ne hzero, hassoc]
  · intro hle
    have hne : ids ≠ [] := by
      rintro rfl
      simp only [List.dropLast_singleton, leading] at hle
      omega
    have := List.length_pos_iff.mpr hne
    rw [List.dropLast_cons_of_ne_nil hne, leading_cons_of_ne hzero, hassoc] at hle
    rw [hrest.stale hle, List.getElem?_set_ne (by omega)]
  · intro hlast hle
    rw [leading_cons_of_ne hzero, hassoc] at hle
    have hne : ids ≠ [] := by
      rintro rfl
      simp only [leading] at hle
      omega
    rw [List.dropLast_cons_of_ne_nil hne, leading_cons_of_ne hzero, hassoc] at hlast
    obtain ⟨hframe, hvalues⟩ := hrest.fresh hlast hle
    refine ⟨?_, ?_⟩
    · intro i hi
      rw [hframe i (by omega), List.getElem?_set_ne (by omega)]
    · intro i id' hid
      rcases i with - | i
      · -- the word that this id stored is not written again
        obtain rfl : id = id' := by simpa using hid
        have hsame := hframe h (Nat.lt_succ_self h)
        exact ⟨word, by simpa [show h < words.length by omega] using hsame, hmem⟩
      · obtain ⟨word', hword', hmem'⟩ := hvalues i id' (by simpa using hid)
        exact ⟨word', by rw [← hword']; congr 1; omega, hmem'⟩

theorem tagN_scan_spec (hlen : words.length = tags_cnt) (hh : h + ids.length = tags_cnt)
    (hlt : cnt < tags_cnt) :
    ScanResult tags_cnt tags ids h cnt words (tagN_scan tags_cnt tags ids h words cnt) := by
  induction ids generalizing words h cnt with
  | nil =>
    rw [tagN_scan]
    refine ⟨?_, hlen, ?_, ?_⟩
    · have hno : (cnt = tags_cnt) ↔ (tags_cnt ≤ cnt + leading tags []) := by
        rw [leading]
        omega
      exact decide_eq_decide.mpr hno
    · intro hle
      simp only [List.dropLast_nil, leading] at hle
      omega
    · intro _ hle
      simp only [leading] at hle
      omega
  | cons id ids ih =>
    by_cases hzero : occurrences id tags = 0
    · have hstep : tagN_scan tags_cnt tags (id :: ids) h words cnt = (words, false) := by
        rw [tagN_scan, tagN_scan_timer_of_notMem (occurrences_eq_zero.mp hzero)]
        simp only [Prod.mk.injEq, true_and, decide_eq_false_iff_not]
        omega
      rw [hstep]
      exact scanResult_missing hlen hlt hzero
    · by_cases hfull : tags_cnt ≤ cnt + occurrences id tags
      · obtain ⟨word, found, hmem, hscan⟩ :=
          @scan_timer_full id tags words h cnt tags_cnt hlt hfull false
        rw [tagN_scan, hscan]
        exact scanResult_full hlen hh hlt hzero hfull hmem
      · obtain ⟨word, hmem, hscan⟩ :=
          @scan_timer_short id tags words h cnt tags_cnt (by omega) hzero false
        rw [tagN_scan, hscan]
        refine scanResult_next hlen hh hzero (by omega) hmem ?_
        rw [List.length_cons] at hh
        exact ih (by rw [List.length_set, hlen]) (by omega) (by omega)

end tagN

namespace TagKind

variable {k : TagKind} {ids : List Int} {timer : TimerRecord} {words ws : List Word}

/-- The kinds that count matches. -/
def counts_matches : TagKind → Bool
  | tagN_info | tagN_report | tagN_report2 => true
  | _ => false

/-- The timer carries all tags of the report. -/
def HasAll (ids : List Int) (timer : TimerRecord) : Prop := ∀ id ∈ ids, id ∈ timer.tags.map Prod.fst

instance : Decidable (HasAll ids timer) :=
  inferInstanceAs (Decidable (∀ id ∈ ids, id ∈ timer.tags.map Prod.fst))

/-- Every word is a value that the timer carries for the tag at its position. -/
def Carried (ids : List Int) (timer : TimerRecord) (ws : List Word) : Prop :=
  ws.length = ids.length ∧
    ∀ (i : Nat) (id : Int), ids[i]? = some id → ∃ word, ws[i]? = some word ∧ (id, word) ∈ timer.tags

/-- Timers with all tags are selected, with their own values. -/
def SelectedRight (ids : List Int) (timer : TimerRecord) (found : Option (List Word)) : Prop :=
  (found.isSome = true ↔ HasAll ids timer) ∧ ∀ ws, found = some ws → Carried ids timer ws

/-- The leading tags leave room in the count for the last one. `tagN_info` skips a timer with
    fewer tags than the report; that is right for a timer that lacks one. -/
def Countable (k : TagKind) (ids : List Int) (timer : TimerRecord) : Prop :=
  if k = tagN_info ∧ timer.tags.length < ids.length then ¬ HasAll ids timer
  else leading timer.tags ids.dropLast < ids.length

instance : Decidable (Countable k ids timer) :=
  inferInstanceAs (Decidable (if k = tagN_info ∧ timer.tags.length < ids.length then
    ¬ HasAll ids timer else leading timer.tags ids.dropLast < ids.length))

theorem length_le_leading (h : HasAll ids timer) : ids.length ≤ leading timer.tags ids := by
  induction ids with
  | nil => exact Nat.zero_le _
  | cons id ids ih =>
    have hid : occurrences id timer.tags ≠ 0 :=
      fun hzero => occurrences_eq_zero.mp hzero (h id List.mem_cons_self)
    have hrest := ih fun j hj => h j (List.mem_cons_of_mem _ hj)
    rw [leading_cons_of_ne hid, List.length_cons]
    omega

/-- A missing tag ends the count, wherever it is. -/
theorem leading_dropLast (h : ¬ HasAll ids timer) :
    leading timer.tags ids.dropLast = leading timer.tags ids := by
  induction ids with
  | nil => rfl
  | cons id ids ih =>
    by_cases hzero : occurrences id timer.tags = 0
    · rw [leading_cons_of_eq hzero]
      cases ids with
      | nil => rfl
      | cons next ids =>
        rw [List.dropLast_cons_of_ne_nil (by simp), leading_cons_of_eq hzero]
    · have hid : id ∈ timer.tags.map Prod.fst := by
        by_contra hno
        exact hzero (occurrences_eq_zero.mpr hno)
      have hrest : ¬ HasAll ids timer := fun hall => h (List.forall_mem_cons.mpr ⟨hid, hall⟩)
      have hne : ids ≠ [] := by
        rintro rfl
        exact hrest (by simp [HasAll])
      rw [List.dropLast_cons_of_ne_nil hne, leading_cons_of_ne hzero, leading_cons_of_ne hzero,
        ih hrest]

/-- A word that the timer does not carry. -/
theorem exists_foreign_word (timer : TimerRecord) : ∃ word : Word, ∀ id, (id, word) ∉ timer.tags := by
  refine ⟨⟨(timer.tags.map fun tag => tag.2.ptr).sum + 1, (default : Word).str⟩, ?_⟩
  intro id hmem
  have hle := List.single_le_sum (fun x _ => Nat.zero_le x) _
    (List.mem_map_of_mem (f := fun tag : Int × Word => tag.2.ptr) hmem)
  simp only at hle
  omega

/-- The outer loop from its start. -/
theorem scanResult_of_start (hne : ids ≠ []) (hlen : words.length = ids.length) :
    ScanResult ids.length timer.tags ids 0 0 words
      (tagN_scan ids.length timer.tags ids 0 words 0) :=
  tagN_scan_spec hlen (Nat.zero_add _) (List.length_pos_iff.mpr hne)

/-- A timer is selected when the leading matches reach the number of tags. -/
theorem tagN_select_eq_ite (hne : ids ≠ []) (hlen : words.length = ids.length) :
    (tagN_select ids words timer).2 =
      if ids.length ≤ leading timer.tags ids then
        some (tagN_scan ids.length timer.tags ids 0 words 0).1 else none := by
  have hmatched := (@scanResult_of_start _ timer _ hne hlen).matched
  rw [Nat.zero_add] at hmatched
  unfold tagN_select
  rcases hscan : tagN_scan ids.length timer.tags ids 0 words 0 with ⟨words', found⟩
  rw [hscan] at hmatched
  subst hmatched
  by_cases hle : ids.length ≤ leading timer.tags ids
  · simp [hle]
  · simp [hle]

/-- The counting loops select the right timers, whatever the array held, exactly when the
    count has room. -/
theorem tagN_select_right_iff (hne : ids ≠ []) :
    (∀ words : List Word, words.length = ids.length →
      SelectedRight ids timer (tagN_select ids words timer).2) ↔
        leading timer.tags ids.dropLast < ids.length := by
  have hpos := List.length_pos_iff.mpr hne
  constructor
  · intro hright
    by_contra hfull
    have hfull : ids.length ≤ leading timer.tags ids.dropLast := Nat.le_of_not_lt hfull
    obtain ⟨word, hword⟩ := exists_foreign_word timer
    have hlen : (List.replicate ids.length word).length = ids.length := List.length_replicate
    obtain ⟨hiff, hcarried⟩ := hright _ hlen
    rw [tagN_select_eq_ite hne hlen] at hiff hcarried
    by_cases hall : HasAll ids timer
    · -- the last word of the key is the one that the array held before
      rw [if_pos (length_le_leading hall)] at hcarried
      obtain ⟨-, hvalues⟩ := hcarried _ rfl
      obtain ⟨w, hw, hmem⟩ := hvalues (ids.length - 1) (ids.getLast hne)
        (by rw [← List.getLast?_eq_getElem?, List.getLast?_eq_getLast_of_ne_nil hne])
      rw [(scanResult_of_start hne hlen).stale (by omega), List.getElem?_replicate, if_pos (by omega)] at hw
      obtain rfl := Option.some.inj hw
      exact hword _ hmem
    · rw [leading_dropLast hall] at hfull
      rw [if_pos hfull] at hiff
      exact hall (hiff.mp rfl)
  · intro hroom words hlen
    rw [tagN_select_eq_ite hne hlen]
    by_cases hle : ids.length ≤ leading timer.tags ids
    · rw [if_pos hle]
      refine ⟨⟨fun _ => ?_, fun _ => rfl⟩, ?_⟩
      · by_contra hall
        rw [leading_dropLast hall] at hroom
        omega
      · intro ws hws
        obtain rfl := Option.some.inj hws
        have hresult := @scanResult_of_start _ timer _ hne hlen
        have hfresh := (hresult.fresh (by omega) (by omega)).2
        refine ⟨hresult.length, fun i id hid => ?_⟩
        simpa using hfresh i id hid
    · rw [if_neg hle]
      refine ⟨⟨fun hno => absurd hno (by simp), fun hall => ?_⟩, fun ws hws => absurd hws (by simp)⟩
      exact absurd (length_le_leading hall) hle

theorem select_right_iff (hk : k.counts_matches = true) (hne : ids ≠ []) :
    (∀ words : List Word, words.length = ids.length →
      SelectedRight ids timer (k.select ids words timer).2) ↔ Countable k ids timer := by
  unfold Countable
  by_cases hfew : k = tagN_info ∧ timer.tags.length < ids.length
  · rw [if_pos hfew]
    have hselect : ∀ words, k.select ids words timer = (words, none) := by
      intro words
      rw [hfew.1, select, if_pos hfew.2]
    constructor
    · intro hright hall
      obtain ⟨hiff, -⟩ := hright (List.replicate ids.length default) List.length_replicate
      rw [hselect] at hiff
      exact absurd (hiff.mpr hall) (by simp)
    · intro hmissing words hlen
      rw [hselect]
      exact ⟨⟨fun hno => absurd hno (by simp), fun hall => absurd hall hmissing⟩,
        fun ws hws => absurd hws (by simp)⟩
  · rw [if_neg hfew]
    have hselect : ∀ words, k.select ids words timer = tagN_select ids words timer := by
      intro words
      cases k with
      | tagN_info => exact if_neg fun hlt => hfew ⟨rfl, hlt⟩
      | tagN_report | tagN_report2 => rfl
      | _ => cases hk
    simp only [hselect]
    exact tagN_select_right_iff hne

/-- The `tagN` kinds find all tags of a timer, and its own values for them, whatever timers
    were processed before, if and only if the count has room. Adding and deleting then apply
    their operation to exactly the timers with all tags, under the key of these values. -/
theorem tagN_select_exact_iff (k : TagKind) (hk : k.counts_matches = true) (ids : List Int)
    (hne : ids ≠ []) (timer : TimerRecord) :
    ((∀ words : List Word, words.length = ids.length →
      SelectedRight ids timer (k.select ids words timer).2) ↔ Countable k ids timer) ∧
    (Countable k ids timer → ∀ (op : TagRowOp k) (index : RequestData → List Word → RowKey k.nested)
      (data : RequestData) (report : TagReport k), report.tag_id = ids →
        report.words.length = ids.length →
        (¬ HasAll ids timer → (tag_timer op index data report timer).results = report.results) ∧
        (HasAll ids timer → ∃ ws, Carried ids timer ws ∧
          (tag_timer op index data report timer).results =
            op report.std.buckets report.results (index data ws, timer))) := by
  refine ⟨select_right_iff hk hne, ?_⟩
  intro hcount op index data report hids hlen
  obtain ⟨hiff, hcarried⟩ := (select_right_iff hk hne).mpr hcount report.words hlen
  rw [← hids] at hiff hcarried ⊢
  unfold tag_timer
  simp only
  cases hfound : (k.select report.tag_id report.words timer).2 with
  | none =>
    rw [hfound] at hiff
    exact ⟨fun _ => rfl, fun hall => absurd (hiff.mpr hall) (by simp)⟩
  | some ws =>
    rw [hfound] at hiff
    exact ⟨fun hno => absurd (hiff.mp rfl) hno, fun _ => ⟨ws, hcarried ws hfound, rfl⟩⟩

/-- A timer with one value for each of two tags. -/
theorem tagN_select_exact_two_tags :
    let x : Word := ⟨1, ⟨[120], by decide, by decide⟩⟩
    let y : Word := ⟨2, ⟨[121], by decide, by decide⟩⟩
    let timer : TimerRecord := ⟨default, default, default, 1, [(7, x), (8, y)]⟩
    ∀ words : List Word, words.length = 2 →
      SelectedRight [7, 8] timer (tagN_report.select [7, 8] words timer).2 := by
  intro x y timer words hlen
  exact (tagN_select_exact_iff tagN_report rfl [7, 8] (by simp) timer).1.mpr (by decide) words hlen

/-- A timer that has the first of two tags twice, and not the second, is accounted under a word
    left over in the array. -/
theorem tagN_counts_repeated_tag :
    let x : Word := ⟨1, ⟨[120], by decide, by decide⟩⟩
    let y : Word := ⟨2, ⟨[121], by decide, by decide⟩⟩
    let old : Word := ⟨3, ⟨[122], by decide, by decide⟩⟩
    let timer : TimerRecord := ⟨default, default, default, 1, [(7, x), (7, y)]⟩
    (tagN_info.select [7, 8] [old, old] timer).2 = some [y, old] ∧
      (tagN_report.select [7, 8] [old, old] timer).2 = some [y, old] ∧
        ¬ HasAll [7, 8] timer := by
  decide

end TagKind

end PinbaEngine
