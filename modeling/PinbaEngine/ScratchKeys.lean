import PinbaEngine.Lib.Block
import PinbaEngine.Reports.Rtag
import PinbaEngine.Reports.Tag

/-! # The scratch buffers of the N-ary reports

    The reports with any number of tags assemble their keys in `report->index`,
    a block that the regenerate function allocates once, sized by the number of
    tag parameters. The add and delete functions copy into it with no check.

    Section 2 repeats the update functions of `Reports/Tag.lean` and
    `Reports/Rtag.lean` on top of that block: a store that leaves the block has
    no result, and the map is asked for the string that the block holds. As long
    as there is a result it is the one of the plain update functions
    (`add_report`, `delete_report`).

    - The block leaves one spare byte for every tag: 66 bytes where 65 are used.
    - `tagN_report2` also stores the host and the server name there, up to 130
      bytes that the size does not count. It takes 130 tags to make up for them
      (`stays_inside_iff`).
-/

namespace PinbaEngine

open Delimited

/-! ## Section 1: Buffers and what is stored in them -/

/-- `malloc(PINBA_TAG_VALUE_SIZE * params_num + params_num + 1)`: the size of
    `report->index` in the regenerate functions of all five kinds. -/
def index_size (params_num : Nat) : Nat := PINBA_TAG_VALUE_SIZE * params_num + params_num + 1

/-- Every component is copied and followed by a `|`; a NUL ends the key. -/
def write_index (index : Block UInt8) (fields : List Bytes) : Option (Block UInt8) :=
  Block.put_pieces bar 0 index fields

/-- `word->str` of each word. -/
def word_fields (_ : RequestData) (words : List Word) : List Bytes :=
  words.map fun word => word.str.bytes

/-- `tagN_report2` puts the host and the server name before the words. -/
def report2_fields (data : RequestData) (words : List Word) : List Bytes :=
  data.hostname.bytes :: data.server_name.bytes :: word_fields data words

/-! ## Section 2: Update functions -/

section tags
variable {k : TagKind} (fields : RequestData → List Word → List Bytes)

/-- One turn of the loop over the timers: the key is assembled in the buffer,
    and looked up there. -/
def scratch_timer (op : TagRowOp k) (data : RequestData) (s : TagReport k × Block UInt8)
    (timer : TimerRecord) : Option (TagReport k × Block UInt8) :=
  let (words, found) := k.select s.1.tag_id s.1.words timer
  let report := { s.1 with words := words }
  match found with
  | none => some (report, s.2)
  | some ws => do
    let index ← write_index s.2 (fields data ws)
    let key := row_key k.nested data.script_name.bytes (index.string 0)
    return ({ report with results := op report.std.buckets report.results (key, timer) }, index)

def scratch_tag_add (request_id : Nat) (s : TagReport k × Block UInt8) (record : StatsRecord) :
    Option (TagReport k × Block UInt8) :=
  record.timers.foldlM (scratch_timer fields (tag_row_add request_id) record.data) s

def scratch_tag_delete (request_id : Nat) (s : TagReport k × Block UInt8) (record : StatsRecord) :
    Option (TagReport k × Block UInt8) :=
  if s.1.std.delete_check record then some s
  else if script_map_missing k.nested s.1.results.rows record.data.script_name.bytes then some s
  else record.timers.foldlM (scratch_timer fields (tag_row_delete request_id) record.data) s

end tags

section rtags
variable {k : RtagKind}

/-- The key of the row whose index the buffer holds. -/
def scratch_key (index : Block UInt8) (_ : List Word) (data : RequestData) : Option (RowKey k.nested) :=
  some (row_key k.nested data.hostname.bytes (index.string 0))

/-- Whether the outer map of a nested store has no map for this host. -/
def host_map_missing : (nested : Bool) → RowStore RequestRow nested → Bytes → Bool
  | false, _, _ => false
  | true, results, hostname => (results.lookup hostname).isNone

def scratch_rtag_add (s : RtagReport k × Block UInt8) (record : StatsRecord) :
    Option (RtagReport k × Block UInt8) :=
  match rtagN_words s.1.tags record.data with
  | none => some s
  | some words => do
    let index ← write_index s.2 (word_fields record.data words)
    return (rtag_add (scratch_key index) s.1 record, index)

def scratch_rtag_delete (s : RtagReport k × Block UInt8) (record : StatsRecord) :
    Option (RtagReport k × Block UInt8) :=
  if s.1.std.delete_check record then some s
  else match rtagN_words s.1.tags record.data with
  | none => some s
  | some words =>
    -- the `_report` kind returns before it touches the buffer if the host has no map
    if host_map_missing k.nested s.1.results.rows record.data.hostname.bytes then some s
    else do
      let index ← write_index s.2 (word_fields record.data words)
      return (rtag_delete (scratch_key index) s.1 record, index)

end rtags

/-- The kinds whose reports own a buffer. -/
inductive ScratchKind where
  | tagN_info | tagN_report | tagN_report2 | rtagN_info | rtagN_report
deriving DecidableEq

namespace ScratchKind

/-- The report of a kind. -/
abbrev Report : ScratchKind → Type
  | tagN_info => TagReport .tagN_info
  | tagN_report => TagReport .tagN_report
  | tagN_report2 => TagReport .tagN_report2
  | rtagN_info => RtagReport .rtagN_info
  | rtagN_report => RtagReport .rtagN_report

/-- `std.add_func` on a report and its buffer. -/
def add : (k : ScratchKind) → Nat → k.Report × Block UInt8 → StatsRecord →
    Option (k.Report × Block UInt8)
  | tagN_info => scratch_tag_add (k := .tagN_info) word_fields
  | tagN_report => scratch_tag_add (k := .tagN_report) word_fields
  | tagN_report2 => scratch_tag_add (k := .tagN_report2) report2_fields
  | rtagN_info => fun _ => scratch_rtag_add (k := .rtagN_info)
  | rtagN_report => fun _ => scratch_rtag_add (k := .rtagN_report)

/-- `std.delete_func` on a report and its buffer. -/
def delete : (k : ScratchKind) → Nat → k.Report × Block UInt8 → StatsRecord →
    Option (k.Report × Block UInt8)
  | tagN_info => scratch_tag_delete (k := .tagN_info) word_fields
  | tagN_report => scratch_tag_delete (k := .tagN_report) word_fields
  | tagN_report2 => scratch_tag_delete (k := .tagN_report2) report2_fields
  | rtagN_info => fun _ => scratch_rtag_delete (k := .rtagN_info)
  | rtagN_report => fun _ => scratch_rtag_delete (k := .rtagN_report)

/-- A report with `params_num` tags as its regenerate function leaves it. The
    array `words` is not initialised. -/
def Created (params_num : Nat) : (k : ScratchKind) → k.Report → Prop
  | tagN_info, report | tagN_report, report | tagN_report2, report =>
    ∃ cond buckets tag_id words, tag_id.length = params_num ∧ words.length = params_num ∧
      report = { TagReport.created _ cond buckets tag_id with words := words }
  | rtagN_info, report | rtagN_report, report =>
    ∃ cond buckets tags, tags.length = params_num ∧
      report = RtagReport.created _ cond buckets tags

end ScratchKind

/-- A call of the driver. -/
inductive ReportUpdate where
  | add (request_id : Nat) (record : StatsRecord)
  | delete (request_id : Nat) (record : StatsRecord)

namespace ScratchKind

def step (k : ScratchKind) (s : k.Report × Block UInt8) : ReportUpdate → Option (k.Report × Block UInt8)
  | .add request_id record => k.add request_id s record
  | .delete request_id record => k.delete request_id s record

/-- Calls one after the other; no result if some store leaves the block. -/
def run (k : ScratchKind) (s : k.Report × Block UInt8) (updates : List ReportUpdate) :
    Option (k.Report × Block UInt8) :=
  updates.foldlM k.step s

/-- No report of the kind with this number of tags ever stores outside of the
    block that was allocated for it. -/
def StaysInside (k : ScratchKind) (params_num : Nat) : Prop :=
  ∀ report, k.Created params_num report → ∀ index : Block UInt8,
    index.length = index_size params_num → ∀ updates, (k.run (report, index) updates).isSome = true

end ScratchKind

/-! ## Section 3: How much is written -/

/-- The bytes that a key takes in the buffer: its components, a `|` for each of
    them and the NUL. -/
def index_bytes (fields : List Bytes) : Nat := (fields.map fun field => field.length + 1).sum + 1

theorem write_index_isSome {index : Block UInt8} {fields : List Bytes} :
    (write_index index fields).isSome = true ↔ index_bytes fields ≤ index.length :=
  Block.put_pieces_isSome

/-- A word takes at most 65 bytes with its separator. -/
theorem index_bytes_words_le (data : RequestData) (words : List Word) :
    index_bytes (word_fields data words) ≤ PINBA_TAG_VALUE_SIZE * words.length + 1 := by
  unfold index_bytes word_fields
  rw [List.map_map]
  induction words with
  | nil => simp
  | cons word words ih =>
    have hword := word.str.length_lt
    simp only [List.map_cons, List.sum_cons, Function.comp_apply, List.length_cons,
      PINBA_TAG_VALUE_SIZE] at ih hword ⊢
    omega

theorem index_bytes_report2 (data : RequestData) (words : List Word) :
    index_bytes (report2_fields data words) =
      data.hostname.bytes.length + data.server_name.bytes.length + 2 +
        index_bytes (word_fields data words) := by
  simp only [index_bytes, report2_fields, List.map_cons, List.sum_cons]
  omega

theorem words_fit (data : RequestData) (words : List Word) :
    index_bytes (word_fields data words) ≤ index_size words.length := by
  have hwords := index_bytes_words_le data words
  unfold index_size
  omega

/-- The names take up to 130 bytes, and every tag spares one. -/
theorem report2_fits (data : RequestData) {words : List Word} (h : 130 ≤ words.length) :
    index_bytes (report2_fields data words) ≤ index_size words.length := by
  have hwords := index_bytes_words_le data words
  have hhost := data.hostname.length_lt
  have hserver := data.server_name.length_lt
  simp only [PINBA_HOSTNAME_SIZE, PINBA_SERVER_NAME_SIZE] at hhost hserver
  rw [index_bytes_report2]
  unfold index_size
  omega

/-! ## Section 4: The update functions stay inside -/

section selection
variable {id : Int} {tags : List (Int × Word)} {ids : List Int} {words : List Word} {cnt h : Nat}

theorem length_tagN_scan_timer (tags_cnt : Nat) (found : Bool) :
    (tagN_scan_timer tags_cnt h id tags words cnt found).1.length = words.length := by
  induction tags generalizing words cnt found with
  | nil => rfl
  | cons tag tags ih =>
    unfold tagN_scan_timer
    split
    · split
      · exact List.length_set
      · exact (ih true).trans List.length_set
    · exact ih found

theorem length_tagN_scan (tags_cnt : Nat) :
    (tagN_scan tags_cnt tags ids h words cnt).1.length = words.length := by
  induction ids generalizing h words cnt with
  | nil => rfl
  | cons id ids ih =>
    have htimer := @length_tagN_scan_timer id tags words cnt h tags_cnt false
    unfold tagN_scan
    split
    · next heq => rwa [heq] at htimer
    · next heq => rwa [heq] at htimer
    · next heq =>
      rw [heq] at htimer
      exact ih.trans htimer

/-- The scratch array keeps its length, and the words of a key are all of it. -/
theorem length_tagN_select (timer : TimerRecord) :
    (tagN_select ids words timer).1.length = words.length ∧
      ∀ ws ∈ (tagN_select ids words timer).2, ws.length = words.length := by
  have hscan := @length_tagN_scan timer.tags ids words 0 0 ids.length
  unfold tagN_select
  split
  · next heq =>
    rw [heq] at hscan
    exact ⟨hscan, fun ws hws => by cases hws; exact hscan⟩
  · next heq =>
    rw [heq] at hscan
    exact ⟨hscan, fun ws hws => by cases hws⟩

end selection

/-- What the update functions keep about the sizes of the arrays. -/
def Sized (params_num : Nat) {k : TagKind} (s : TagReport k × Block UInt8) : Prop :=
  s.1.words.length = params_num ∧ s.2.length = index_size params_num

section tags
variable {k : TagKind} {params_num : Nat} {fields : RequestData → List Word → List Bytes}
  {s : TagReport k × Block UInt8}

/-- The kind keeps its words in an array with one place for each tag. -/
def TagKind.FillsArray (k : TagKind) : Prop :=
  ∀ tag_id words timer, (k.select tag_id words timer).1.length = words.length ∧
    ∀ ws ∈ (k.select tag_id words timer).2, ws.length = words.length

theorem fillsArray_tagN_info : TagKind.tagN_info.FillsArray := by
  intro tag_id words timer
  unfold TagKind.select
  simp only
  split
  · exact ⟨rfl, fun ws hws => by cases hws⟩
  · exact length_tagN_select timer

theorem fillsArray_tagN_report : TagKind.tagN_report.FillsArray :=
  fun _ _ timer => length_tagN_select timer

theorem fillsArray_tagN_report2 : TagKind.tagN_report2.FillsArray :=
  fun _ _ timer => length_tagN_select timer

variable (hfill : k.FillsArray)
  (hroom : ∀ data words, words.length = params_num →
    index_bytes (fields data words) ≤ index_size params_num)

include hfill hroom

theorem scratch_timer_inside (op : TagRowOp k) (data : RequestData) (timer : TimerRecord)
    (h : Sized params_num s) :
    ∃ s', scratch_timer fields op data s timer = some s' ∧ Sized params_num s' := by
  obtain ⟨hwords, hindex⟩ := h
  obtain ⟨hlen, hws⟩ := hfill s.1.tag_id s.1.words timer
  unfold scratch_timer
  generalize k.select s.1.tag_id s.1.words timer = selected at hlen hws
  obtain ⟨words, found⟩ := selected
  cases found with
  | none => exact ⟨_, rfl, hlen.trans hwords, hindex⟩
  | some ws =>
    have hfits : index_bytes (fields data ws) ≤ s.2.length := by
      rw [hindex]
      exact hroom data ws ((hws ws rfl).trans hwords)
    obtain ⟨index, hwrite⟩ := Option.isSome_iff_exists.mp (write_index_isSome.mpr hfits)
    refine ⟨_, by simp only [hwrite]; rfl, hlen.trans hwords, ?_⟩
    exact (Block.length_put_pieces hwrite).trans hindex

theorem scratch_tag_add_inside (request_id : Nat) (record : StatsRecord) (h : Sized params_num s) :
    ∃ s', scratch_tag_add fields request_id s record = some s' ∧ Sized params_num s' :=
  Block.foldlM_total (fun _ timer => scratch_timer_inside hfill hroom _ record.data timer) _ h

theorem scratch_tag_delete_inside (request_id : Nat) (record : StatsRecord)
    (h : Sized params_num s) :
    ∃ s', scratch_tag_delete fields request_id s record = some s' ∧ Sized params_num s' := by
  unfold scratch_tag_delete
  split
  · exact ⟨s, rfl, h⟩
  · split
    · exact ⟨s, rfl, h⟩
    · exact Block.foldlM_total
        (fun _ timer => scratch_timer_inside hfill hroom _ record.data timer) _ h

end tags

/-- The same for a request tag report, which keeps its tags. -/
def RtagSized (params_num : Nat) {k : RtagKind} (s : RtagReport k × Block UInt8) : Prop :=
  s.1.tags.length = params_num ∧ s.2.length = index_size params_num

section rtags
variable {k : RtagKind} {params_num : Nat} {s : RtagReport k × Block UInt8}

theorem length_mapM_find {tags words : List Word} {data : RequestData}
    (h : (tags.mapM fun tag => rtag_find tag data.tags) = some words) :
    words.length = tags.length :=
  (Delimited.mapM_eq_some_iff.mp h).length_eq.symm

theorem length_rtagN_words {tags words : List Word} {data : RequestData}
    (h : rtagN_words tags data = some words) : words.length = tags.length := by
  unfold rtagN_words at h
  split at h
  · cases h
  · exact length_mapM_find h

theorem scratch_write_inside (record : StatsRecord) {words : List Word}
    (h : RtagSized params_num s) (hwords : rtagN_words s.1.tags record.data = some words) :
    ∃ index, write_index s.2 (word_fields record.data words) = some index ∧
      index.length = index_size params_num := by
  have hfits : index_bytes (word_fields record.data words) ≤ s.2.length := by
    rw [h.2, ← h.1, ← length_rtagN_words hwords]
    exact words_fit record.data words
  obtain ⟨index, hwrite⟩ := Option.isSome_iff_exists.mp (write_index_isSome.mpr hfits)
  exact ⟨index, hwrite, (Block.length_put_pieces hwrite).trans h.2⟩

theorem scratch_rtag_add_inside (record : StatsRecord) (h : RtagSized params_num s) :
    ∃ s', scratch_rtag_add s record = some s' ∧ RtagSized params_num s' := by
  unfold scratch_rtag_add
  cases hwords : rtagN_words s.1.tags record.data with
  | none => exact ⟨s, rfl, h⟩
  | some words =>
    obtain ⟨index, hwrite, hindex⟩ := scratch_write_inside record h hwords
    refine ⟨_, by simp only [hwrite]; rfl, ?_, hindex⟩
    exact h.1

theorem scratch_rtag_delete_inside (record : StatsRecord) (h : RtagSized params_num s) :
    ∃ s', scratch_rtag_delete s record = some s' ∧ RtagSized params_num s' := by
  unfold scratch_rtag_delete
  split
  · exact ⟨s, rfl, h⟩
  · cases hwords : rtagN_words s.1.tags record.data with
    | none => exact ⟨s, rfl, h⟩
    | some words =>
      obtain ⟨index, hwrite, hindex⟩ := scratch_write_inside record h hwords
      simp only
      split
      · exact ⟨s, rfl, h⟩
      · refine ⟨_, by simp only [hwrite]; rfl, ?_, hindex⟩
        -- the tags of a report never change
        have htags : (rtag_delete (scratch_key index) s.1 record).tags = s.1.tags := by
          unfold rtag_delete scratch_key
          split
          · rfl
          · simp only
            split <;> rfl
        rw [htags]
        exact h.1

end rtags

namespace ScratchKind

variable {k : ScratchKind} {params_num : Nat}

/-- The sizes of the arrays of a report. -/
def Sizes (params_num : Nat) : (k : ScratchKind) → k.Report × Block UInt8 → Prop
  | tagN_info, s | tagN_report, s | tagN_report2, s => Sized params_num s
  | rtagN_info, s | rtagN_report, s => RtagSized params_num s

theorem sizes_created {report : k.Report} {index : Block UInt8} (hreport : k.Created params_num report)
    (hindex : index.length = index_size params_num) : k.Sizes params_num (report, index) := by
  cases k with
  | tagN_info | tagN_report | tagN_report2 =>
    obtain ⟨cond, buckets, tag_id, words, -, hwords, rfl⟩ := hreport
    exact ⟨hwords, hindex⟩
  | rtagN_info | rtagN_report =>
    obtain ⟨cond, buckets, tags, htags, rfl⟩ := hreport
    exact ⟨htags, hindex⟩

/-- One call stays inside, and leaves the arrays as long as they were. -/
theorem step_inside (h : k = .tagN_report2 → 130 ≤ params_num) (s : k.Report × Block UInt8)
    (update : ReportUpdate) (hs : k.Sizes params_num s) :
    ∃ s', k.step s update = some s' ∧ k.Sizes params_num s' := by
  have hwords : ∀ data words, words.length = params_num →
      index_bytes (word_fields data words) ≤ index_size params_num :=
    fun data words hlen => hlen ▸ words_fit data words
  cases k with
  | tagN_info =>
    cases update with
    | add => exact scratch_tag_add_inside fillsArray_tagN_info hwords _ _ hs
    | delete => exact scratch_tag_delete_inside fillsArray_tagN_info hwords _ _ hs
  | tagN_report =>
    cases update with
    | add => exact scratch_tag_add_inside fillsArray_tagN_report hwords _ _ hs
    | delete => exact scratch_tag_delete_inside fillsArray_tagN_report hwords _ _ hs
  | tagN_report2 =>
    -- the names take the spare bytes of 130 tags
    have hnames : ∀ data words, words.length = params_num →
        index_bytes (report2_fields data words) ≤ index_size params_num :=
      fun data words hlen => hlen ▸ report2_fits data (hlen ▸ h rfl)
    cases update with
    | add => exact scratch_tag_add_inside fillsArray_tagN_report2 hnames _ _ hs
    | delete => exact scratch_tag_delete_inside fillsArray_tagN_report2 hnames _ _ hs
  | rtagN_info | rtagN_report =>
    cases update with
    | add => exact scratch_rtag_add_inside _ hs
    | delete => exact scratch_rtag_delete_inside _ hs

theorem staysInside (h : k = .tagN_report2 → 130 ≤ params_num) : k.StaysInside params_num := by
  intro report hreport index hindex updates
  obtain ⟨s', hs', -⟩ := Block.foldlM_total (k.step_inside h) updates (sizes_created hreport hindex)
  exact Option.isSome_iff_exists.mpr ⟨s', hs'⟩

end ScratchKind

/-! ## Section 5: The buffers hold the keys of the reports -/

theorem bar_ne_nul : bar ≠ 0 := by decide

theorem nul_notMem_terminated {fields : List Bytes} (h : ∀ field ∈ fields, (0 : UInt8) ∉ field) :
    0 ∉ terminated bar fields := by
  unfold terminated
  rw [List.mem_flatMap]
  rintro ⟨field, hfield, hmem⟩
  rcases List.mem_append.mp hmem with hmem | hmem
  · exact h field hfield hmem
  · exact bar_ne_nul (List.mem_singleton.mp hmem).symm

theorem word_fields_nul_free (data : RequestData) (words : List Word) :
    ∀ field ∈ word_fields data words, (0 : UInt8) ∉ field := by
  intro field hfield
  obtain ⟨word, -, rfl⟩ := List.mem_map.mp hfield
  exact word.str.nul_free

theorem report2_fields_nul_free (data : RequestData) (words : List Word) :
    ∀ field ∈ report2_fields data words, (0 : UInt8) ∉ field := by
  intro field hfield
  rcases List.mem_cons.mp hfield with rfl | hfield
  · exact data.hostname.nul_free
  · rcases List.mem_cons.mp hfield with rfl | hfield
    · exact data.server_name.nul_free
    · exact word_fields_nul_free data words field hfield

theorem string_write_index {index after : Block UInt8} {fields : List Bytes}
    (hfree : ∀ field ∈ fields, (0 : UInt8) ∉ field) (h : write_index index fields = some after) :
    after.string 0 = terminated bar fields :=
  Block.string_put_pieces (nul_notMem_terminated hfree) h

theorem terminated_word_fields (data : RequestData) (words : List Word) :
    terminated bar (word_fields data words) = tagN_index words := by
  rw [tagN_index, append_words_eq, List.nil_append, terminated, word_fields, List.flatMap_map]

theorem terminated_report2_fields (data : RequestData) (words : List Word) :
    terminated bar (report2_fields data words) = tagN_report2_index data words := by
  rw [tagN_report2_index, append_words_eq, report2_fields, terminated_cons, terminated_cons,
    terminated, word_fields, List.flatMap_map]
  simp

/-- The key in the buffer is the one that the report is updated under. -/
structure KeyOf (k : TagKind) (fields : RequestData → List Word → List Bytes) : Prop where
  nul_free : ∀ data words, ∀ field ∈ fields data words, (0 : UInt8) ∉ field
  index_eq : ∀ data words, k.index data words =
    row_key k.nested data.script_name.bytes (terminated bar (fields data words))
  delete_index_eq : k.delete_index = k.index

theorem keyOf_tagN_info : KeyOf .tagN_info word_fields where
  nul_free := word_fields_nul_free
  index_eq data words := (terminated_word_fields data words).symm
  delete_index_eq := TagKind.delete_index_eq _

theorem keyOf_tagN_report : KeyOf .tagN_report word_fields where
  nul_free := word_fields_nul_free
  index_eq data words := by
    rw [terminated_word_fields]
    rfl
  delete_index_eq := TagKind.delete_index_eq _

theorem keyOf_tagN_report2 : KeyOf .tagN_report2 report2_fields where
  nul_free := report2_fields_nul_free
  index_eq data words := by
    rw [terminated_report2_fields]
    rfl
  delete_index_eq := TagKind.delete_index_eq _

section tags
variable {k : TagKind} {fields : RequestData → List Word → List Bytes}
  {s s' : TagReport k × Block UInt8} (hkey : KeyOf k fields)

include hkey

theorem scratch_timer_report (op : TagRowOp k) (data : RequestData) (timer : TimerRecord)
    (h : scratch_timer fields op data s timer = some s') :
    s'.1 = tag_timer op k.index data s.1 timer := by
  unfold scratch_timer at h
  unfold tag_timer
  generalize k.select s.1.tag_id s.1.words timer = selected at h ⊢
  obtain ⟨words, found⟩ := selected
  cases found with
  | none =>
    cases h
    rfl
  | some ws =>
    simp only [Option.bind_eq_bind, Option.bind_eq_some_iff] at h
    obtain ⟨index, hwrite, h⟩ := h
    cases h
    rw [string_write_index (hkey.nul_free data ws) hwrite, ← hkey.index_eq]

theorem scratch_tag_add_report (request_id : Nat) (record : StatsRecord)
    (h : scratch_tag_add fields request_id s record = some s') :
    s'.1 = tag_add k.index request_id s.1 record :=
  Block.view_foldlM (fun _ timer _ => scratch_timer_report hkey _ record.data timer) _ h

theorem scratch_tag_delete_report (request_id : Nat) (record : StatsRecord)
    (h : scratch_tag_delete fields request_id s record = some s') :
    s'.1 = tag_delete k.delete_index request_id s.1 record := by
  rw [hkey.delete_index_eq]
  unfold scratch_tag_delete at h
  unfold tag_delete
  -- the same two early returns on both sides
  split at h
  · next hold =>
    rw [if_pos hold]
    cases h
    rfl
  · next hold =>
    rw [if_neg hold]
    split at h
    · next hmissing =>
      rw [if_pos hmissing]
      cases h
      rfl
    · next hmissing =>
      rw [if_neg hmissing]
      exact Block.view_foldlM (fun _ timer _ => scratch_timer_report hkey _ record.data timer) _ h

end tags

/-- Without a map for the host there is no row. -/
theorem get_of_host_map_missing {nested : Bool} {results : RowStore RequestRow nested}
    {hostname index : Bytes} (h : host_map_missing nested results hostname = true) :
    (rowStore RequestRow nested).get results (row_key nested hostname index) = none := by
  cases nested with
  | false => cases h
  | true =>
    have hnone : results.lookup hostname = none := Option.isNone_iff_eq_none.mp h
    show KeyedStore.nestedGet results (hostname, index) = none
    rw [KeyedStore.nestedGet, hnone]
    rfl

section rtags
variable {k : RtagKind} {s s' : RtagReport k × Block UInt8} {record : StatsRecord}

/-- The two kinds with any number of tags. -/
def RtagKind.KeyOf (k : RtagKind) : Prop :=
  ∀ tags data, k.key tags data =
    (rtagN_words tags data).map fun words => row_key k.nested data.hostname.bytes (tagN_index words)

theorem rtagN_info_keyOf : RtagKind.rtagN_info.KeyOf := fun _ _ => rfl

theorem rtagN_report_keyOf : RtagKind.rtagN_report.KeyOf := fun _ _ => rfl

variable (hkey : k.KeyOf)

include hkey

/-- With the words in the buffer, `scratch_key` is the key of the record. -/
theorem scratch_key_eq {words : List Word} {index : Block UInt8}
    (hwords : rtagN_words s.1.tags record.data = some words)
    (hwrite : write_index s.2 (word_fields record.data words) = some index) :
    scratch_key index s.1.tags record.data = k.key s.1.tags record.data := by
  rw [hkey, hwords, scratch_key, string_write_index (word_fields_nul_free _ _) hwrite,
    terminated_word_fields]
  rfl

theorem scratch_rtag_add_report (h : scratch_rtag_add s record = some s') :
    s'.1 = rtag_add k.key s.1 record := by
  unfold scratch_rtag_add at h
  split at h
  · next hwords =>
    cases h
    rw [rtag_add, hkey, hwords]
    rfl
  · next words hwords =>
    simp only [Option.bind_eq_bind, Option.bind_eq_some_iff] at h
    obtain ⟨index, hwrite, h⟩ := h
    cases h
    simp only [rtag_add, scratch_key_eq hkey hwords hwrite]

theorem scratch_rtag_delete_report (h : scratch_rtag_delete s record = some s') :
    s'.1 = rtag_delete k.key s.1 record := by
  unfold scratch_rtag_delete at h
  split at h
  · next hold =>
    cases h
    rw [rtag_delete, if_pos hold]
  · split at h
    · next hwords =>
      cases h
      rw [rtag_delete, hkey, hwords]
      simp
    · next words hwords =>
      split at h
      -- the plain function looks the row up and finds none either
      · next hmissing =>
        cases h
        rw [rtag_delete, hkey, hwords]
        simp only [Option.map_some, get_of_host_map_missing hmissing]
        simp
      · simp only [Option.bind_eq_bind, Option.bind_eq_some_iff] at h
        obtain ⟨index, hwrite, h⟩ := h
        cases h
        simp only [rtag_delete, scratch_key_eq hkey hwords hwrite]

end rtags

namespace ScratchKind

variable {k : ScratchKind} {s s' : k.Report × Block UInt8}

/-- `std.add_func` and `std.delete_func` on the report alone. -/
def plain : (k : ScratchKind) → k.Report → ReportUpdate → k.Report
  | tagN_info, report, .add request_id record => pinba_update_tagN_info_add request_id report record
  | tagN_info, report, .delete request_id record =>
    pinba_update_tagN_info_delete request_id report record
  | tagN_report, report, .add request_id record =>
    pinba_update_tagN_report_add request_id report record
  | tagN_report, report, .delete request_id record =>
    pinba_update_tagN_report_delete request_id report record
  | tagN_report2, report, .add request_id record =>
    pinba_update_tagN_report2_add request_id report record
  | tagN_report2, report, .delete request_id record =>
    pinba_update_tagN_report2_delete request_id report record
  | rtagN_info, report, .add _ record => pinba_update_rtagN_info_add report record
  | rtagN_info, report, .delete _ record => pinba_update_rtagN_info_delete report record
  | rtagN_report, report, .add _ record => pinba_update_rtagN_report_add report record
  | rtagN_report, report, .delete _ record => pinba_update_rtagN_report_delete report record

theorem step_report (s s' : k.Report × Block UInt8) (update : ReportUpdate)
    (h : k.step s update = some s') : s'.1 = k.plain s.1 update := by
  cases k with
  | tagN_info =>
    cases update with
    | add => exact scratch_tag_add_report keyOf_tagN_info _ _ h
    | delete => exact scratch_tag_delete_report keyOf_tagN_info _ _ h
  | tagN_report =>
    cases update with
    | add => exact scratch_tag_add_report keyOf_tagN_report _ _ h
    | delete => exact scratch_tag_delete_report keyOf_tagN_report _ _ h
  | tagN_report2 =>
    cases update with
    | add => exact scratch_tag_add_report keyOf_tagN_report2 _ _ h
    | delete => exact scratch_tag_delete_report keyOf_tagN_report2 _ _ h
  | rtagN_info =>
    cases update with
    | add => exact scratch_rtag_add_report rtagN_info_keyOf h
    | delete => exact scratch_rtag_delete_report rtagN_info_keyOf h
  | rtagN_report =>
    cases update with
    | add => exact scratch_rtag_add_report rtagN_report_keyOf h
    | delete => exact scratch_rtag_delete_report rtagN_report_keyOf h

/-- A run that stays inside leaves the report of the plain update functions. -/
theorem run_report {updates : List ReportUpdate} (h : k.run s updates = some s') :
    s'.1 = updates.foldl k.plain s.1 :=
  Block.view_foldlM (fun s update s' => step_report s s' update) updates h

end ScratchKind

/-! ## Section 6: The names that the size does not count -/

/-- A name of 64 bytes. -/
def long_name (size : Nat) (h : 64 < size) : CString size :=
  ⟨List.replicate 64 97, by simpa using h, by decide⟩

def long_word : Word := ⟨1, long_name _ (by decide)⟩

/-- A record with names of 64 bytes and one timer, whose tags are given. -/
def long_record (tags : List (Int × Word)) : StatsRecord :=
  { data := { (default : RequestData) with
      hostname := long_name _ (by decide), server_name := long_name _ (by decide) }
    time := ⟨1, 0⟩
    counter := 0
    timers := [⟨default, default, default, 1, tags⟩]
    dictionary_words := [] }

theorem tag_find_map {ids : List Int} {id : Int} (word : Word) (h : id ∈ ids) :
    tag_find id (ids.map fun id => (id, word)) = some word := by
  induction ids with
  | nil => cases h
  | cons other ids ih =>
    rw [List.map_cons]
    by_cases heq : id = other
    · rw [heq]
      exact tag_find_cons_self (t := (other, word))
    · rw [tag_find_cons_ne heq]
      exact ih ((List.mem_cons.mp h).resolve_left heq)

theorem mapM_eq_replicate {f : Int → Option Word} {word : Word} {ids : List Int}
    (h : ∀ id ∈ ids, f id = some word) : ids.mapM f = some (List.replicate ids.length word) := by
  induction ids with
  | nil => rfl
  | cons id ids ih =>
    rw [List.mapM_cons, h id List.mem_cons_self,
      ih fun id hid => h id (List.mem_cons_of_mem _ hid)]
    rfl

/-- The tags of a report, each once, all with the long word. -/
def long_tags (tag_id : List Int) : List (Int × Word) := tag_id.dedup.map fun id => (id, long_word)

theorem select_long_tags {tag_id : List Int} {words : List Word} (hlen : words.length = tag_id.length)
    (timer : TimerRecord) (htags : timer.tags = long_tags tag_id) :
    (TagKind.tagN_report2.select tag_id words timer).2 =
      some (List.replicate tag_id.length long_word) := by
  have hnd : timer.DistinctTags := by
    unfold TimerRecord.DistinctTags
    rw [htags, long_tags, List.map_map]
    simpa [Function.comp_def] using tag_id.nodup_dedup
  refine (TagKind.tagN_select_eq hnd hlen).2.trans (mapM_eq_replicate fun id hid => ?_)
  rw [htags]
  exact tag_find_map long_word (List.mem_dedup.mpr hid)

/-- The long record needs 131 bytes, and 65 for every tag. -/
theorem index_bytes_long (timers_tags : List (Int × Word)) (n : Nat) :
    index_bytes (report2_fields (long_record timers_tags).data (List.replicate n long_word)) =
      131 + 65 * n := by
  have hword : ∀ data, index_bytes (word_fields data (List.replicate n long_word)) = 65 * n + 1 := by
    intro data
    simp [index_bytes, word_fields, long_word, long_name, Nat.mul_comm]
  rw [index_bytes_report2, hword]
  simp [long_record, long_name]
  omega

/-- A `tagN_report2` report with one tag id for all its places. -/
def report2_created (buckets : BucketChoice) (params_num : Nat) : TagReport .tagN_report2 :=
  .created .tagN_report2 .none buckets (List.replicate params_num 0)

theorem created_report2 (buckets : BucketChoice) (params_num : Nat) :
    ScratchKind.tagN_report2.Created params_num (report2_created buckets params_num) :=
  ⟨.none, buckets, List.replicate params_num 0, List.replicate params_num default,
    List.length_replicate, List.length_replicate, by
      simp [report2_created, TagReport.created]⟩

/-- A timer whose key does not fit the buffer. -/
theorem scratch_timer_eq_none {k : TagKind} {fields : RequestData → List Word → List Bytes}
    {op : TagRowOp k} {data : RequestData} {s : TagReport k × Block UInt8} {timer : TimerRecord}
    {ws : List Word} (hsel : (k.select s.1.tag_id s.1.words timer).2 = some ws)
    (hlong : s.2.length < index_bytes (fields data ws)) :
    scratch_timer fields op data s timer = none := by
  have hwrite : write_index s.2 (fields data ws) = none := by
    rw [← Option.not_isSome_iff_eq_none, write_index_isSome]
    omega
  unfold scratch_timer
  generalize k.select s.1.tag_id s.1.words timer = selected at hsel
  obtain ⟨words, found⟩ := selected
  cases hsel
  simp only [hwrite]
  rfl

/-- With fewer than 130 tags the add function runs over the end of the buffer. -/
theorem report2_overflows (buckets : BucketChoice) {params_num : Nat} (h : params_num < 130)
    (request_id : Nat) {index : Block UInt8} (hindex : index.length = index_size params_num) :
    ScratchKind.tagN_report2.run (report2_created buckets params_num, index)
      [.add request_id (long_record (long_tags (List.replicate params_num 0)))] = none := by
  let tag_id : List Int := List.replicate params_num 0
  let timer : TimerRecord := ⟨default, default, default, 1, long_tags tag_id⟩
  have hsel : (TagKind.tagN_report2.select tag_id (List.replicate tag_id.length default) timer).2 =
      some (List.replicate tag_id.length long_word) :=
    select_long_tags List.length_replicate timer rfl
  have htimer : scratch_timer report2_fields (tag_row_add request_id)
      (long_record (long_tags tag_id)).data (report2_created buckets params_num, index) timer =
        none := by
    refine scratch_timer_eq_none hsel ?_
    -- 131 + 65 N bytes, where 66 N + 1 were allocated
    rw [index_bytes_long, hindex, List.length_replicate, index_size]
    simp only [PINBA_TAG_VALUE_SIZE]
    omega
  have hadd : scratch_tag_add report2_fields request_id (report2_created buckets params_num, index)
      (long_record (long_tags tag_id)) = none := by
    unfold scratch_tag_add
    rw [show (long_record (long_tags tag_id)).timers = [timer] from rfl, List.foldlM_cons, htimer]
    rfl
  rw [ScratchKind.run, List.foldlM_cons, ScratchKind.step, ScratchKind.add]
  simp only [tag_id] at hadd
  rw [hadd]
  rfl

/-! ## Section 7: When the buffers are large enough -/

/-- The buffer of a kind is large enough for every record exactly if the names
    are not stored in it, or the tags spare enough bytes for them. -/
theorem ScratchKind.stays_inside_iff (k : ScratchKind) (params_num : Nat) :
    k.StaysInside params_num ↔ k ≠ .tagN_report2 ∨ 130 ≤ params_num := by
  constructor
  · intro hinside
    by_contra hcon
    rw [not_or, not_not, Nat.not_le] at hcon
    obtain ⟨rfl, hfew⟩ := hcon
    let buckets : BucketChoice := ⟨1, fun _ _ => 0, fun _ _ => Nat.zero_lt_one⟩
    have hrun := hinside (report2_created buckets params_num)
      (created_report2 buckets params_num) (List.replicate (index_size params_num) 0)
      List.length_replicate
      [.add 0 (long_record (long_tags (List.replicate params_num 0)))]
    rw [report2_overflows buckets hfew 0 List.length_replicate] at hrun
    cases hrun
  · intro h
    exact staysInside fun hk => h.resolve_left fun hne => hne hk

/-- One tag, and a record with names and a tag value of 64 bytes: 196 bytes are
    written to a block of 67. -/
theorem tagN_report2_overflows_one_tag :
    ScratchKind.tagN_report2.run
      (report2_created ⟨1, fun _ _ => 0, fun _ _ => Nat.zero_lt_one⟩ 1, List.replicate 67 0)
      [.add 0 (long_record [(0, long_word)])] = none ∧
    ¬ ScratchKind.tagN_report2.StaysInside 1 := by
  have hrun : ScratchKind.tagN_report2.run
      (report2_created ⟨1, fun _ _ => 0, fun _ _ => Nat.zero_lt_one⟩ 1, List.replicate 67 0)
      [.add 0 (long_record [(0, long_word)])] = none :=
    report2_overflows _ (by decide) 0 (by simp [index_size])
  refine ⟨hrun, fun hinside => ?_⟩
  have hsome := hinside _ (created_report2 ⟨1, fun _ _ => 0, fun _ _ => Nat.zero_lt_one⟩ 1)
    (List.replicate 67 0) (by simp [index_size]) [.add 0 (long_record [(0, long_word)])]
  rw [hrun] at hsome
  cases hsome

end PinbaEngine
