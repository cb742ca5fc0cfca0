import PinbaEngine.Dictionary
import PinbaEngine.Lib.Delimited
import PinbaEngine.Reports.Base
import PinbaEngine.Reports.Rtag
import PinbaEngine.Reports.Tag

/-! # Table comments

    A table of the engine is described by its comment:
    `<report>:<params>:<conditions>:<percentiles>`, where the report may be
    prefixed by `hv.` to get the histogram view of it. `ha_pinba::create`
    accepts or refuses the comment; `ha_pinba::open` parses it again and keeps
    the result in the share of the table. The tag parameters are read much
    later, when the first `SELECT` makes `ha_pinba::info` or `read_index_first`
    construct the report.

    The comment is a C string: it ends at its first NUL byte.

    Accepted comments have as many parameters as the constructor of their
    report reads exactly when their parameter text is long enough
    (`enough_params_iff`). `pinba_parse_params` does not know the arity of the
    report, so a `tag_info` table without a tag is accepted. -/

namespace PinbaEngine

open Delimited (pieces)

/-! ## Section 1: Table types -/

/-- The bytes of a literal. -/
def ascii (s : String) : Bytes := s.toList.map fun c => UInt8.ofNat c.toNat

/-- `pinba_report_type`. -/
inductive TableType where
  | unknown | status | active_reports | request | timer | timertag | tag | histogram_view
  | base_report (k : BaseKind)
  | tag_report (k : TagKind)
  | rtag_report (k : RtagKind)
deriving DecidableEq

/-- `pinba_report_kind`. -/
inductive ReportKind where
  | base | tag | rtag
deriving DecidableEq

/-- The value of the enumerator. -/
def TableType.value : TableType → Nat
  | .unknown => 0
  | .status => 1
  | .active_reports => 2
  | .request => 3
  | .timer => 4
  | .timertag => 5
  | .tag => 6
  | .histogram_view => 7
  | .base_report k => 8 + k.ctorIdx
  | .tag_report k => 27 + k.ctorIdx
  | .rtag_report k => 36 + k.ctorIdx

/-- The names that `pinba_get_table_type` compares with. -/
def table_names : List (Bytes × ReportKind × TableType) :=
  [(ascii "rtag2_report", .rtag, .rtag_report .rtag2_report),
    (ascii "rtagN_report", .rtag, .rtag_report .rtagN_report),
    (ascii "tag2_report2", .tag, .tag_report .tag2_report2),
    (ascii "tagN_report2", .tag, .tag_report .tagN_report2),
    (ascii "rtag_report", .rtag, .rtag_report .rtag_report),
    (ascii "tag2_report", .tag, .tag_report .tag2_report),
    (ascii "tag_report2", .tag, .tag_report .tag_report2),
    (ascii "tagN_report", .tag, .tag_report .tagN_report),
    (ascii "rtag2_info", .rtag, .rtag_report .rtag2_info),
    (ascii "rtagN_info", .rtag, .rtag_report .rtagN_info),
    (ascii "tag_report", .tag, .tag_report .tag_report),
    (ascii "rtag_info", .rtag, .rtag_report .rtag_info),
    (ascii "tag2_info", .tag, .tag_report .tag2_info),
    (ascii "tagN_info", .tag, .tag_report .tagN_info),
    (ascii "timertag", .tag, .timertag),
    (ascii "tag_info", .tag, .tag_report .tag_info),
    (ascii "report10", .base, .base_report .report10),
    (ascii "report11", .base, .base_report .report11),
    (ascii "report12", .base, .base_report .report12),
    (ascii "report13", .base, .base_report .report13),
    (ascii "report14", .base, .base_report .report14),
    (ascii "report15", .base, .base_report .report15),
    (ascii "report16", .base, .base_report .report16),
    (ascii "report17", .base, .base_report .report17),
    (ascii "report18", .base, .base_report .report18),
    (ascii "request", .base, .request),
    (ascii "report1", .base, .base_report .report1),
    (ascii "report2", .base, .base_report .report2),
    (ascii "report3", .base, .base_report .report3),
    (ascii "report4", .base, .base_report .report4),
    (ascii "report5", .base, .base_report .report5),
    (ascii "report6", .base, .base_report .report6),
    (ascii "report7", .base, .base_report .report7),
    (ascii "report8", .base, .base_report .report8),
    (ascii "report9", .base, .base_report .report9),
    (ascii "active_reports", .base, .active_reports),
    (ascii "status", .base, .status),
    (ascii "timer", .base, .timer),
    (ascii "info", .base, .base_report .report_info),
    (ascii "tag", .base, .tag)]

/-- The type and the kind of a name, `PINBA_TABLE_UNKNOWN` if there is none. -/
def named_type (name : Bytes) : TableType × ReportKind :=
  match table_names.find? (·.1 = name) with
  | some entry => (entry.2.2, entry.2.1)
  | none => (.unknown, .base)

/-- The text before the first colon. -/
def before_colon (str : Bytes) : Bytes := str.takeWhile (· ≠ 58)

/-- The text after the first colon, if there is one (`strchr`). -/
def after_colon (str : Bytes) : Option Bytes :=
  match str.dropWhile (· ≠ 58) with
  | [] => none
  | _ :: rest => some rest

/-- `pinba_get_table_type`. -/
def pinba_get_table_type (str : Bytes) : TableType × ReportKind :=
  -- params are ignored
  let name := before_colon str
  if 3 < name.length ∧ name.take 3 = ascii "hv." then
    -- the kind is that of the report, also where the report is unknown
    (.histogram_view, (named_type (name.drop 3)).2)
  else named_type name

/-! ## Section 2: Numbers in a comment -/

def is_digit (c : UInt8) : Bool := 48 ≤ c && c ≤ 57

/-- `isspace` of the C locale. -/
def is_space (c : UInt8) : Bool := c == 32 || (9 ≤ c && c ≤ 13)

/-- The number written by decimal digits. -/
def number_of (digits : Bytes) : Nat := digits.foldl (fun n c => n * 10 + (c.toNat - 48)) 0

/-- The exponent at the start of a text; without digits it is no exponent. -/
def exponent_of : Bytes → Int
  | [] => 0
  | c :: rest =>
    if c = 101 ∨ c = 69 then
      match rest with
      | 45 :: rest => -number_of (rest.takeWhile is_digit)
      | 43 :: rest => number_of (rest.takeWhile is_digit)
      | rest => number_of (rest.takeWhile is_digit)
    else 0

/-- The decimal number that `std::from_chars` reads at the start of a text. Negative
    numbers, infinities and not-a-numbers are left out: the caller refuses them. -/
def from_chars (text : Bytes) : Option ℚ :=
  let whole := text.takeWhile is_digit
  let rest := text.dropWhile is_digit
  let fraction := match rest with
    | 46 :: rest => rest.takeWhile is_digit
    | _ => []
  let rest := match rest with
    | 46 :: rest => rest.dropWhile is_digit
    | rest => rest
  if whole ++ fraction = [] then none
  else some (number_of (whole ++ fraction) * 10 ^ (exponent_of rest - fraction.length))

/-- `pinba_parse_histogram_max`: is there a number between 1 and `INT_MAX`? -/
def pinba_parse_histogram_max (text : Bytes) : Bool :=
  let text := text.dropWhile is_space
  let text := match text with
    | 43 :: rest => rest
    | text => text
  match from_chars text with
  | none => false
  -- the numbers whose nearest `double`, ties to even, lies in `[1, INT_MAX]`
  | some value => 1 - 1 / 2 ^ 54 ≤ value && value ≤ INT_MAX + 1 / 2 ^ 23

/-- `strtol` with base 10. -/
def strtol (text : Bytes) : Int :=
  match text.dropWhile is_space with
  | 45 :: rest => -number_of (rest.takeWhile is_digit)
  | 43 :: rest => number_of (rest.takeWhile is_digit)
  | rest => number_of (rest.takeWhile is_digit)

/-- `pinba_percentile`, with the exact value of the percentile. -/
structure Percentile where
  value : ℚ
  numerator : Nat
  denominator : Nat
deriving DecidableEq

/-- The loop of `pinba_parse_fractional_percentile`. -/
def scan_percentile : Bytes → Nat → Nat → Nat → Bool → Option (Nat × Nat)
  | [], number, scale, _, _ => some (number, scale)
  | c :: text, number, scale, decimals, dot =>
    if c = 46 ∧ !dot then scan_percentile text number scale decimals true
    else
      let decimals := if dot && is_digit c then decimals + 1 else decimals
      if !is_digit c ∨ 9 < decimals then none
      else
        let scale := if dot then scale * 10 else scale
        let number := number * 10 + (c.toNat - 48)
        if 100 * scale < number then none else scan_percentile text number scale decimals dot

/-- `pinba_parse_fractional_percentile`. -/
def pinba_parse_fractional_percentile (text : Bytes) : Option Percentile :=
  if !(text.head?.any is_digit) ∨ text.getLast? = some 46 then none
  else match scan_percentile text 0 1 0 false with
    | none => none
    | some (number, scale) =>
      if number = 0 then none else some ⟨number / scale, number, 100 * scale⟩

/-- One percentile in the old notation: an integer prefix, so `99.9` is 99. -/
def parse_legacy_percentile (text : Bytes) : Option Percentile :=
  let value := strtol text
  if value ≤ 0 ∨ 100 < value then none else some ⟨value, 0, 0⟩

/-! ## Section 3: Parameters, conditions and percentiles -/

/-- `PINBA_SHARE`: what the comment of an open table says. -/
structure TableShare where
  table_type : TableType
  hv_table_type : TableType
  report_kind : ReportKind
  params : List Bytes
  conds : List (Bytes × Bytes)
  percentiles : List Percentile
  index : Bytes
deriving DecidableEq

/-- A zeroed share. -/
def TableShare.zero : TableShare := ⟨.unknown, .unknown, .base, [], [], [], []⟩

/-- One condition `name=value`. -/
def parse_condition (text : Bytes) : Option (Bytes × Bytes) :=
  match text.dropWhile (· ≠ 61) with
  | [] => none
  | _ :: value =>
    let name := text.takeWhile (· ≠ 61)
    if name = ascii "histogram_max_time" ∧ !pinba_parse_histogram_max value then none
    else some (name, value)

/-- The percentiles in the last part of a comment. -/
def parse_percentiles (text : Bytes) : Option (List Percentile) :=
  if text.take 2 = ascii "p=" then
    let text := text.drop 2
    -- a list that is empty or ends in a comma is refused
    if text = [] ∨ text.getLast? = some 44 then none
    else (pieces 44 text).mapM pinba_parse_fractional_percentile
  else (pieces 44 text).mapM parse_legacy_percentile

/-- The percentiles of the text of the conditions and what follows. -/
def percentiles_after (text : Bytes) : Option (List Percentile) :=
  match after_colon text with
  | none => some []
  | some text => parse_percentiles text

/-- The parts after the first colon of a comment: parameters, conditions, percentiles. -/
def parse_parts (share : TableShare) (text : Bytes) : Option TableShare :=
  let params := pieces 44 (before_colon text)
  -- a comma without a parameter before it
  if [] ∈ params then none
  else match after_colon text with
    | none => some { share with params }
    | some text => do
      let conds ← (pieces 44 (before_colon text)).mapM parse_condition
      let percentiles ← percentiles_after text
      return { share with params, conds, percentiles }

/-- The text of a comment without `hv.`: the number that `pinba_parse_params` returns, and the
    share. The number misses the last of several parameters when there is no share to fill. -/
def parse_text (share : TableShare) (str : Bytes) (parse_only : Bool) : Option (Nat × TableShare) :=
  match after_colon str with
  | none => some (0, share)
  | some text =>
    -- the colon was the last character
    if text = [] then none
    else
      let params := before_colon text
      let uncounted := parse_only ∧ 44 ∈ params.dropLast ∧ params.getLast? ≠ some 44
      (parse_parts share text).map fun share =>
        (if uncounted then share.params.length - 1 else share.params.length, share)

/-- `pinba_parse_params`; `none` is a negative result. -/
def pinba_parse_params (comment : Bytes) (type : TableType) (parse_only : Bool) :
    Option (Nat × TableShare) :=
  if type = .histogram_view then
    let str := comment.drop 3
    let (tmp_hv_type, report_kind) := pinba_get_table_type str
    if tmp_hv_type = .unknown then none
    else parse_text { TableShare.zero with hv_table_type := tmp_hv_type, report_kind } str parse_only
  else
    let (_, report_kind) := pinba_get_table_type comment
    parse_text { TableShare.zero with report_kind } comment parse_only

/-! ## Section 4: Creating and opening a table -/

/-- The type of the report behind a share, also behind a histogram view. -/
def TableShare.type (share : TableShare) : TableType :=
  if share.table_type = .histogram_view then share.hv_table_type else share.table_type

/-- The bytes that fit `share->index`. -/
def PINBA_MAX_LINE_LEN : Nat := 8192

def conditions_id (conds : List (Bytes × Bytes)) : Bytes :=
  conds.flatMap fun cond => 124 :: cond.1 ++ 61 :: cond.2

/-- `pinba_get_tag_report_id`. -/
def pinba_get_tag_report_id (share : TableShare) : Bytes :=
  (sprintf_u share.type.value ++ share.params.flatMap (124 :: ·) ++ conditions_id share.conds).take
    (PINBA_MAX_LINE_LEN - 1)

/-- `pinba_get_report_id`. -/
def pinba_get_report_id (share : TableShare) : Bytes :=
  (sprintf_u share.type.value ++ conditions_id share.conds).take (PINBA_MAX_LINE_LEN - 1)

/-- `ha_pinba::create` returns 0. -/
def create (comment : Text) : Bool :=
  let type := (pinba_get_table_type comment.bytes).1
  type ≠ .unknown ∧ (pinba_parse_params comment.bytes type true).isSome

/-- The parsed share with its type and its index. -/
def TableShare.opened (share : TableShare) (type : TableType) (report_kind : ReportKind) : TableShare :=
  let share := { share with table_type := type }
  { share with
    index := if report_kind = .base then pinba_get_report_id share
      else pinba_get_tag_report_id share }

/-- The share that `get_share` builds for a table that is not open yet. -/
def get_share (comment : Text) : Option TableShare :=
  let (type, report_kind) := pinba_get_table_type comment.bytes
  if type = .unknown then none
  else (pinba_parse_params comment.bytes type false).map fun parsed =>
    parsed.2.opened type report_kind

/-! ## Section 5: Reading the parameters -/

/-- An access outside of `share->params`. -/
inductive Fault where
  | out_of_bounds
deriving DecidableEq

/-- `share->params[k]`. -/
def TableShare.param (share : TableShare) (k : Nat) : Except Fault Bytes :=
  match share.params[k]? with
  | some param => .ok param
  | none => .error .out_of_bounds

/-- The constructors look up the tags named by their first `count` parameters and give up at
    the first one that is not known. -/
def lookup_params (share : TableShare) (known : Bytes → Bool) (count : Nat) : Except Fault Bool :=
  (List.range count).allM fun k => known <$> share.param k

/-- The parameters in `pinba_regenerate_tag*`. -/
def pinba_regenerate_tags (share : TableShare) (known : Bytes → Bool) : TagKind → Except Fault Bool
  | .tag_info | .tag_report | .tag_report2 => lookup_params share known 1
  | .tag2_info | .tag2_report | .tag2_report2 => lookup_params share known 2
  | .tagN_info | .tagN_report | .tagN_report2 => lookup_params share known share.params.length

/-- The parameters in `pinba_regenerate_rtag*`. -/
def pinba_regenerate_rtags (share : TableShare) (known : Bytes → Bool) : RtagKind → Except Fault Bool
  | .rtag_info | .rtag_report => lookup_params share known 1
  | .rtag2_info => lookup_params share known 2
  -- the only constructor that counts its parameters first
  | .rtag2_report => if share.params.length < 2 then .ok false else lookup_params share known 2
  | .rtagN_info | .rtagN_report => lookup_params share known share.params.length

/-- The parameters read when `ha_pinba::info` constructs the report of a table; the result
    says whether all tags are known. Base reports have no parameters. -/
def info_params (share : TableShare) (known : Bytes → Bool) : Except Fault Bool :=
  match share.type with
  | .tag_report k => pinba_regenerate_tags share known k
  | .rtag_report k => pinba_regenerate_rtags share known k
  | _ => .ok true

/-- The parameters read when `read_index_first` constructs the report of a table. -/
def read_index_first_params (share : TableShare) (known : Bytes → Bool) : Except Fault Bool :=
  match share.table_type with
  | .tag_report .tag_info | .tag_report .tag2_info | .tag_report .tagN_info => .ok true
  | .tag_report k => pinba_regenerate_tags share known k
  | _ => .ok true

/-- The number of parameters that a report needs. -/
def TableType.arity : TableType → Nat
  | .tag_report .tag2_info | .tag_report .tag2_report | .tag_report .tag2_report2 => 2
  | .tag_report _ => 1
  | .rtag_report .rtag2_info | .rtag_report .rtag2_report => 2
  | .rtag_report _ => 1
  | _ => 0

/-- No constructor reads outside of the parameters. -/
def TableShare.Readable (share : TableShare) : Prop :=
  share.type.arity ≤ share.params.length ∧
    ∀ known, info_params share known ≠ .error .out_of_bounds ∧
      read_index_first_params share known ≠ .error .out_of_bounds

section reads

variable {share : TableShare} (known : Bytes → Bool)

theorem allM_params_cons {k : Nat} (ks : List Nat) (hk : k < share.params.length) :
    ((k :: ks).allM fun k => known <$> share.param k) =
      if known (share.params.get ⟨k, hk⟩) then ks.allM fun k => known <$> share.param k
      else .ok false := by
  have hparam : known <$> share.param k = .ok (known (share.params.get ⟨k, hk⟩)) := by
    simp only [TableShare.param, List.getElem?_eq_getElem hk]
    rfl
  rw [List.allM, hparam]
  cases known (share.params.get ⟨k, hk⟩) <;> rfl

/-- Looking up parameters that the table has reads inside of the array. -/
theorem lookup_params_ne_error {count : Nat} (h : count ≤ share.params.length) :
    lookup_params share known count ≠ .error .out_of_bounds := by
  have hrange : ∀ ks : List Nat, (∀ k ∈ ks, k < share.params.length) →
      (ks.allM fun k => known <$> share.param k) ≠ .error .out_of_bounds := by
    intro ks hks
    induction ks with
    | nil => exact fun hno => by cases hno
    | cons k ks ih =>
      rw [allM_params_cons known ks (hks k List.mem_cons_self)]
      split
      · exact ih fun j hj => hks j (List.mem_cons_of_mem _ hj)
      · exact fun hno => by cases hno
  exact hrange _ fun k hk => lt_of_lt_of_le (List.mem_range.mp hk) h

theorem regenerate_tags_ne_error {k : TagKind}
    (h : (TableType.tag_report k).arity ≤ share.params.length) :
    pinba_regenerate_tags share known k ≠ .error .out_of_bounds := by
  cases k <;> exact lookup_params_ne_error known (by first | exact h | exact le_rfl)

theorem regenerate_rtags_ne_error {k : RtagKind}
    (h : (TableType.rtag_report k).arity ≤ share.params.length) :
    pinba_regenerate_rtags share known k ≠ .error .out_of_bounds := by
  cases k with
  | rtag2_report =>
    have htwo : 2 ≤ share.params.length := h
    rw [pinba_regenerate_rtags, if_neg (Nat.not_lt.mpr htwo)]
    exact lookup_params_ne_error known htwo
  | _ => exact lookup_params_ne_error known (by first | exact h | exact le_rfl)

/-- With enough parameters nothing is read outside of the array. -/
theorem readable_iff : share.Readable ↔ share.type.arity ≤ share.params.length := by
  constructor
  · exact fun h => h.1
  · intro h
    refine ⟨h, fun known => ⟨?_, ?_⟩⟩
    · unfold info_params
      split
      · next heq => exact regenerate_tags_ne_error known (heq ▸ h)
      · next heq => exact regenerate_rtags_ne_error known (heq ▸ h)
      · exact fun hno => by cases hno
    · unfold read_index_first_params
      split
      · exact fun hno => by cases hno
      · exact fun hno => by cases hno
      · exact fun hno => by cases hno
      · next k _ _ _ heq =>
        -- the table is no histogram view, so its type is that of the report
        have htype : share.type = .tag_report k := by
          rw [TableShare.type, heq, if_neg (by simp)]
        exact regenerate_tags_ne_error known (htype ▸ h)
      · exact fun hno => by cases hno

end reads

/-! ## Section 6: Which accepted comments have enough parameters -/

/-- The type of the report that a comment names, also behind a histogram view. -/
def report_type (comment : Bytes) : TableType :=
  let type := (pinba_get_table_type comment).1
  if type = .histogram_view then (pinba_get_table_type (comment.drop 3)).1 else type

/-- The text between the first colon and the next one, or the end of the comment. -/
def param_text (comment : Bytes) : Bytes := before_colon ((after_colon comment).getD [])

/-- The parameter text is not empty where the report needs a tag, and has a comma with
    something after it where the report needs two. -/
def EnoughParams (comment : Text) : Prop :=
  match (report_type comment.bytes).arity with
  | 0 => True
  | 1 => param_text comment.bytes ≠ []
  | _ => 44 ∈ (param_text comment.bytes).dropLast

section parse

variable {str comment : Bytes} {type : TableType} {parse_only : Bool} {n : Nat}
  {share share' : TableShare}

/-- The parts of a comment leave the types of a share alone. -/
theorem parse_parts_spec {text : Bytes} (h : parse_parts share text = some share') :
    share'.params = pieces 44 (before_colon text) ∧ share'.hv_table_type = share.hv_table_type := by
  unfold parse_parts at h
  simp only at h
  split at h
  · cases h
  split at h
  · cases h
    exact ⟨rfl, rfl⟩
  · obtain ⟨conds, -, h⟩ := Option.bind_eq_some_iff.mp h
    obtain ⟨percentiles, -, h⟩ := Option.bind_eq_some_iff.mp h
    cases h
    exact ⟨rfl, rfl⟩

theorem parse_text_spec (hzero : share.params = [])
    (h : parse_text share str parse_only = some (n, share')) :
    share'.params = pieces 44 (param_text str) ∧ share'.hv_table_type = share.hv_table_type := by
  unfold parse_text at h
  split at h
  · next hcolon =>
    cases h
    rw [param_text, hcolon, hzero]
    exact ⟨rfl, rfl⟩
  · next text hcolon =>
    split at h
    · cases h
    · obtain ⟨parsed, hparsed, heq⟩ := Option.map_eq_some_iff.mp h
      cases heq
      rw [param_text, hcolon]
      exact parse_parts_spec hparsed

/-- Parsing only and filling a share accept the same texts. -/
theorem parse_text_modes (share : TableShare) (str : Bytes) :
    (parse_text share str true).map Prod.snd = (parse_text share str false).map Prod.snd := by
  unfold parse_text
  split
  · rfl
  · split
    · rfl
    · simp [Option.map_map, Function.comp_def]

theorem parse_params_modes (comment : Bytes) (type : TableType) :
    (pinba_parse_params comment type true).map Prod.snd =
      (pinba_parse_params comment type false).map Prod.snd := by
  unfold pinba_parse_params
  split
  · simp only
    split
    · rfl
    · exact parse_text_modes _ _
  · exact parse_text_modes _ _

theorem named_type_ne_view (name : Bytes) : (named_type name).1 ≠ .histogram_view := by
  unfold named_type
  split
  · next entry hentry =>
    have hmem : entry ∈ table_names := List.mem_of_find?_eq_some hentry
    have hall : ∀ e ∈ table_names, e.2.2 ≠ .histogram_view := by decide
    exact hall entry hmem
  · simp

theorem take_of_view (h : (pinba_get_table_type comment).1 = .histogram_view) :
    comment = ascii "hv." ++ comment.drop 3 := by
  unfold pinba_get_table_type at h
  simp only at h
  split at h
  · next hname =>
    have htake : comment.take 3 = ascii "hv." := by
      obtain ⟨rest, hrest⟩ := List.takeWhile_prefix (fun c : UInt8 => decide (c ≠ 58)) (l := comment)
      have hlen : 3 ≤ (before_colon comment).length := hname.1.le
      calc comment.take 3 = (before_colon comment ++ rest).take 3 := by rw [before_colon, hrest]
        _ = (before_colon comment).take 3 := List.take_append_of_le_length hlen
        _ = ascii "hv." := hname.2
    rw [← htake, List.take_append_drop]
  · exact absurd h (named_type_ne_view _)

/-- `hv.` contains no colon. -/
theorem param_text_drop (h : (pinba_get_table_type comment).1 = .histogram_view) :
    param_text (comment.drop 3) = param_text comment := by
  have hcolon : after_colon comment = after_colon (comment.drop 3) := by
    conv_lhs => rw [take_of_view h]
    rfl
  rw [param_text, param_text, hcolon]

/-- What a parsed comment says about parameters and the report behind a view. -/
theorem parse_params_spec (htype : type = (pinba_get_table_type comment).1)
    (h : pinba_parse_params comment type parse_only = some (n, share)) :
    share.params = pieces 44 (param_text comment) ∧
      (if type = .histogram_view then share.hv_table_type else type) = report_type comment := by
  unfold pinba_parse_params at h
  unfold report_type
  rw [← htype]
  split at h
  · next hview =>
    simp only at h
    split at h
    · cases h
    · obtain ⟨hparams, hhv⟩ := parse_text_spec rfl h
      rw [if_pos hview, if_pos hview, ← param_text_drop (htype ▸ hview)]
      exact ⟨hparams, hhv⟩
  · next hview =>
    obtain ⟨hparams, -⟩ := parse_text_spec rfl h
    rw [if_neg hview, if_neg hview]
    exact ⟨hparams, rfl⟩

end parse

/-- The share of an accepted table. -/
theorem get_share_of_create {comment : Text} (h : create comment = true) :
    ∃ share, get_share comment = some share ∧ share.type = report_type comment.bytes ∧
      share.params = pieces 44 (param_text comment.bytes) := by
  unfold create at h
  simp only [ne_eq, Bool.decide_and, Bool.and_eq_true, decide_eq_true_eq] at h
  obtain ⟨hknown, hparsed⟩ := h
  have hmodes := parse_params_modes comment.bytes (pinba_get_table_type comment.bytes).1
  obtain ⟨⟨n, share⟩, hshare⟩ : ∃ r, pinba_parse_params comment.bytes
      (pinba_get_table_type comment.bytes).1 false = some r := by
    rw [← Option.isSome_iff_exists, ← Option.isSome_map, ← hmodes, Option.isSome_map]
    exact hparsed
  obtain ⟨hparams, htype⟩ := parse_params_spec rfl hshare
  refine ⟨share.opened _ (pinba_get_table_type comment.bytes).2, ?_, htype, hparams⟩
  rw [get_share]
  simp only [if_neg hknown, hshare, Option.map_some]

/-- An accepted table has the parameters that the constructor of its report reads exactly
    when its comment has enough of them. -/
theorem enough_params_iff (comment : Text) (h : create comment = true) :
    ∃ share, get_share comment = some share ∧ (share.Readable ↔ EnoughParams comment) := by
  obtain ⟨share, hshare, htype, hparams⟩ := get_share_of_create h
  refine ⟨share, hshare, ?_⟩
  rw [readable_iff, htype, hparams, EnoughParams]
  have harity : (report_type comment.bytes).arity ≤ 2 := by
    cases report_type comment.bytes with
    | tag_report k => cases k <;> decide
    | rtag_report k => cases k <;> decide
    | _ => exact Nat.zero_le 2
  split
  · next h0 => simp [h0]
  · next h1 =>
    rw [h1]
    exact Delimited.one_le_length_pieces
  · next h0 h1 =>
    have h2 : (report_type comment.bytes).arity = 2 := by
      have : (report_type comment.bytes).arity ≠ 0 := h0
      have : (report_type comment.bytes).arity ≠ 1 := h1
      omega
    rw [h2]
    exact Delimited.two_le_length_pieces

/-- A `tag2_info` table with its two tags. -/
theorem enough_params_two_tags :
    ∃ share, get_share ⟨ascii "tag2_info:group,server", by decide⟩ = some share ∧ share.Readable := by
  obtain ⟨share, hshare, hiff⟩ :=
    enough_params_iff ⟨ascii "tag2_info:group,server", by decide⟩ (by decide)
  have htwo : (44 : UInt8) ∈ (param_text (ascii "tag2_info:group,server")).dropLast := by decide
  exact ⟨share, hshare, hiff.mpr htwo⟩

/-- A `tag_info` table without a tag is accepted, and its constructor reads `params[0]`. -/
theorem tag_info_without_params :
    create ⟨ascii "tag_info", by decide⟩ = true ∧
      ∃ share, get_share ⟨ascii "tag_info", by decide⟩ = some share ∧ share.params = [] ∧
        share.type.arity = 1 ∧ info_params share (fun _ => true) = .error .out_of_bounds := by
  refine ⟨by decide, _, rfl, ?_⟩
  decide

end PinbaEngine
