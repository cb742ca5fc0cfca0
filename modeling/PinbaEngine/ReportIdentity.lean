import PinbaEngine.CommentParser
import PinbaEngine.KeyInjectivity

/-! # Which tables share a report

    Tables with the same `share->index` show the same report. For the tag reports the
    index is the number of the table type, the parameters and the conditions, each after
    a bar, in a buffer of 8192 bytes. A comment may have bars in its parameters and
    conditions, and equal signs in its parameters, so the index does not tell where one
    of them ends.

    A table that could be taken for another one is shown to be so by writing the comment
    of the other: a condition becomes a parameter, two parameters become one, or what
    does not fit the buffer is changed.
-/

namespace PinbaEngine

open CompositeKind Delimited

/-- There is no bar inside the text. -/
def NoInnerBar (text : Bytes) : Prop := ∀ a b, text = a ++ 124 :: b → a = [] ∨ b = []

namespace TableShare

/-- Two tables that show the same: of one type, with the same parameters and conditions. -/
def SameDefinition (share share' : TableShare) : Prop :=
  share.type = share'.type ∧ share.params = share'.params ∧ share.conds = share'.conds

def cond_text (cond : Bytes × Bytes) : Bytes := cond.1 ++ 61 :: cond.2

/-- The parameters and conditions, as they are written to the index. -/
def texts (share : TableShare) : List Bytes := share.params ++ share.conds.map cond_text

/-- The index without an end of the buffer. -/
def id_text (share : TableShare) : Bytes := sprintf_u share.type.value ++ headed 124 share.texts

/-- All of it is in the buffer. -/
def Fits (share : TableShare) : Prop := share.id_text.length ≤ PINBA_MAX_LINE_LEN - 1

/-- The parameters and conditions, cut at every bar. -/
def cut_texts (share : TableShare) : List Bytes := share.texts.flatMap (List.splitOn 124)

/-- No parameter, or only one that could not be two parameters or a condition; and some room
    is left in the buffer. -/
structure Unmistakable (share : TableShare) : Prop where
  conds : share.conds = []
  short : share.id_text.length < PINBA_MAX_LINE_LEN - 1
  params : share.params = [] ∨
    ∃ param, share.params = [param] ∧ parse_condition param = none ∧ NoInnerBar param

/-- The index can be read back: no bars, and no equal signs in parameters. -/
structure Plain (share : TableShare) : Prop where
  fits : share.Fits
  bars : ∀ text ∈ share.texts, 124 ∉ text
  params : ∀ param ∈ share.params, 61 ∉ param

end TableShare

/-- A table with this comment has this share, and its report is one of timer tags or request tags. -/
structure TagTable (comment : Text) (share : TableShare) : Prop where
  share_eq : get_share comment = some share
  kind : (pinba_get_table_type comment.bytes).2 ≠ .base

/-! ## Section 1: Reading an index -/

theorem base_value (k : BaseKind) : 8 ≤ (TableType.base_report k).value ∧
    (TableType.base_report k).value < 27 := by
  cases k <;> decide

theorem tag_value (k : TagKind) : 27 ≤ (TableType.tag_report k).value ∧
    (TableType.tag_report k).value < 36 := by
  cases k <;> decide

theorem rtag_value (k : RtagKind) : 36 ≤ (TableType.rtag_report k).value := Nat.le_add_right _ _

/-- Enumerators are told apart by their values. -/
theorem value_injective {t t' : TableType} (h : t.value = t'.value) : t = t' := by
  cases t with
  | base_report k =>
    have hk := base_value k
    cases t' with
    | base_report k' =>
      have heq : k = k' :=
        Function.LeftInverse.injective BaseKind.ofNat_ctorIdx (Nat.add_left_cancel h)
      rw [heq]
    | tag_report k' => have hk' := tag_value k'; omega
    | rtag_report k' => have hk' := rtag_value k'; omega
    | _ => simp only [TableType.value] at h; omega
  | tag_report k =>
    have hk := tag_value k
    cases t' with
    | base_report k' => have hk' := base_value k'; omega
    | tag_report k' =>
      have heq : k = k' :=
        Function.LeftInverse.injective TagKind.ofNat_ctorIdx (Nat.add_left_cancel h)
      rw [heq]
    | rtag_report k' => have hk' := rtag_value k'; omega
    | _ => simp only [TableType.value] at h; omega
  | rtag_report k =>
    have hk := rtag_value k
    cases t' with
    | base_report k' => have hk' := base_value k'; omega
    | tag_report k' => have hk' := tag_value k'; omega
    | rtag_report k' =>
      have heq : k = k' :=
        Function.LeftInverse.injective RtagKind.ofNat_ctorIdx (Nat.add_left_cancel h)
      rw [heq]
    | _ => simp only [TableType.value] at h; omega
  | _ =>
    cases t' with
    | base_report k' => have hk' := base_value k'; simp only [TableType.value] at h hk'; omega
    | tag_report k' => have hk' := tag_value k'; simp only [TableType.value] at h hk'; omega
    | rtag_report k' => have hk' := rtag_value k'; simp only [TableType.value] at h hk'; omega
    | _ => first | rfl | cases h

namespace TableShare

variable {share share' : TableShare}

theorem report_id_eq (share : TableShare) :
    pinba_get_tag_report_id share = share.id_text.take (PINBA_MAX_LINE_LEN - 1) := by
  unfold pinba_get_tag_report_id id_text texts conditions_id headed
  rw [List.flatMap_append, List.flatMap_map, List.append_assoc]
  rfl

theorem length_number (t : TableType) : (sprintf_u t.value).length ≤ 2 := by
  cases t with
  | base_report k => cases k <;> decide
  | tag_report k => cases k <;> decide
  | rtag_report k => cases k <;> decide
  | _ => decide

/-- The number of the type always fits. -/
theorem take_id_text (share : TableShare) : share.id_text.take (PINBA_MAX_LINE_LEN - 1) =
    sprintf_u share.type.value ++ (headed 124 share.texts).take
      (PINBA_MAX_LINE_LEN - 1 - (sprintf_u share.type.value).length) := by
  have hnumber : (sprintf_u share.type.value).length ≤ PINBA_MAX_LINE_LEN - 1 :=
    (length_number share.type).trans (by decide)
  rw [id_text, List.take_append, List.take_of_length_le hnumber]

theorem head_take_headed (ws : List Bytes) (n : Nat) :
    ∀ x ∈ ((headed 124 ws).take n).head?, ¬ IsDigit x := by
  cases n with
  | zero => nofun
  | succ n =>
    cases ws with
    | nil => nofun
    | cons w ws =>
      rw [headed_cons, List.take_succ_cons]
      exact not_digit_cons (by decide)

/-- The buffer tells the type and the beginning of the texts behind their bars. -/
theorem take_id_text_eq_iff :
    share.id_text.take (PINBA_MAX_LINE_LEN - 1) = share'.id_text.take (PINBA_MAX_LINE_LEN - 1) ↔
      share.type = share'.type ∧
        (headed 124 share.texts).take (PINBA_MAX_LINE_LEN - 1 - (sprintf_u share.type.value).length) =
          (headed 124 share'.texts).take
            (PINBA_MAX_LINE_LEN - 1 - (sprintf_u share'.type.value).length) := by
  rw [take_id_text, take_id_text]
  constructor
  · intro h
    -- the number ends at the first bar
    obtain ⟨hnumber, htexts⟩ := append_unique IsDigit (fun _ => isDigit_of_mem_sprintf_u)
      (fun _ => isDigit_of_mem_sprintf_u) (head_take_headed _ _) (head_take_headed _ _) h
    exact ⟨value_injective (sprintf_u_injective hnumber), htexts⟩
  · rintro ⟨htype, htexts⟩
    rw [htexts, htype]

/-- A text that fits is in the buffer as a whole. -/
theorem take_headed_of_fits (h : share.Fits) :
    (headed 124 share.texts).take (PINBA_MAX_LINE_LEN - 1 - (sprintf_u share.type.value).length) =
      headed 124 share.texts := by
  unfold Fits id_text at h
  rw [List.length_append] at h
  exact List.take_of_length_le (by omega)

theorem headed_texts_eq_iff :
    headed 124 share.texts = headed 124 share'.texts ↔ share.cut_texts = share'.cut_texts := by
  constructor
  · intro h
    have hcut := congrArg (List.splitOn 124) h
    rw [splitOn_headed, splitOn_headed, List.cons.injEq] at hcut
    exact hcut.2
  · intro h
    have hcut : (headed 124 share.texts).splitOn 124 = (headed 124 share'.texts).splitOn 124 := by
      rw [splitOn_headed, splitOn_headed]
      exact congrArg _ h
    exact splitOn_injective hcut

/-- Conditions are read back at their first equal signs. -/
theorem conds_unique {conds conds' : List (Bytes × Bytes)} (h : ∀ cond ∈ conds, 61 ∉ cond.1)
    (h' : ∀ cond ∈ conds', 61 ∉ cond.1) (heq : conds.map cond_text = conds'.map cond_text) :
    conds = conds' := by
  induction conds generalizing conds' with
  | nil => exact (List.map_eq_nil_iff.mp heq.symm).symm
  | cons cond conds ih =>
    cases conds' with
    | nil => cases heq
    | cons cond' conds' =>
      rw [List.map_cons, List.map_cons, List.cons.injEq] at heq
      obtain ⟨hname, hvalue⟩ :=
        split_unique (h cond List.mem_cons_self) (h' cond' List.mem_cons_self) heq.1
      have hrest : conds = conds' := ih (fun c hc => h c (List.mem_cons_of_mem _ hc))
        (fun c hc => h' c (List.mem_cons_of_mem _ hc)) heq.2
      rw [hrest, Prod.ext hname hvalue]

/-- Parameters end where the first text with an equal sign begins. -/
theorem texts_unique (hnames : ∀ cond ∈ share.conds, 61 ∉ cond.1)
    (hnames' : ∀ cond ∈ share'.conds, 61 ∉ cond.1) (hp : share.Plain) (hp' : share'.Plain)
    (h : share.texts = share'.texts) :
    share.params = share'.params ∧ share.conds = share'.conds := by
  have hcond : ∀ (conds : List (Bytes × Bytes)), ∀ text ∈ (conds.map cond_text).head?,
      ¬ 61 ∉ text := by
    intro conds text htext
    cases conds with
    | nil => cases htext
    | cons cond conds =>
      cases htext
      simp [cond_text]
  obtain ⟨hparams, hconds⟩ := append_unique (fun text : Bytes => 61 ∉ text) hp.params hp'.params
    (hcond _) (hcond _) h
  exact ⟨hparams, conds_unique hnames hnames' hconds⟩

end TableShare

/-! ## Section 2: Tables with comments -/

theorem map_cond_text {pieces : List Bytes} {conds : List (Bytes × Bytes)}
    (h : List.Forall₂ IsCond pieces conds) :
    conds.map TableShare.cond_text = pieces ∧ ∀ cond ∈ conds, 61 ∉ cond.1 := by
  induction h with
  | nil => exact ⟨rfl, nofun⟩
  | cons hcond _ ih =>
    refine ⟨?_, List.forall_mem_cons.mpr ⟨hcond.1, ih.2⟩⟩
    rw [List.map_cons, ih.1, hcond.2]
    rfl

theorem fields_chars {str f1 f2 f3 : Bytes} (h : Fields str f1 f2 f3) :
    (∀ c ∈ f1, c ∈ str) ∧ (∀ c ∈ f2, c ∈ str) ∧ 58 ∉ f1 ∧ 58 ∉ f2 := by
  cases h <;> simp_all

theorem nul_notMem_fields (comment : Text) : 0 ∉ fields_text comment.bytes := by
  unfold fields_text
  split
  · exact fun h => comment.nul_free (List.mem_of_mem_drop h)
  · exact comment.nul_free

/-- A text that can be a parameter of a comment. -/
structure IsParam (text : Bytes) : Prop where
  ne_nil : text ≠ []
  comma : 44 ∉ text
  colon : 58 ∉ text
  nul : 0 ∉ text

/-- Two parameters and one with a bar. -/
theorem isParam_bar {a b : Bytes} (ha : a ≠ []) (hb : b ≠ []) :
    IsParam (a ++ 124 :: b) ↔ IsParam a ∧ IsParam b := by
  constructor
  · rintro ⟨-, hcomma, hcolon, hnul⟩
    simp only [List.mem_append, List.mem_cons, not_or] at hcomma hcolon hnul
    exact ⟨⟨ha, hcomma.1, hcolon.1, hnul.1⟩, ⟨hb, hcomma.2.2, hcolon.2.2, hnul.2.2⟩⟩
  · rintro ⟨⟨-, hcomma, hcolon, hnul⟩, ⟨-, hcomma', hcolon', hnul'⟩⟩
    refine ⟨by simp, ?_, ?_, ?_⟩ <;> simp_all

/-- A pair that can be a condition of a comment. -/
structure IsCondition (cond : Bytes × Bytes) : Prop where
  text : IsParam (TableShare.cond_text cond)
  parsed : parse_condition (TableShare.cond_text cond) = some cond

namespace TagTable

variable {comment comment' : Text} {share share' : TableShare}

/-- The share of a table and the parsed fields of its comment. -/
theorem parsed (h : TagTable comment share) : ∃ f1 f2 f3,
    Fields (fields_text comment.bytes) f1 f2 f3 ∧ KnownReport comment.bytes ∧ Parsable f1 f2 f3 ∧
      ParsedAs f1 f2 f3 share ∧ share.type = report_type comment.bytes ∧
      share.index = pinba_get_tag_report_id share := by
  obtain ⟨f1, f2, f3, hfields⟩ := fields_exist (fields_text comment.bytes)
  have hshare := h.share_eq
  unfold get_share at hshare
  simp only at hshare
  split at hshare
  · cases hshare
  obtain ⟨⟨n, parsed⟩, hparsed, rfl⟩ := Option.map_eq_some_iff.mp hshare
  -- the parser reads the fields as lists of pieces
  obtain ⟨haccepted, hpieces⟩ := parse_params_iff hfields false
  obtain ⟨hknown, -, hparsable⟩ := haccepted.mp (Option.isSome_iff_exists.mpr ⟨_, hparsed⟩)
  obtain ⟨hparams, hconds, hpercentiles⟩ := hpieces n parsed hparsed
  obtain ⟨-, htype⟩ := parse_params_spec rfl hparsed
  refine ⟨f1, f2, f3, hfields, hknown, hparsable, ⟨hparams, hconds, hpercentiles⟩, htype, ?_⟩
  simp only [TableShare.opened, if_neg h.kind]
  rfl

theorem index_eq (h : TagTable comment share) :
    share.index = share.id_text.take (PINBA_MAX_LINE_LEN - 1) := by
  obtain ⟨_, _, _, -, -, -, -, -, hindex⟩ := h.parsed
  rw [hindex, TableShare.report_id_eq]

theorem names (h : TagTable comment share) : ∀ cond ∈ share.conds, 61 ∉ cond.1 := by
  obtain ⟨_, _, _, -, -, -, hparsed, -⟩ := h.parsed
  exact (map_cond_text hparsed.conds).2

theorem is_param (h : TagTable comment share) : ∀ param ∈ share.params, IsParam param := by
  obtain ⟨f1, f2, f3, hfields, -, hparsable, hparsed, -⟩ := h.parsed
  obtain ⟨hchars, -, hcolon, -⟩ := fields_chars hfields
  intro param hparam
  rw [hparsed.params] at hparam
  obtain ⟨hcomma, hmem⟩ := mem_piece hparam
  refine ⟨?_, hcomma, fun hc => hcolon (hmem _ hc),
    fun hc => nul_notMem_fields comment (hchars _ (hmem _ hc))⟩
  rintro rfl
  exact hparsable.params hparam

theorem is_condition (h : TagTable comment share) : ∀ cond ∈ share.conds, IsCondition cond := by
  obtain ⟨f1, f2, f3, hfields, -, hparsable, hparsed, -⟩ := h.parsed
  obtain ⟨-, hchars, -, hcolon⟩ := fields_chars hfields
  obtain ⟨htexts, hnames⟩ := map_cond_text hparsed.conds
  intro cond hcond
  have hpiece : TableShare.cond_text cond ∈ pieces 44 f2 := htexts ▸ List.mem_map_of_mem hcond
  obtain ⟨hcomma, hmem⟩ := mem_piece hpiece
  refine ⟨⟨by simp [TableShare.cond_text], hcomma, fun hc => hcolon (hmem _ hc),
    fun hc => nul_notMem_fields comment (hchars _ (hmem _ hc))⟩, ?_⟩
  -- the piece was read as a condition, and there is only one way to read it
  obtain ⟨read, hread, hrange⟩ := hparsable.conds _ hpiece
  obtain ⟨hname, hvalue⟩ := split_unique (hnames cond hcond) hread.1 hread.2
  rw [Prod.ext hname hvalue, parse_condition_eq_some]
  rw [Prod.ext hname hvalue] at hread
  exact ⟨hread, hrange⟩

/-- For tables that fit the buffer the index is the type and the cut texts. -/
theorem index_eq_iff (h : TagTable comment share) (h' : TagTable comment' share')
    (hfits : share.Fits) (hfits' : share'.Fits) :
    share.index = share'.index ↔ share.type = share'.type ∧ share.cut_texts = share'.cut_texts := by
  rw [h.index_eq, h'.index_eq, TableShare.take_id_text_eq_iff, TableShare.take_headed_of_fits hfits,
    TableShare.take_headed_of_fits hfits', TableShare.headed_texts_eq_iff]

/-- Tables with plain definitions share a report only if the definitions are the same. -/
theorem same_of_plain (h : TagTable comment share) (h' : TagTable comment' share')
    (hp : share.Plain) (hp' : share'.Plain) (hindex : share.index = share'.index) :
    share.SameDefinition share' := by
  obtain ⟨htype, hcut⟩ := (h.index_eq_iff h' hp.fits hp'.fits).mp hindex
  have htexts : share.texts = share'.texts := by
    rw [← flatMap_splitOn hp.bars, ← flatMap_splitOn hp'.bars]
    exact hcut
  exact ⟨htype, TableShare.texts_unique h.names h'.names hp hp' htexts⟩

end TagTable

/-! ## Section 3: Comments with other parts -/

/-- A comment with these parameters and conditions, each ended by a comma. -/
def comment_with (name : Bytes) (params : List Bytes) (conds : List (Bytes × Bytes)) : Bytes :=
  name ++ 58 :: (terminated 44 params ++ 58 :: terminated 44 (conds.map TableShare.cond_text))

theorem notMem_terminated {c : UInt8} {ws : List Bytes} (hc : c ≠ 44) (h : ∀ w ∈ ws, c ∉ w) :
    c ∉ terminated 44 ws := by
  intro hmem
  obtain ⟨w, hw, hc'⟩ := List.mem_flatMap.mp hmem
  rcases List.mem_append.mp hc' with hin | hlast
  · exact h w hw hin
  · exact hc (List.mem_singleton.mp hlast)

theorem before_colon_notMem (str : Bytes) : 58 ∉ before_colon str := by
  intro hmem
  have hne := List.mem_takeWhile_imp hmem
  simp at hne

theorem before_colon_comment_with (str : Bytes) (params : List Bytes) (conds : List (Bytes × Bytes)) :
    before_colon (comment_with (before_colon str) params conds) = before_colon str :=
  before_colon_append (before_colon_notMem str) _

/-- The type of a table is in its name. -/
theorem table_type_congr {str str' : Bytes} (h : before_colon str = before_colon str') :
    pinba_get_table_type str = pinba_get_table_type str' := by
  unfold pinba_get_table_type
  rw [h]

/-- The name of the report behind a histogram view. -/
theorem before_colon_fields_text {comment : Bytes}
    (hview : (pinba_get_table_type comment).1 = .histogram_view) :
    before_colon comment = ascii "hv." ++ before_colon (fields_text comment) := by
  rw [fields_text, if_pos hview]
  conv_lhs => rw [take_of_view hview]
  rfl

/-- The comment with other parts keeps the name, with and without `hv.`. -/
theorem fields_text_comment_with (comment : Bytes) (params : List Bytes)
    (conds : List (Bytes × Bytes)) :
    fields_text (comment_with (before_colon comment) params conds) =
      comment_with (before_colon (fields_text comment)) params conds := by
  have htype := table_type_congr (before_colon_comment_with comment params conds)
  by_cases hview : (pinba_get_table_type comment).1 = .histogram_view
  · have hname := before_colon_fields_text hview
    rw [fields_text, htype, if_pos hview, hname]
    rfl
  · rw [fields_text, htype, if_neg hview, fields_text, if_neg hview]

theorem report_type_comment_with (comment : Bytes) (params : List Bytes)
    (conds : List (Bytes × Bytes)) :
    report_type (comment_with (before_colon comment) params conds) = report_type comment := by
  have htype := table_type_congr (before_colon_comment_with comment params conds)
  have hfields := fields_text_comment_with comment params conds
  unfold report_type
  rw [htype]
  by_cases hview : (pinba_get_table_type comment).1 = .histogram_view
  · simp only [if_pos hview]
    unfold fields_text at hfields
    rw [htype, if_pos hview, if_pos hview] at hfields
    rw [hfields, table_type_congr (before_colon_comment_with (comment.drop 3) params conds)]
  · simp only [if_neg hview]

namespace TagTable

variable {comment comment' : Text} {share share' : TableShare} {params : List Bytes}
  {conds : List (Bytes × Bytes)}

theorem type_ne_unknown (h : TagTable comment share) :
    (pinba_get_table_type comment.bytes).1 ≠ .unknown := by
  intro hunknown
  have hshare := h.share_eq
  unfold get_share at hshare
  simp only [if_pos hunknown] at hshare
  cases hshare

theorem is_param_cond_text (hconds : ∀ cond ∈ conds, IsCondition cond) :
    ∀ text ∈ conds.map TableShare.cond_text, IsParam text := by
  intro text htext
  obtain ⟨cond, hcond, rfl⟩ := List.mem_map.mp htext
  exact (hconds cond hcond).text

theorem nul_notMem_comment_with (comment : Text) (hparams : ∀ param ∈ params, IsParam param)
    (hconds : ∀ cond ∈ conds, IsCondition cond) :
    0 ∉ comment_with (before_colon comment.bytes) params conds := by
  simp only [comment_with, List.mem_append, List.mem_cons, not_or]
  exact ⟨fun hc => comment.nul_free (List.takeWhile_subset _ hc), by decide,
    notMem_terminated (by decide) fun w hw => (hparams w hw).nul, by decide,
    notMem_terminated (by decide) fun w hw => (is_param_cond_text hconds w hw).nul⟩

/-- The fields of the new comment are the lists it is made of. -/
theorem fields_comment_with (comment : Bytes) (hparams : ∀ param ∈ params, IsParam param)
    (hconds : ∀ cond ∈ conds, IsCondition cond) :
    Fields (fields_text (comment_with (before_colon comment) params conds))
      (terminated 44 params) (terminated 44 (conds.map TableShare.cond_text)) [] := by
  rw [fields_text_comment_with]
  exact .conds (before_colon_notMem _)
    (notMem_terminated (by decide) fun w hw => (hparams w hw).colon)
    (notMem_terminated (by decide) fun w hw => (is_param_cond_text hconds w hw).colon)

theorem parsable_with_parts (hparams : ∀ param ∈ params, IsParam param)
    (hconds : ∀ cond ∈ conds, IsCondition cond) :
    Parsable (terminated 44 params) (terminated 44 (conds.map TableShare.cond_text)) [] := by
  refine ⟨?_, fun piece hpiece => ?_, ?_⟩
  · rw [pieces_terminated fun w hw => (hparams w hw).comma]
    exact fun hmem => (hparams [] hmem).ne_nil rfl
  · rw [pieces_terminated fun w hw => (is_param_cond_text hconds w hw).comma] at hpiece
    obtain ⟨cond, hcond, rfl⟩ := List.mem_map.mp hpiece
    exact ⟨cond, parse_condition_eq_some.mp (hconds cond hcond).parsed⟩
  · rw [if_neg (by decide)]
    nofun

/-- Whatever the parts are, there is a table of the same name that has them. -/
theorem with_parts (h : TagTable comment share) (hparams : ∀ param ∈ params, IsParam param)
    (hconds : ∀ cond ∈ conds, IsCondition cond) : ∃ comment' share', TagTable comment' share' ∧
      share'.type = share.type ∧ share'.params = params ∧ share'.conds = conds := by
  obtain ⟨_, _, _, -, hknown, -, -, htype, -⟩ := h.parsed
  have hnew : ∃ comment' : Text,
      comment'.bytes = comment_with (before_colon comment.bytes) params conds :=
    ⟨⟨_, nul_notMem_comment_with comment hparams hconds⟩, rfl⟩
  obtain ⟨comment', hbytes⟩ := hnew
  have hsame : pinba_get_table_type comment'.bytes = pinba_get_table_type comment.bytes :=
    hbytes ▸ table_type_congr (before_colon_comment_with comment.bytes params conds)
  have hreport : report_type comment'.bytes = report_type comment.bytes :=
    hbytes ▸ report_type_comment_with comment.bytes params conds
  have htext : fields_text comment'.bytes =
      comment_with (before_colon (fields_text comment.bytes)) params conds :=
    hbytes ▸ fields_text_comment_with comment.bytes params conds
  obtain ⟨haccepted, hread⟩ :=
    parse_params_iff (hbytes ▸ fields_comment_with comment.bytes hparams hconds) false
  -- the comment is accepted
  have hsome := haccepted.mpr ⟨fun hview => by
      rw [htext, table_type_congr (before_colon_comment_with _ params conds)]
      exact hknown (hsame ▸ hview),
    fun hend => by
      rw [htext] at hend
      have hnil := (endsInColon_iff (before_colon_notMem _)).mp hend
      simp at hnil,
    parsable_with_parts hparams hconds⟩
  obtain ⟨⟨n, parsed⟩, hparsed⟩ := Option.isSome_iff_exists.mp hsome
  obtain ⟨hparams', hconds', -⟩ := hread n parsed hparsed
  obtain ⟨htexts, hnames⟩ := map_cond_text hconds'
  obtain ⟨-, htype'⟩ := parse_params_spec rfl hparsed
  have hshare : get_share comment' = some (parsed.opened (pinba_get_table_type comment'.bytes).1
      (pinba_get_table_type comment'.bytes).2) := by
    have hfound : (pinba_get_table_type comment'.bytes).1 ≠ .unknown := hsame ▸ h.type_ne_unknown
    unfold get_share
    simp only [if_neg hfound, hparsed, Option.map_some]
  refine ⟨comment', _, ⟨hshare, hsame ▸ h.kind⟩, htype'.trans (hreport.trans htype.symm), ?_, ?_⟩
  · exact hparams'.trans (pieces_terminated fun w hw => (hparams w hw).comma)
  · rw [pieces_terminated fun w hw => (is_param_cond_text hconds w hw).comma] at htexts
    exact TableShare.conds_unique hnames
      (fun cond hcond => (parse_condition_eq_some.mp (hconds cond hcond).parsed).1.1) htexts

/-! ## Section 4: Unmistakable tables -/

/-- No other table has the index of this one, unless it is defined in the same way. -/
def Unique (share : TableShare) : Prop :=
  ∀ comment' share', TagTable comment' share' → share.index = share'.index →
    share.SameDefinition share'

/-- The buffer does not show other parts in the way it shows those of a unique table. -/
theorem parts_unique (h : TagTable comment share) (hunique : Unique share) (params : List Bytes)
    (conds : List (Bytes × Bytes)) (hparams : ∀ param ∈ params, IsParam param)
    (hconds : ∀ cond ∈ conds, IsCondition cond)
    (hshown : (sprintf_u share.type.value ++
        headed 124 (params ++ conds.map TableShare.cond_text)).take (PINBA_MAX_LINE_LEN - 1) =
      share.id_text.take (PINBA_MAX_LINE_LEN - 1)) :
    share.params = params ∧ share.conds = conds := by
  obtain ⟨comment', share', h', htype, rfl, rfl⟩ := h.with_parts hparams hconds
  have hindex : share.index = share'.index := by
    rw [h.index_eq, h'.index_eq, ← hshown, TableShare.id_text, htype]
    rfl
  exact (hunique comment' share' h' hindex).2

/-- A first condition could be one more parameter. -/
theorem conds_eq_nil (h : TagTable comment share) (hunique : Unique share) : share.conds = [] := by
  cases hcase : share.conds with
  | nil => rfl
  | cons cond conds =>
    have hgood : ∀ c ∈ cond :: conds, IsCondition c := hcase ▸ h.is_condition
    obtain ⟨hfirst, hrest⟩ := List.forall_mem_cons.mp hgood
    have hparams : ∀ param ∈ share.params ++ [TableShare.cond_text cond], IsParam param := by
      intro param hparam
      rcases List.mem_append.mp hparam with hold | hnew
      · exact h.is_param param hold
      · rw [List.mem_singleton.mp hnew]
        exact hfirst.text
    obtain ⟨hsame, -⟩ := h.parts_unique hunique _ conds hparams hrest (by
      rw [TableShare.id_text, TableShare.texts, hcase, List.map_cons, List.append_assoc]
      rfl)
    have hlength := congrArg List.length hsame
    simp at hlength

/-- What does not fit the buffer could have one more condition. -/
theorem length_lt (h : TagTable comment share) (hunique : Unique share) :
    share.id_text.length < PINBA_MAX_LINE_LEN - 1 := by
  by_contra hlong
  have hnew : IsCondition (ascii "x", []) :=
    ⟨⟨by decide, by decide, by decide, by decide⟩, by decide⟩
  have hconds : ∀ cond ∈ share.conds ++ [(ascii "x", [])], IsCondition cond := by
    intro cond hcond
    rcases List.mem_append.mp hcond with hold | hlast
    · exact h.is_condition cond hold
    · rw [List.mem_singleton.mp hlast]
      exact hnew
  obtain ⟨-, hsame⟩ := h.parts_unique hunique share.params _ h.is_param hconds (by
    have hlonger : sprintf_u share.type.value ++ headed 124 (share.params ++
        (share.conds ++ [(ascii "x", [])]).map TableShare.cond_text) =
        share.id_text ++ headed 124 [TableShare.cond_text (ascii "x", [])] := by
      simp only [TableShare.id_text, TableShare.texts, headed, List.map_append, List.flatMap_append,
        List.append_assoc, List.map_cons, List.map_nil]
    rw [hlonger]
    exact List.take_append_of_le_length (Nat.le_of_not_lt hlong))
  have hlength := congrArg List.length hsame
  simp at hlength

/-- Two parameters could be one with a bar, a single one could be two or a condition. -/
theorem params_cases (h : TagTable comment share) (hunique : Unique share) :
    share.params = [] ∨ ∃ param, share.params = [param] ∧ parse_condition param = none ∧
      NoInnerBar param := by
  have hnone := h.conds_eq_nil hunique
  have hnew := h.parts_unique hunique
  have hgood := h.is_param
  rw [TableShare.id_text, TableShare.texts, hnone, List.map_nil, List.append_nil] at hnew
  match hcase : share.params with
  | [] => exact .inl rfl
  | [param] =>
    rw [hcase] at hnew hgood
    have hparam := hgood param (List.mem_singleton.mpr rfl)
    refine .inr ⟨param, rfl, ?_, fun a b hbar => ?_⟩
    · -- read as a condition
      by_contra hsome
      obtain ⟨cond, hcond⟩ := Option.ne_none_iff_exists'.mp hsome
      have htext : TableShare.cond_text cond = param := (parse_condition_eq_some.mp hcond).1.2.symm
      obtain ⟨hsame, -⟩ := hnew [] [cond] nofun
        (List.forall_mem_singleton.mpr ⟨htext ▸ hparam, htext ▸ hcond⟩) (by
          rw [List.map_singleton, htext, List.nil_append])
      cases hsame
    · -- cut in two at the bar
      by_contra hinner
      obtain ⟨ha, hb⟩ := not_or.mp hinner
      obtain ⟨hleft, hright⟩ := (isParam_bar ha hb).mp (hbar ▸ hparam)
      obtain ⟨hsame, -⟩ := hnew [a, b] [] (by simp [hleft, hright]) nofun (by simp [hbar])
      cases hsame
  | param :: param' :: params =>
    -- joined by a bar
    rw [hcase] at hnew hgood
    obtain ⟨hfirst, hsecond, hrest⟩ :=
      (List.forall_mem_cons.mp hgood).imp_right List.forall_mem_cons.mp
    have hjoined := (isParam_bar hfirst.ne_nil hsecond.ne_nil).mpr ⟨hfirst, hsecond⟩
    obtain ⟨hsame, -⟩ := hnew ((param ++ 124 :: param') :: params) []
      (List.forall_mem_cons.mpr ⟨hjoined, hrest⟩) nofun (by simp)
    have hlength := congrArg List.length hsame
    simp at hlength

theorem unmistakable_of_unique (h : TagTable comment share) (hunique : Unique share) :
    share.Unmistakable :=
  ⟨h.conds_eq_nil hunique, h.length_lt hunique, h.params_cases hunique⟩

theorem texts_ne_nil (h : TagTable comment share) : ∀ text ∈ share.texts, text ≠ [] := by
  intro text htext
  rcases List.mem_append.mp htext with hparam | hcond
  · exact (h.is_param text hparam).ne_nil
  · exact (is_param_cond_text h.is_condition text hcond).ne_nil

/-- A text without a bar inside is a single one. -/
theorem eq_singleton_of_noInnerBar {text : Bytes} {texts : List Bytes} (hbar : NoInnerBar text)
    (hne : ∀ t ∈ texts, t ≠ []) (h : headed 124 [text] = headed 124 texts) : texts = [text] := by
  rw [headed_cons, headed_nil, List.append_nil] at h
  match texts with
  | [] => cases h
  | [t] =>
    rw [headed_cons, headed_nil, List.append_nil, List.cons.injEq] at h
    rw [h.2]
  | t :: t' :: texts =>
    rw [headed_cons, headed_cons, List.cons.injEq] at h
    obtain ⟨ht, ht', -⟩ := List.forall_mem_cons.mp hne |>.imp_right List.forall_mem_cons.mp
    rcases hbar _ _ h.2 with hleft | hright
    · exact absurd hleft ht
    · exact absurd (List.append_eq_nil_iff.mp hright).1 ht'

/-- Only one list of parts is shown like no parameter, or like a parameter without a bar inside. -/
theorem unique_of_unmistakable (h : TagTable comment share) (hu : share.Unmistakable) :
    Unique share := by
  intro comment' share' h' hindex
  rw [h.index_eq, h'.index_eq, List.take_of_length_le hu.short.le] at hindex
  -- the other text fits too, as the index is shorter than the buffer
  have hwhole : share.id_text = share'.id_text := by
    rw [hindex, List.take_eq_self_iff]
    have hlength := congrArg List.length hindex
    have hshort := hu.short
    rw [List.length_take] at hlength
    omega
  have hfits : share.Fits := hu.short.le
  have hfits' : share'.Fits := by
    rw [TableShare.Fits, ← hwhole]
    exact hfits
  have hsame : share.index = share'.index := by rw [h.index_eq, h'.index_eq, hwhole]
  obtain ⟨htype, hcut⟩ := (h.index_eq_iff h' hfits hfits').mp hsame
  have htexts := TableShare.headed_texts_eq_iff.mpr hcut
  rw [TableShare.texts, hu.conds, List.map_nil, List.append_nil] at htexts
  rw [TableShare.SameDefinition, hu.conds]
  rcases hu.params with hnone | ⟨param, hone, hcond, hbar⟩
  · -- nothing behind the number
    rw [hnone, headed_nil] at htexts
    have hempty : share'.texts = [] := by
      cases hcase : share'.texts with
      | nil => rfl
      | cons text texts =>
        rw [hcase, headed_cons] at htexts
        cases htexts
    obtain ⟨hparams, hconds⟩ := List.append_eq_nil_iff.mp hempty
    exact ⟨htype, hnone.trans hparams.symm, (List.map_eq_nil_iff.mp hconds).symm⟩
  · -- one text behind the number, which is one parameter or one condition
    rw [hone] at htexts ⊢
    rcases List.append_eq_singleton_iff.mp (eq_singleton_of_noInnerBar hbar h'.texts_ne_nil htexts)
      with ⟨-, hconds⟩ | ⟨hparams, hconds⟩
    · -- the text is not a condition
      obtain ⟨cond, hlist, htext⟩ := List.map_eq_singleton_iff.mp hconds
      have hread := (h'.is_condition cond (hlist ▸ List.mem_singleton.mpr rfl)).parsed
      rw [htext, hcond] at hread
      cases hread
    · exact ⟨htype, hparams.symm, (List.map_eq_nil_iff.mp hconds).symm⟩

end TagTable

/-- A tag table shares its index with no table of another definition exactly if it is
    unmistakable. Two tables that fit the buffer are kept apart exactly if their types or their
    parameters and conditions, cut at every bar, differ or they are defined in the same way;
    without bars, and without equal signs in parameters, that is always so. -/
theorem report_id_injective_iff {comment : Text} {share : TableShare} (h : TagTable comment share) :
    ((∀ comment' share', TagTable comment' share' → share.index = share'.index →
      share.SameDefinition share') ↔ share.Unmistakable) ∧
    ∀ comment' share', TagTable comment' share' →
      (share.Fits → share'.Fits → ((share.index = share'.index → share.SameDefinition share') ↔
        share.type ≠ share'.type ∨ share.cut_texts ≠ share'.cut_texts ∨
          share.SameDefinition share')) ∧
      (share.Plain → share'.Plain → share.index = share'.index → share.SameDefinition share') := by
  refine ⟨⟨h.unmistakable_of_unique, h.unique_of_unmistakable⟩, fun comment' share' h' => ⟨?_, ?_⟩⟩
  · intro hfits hfits'
    rw [h.index_eq_iff h' hfits hfits']
    tauto
  · exact h.same_of_plain h'

/-- A table of one tag is unmistakable; one of two tags is told apart from another one. -/
theorem report_id_one_tag :
    let share : TableShare := ⟨.tag_report .tag_info, .unknown, .tag, [ascii "group"], [], [],
      ascii "27|group"⟩
    let two : TableShare := ⟨.tag_report .tag2_info, .unknown, .tag, [ascii "group", ascii "server"], [],
      [], ascii "28|group|server"⟩
    let two' : TableShare := ⟨.tag_report .tag2_info, .unknown, .tag, [ascii "group", ascii "script"],
      [], [], ascii "28|group|script"⟩
    get_share ⟨ascii "tag_info:group", by decide⟩ = some share ∧
      get_share ⟨ascii "tag2_info:group,server", by decide⟩ = some two ∧
      get_share ⟨ascii "tag2_info:group,script", by decide⟩ = some two' ∧
      (∀ comment' share', TagTable comment' share' → share.index = share'.index →
        share.SameDefinition share') ∧
      (two.index = two'.index → two.SameDefinition two') := by
  intro share two two'
  have h : TagTable ⟨ascii "tag_info:group", by decide⟩ share := ⟨by decide, by decide⟩
  have htwo : TagTable ⟨ascii "tag2_info:group,server", by decide⟩ two := ⟨by decide, by decide⟩
  have htwo' : TagTable ⟨ascii "tag2_info:group,script", by decide⟩ two' := ⟨by decide, by decide⟩
  have hbar : NoInnerBar (ascii "group") := by
    intro a b hsplit
    have hmem : (124 : UInt8) ∈ ascii "group" := hsplit ▸ List.mem_append_right a List.mem_cons_self
    exact absurd hmem (by decide)
  have hu : share.Unmistakable := ⟨rfl, by decide, .inr ⟨_, rfl, by decide, hbar⟩⟩
  have hfits : two.Fits := by
    unfold TableShare.Fits
    decide
  have hfits' : two'.Fits := by
    unfold TableShare.Fits
    decide
  refine ⟨h.share_eq, htwo.share_eq, htwo'.share_eq, (report_id_injective_iff h).1.mpr hu, ?_⟩
  exact (((report_id_injective_iff htwo).2 _ _ htwo').1 hfits hfits').mpr (.inr (.inl (by decide)))

/-- A tag with a bar shares the report of two tags, and a tag with an equal sign that of a
    condition. -/
theorem report_ids_collide :
    let bar : TableShare := ⟨.tag_report .tagN_info, .unknown, .tag, [ascii "a|b"], [], [],
      ascii "29|a|b"⟩
    let comma : TableShare := ⟨.tag_report .tagN_info, .unknown, .tag, [ascii "a", ascii "b"], [], [],
      ascii "29|a|b"⟩
    let equal : TableShare := ⟨.tag_report .tagN_info, .unknown, .tag, [ascii "a", ascii "b=c"], [], [],
      ascii "29|a|b=c"⟩
    let cond : TableShare := ⟨.tag_report .tagN_info, .unknown, .tag, [ascii "a"],
      [(ascii "b", ascii "c")], [], ascii "29|a|b=c"⟩
    TagTable ⟨ascii "tagN_info:a|b", by decide⟩ bar ∧
      TagTable ⟨ascii "tagN_info:a,b", by decide⟩ comma ∧
      bar.index = comma.index ∧ ¬ bar.SameDefinition comma ∧
    TagTable ⟨ascii "tagN_info:a,b=c", by decide⟩ equal ∧
      TagTable ⟨ascii "tagN_info:a:b=c", by decide⟩ cond ∧
      equal.index = cond.index ∧ ¬ equal.SameDefinition cond := by
  intro bar comma equal cond
  refine ⟨⟨by decide, by decide⟩, ⟨by decide, by decide⟩, rfl, ?_, ⟨by decide, by decide⟩,
    ⟨by decide, by decide⟩, rfl, ?_⟩
  · rintro ⟨-, hparams, -⟩
    exact absurd hparams (by decide)
  · rintro ⟨-, hparams, -⟩
    exact absurd hparams (by decide)

end PinbaEngine
