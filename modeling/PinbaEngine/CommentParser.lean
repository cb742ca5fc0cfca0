import PinbaEngine.Lib.CBuffer
import PinbaEngine.Lib.PieceLoop
import PinbaEngine.TableComment

/-! # Parsing a comment in place

    `pinba_parse_params` works on a copy of the comment: it cuts the copy at the first three
    colons, and at the commas between percentiles, and moves cursors through the parts.
    Without a share to fill it only checks the comment.

    The parser is modelled here with its buffer and its cursors. It does what the
    parser of texts in `TableComment` does (`parse_fields_eq`), where the parts of a comment
    are the pieces of its fields.
-/

namespace PinbaEngine

open Delimited CBuffer Checked

/-! ## Section 1: The parser -/

/-! The share is null if there is none to fill. -/

def add_param (share : Option TableShare) (param : Bytes) : Option TableShare :=
  share.map fun s => { s with params := s.params ++ [param] }

def add_cond (share : Option TableShare) (cond : Bytes × Bytes) : Option TableShare :=
  share.map fun s => { s with conds := s.conds ++ [cond] }

def add_percentile (share : Option TableShare) (percentile : Percentile) : Option TableShare :=
  share.map fun s => { s with percentiles := s.percentiles ++ [percentile] }

structure ParamLoop where
  p : Nat
  comma : Nat
  num : Nat
  share : Option TableShare

/-- One parameter that ends in a comma. -/
def param_turn (buf : Bytes) (stop : Nat) (l : ParamLoop) : ParamLoop ⊕ Except Unit ParamLoop :=
  if 0 < l.comma - l.p then
    let share := add_param l.share (strndup buf l.p (l.comma - l.p))
    let p := l.comma + 1
    if p < stop then
      match strchr buf p 44 with
      | some comma => .inl ⟨p, comma, l.num + 1, share⟩
      | none => .inr (.ok ⟨p, l.comma, l.num + 1, share⟩)
    else .inr (.ok ⟨p, l.comma, l.num + 1, share⟩)
  else .inr (.error ())

/-- The parameters between `colon[0]` and `stop`. -/
def parse_param_field (buf : Bytes) (colon0 stop len : Nat) (share : Option TableShare) :
    Checked Unit (Nat × Option TableShare) :=
  match strchr buf colon0 44 with
  | none =>
    let param := strdup buf colon0
    if 0 < param.length then return (1, add_param share param) else return (0, share)
  | some comma => do
    let l ← loop (param_turn buf stop) (len + 1) ⟨colon0, comma, 0, share⟩
    -- what follows the last comma is only counted if there is a share
    if share.isSome ∧ l.p < stop then return (l.num + 1, add_param l.share (strdup buf l.p))
    else return (l.num, l.share)

structure CondLoop where
  p : Nat
  comma : Option Nat
  share : Option TableShare

/-- One condition. -/
def cond_turn (buf : Bytes) (stop : Nat) (l : CondLoop) : CondLoop ⊕ Except Unit (Option TableShare) :=
  let behind := l.comma.getD stop
  match strchr buf l.p 61 with
  | none => .inr (.error ())
  | some equal =>
    if behind ≤ equal then .inr (.error ())
    else if view buf l.p (equal - l.p) = ascii "histogram_max_time" ∧
        !pinba_parse_histogram_max (view buf (equal + 1) (behind - equal - 1)) then .inr (.error ())
    else
      let share := add_cond l.share
        (strndup buf l.p (equal - l.p), strndup buf (equal + 1) (behind - equal - 1))
      let p := l.comma.elim stop (· + 1)
      if p < stop then .inl ⟨p, strchr buf p 44, share⟩ else .inr (.ok share)

/-- The conditions from `p` to `stop`. -/
def parse_cond_field (buf : Bytes) (p stop len : Nat) (share : Option TableShare) :
    Checked Unit (Option TableShare) :=
  if p < stop then loop (cond_turn buf stop) (len + 1) ⟨p, strchr buf p 44, share⟩
  else return share

structure PercentileLoop where
  str_copy : Bytes
  p : Nat
  comma : Option Nat
  share : Option TableShare

/-- One percentile. -/
def percentile_turn (fractional : Bool) (stop : Nat) (l : PercentileLoop) :
    PercentileLoop ⊕ Except Unit (Option TableShare) :=
  let str_copy := l.comma.elim l.str_copy (cut l.str_copy)
  let text := strdup str_copy l.p
  let percentile :=
    if fractional then
      if l.comma.map (· + 1) = some stop then none else pinba_parse_fractional_percentile text
    else parse_legacy_percentile text
  match percentile with
  | none => .inr (.error ())
  | some percentile =>
    let share := add_percentile l.share percentile
    let p := l.comma.elim stop (· + 1)
    if p < stop then .inl ⟨str_copy, p, strchr str_copy p 44, share⟩ else .inr (.ok share)

/-- The percentiles from `p` to `stop`. -/
def parse_percentile_field (buf : Bytes) (p stop len : Nat) (share : Option TableShare) :
    Checked Unit (Option TableShare) := do
  let fractional := view buf p 2 = ascii "p="
  let p := if fractional then p + 2 else p
  if fractional ∧ p = stop then throw ()
  if p < stop then
    loop (percentile_turn fractional stop) (len + 1) ⟨buf, p, strchr buf p 44, share⟩
  else return share

/-- `pinba_parse_params` on its copy of the comment. -/
def parse_fields (str : Bytes) (share : Option TableShare) : Checked Unit (Nat × Option TableShare) := do
  let len := str.length
  let str_copy := str ++ [0]
  match strchr str_copy 0 58 with
  | none => return (0, share)
  | some colon0 =>
    let colon0 := colon0 + 1
    -- colon was the last character
    if str_copy[colon0]? = some 0 then throw ()
    let colon1 := strchr str_copy colon0 58
    let str_copy := colon1.elim str_copy (cut str_copy)
    let (num, share) ← parse_param_field str_copy colon0 (colon1.getD len) len share
    match colon1 with
    | none => return (num, share)
    | some colon1 =>
      let colon2 := strchr str_copy (colon1 + 1) 58
      let str_copy := colon2.elim str_copy (cut str_copy)
      let share ← parse_cond_field str_copy (colon1 + 1) (colon2.getD len) len share
      match colon2 with
      | none => return (num, share)
      | some colon2 =>
        let share ← parse_percentile_field str_copy (colon2 + 1) len len share
        return (num, share)

/-- `pinba_parse_params`; a throw is a negative result. -/
def parse_comment (comment : Bytes) (type : TableType) (share : Option TableShare) :
    Checked Unit (Nat × Option TableShare) :=
  if type = .histogram_view then
    let str := comment.drop 3
    let (tmp_hv_type, report_kind) := pinba_get_table_type str
    if tmp_hv_type = .unknown then throw ()
    else parse_fields str (share.map fun s => { s with hv_table_type := tmp_hv_type, report_kind })
  else
    let (_, report_kind) := pinba_get_table_type comment
    parse_fields comment (share.map fun s => { s with report_kind })

/-! ## Section 2: Parameters -/

section fields
variable {buf text w rest : Bytes} {p stop num len : Nat} {share : Option TableShare}

def add_params (share : Option TableShare) (params : List Bytes) : Option TableShare :=
  share.map fun s => { s with params := s.params ++ params }

theorem add_params_nil : add_params share [] = share := by
  cases share with
  | none => rfl
  | some s => simp [add_params]

theorem add_params_cons (param : Bytes) (params : List Bytes) :
    add_params (add_param share param) params = add_params share (param :: params) := by
  cases share with
  | none => rfl
  | some s => simp [add_params, add_param]

/-- The number that is returned for a parameter field with a comma: without a share only
    the commas are counted. -/
def counted (given : Bool) (text : Bytes) : Nat :=
  if given then (pieces 44 text).length else text.count 44

/-- What follows the loop over the parameters. -/
def last_param (buf : Bytes) (stop : Nat) (given : Bool) (l : ParamLoop) : Nat × Option TableShare :=
  if given ∧ l.p < stop then (l.num + 1, add_param l.share (strdup buf l.p)) else (l.num, l.share)

theorem param_turn_cons (hne : w ≠ []) (h : Shows buf p (w ++ 44 :: rest)) :
    param_turn buf stop ⟨p, p + w.length, num, share⟩ =
      if p + w.length + 1 < stop then
        match strchr buf (p + w.length + 1) 44 with
        | some comma => .inl ⟨p + w.length + 1, comma, num + 1, add_param share w⟩
        | none => .inr (.ok ⟨p + w.length + 1, p + w.length, num + 1, add_param share w⟩)
      else .inr (.ok ⟨p + w.length + 1, p + w.length, num + 1, add_param share w⟩) := by
  have hlength : 0 < p + w.length - p := by
    rw [Nat.add_sub_cancel_left]
    exact List.length_pos_iff.mpr hne
  rw [param_turn, if_pos hlength]
  simp only [Nat.add_sub_cancel_left, strndup_of_shows h]

theorem counted_cons (given : Bool) (hw : 44 ∉ w) (rest : Bytes) :
    counted given (w ++ 44 :: rest) = counted given rest + 1 := by
  cases given with
  | true => simp [counted, pieces_append_sep hw]
  | false => simp [counted, List.count_eq_zero_of_not_mem hw]

/-- The loop over the parameters, from a first piece that ends in a comma. -/
theorem param_loop (rest : Bytes) (given : Bool) (hw : 44 ∉ w) (h : Shows buf p (w ++ 44 :: rest))
    (hstop : stop = p + (w ++ 44 :: rest).length) {n : Nat} (hn : rest.length < n)
    (hgiven : share.isSome = given) :
    ∃ r, turns (param_turn buf stop) n ⟨p, p + w.length, num, share⟩ = some r ∧
      r.map (last_param buf stop given) = if [] ∈ pieces 44 (w ++ 44 :: rest) then .error ()
        else .ok (num + counted given (w ++ 44 :: rest), add_params share (pieces 44 (w ++ 44 :: rest))) := by
  -- induction on the pieces that follow
  induction rest using pieces_induction (44 : UInt8) generalizing w p num share n with
  | last rest hrest =>
    obtain ⟨n, rfl⟩ : ∃ k, n = k + 1 := ⟨n - 1, by omega⟩
    rw [pieces_append_sep hw, counted_cons given hw]
    by_cases hne : w = []
    · subst hne
      refine ⟨.error (), turns_of_inr ?_ n, ?_⟩
      · simp [param_turn]
      · rw [if_pos List.mem_cons_self]
        rfl
    have hturn := @param_turn_cons buf w rest p stop num share hne h
    have hbehind := shows_skip h
    rw [List.length_append, List.length_cons] at hstop
    by_cases hnil : rest = []
    · subst hnil
      rw [if_neg (by simp at hstop; omega)] at hturn
      refine ⟨_, turns_of_inr hturn n, ?_⟩
      have hlast : ¬ (given = true ∧ p + w.length + 1 < stop) := by simp at hstop; omega
      rw [if_neg (by simpa using Ne.symm hne)]
      simp only [Except.map, last_param, if_neg hlast]
      cases given with
      | true => simp [counted, add_params, add_param]
      | false => simp [counted, add_params, add_param]
    · have hpos : 0 < rest.length := List.length_pos_iff.mpr hnil
      rw [if_pos (by omega), strchr_of_notMem hbehind hrest (by decide)] at hturn
      refine ⟨_, turns_of_inr hturn n, ?_⟩
      rw [pieces_of_notMem hrest hnil, if_neg (by simp [Ne.symm hne, Ne.symm hnil])]
      simp only [Except.map, last_param]
      cases given with
      | true =>
        rw [if_pos ⟨rfl, by omega⟩, strdup_of_shows hbehind, ← add_params_cons]
        simp only [counted, if_true, pieces_of_notMem hrest hnil]
        rfl
      | false =>
        obtain rfl : share = none := by simpa using hgiven
        rw [if_neg (by simp)]
        simp [counted, List.count_eq_zero_of_not_mem hrest, add_params, add_param]
  | next w' rest hw' ih =>
    obtain ⟨n, rfl⟩ : ∃ k, n = k + 1 := ⟨n - 1, by omega⟩
    rw [pieces_append_sep hw, counted_cons given hw]
    by_cases hne : w = []
    · subst hne
      refine ⟨.error (), turns_of_inr ?_ n, ?_⟩
      · simp [param_turn]
      · rw [if_pos List.mem_cons_self]
        rfl
    have hturn := @param_turn_cons buf w (w' ++ 44 :: rest) p stop num share hne h
    have hbehind := shows_skip h
    rw [List.length_append, List.length_cons] at hstop
    have hpos : 0 < (w' ++ 44 :: rest).length := by simp
    rw [if_pos (by omega), strchr_of_shows_cons hbehind hw'] at hturn
    obtain ⟨r, hr, hmap⟩ := @ih w' (p + w.length + 1) (num + 1) (add_param share w) hw' hbehind
      (by omega) n (by rw [List.length_append, List.length_cons] at hn; omega)
      (by rw [add_param, Option.isSome_map]; exact hgiven)
    refine ⟨r, ?_, ?_⟩
    · rw [turns, hturn]
      exact hr
    · rw [hmap, add_params_cons]
      simp only [List.mem_cons, Ne.symm hne, false_or]
      rw [Nat.add_assoc num 1, Nat.add_comm 1]

/-- The parameter field: its pieces are the parameters, unless one of them is empty. -/
theorem parse_param_field_eq (h : Shows buf p text) (hstop : stop = p + text.length)
    (hlen : text.length ≤ len) :
    parse_param_field buf p stop len share = settle (if [] ∈ pieces 44 text then none
      else some (if 44 ∈ text then counted share.isSome text else (pieces 44 text).length,
        add_params share (pieces 44 text))) := by
  unfold parse_param_field
  rcases cut_at_first (44 : UInt8) text with hcomma | ⟨w, rest, hw, rfl⟩
  -- one parameter, or none at all
  · rw [strchr_of_notMem h hcomma (by decide), if_neg hcomma]
    simp only [strdup_of_shows h]
    by_cases hnil : text = []
    · subst hnil
      rw [if_neg (by simp), pieces_nil, if_neg List.not_mem_nil, add_params_nil]
      rfl
    · rw [if_pos (List.length_pos_iff.mpr hnil), pieces_of_notMem hcomma hnil,
        if_neg (by simpa using Ne.symm hnil)]
      rfl
  -- the loop, and what it leaves for behind it
  · have hmem : (44 : UInt8) ∈ w ++ 44 :: rest := List.mem_append_right w List.mem_cons_self
    rw [strchr_of_shows_cons h hw, if_pos hmem]
    have hn : rest.length < len + 1 := by
      rw [List.length_append, List.length_cons] at hlen
      omega
    obtain ⟨r, hr, hmap⟩ := @param_loop buf w p stop 0 share rest share.isSome hw h hstop _ hn rfl
    have hfield : (do
        let l ← loop (param_turn buf stop) (len + 1) ⟨p, p + w.length, 0, share⟩
        if share.isSome ∧ l.p < stop then return (l.num + 1, add_param l.share (strdup buf l.p))
        else return (l.num, l.share)) =
        (ExceptT.mk (some (r.map (last_param buf stop share.isSome))) :
          Checked Unit (Nat × Option TableShare)) := by
      have hloop : loop (param_turn buf stop) (len + 1) ⟨p, p + w.length, 0, share⟩ =
        ExceptT.mk (some r) := congrArg ExceptT.mk hr
      rw [hloop]
      cases r with
      | error e => rfl
      | ok l =>
        show (if share.isSome ∧ l.p < stop then _ else _) =
          ExceptT.mk (some (.ok (last_param buf stop share.isSome l)))
        unfold last_param
        split <;> rfl
    simp only
    rw [hfield, hmap]
    split
    · rfl
    · rw [Nat.zero_add]
      rfl

end fields

/-! ## Section 3: Conditions -/

section fields
variable {buf text w rest : Bytes} {p stop num len : Nat} {share : Option TableShare}

theorem ne_of_notMem {c : UInt8} {w : Bytes} (h : c ∉ w) : ∀ x ∈ w, decide (x ≠ c) = true := by
  intro x hx
  simpa using fun hxc : x = c => h (hxc ▸ hx)

theorem dropWhile_append_cons {c : UInt8} (h : c ∉ w) (rest : Bytes) :
    (w ++ c :: rest).dropWhile (· ≠ c) = c :: rest := by
  rw [List.dropWhile_append_of_pos (ne_of_notMem h), List.dropWhile_cons_of_neg (by simp)]

theorem takeWhile_append_cons {c : UInt8} (h : c ∉ w) (rest : Bytes) :
    (w ++ c :: rest).takeWhile (· ≠ c) = w := by
  rw [List.takeWhile_append_of_pos (ne_of_notMem h), List.takeWhile_cons_of_neg (by simp), List.append_nil]

theorem dropWhile_of_notMem {c : UInt8} (h : c ∉ w) : w.dropWhile (· ≠ c) = [] :=
  List.dropWhile_eq_nil_iff.mpr (ne_of_notMem h)

theorem takeWhile_of_notMem {c : UInt8} (h : c ∉ w) : w.takeWhile (· ≠ c) = w :=
  List.takeWhile_eq_self_iff.mpr (ne_of_notMem h)

theorem parse_condition_of_notMem (h : 61 ∉ w) : parse_condition w = none := by
  rw [parse_condition, dropWhile_of_notMem h]

theorem parse_condition_cons (h : 61 ∉ w) (value : Bytes) : parse_condition (w ++ 61 :: value) =
    if w = ascii "histogram_max_time" ∧ !pinba_parse_histogram_max value then none
    else some (w, value) := by
  rw [parse_condition, dropWhile_append_cons h, takeWhile_append_cons h]

/-- One turn reads one piece, whatever is behind it. -/
theorem cond_turn_eq {comma : Option Nat} (h : Shows buf p (w ++ rest))
    (hbehind : comma.getD stop = p + w.length) :
    cond_turn buf stop ⟨p, comma, share⟩ = match parse_condition w with
      | none => .inr (.error ())
      | some cond =>
        if comma.elim stop (· + 1) < stop then
          .inl ⟨comma.elim stop (· + 1), strchr buf (comma.elim stop (· + 1)) 44, add_cond share cond⟩
        else .inr (.ok (add_cond share cond)) := by
  unfold cond_turn
  simp only [hbehind]
  rcases cut_at_first (61 : UInt8) w with hequal | ⟨name, value, hname, rfl⟩
  · -- the next equal sign is behind the piece, if there is one
    rw [parse_condition_of_notMem hequal]
    rcases cut_at_first (61 : UInt8) rest with hrest | ⟨v, rest, hv, rfl⟩
    · have hnone : 61 ∉ w ++ rest := fun hmem => (List.mem_append.mp hmem).elim hequal hrest
      rw [strchr_of_notMem h hnone (by decide)]
    · rw [← List.append_assoc] at h
      have hnone : 61 ∉ w ++ v := fun hmem => (List.mem_append.mp hmem).elim hequal hv
      rw [strchr_of_shows_cons h hnone]
      simp only
      rw [if_pos (by rw [List.length_append]; omega)]
  · rw [parse_condition_cons hname]
    have hpiece : Shows buf p (name ++ 61 :: (value ++ rest)) := by
      rw [← List.cons_append, ← List.append_assoc]
      exact h
    have hvalue := shows_skip hpiece
    have hlength : p + (name ++ 61 :: value).length - (p + name.length) - 1 = value.length := by
      rw [List.length_append, List.length_cons]
      omega
    rw [strchr_of_shows_cons hpiece hname]
    simp only
    rw [if_neg (by rw [List.length_append, List.length_cons]; omega), hlength, Nat.add_sub_cancel_left,
      view_of_shows hpiece, view_of_shows hvalue, strndup_of_shows hpiece, strndup_of_shows hvalue]
    by_cases hrange : name = ascii "histogram_max_time" ∧ !pinba_parse_histogram_max value
    · rw [if_pos hrange, if_pos hrange]
    · rw [if_neg hrange, if_neg hrange]

def add_conds (share : Option TableShare) (conds : List (Bytes × Bytes)) : Option TableShare :=
  share.map fun s => { s with conds := s.conds ++ conds }

theorem add_conds_nil : add_conds share [] = share := by
  cases share with
  | none => rfl
  | some s => simp [add_conds]

theorem add_conds_cons (cond : Bytes × Bytes) (conds : List (Bytes × Bytes)) :
    add_conds (add_cond share cond) conds = add_conds share (cond :: conds) := by
  cases share with
  | none => rfl
  | some s => simp [add_conds, add_cond]

theorem foldl_add_cond (conds : List (Bytes × Bytes)) :
    conds.foldl add_cond share = add_conds share conds := by
  induction conds generalizing share with
  | nil => exact add_conds_nil.symm
  | cons cond conds ih => rw [List.foldl_cons, ih, add_conds_cons]

/-- The loop is at the conditions of a text. -/
structure AtConds (buf : Bytes) (stop : Nat) (text : Bytes) (share : Option TableShare) (l : CondLoop) :
    Prop where
  share : l.share = share
  comma : l.comma = strchr buf l.p 44
  shows : Shows buf l.p text
  stop : stop = l.p + text.length

theorem cond_turn_last {l : CondLoop} (hw : 44 ∉ w) (hat : AtConds buf stop w share l) :
    cond_turn buf stop l =
      .inr ((parse_condition w).elim (.error ()) fun cond => .ok (add_cond share cond)) := by
  obtain ⟨p, comma, share'⟩ := l
  obtain ⟨hshare, hcomma, hshows, hstop⟩ := hat
  simp only at hshare hcomma hshows hstop
  subst hshare hcomma
  rw [strchr_of_notMem hshows hw (by decide)]
  rw [← List.append_nil w] at hshows
  have hnone : (none : Option Nat).getD stop = p + w.length := hstop
  rw [cond_turn_eq hshows hnone]
  cases parse_condition w with
  | none => rfl
  | some cond => exact if_neg (lt_irrefl stop)

theorem cond_turn_next {l : CondLoop} (hw : 44 ∉ w) (hat : AtConds buf stop (w ++ 44 :: rest) share l) :
    cond_turn buf stop l = match parse_condition w with
      | none => .inr (.error ())
      | some cond =>
        if rest ≠ [] then
          .inl ⟨l.p + w.length + 1, strchr buf (l.p + w.length + 1) 44, add_cond share cond⟩
        else .inr (.ok (add_cond share cond)) := by
  obtain ⟨p, comma, share'⟩ := l
  obtain ⟨hshare, hcomma, hshows, hstop⟩ := hat
  simp only at hshare hcomma hshows hstop
  subst hshare hcomma
  rw [strchr_of_shows_cons hshows hw, cond_turn_eq hshows rfl]
  have hbehind : p + w.length + 1 < stop ↔ rest ≠ [] := by
    rw [hstop, List.length_append, List.length_cons, ← List.length_pos_iff]
    omega
  simp only [Option.elim_some, hbehind]

/-- The condition field: its pieces are the conditions. -/
theorem parse_cond_field_eq (h : Shows buf p text) (hstop : stop = p + text.length)
    (hlen : text.length ≤ len) :
    parse_cond_field buf p stop len share =
      settle (((pieces 44 text).mapM parse_condition).map (add_conds share)) := by
  unfold parse_cond_field
  by_cases hnil : text = []
  · subst hnil
    rw [if_neg (by simp [hstop])]
    exact congrArg (fun s => settle (some s)) add_conds_nil.symm
  · rw [if_pos (by have := List.length_pos_iff.mpr hnil; omega)]
    have hloop : turns (cond_turn buf stop) (len + 1) ⟨p, strchr buf p 44, share⟩ =
        some ((read_pieces 44 false parse_condition text).elim (.error ()) fun conds =>
          .ok (conds.foldl add_cond share)) := by
      refine pieces_loop (AtConds buf stop) ?_ ?_ ?_ ⟨rfl, rfl, h, hstop⟩ hnil (by omega)
      · exact fun w share l hw _ hat => cond_turn_last hw hat
      · intro w share l hw hat
        rw [cond_turn_next hw hat]
        cases parse_condition w <;> rfl
      · intro w rest share l hw hrest hat
        have hturn := cond_turn_next hw hat
        cases hcond : parse_condition w with
        | none => exact .inl ⟨rfl, by rw [hturn, hcond]⟩
        | some cond =>
          refine .inr ⟨cond, _, rfl, by rw [hturn, hcond]; exact if_pos hrest, rfl, rfl, ?_, ?_⟩
          · exact shows_skip hat.shows
          · have hstop := hat.stop
            rw [List.length_append, List.length_cons] at hstop
            simp only
            omega
    rw [loop, hloop, read_pieces, if_neg (by simp)]
    cases (pieces 44 text).mapM parse_condition with
    | none => rfl
    | some conds => simp only [Option.elim_some, foldl_add_cond]; rfl

/-! ## Section 4: Percentiles -/

/-- The percentile of a piece. -/
def read_percentile (fractional : Bool) (text : Bytes) : Option Percentile :=
  if fractional then pinba_parse_fractional_percentile text else parse_legacy_percentile text

/-- The loop is at the percentiles of a text. -/
structure AtPercentiles (stop : Nat) (text : Bytes) (share : Option TableShare) (l : PercentileLoop) :
    Prop where
  share : l.share = share
  comma : l.comma = strchr l.str_copy l.p 44
  shows : Shows l.str_copy l.p text
  stop : stop = l.p + text.length

theorem percentile_turn_last {l : PercentileLoop} {fractional : Bool} (hw : 44 ∉ w)
    (hat : AtPercentiles stop w share l) :
    percentile_turn fractional stop l = .inr ((read_percentile fractional w).elim (.error ())
      fun percentile => .ok (add_percentile share percentile)) := by
  obtain ⟨buf, p, comma, share'⟩ := l
  obtain ⟨hshare, hcomma, hshows, hstop⟩ := hat
  simp only at hshare hcomma hshows hstop
  subst hshare hcomma
  rw [strchr_of_notMem hshows hw (by decide)]
  simp only [percentile_turn, Option.elim_none, Option.map_none, reduceCtorEq, if_false,
    strdup_of_shows hshows, read_percentile]
  split
  · next hnone => rw [hnone]; rfl
  · next percentile hsome =>
    rw [hsome]
    exact if_neg (lt_irrefl stop)

theorem percentile_turn_next {l : PercentileLoop} {fractional : Bool} (hw : 44 ∉ w)
    (hat : AtPercentiles stop (w ++ 44 :: rest) share l) :
    percentile_turn fractional stop l =
      if fractional ∧ rest = [] then .inr (.error ())
      else match read_percentile fractional w with
      | none => .inr (.error ())
      | some percentile =>
        if rest ≠ [] then
          .inl ⟨cut l.str_copy (l.p + w.length), l.p + w.length + 1,
            strchr (cut l.str_copy (l.p + w.length)) (l.p + w.length + 1) 44,
            add_percentile share percentile⟩
        else .inr (.ok (add_percentile share percentile)) := by
  obtain ⟨buf, p, comma, share'⟩ := l
  obtain ⟨hshare, hcomma, hshows, hstop⟩ := hat
  simp only at hshare hcomma hshows hstop
  subst hshare hcomma
  rw [List.length_append, List.length_cons] at hstop
  have hbehind : p + w.length + 1 < stop ↔ rest ≠ [] := by
    rw [hstop, ← List.length_pos_iff]
    omega
  have hend : p + w.length + 1 = stop ↔ rest = [] := by
    rw [hstop, ← List.length_eq_zero_iff]
    omega
  rw [strchr_of_shows_cons hshows hw]
  simp only [percentile_turn, Option.elim_some, Option.map_some, Option.some.injEq, hbehind, hend,
    strdup_of_shows (shows_cut hshows), read_percentile]
  cases fractional with
  | true =>
    by_cases hnil : rest = []
    · simp [hnil]
    · simp only [hnil, if_true, if_false, and_false]
  | false => simp only [Bool.false_eq_true, if_false, false_and]

def add_percentiles (share : Option TableShare) (percentiles : List Percentile) : Option TableShare :=
  share.map fun s => { s with percentiles := s.percentiles ++ percentiles }

theorem foldl_add_percentile (percentiles : List Percentile) :
    percentiles.foldl add_percentile share = add_percentiles share percentiles := by
  induction percentiles generalizing share with
  | nil =>
    cases share with
    | none => rfl
    | some s => simp [add_percentiles]
  | cons percentile percentiles ih =>
    rw [List.foldl_cons, ih]
    cases share with
    | none => rfl
    | some s => simp [add_percentiles, add_percentile]

/-- The loop over the percentiles. -/
theorem percentile_loop {fractional : Bool} (h : Shows buf p text) (hstop : stop = p + text.length)
    (hne : text ≠ []) (hlen : text.length ≤ len) :
    loop (percentile_turn fractional stop) (len + 1) ⟨buf, p, strchr buf p 44, share⟩ =
      settle ((read_pieces 44 fractional (read_percentile fractional) text).map (add_percentiles share)) := by
  have hloop : turns (percentile_turn fractional stop) (len + 1) ⟨buf, p, strchr buf p 44, share⟩ =
      some ((read_pieces 44 fractional (read_percentile fractional) text).elim (.error ())
        fun percentiles => .ok (percentiles.foldl add_percentile share)) := by
    refine pieces_loop (AtPercentiles stop) ?_ ?_ ?_ ⟨rfl, rfl, h, hstop⟩ hne (by omega)
    · exact fun w share l hw _ hat => percentile_turn_last hw hat
    · intro w share l hw hat
      rw [percentile_turn_next hw hat]
      cases fractional with
      | true => simp
      | false =>
        simp only [Bool.false_eq_true, false_and, if_false]
        cases read_percentile false w <;> rfl
    · intro w rest share l hw hrest hat
      have hturn := @percentile_turn_next w rest stop share l fractional hw hat
      rw [if_neg (fun h => hrest h.2)] at hturn
      cases hpercentile : read_percentile fractional w with
      | none => exact .inl ⟨rfl, by rw [hturn, hpercentile]⟩
      | some percentile =>
        refine .inr ⟨percentile, _, rfl, by rw [hturn, hpercentile]; exact if_pos hrest, rfl, rfl, ?_, ?_⟩
        · exact shows_behind_cut hat.shows
        · have hstop := hat.stop
          rw [List.length_append, List.length_cons] at hstop
          simp only
          omega
  rw [loop, hloop]
  cases read_pieces 44 fractional (read_percentile fractional) text with
  | none => rfl
  | some percentiles => simp only [Option.elim_some, foldl_add_percentile]; rfl

/-- The two bytes at a cursor are those at the start of the string, where these are no zeros. -/
theorem view_two_iff {mark : Bytes} (h : Shows buf p text) (hmark : 0 ∉ mark) :
    view buf p mark.length = mark ↔ text.take mark.length = mark := by
  obtain ⟨hnul, rest, hdrop⟩ := h
  rw [view, hdrop, List.take_append]
  by_cases hlen : mark.length ≤ text.length
  · rw [Nat.sub_eq_zero_of_le hlen, List.take_zero, List.append_nil]
  · rw [List.take_of_length_le (by omega)]
    constructor
    · intro h
      -- the zero behind a short string is in the view
      obtain ⟨k, hk⟩ : ∃ k, mark.length - text.length = k + 1 := ⟨mark.length - text.length - 1, by omega⟩
      rw [hk, List.take_succ_cons] at h
      exact absurd (h ▸ List.mem_append_right text List.mem_cons_self) hmark
    · intro h
      rw [h] at hlen
      exact absurd le_rfl hlen

theorem parse_percentile_field_eq (h : Shows buf p text) (hstop : stop = p + text.length)
    (hlen : text.length ≤ len) :
    parse_percentile_field buf p stop len share =
      settle ((parse_percentiles text).map (add_percentiles share)) := by
  have hview : view buf p 2 = ascii "p=" ↔ text.take 2 = ascii "p=" :=
    @view_two_iff buf text p (ascii "p=") h (by decide)
  unfold parse_percentile_field parse_percentiles
  -- with the mark the list starts two bytes further on
  by_cases hmark : text.take 2 = ascii "p="
  · obtain ⟨t, rfl⟩ : ∃ t, text = [112] ++ 61 :: t := by
      refine ⟨text.drop 2, ?_⟩
      conv_lhs => rw [← List.take_append_drop 2 text, hmark]
      rfl
    have hshows : Shows buf (p + 2) t := shows_skip h
    have hstop' : stop = p + 2 + t.length := by
      rw [hstop, List.length_append]
      simp only [List.length_cons, List.length_nil]
      omega
    have hdrop : ([112] ++ 61 :: t).drop 2 = t := rfl
    simp only [hview, hmark, if_true, true_and, decide_true, hdrop]
    by_cases hnil : t = []
    · subst hnil
      have hempty : p + 2 = stop := hstop'.symm
      rw [if_pos hempty]
      rfl
    · have hpos := List.length_pos_iff.mpr hnil
      have hroom : t.length ≤ len := by
        rw [List.length_append] at hlen
        simp only [List.length_cons] at hlen
        omega
      rw [if_neg (by omega), if_pos (by omega), percentile_loop hshows hstop' hnil hroom]
      simp only [hnil, false_or]
      rw [read_pieces]
      simp only [true_and]
      rfl
  · simp only [hview, hmark, if_false, false_and, decide_false]
    by_cases hnil : text = []
    · subst hnil
      rw [if_neg (by simp [hstop])]
      cases share with
      | none => rfl
      | some s => simp [settle, add_percentiles]; rfl
    · have hpos := List.length_pos_iff.mpr hnil
      rw [if_pos (by omega), percentile_loop h hstop hnil hlen, read_pieces, if_neg (by simp)]
      rfl

/-! ## Section 5: Whole comments -/

theorem length_pieces (f : Bytes) :
    (pieces 44 f).length = f.count 44 + if f = [] ∨ f.getLast? = some 44 then 0 else 1 := by
  induction f using pieces_induction (44 : UInt8) with
  | last w hw =>
    rw [List.count_eq_zero_of_not_mem hw]
    by_cases hnil : w = []
    · subst hnil
      rfl
    · have hlast : ¬ (w = [] ∨ w.getLast? = some 44) := fun h =>
        h.elim hnil fun h => hw (List.mem_of_getLast? h)
      rw [pieces_of_notMem hw hnil, if_neg hlast]
      rfl
  | next w rest hw ih =>
    rw [pieces_append_sep hw, List.length_cons, ih, List.count_append, List.count_eq_zero_of_not_mem hw,
      List.count_cons_self]
    by_cases hnil : rest = []
    · subst hnil
      simp
    · have hlast : (w ++ 44 :: rest).getLast? = rest.getLast? := by
        rw [List.getLast?_append_of_ne_nil _ (List.cons_ne_nil 44 rest), List.getLast?_cons_of_ne_nil hnil]
      rw [hlast]
      simp only [hnil, List.append_eq_nil_iff, reduceCtorEq, and_false]
      omega

/-- The number of parameters that the parser returns. -/
theorem number_eq (given : Bool) (f : Bytes) :
    (if 44 ∈ f then counted given f else (pieces 44 f).length) =
      if (!given) = true ∧ 44 ∈ f.dropLast ∧ f.getLast? ≠ some 44 then (pieces 44 f).length - 1
      else (pieces 44 f).length := by
  cases given with
  | true => simp [counted]
  | false =>
    by_cases hmem : 44 ∈ f
    · rw [if_pos hmem, length_pieces]
      have hne : f ≠ [] := List.ne_nil_of_mem hmem
      by_cases hlast : f.getLast? = some 44
      · simp [counted, hlast]
      · have hinit : 44 ∈ f.dropLast := by
          rw [← List.dropLast_append_getLast hne, List.mem_append] at hmem
          refine hmem.resolve_right fun h => hlast ?_
          rw [List.getLast?_eq_getLast_of_ne_nil hne, List.mem_singleton.mp h]
        rw [if_pos ⟨rfl, hinit, hlast⟩, if_neg (by simp [hne, hlast])]
        simp [counted]
    · have hinit : 44 ∉ f.dropLast := fun h => hmem (List.dropLast_subset f h)
      rw [if_neg hmem, if_neg fun h => hinit h.2.1]

theorem before_colon_append (hw : 58 ∉ w) (rest : Bytes) : before_colon (w ++ 58 :: rest) = w :=
  takeWhile_append_cons hw rest

theorem after_colon_append (hw : 58 ∉ w) (rest : Bytes) : after_colon (w ++ 58 :: rest) = some rest := by
  rw [after_colon, dropWhile_append_cons hw]

theorem before_colon_of_notMem (hw : 58 ∉ w) : before_colon w = w := takeWhile_of_notMem hw

theorem after_colon_of_notMem (hw : 58 ∉ w) : after_colon w = none := by
  rw [after_colon, dropWhile_of_notMem hw]

section whole
variable {str name f1 f2 f3 : Bytes}

/-- The parameters of a field, with their number. -/
def read_params (share : Option TableShare) (f : Bytes) : Option (Nat × Option TableShare) :=
  if (pieces 44 f).contains [] then none
  else some (if 44 ∈ f then counted share.isSome f else (pieces 44 f).length,
    add_params share (pieces 44 f))

theorem read_params_eq (share : Option TableShare) (f : Bytes) :
    read_params share f = if [] ∈ pieces 44 f then none
      else some (if 44 ∈ f then counted share.isSome f else (pieces 44 f).length,
        add_params share (pieces 44 f)) := by
  simp [read_params]

theorem parse_fields_of_notMem (h0 : 0 ∉ str) (hcolon : 58 ∉ str) :
    parse_fields str share = settle (some (0, share)) := by
  unfold parse_fields
  simp only [strchr_of_notMem (shows_terminated h0) hcolon (by decide)]
  rfl

/-- What is behind the first colon. -/
theorem shows_first (h0 : 0 ∉ name ++ 58 :: text) :
    Shows (name ++ 58 :: text ++ [0]) (name.length + 1) text := by
  have h := shows_skip (shows_terminated h0)
  rw [Nat.zero_add] at h
  exact h

theorem strchr_first (h0 : 0 ∉ name ++ 58 :: text) (hname : 58 ∉ name) :
    strchr (name ++ 58 :: text ++ [0]) 0 58 = some name.length := by
  rw [strchr_of_shows_cons (shows_terminated h0) hname, Nat.zero_add]

theorem parse_fields_end (h0 : 0 ∉ name ++ [58]) (hname : 58 ∉ name) :
    parse_fields (name ++ [58]) share = settle none := by
  unfold parse_fields
  simp only [strchr_first h0 hname]
  rw [if_pos (getElem?_of_shows_nil (shows_first h0))]
  rfl

/-- The text behind the first colon is not empty. -/
theorem getElem?_first (h0 : 0 ∉ name ++ 58 :: text) (hne : text ≠ []) :
    (name ++ 58 :: text ++ [0])[name.length + 1]? ≠ some 0 := by
  obtain ⟨c, text', rfl⟩ := List.exists_cons_of_ne_nil hne
  rw [getElem?_of_shows_cons (shows_first h0)]
  intro h
  rw [Option.some.injEq] at h
  subst h
  exact h0 (by simp)

theorem parse_fields_params (h0 : 0 ∉ name ++ 58 :: f1) (hname : 58 ∉ name) (hf1 : 58 ∉ f1)
    (hne : f1 ≠ []) : parse_fields (name ++ 58 :: f1) share = settle (read_params share f1) := by
  have hfirst := shows_first h0
  have hlen : (name ++ 58 :: f1).length = name.length + 1 + f1.length := by
    rw [List.length_append, List.length_cons]
    omega
  unfold parse_fields
  simp only [strchr_first h0 hname]
  rw [if_neg (getElem?_first h0 hne), strchr_of_notMem hfirst hf1 (by decide)]
  simp only [Option.elim_none, Option.getD_none]
  rw [parse_param_field_eq hfirst hlen (by omega)]
  rw [read_params_eq]
  split <;> rfl

/-- The conditions of a field, for parameters that were read before. -/
def read_conds (r : Nat × Option TableShare) (f : Bytes) : Option (Nat × Option TableShare) :=
  ((pieces 44 f).mapM parse_condition).map fun conds => (r.1, add_conds r.2 conds)

def read_percentiles (r : Nat × Option TableShare) (f : Bytes) : Option (Nat × Option TableShare) :=
  (parse_percentiles f).map fun percentiles => (r.1, add_percentiles r.2 percentiles)

theorem parse_fields_conds (h0 : 0 ∉ name ++ 58 :: (f1 ++ 58 :: f2)) (hname : 58 ∉ name)
    (hf1 : 58 ∉ f1) (hf2 : 58 ∉ f2) :
    parse_fields (name ++ 58 :: (f1 ++ 58 :: f2)) share =
      settle ((read_params share f1).bind fun r => read_conds r f2) := by
  have hfirst := shows_first h0
  have hsecond := shows_behind_cut hfirst
  have hlen : (name ++ 58 :: (f1 ++ 58 :: f2)).length = name.length + 1 + f1.length + 1 + f2.length := by
    simp only [List.length_append, List.length_cons]
    omega
  have hfield := fun share => @parse_cond_field_eq _ _ _ _ (name ++ 58 :: (f1 ++ 58 :: f2)).length share
    hsecond hlen (by omega)
  unfold parse_fields
  simp only [strchr_first h0 hname]
  rw [if_neg (getElem?_first h0 (by simp)), strchr_of_shows_cons hfirst hf1]
  simp only [Option.elim_some, Option.getD_some]
  rw [parse_param_field_eq (shows_cut hfirst) rfl (by omega),
    strchr_of_notMem hsecond hf2 (by decide)]
  simp only [Option.elim_none, Option.getD_none, hfield]
  rw [read_params_eq]
  unfold read_conds
  split
  · rfl
  · rw [settle_some_bind]
    cases (pieces 44 f2).mapM parse_condition <;> rfl

theorem parse_fields_percentiles (h0 : 0 ∉ name ++ 58 :: (f1 ++ 58 :: (f2 ++ 58 :: f3)))
    (hname : 58 ∉ name) (hf1 : 58 ∉ f1) (hf2 : 58 ∉ f2) :
    parse_fields (name ++ 58 :: (f1 ++ 58 :: (f2 ++ 58 :: f3))) share =
      settle ((read_params share f1).bind fun r => (read_conds r f2).bind fun r => read_percentiles r f3) := by
  have hfirst := shows_first h0
  have hsecond := shows_behind_cut hfirst
  have hthird := shows_behind_cut hsecond
  have hlen : (name ++ 58 :: (f1 ++ 58 :: (f2 ++ 58 :: f3))).length =
      name.length + 1 + f1.length + 1 + f2.length + 1 + f3.length := by
    simp only [List.length_append, List.length_cons]
    omega
  have hfield := fun share => @parse_cond_field_eq _ _ _ _ (name ++ 58 :: (f1 ++ 58 :: (f2 ++ 58 :: f3))).length
    share (shows_cut hsecond) rfl (by omega)
  have hfield' := fun share => @parse_percentile_field_eq _ _ _ _
    (name ++ 58 :: (f1 ++ 58 :: (f2 ++ 58 :: f3))).length share hthird hlen (by omega)
  unfold parse_fields
  simp only [strchr_first h0 hname]
  rw [if_neg (getElem?_first h0 (by simp)), strchr_of_shows_cons hfirst hf1]
  simp only [Option.elim_some, Option.getD_some]
  rw [parse_param_field_eq (shows_cut hfirst) rfl (by omega), strchr_of_shows_cons hsecond hf2]
  simp only [Option.elim_some, Option.getD_some, hfield, hfield']
  rw [read_params_eq]
  unfold read_conds read_percentiles
  split
  · rfl
  · rw [settle_some_bind]
    cases (pieces 44 f2).mapM parse_condition with
    | none => rfl
    | some conds =>
      simp only [Option.map_some, settle_some_bind, Option.bind_some]
      cases parse_percentiles f3 <;> rfl

/-- The answer for a comment with parts, in terms of the parser of texts. -/
theorem parse_text_parts (base : TableShare) (hname : 58 ∉ name) (hne : text ≠ []) (given : Bool) :
    (parse_text base (name ++ 58 :: text) !given).map (fun r => (r.1, if given then some r.2 else none)) =
      (parse_parts base text).map fun share =>
        (if (!given) = true ∧ 44 ∈ (before_colon text).dropLast ∧ (before_colon text).getLast? ≠ some 44
          then share.params.length - 1 else share.params.length,
          if given then some share else none) := by
  rw [parse_text, after_colon_append hname]
  simp only [if_neg hne, Option.map_map, Function.comp_def]

/-- The parser in place, and the parser of texts. -/
theorem parse_fields_eq (h0 : 0 ∉ str) (base : TableShare) (hparams : base.params = [])
    (hconds : base.conds = []) (hpercentiles : base.percentiles = []) (given : Bool) :
    parse_fields str (if given then some base else none) =
      settle ((parse_text base str !given).map fun r => (r.1, if given then some r.2 else none)) := by
  rcases cut_at_first (58 : UInt8) str with hcolon | ⟨name, text, hname, rfl⟩
  -- the name is all there is
  · rw [parse_fields_of_notMem h0 hcolon, parse_text, after_colon_of_notMem hcolon]
    rfl
  -- nothing behind the first colon
  by_cases hne : text = []
  · subst hne
    rw [parse_fields_end h0 hname, parse_text, after_colon_append hname]
    rfl
  rw [parse_text_parts base hname hne]
  rcases cut_at_first (58 : UInt8) text with hf1 | ⟨f1, text2, hf1, rfl⟩
  -- parameters only
  · rw [parse_fields_params h0 hname hf1 hne]
    simp only [parse_parts, read_params_eq, before_colon_of_notMem hf1, after_colon_of_notMem hf1]
    by_cases hempty : [] ∈ pieces 44 text
    · rw [if_pos hempty, if_pos hempty]
      rfl
    · rw [if_neg hempty, if_neg hempty, Option.map_some, ← number_eq given text]
      cases given <;> simp [add_params, hparams]
  simp only [parse_parts, before_colon_append hf1, after_colon_append hf1]
  rcases cut_at_first (58 : UInt8) text2 with hf2 | ⟨f2, f3, hf2, rfl⟩
  -- parameters and conditions
  · rw [parse_fields_conds h0 hname hf1 hf2]
    simp only [read_params_eq, read_conds, percentiles_after, before_colon_of_notMem hf2,
      after_colon_of_notMem hf2]
    by_cases hempty : [] ∈ pieces 44 f1
    · rw [if_pos hempty, if_pos hempty]
      rfl
    · rw [if_neg hempty, if_neg hempty]
      cases (pieces 44 text2).mapM parse_condition with
      | none => rfl
      | some conds =>
        simp only [Option.bind_some, Option.map_some, Option.bind_eq_bind, Option.pure_def,
          ← number_eq given f1]
        cases given <;> simp [add_params, add_conds, hparams, hconds, hpercentiles]
  -- all three
  · rw [parse_fields_percentiles h0 hname hf1 hf2]
    simp only [read_params_eq, read_conds, read_percentiles, percentiles_after, before_colon_append hf2,
      after_colon_append hf2]
    by_cases hempty : [] ∈ pieces 44 f1
    · rw [if_pos hempty, if_pos hempty]
      rfl
    · rw [if_neg hempty, if_neg hempty]
      cases (pieces 44 f2).mapM parse_condition with
      | none => rfl
      | some conds =>
        cases parse_percentiles f3 with
        | none => rfl
        | some percentiles =>
          simp only [Option.bind_some, Option.map_some, Option.bind_eq_bind, Option.pure_def,
            ← number_eq given f1]
          cases given <;> simp [add_params, add_conds, add_percentiles, hparams, hconds, hpercentiles]

end whole

end fields

/-! ## Section 6: What is parsed -/

/-- A text is a type name and three fields, cut at its first three colons; the fields behind the
    last of them are empty. -/
inductive Fields : Bytes → Bytes → Bytes → Bytes → Prop
  | name {name : Bytes} (hname : 58 ∉ name) : Fields name [] [] []
  | params {name f1 : Bytes} (hname : 58 ∉ name) (hf1 : 58 ∉ f1) : Fields (name ++ 58 :: f1) f1 [] []
  | conds {name f1 f2 : Bytes} (hname : 58 ∉ name) (hf1 : 58 ∉ f1) (hf2 : 58 ∉ f2) :
    Fields (name ++ 58 :: (f1 ++ 58 :: f2)) f1 f2 []
  | percentiles {name f1 f2 : Bytes} (f3 : Bytes) (hname : 58 ∉ name) (hf1 : 58 ∉ f1) (hf2 : 58 ∉ f2) :
    Fields (name ++ 58 :: (f1 ++ 58 :: (f2 ++ 58 :: f3))) f1 f2 f3

/-- The only colon of the text is its last character. -/
def EndsInColon (str : Bytes) : Prop := ∃ name, 58 ∉ name ∧ str = name ++ [58]

/-- A condition with its name and its value, cut at the first equal sign. -/
def IsCond (piece : Bytes) (cond : Bytes × Bytes) : Prop := 61 ∉ cond.1 ∧ piece = cond.1 ++ 61 :: cond.2

/-- A limit of a histogram has to be in range. -/
def InRange (cond : Bytes × Bytes) : Prop :=
  cond.1 = ascii "histogram_max_time" → pinba_parse_histogram_max cond.2 = true

/-- The share has, in order, the pieces of the three fields. -/
structure ParsedAs (f1 f2 f3 : Bytes) (share : TableShare) : Prop where
  params : share.params = pieces 44 f1
  conds : List.Forall₂ IsCond (pieces 44 f2) share.conds
  percentiles : if f3.take 2 = ascii "p=" then
      List.Forall₂ (fun piece percentile => pinba_parse_fractional_percentile piece = some percentile)
        (pieces 44 (f3.drop 2)) share.percentiles
    else List.Forall₂ (fun piece percentile => percentile = ⟨strtol piece, 0, 0⟩)
      (pieces 44 f3) share.percentiles

/-- The fields can be parsed. -/
structure Parsable (f1 f2 f3 : Bytes) : Prop where
  params : [] ∉ pieces 44 f1
  conds : ∀ piece ∈ pieces 44 f2, ∃ cond, IsCond piece cond ∧ InRange cond
  percentiles : if f3.take 2 = ascii "p=" then
      f3.drop 2 ≠ [] ∧ (f3.drop 2).getLast? ≠ some 44 ∧
        ∀ piece ∈ pieces 44 (f3.drop 2), (pinba_parse_fractional_percentile piece).isSome
    else ∀ piece ∈ pieces 44 f3, 0 < strtol piece ∧ strtol piece ≤ 100

section spec
variable {str f1 f2 f3 : Bytes} {base share : TableShare} {parse_only : Bool}

theorem fields_exist (str : Bytes) : ∃ f1 f2 f3, Fields str f1 f2 f3 := by
  rcases cut_at_first (58 : UInt8) str with hname | ⟨name, text, hname, rfl⟩
  · exact ⟨_, _, _, .name hname⟩
  rcases cut_at_first (58 : UInt8) text with hf1 | ⟨f1, text2, hf1, rfl⟩
  · exact ⟨_, _, _, .params hname hf1⟩
  rcases cut_at_first (58 : UInt8) text2 with hf2 | ⟨f2, f3, hf2, rfl⟩
  · exact ⟨_, _, _, .conds hname hf1 hf2⟩
  · exact ⟨_, _, _, .percentiles f3 hname hf1 hf2⟩

theorem endsInColon_iff {name text : Bytes} (hname : 58 ∉ name) :
    EndsInColon (name ++ 58 :: text) ↔ text = [] := by
  constructor
  · rintro ⟨name', hname', heq⟩
    exact (split_unique hname hname' heq).2
  · rintro rfl
    exact ⟨name, hname, rfl⟩

/-- The parts of a text behind its first colon. -/
theorem parse_text_snd {name text : Bytes} (hname : 58 ∉ name) (hne : text ≠ []) :
    (parse_text base (name ++ 58 :: text) parse_only).map Prod.snd = parse_parts base text := by
  rw [parse_text, after_colon_append hname]
  simp only [if_neg hne, Option.map_map, Function.comp_def, Option.map_id']

/-- The parser of texts, field by field. -/
theorem parse_text_fields (h : Fields str f1 f2 f3) (hparams : base.params = [])
    (hconds : base.conds = []) (hpercentiles : base.percentiles = []) (hend : ¬ EndsInColon str) :
    (parse_text base str parse_only).map Prod.snd = if [] ∈ pieces 44 f1 then none
      else ((pieces 44 f2).mapM parse_condition).bind fun conds =>
        (parse_percentiles f3).map fun percentiles =>
          { base with params := pieces 44 f1, conds := conds, percentiles := percentiles } := by
  have hnone : ((pieces 44 []).mapM parse_condition).bind (fun conds =>
      (parse_percentiles []).map fun percentiles =>
        { base with params := pieces 44 f1, conds := conds, percentiles := percentiles }) =
      some { base with params := pieces 44 f1 } := by
    show some { base with params := pieces 44 f1, conds := [], percentiles := [] } = _
    rw [← hconds, ← hpercentiles]
  cases h with
  | name hname =>
    rw [parse_text, after_colon_of_notMem hname, hnone, pieces_nil, if_neg List.not_mem_nil, ← hparams]
    rfl
  | params hname hf1 =>
    rw [endsInColon_iff hname] at hend
    rw [parse_text_snd hname hend, hnone, parse_parts]
    simp only [before_colon_of_notMem hf1, after_colon_of_notMem hf1]
  | conds hname hf1 hf2 =>
    rw [parse_text_snd hname (by simp), parse_parts]
    simp only [before_colon_append hf1, after_colon_append hf1, before_colon_of_notMem hf2,
      percentiles_after, after_colon_of_notMem hf2]
    split
    · rfl
    · cases (pieces 44 f2).mapM parse_condition <;> rfl
  | percentiles f3 hname hf1 hf2 =>
    rw [parse_text_snd hname (by simp), parse_parts]
    simp only [before_colon_append hf1, after_colon_append hf1, before_colon_append hf2,
      percentiles_after, after_colon_append hf2]
    split
    · rfl
    · cases (pieces 44 f2).mapM parse_condition with
      | none => rfl
      | some conds => cases parse_percentiles f3 <;> rfl

/-- A condition is read if it has an equal sign and is in range. -/
theorem parse_condition_eq_some {piece : Bytes} {cond : Bytes × Bytes} :
    parse_condition piece = some cond ↔ IsCond piece cond ∧ InRange cond := by
  rcases cut_at_first (61 : UInt8) piece with hequal | ⟨name, value, hname, rfl⟩
  · rw [parse_condition_of_notMem hequal]
    refine iff_of_false (by simp) ?_
    rintro ⟨⟨-, rfl⟩, -⟩
    exact hequal (by simp)
  · rw [parse_condition_cons hname]
    have hcond : IsCond (name ++ 61 :: value) cond ↔ (name, value) = cond := by
      constructor
      · rintro ⟨hname', heq⟩
        obtain ⟨h1, h2⟩ := split_unique hname hname' heq
        exact Prod.ext h1 h2
      · rintro rfl
        exact ⟨hname, rfl⟩
    rw [hcond]
    split
    · next hrange =>
      refine iff_of_false (by simp) ?_
      rintro ⟨rfl, hin⟩
      have hmax := hin hrange.1
      simp [hmax] at hrange
    · next hrange =>
      rw [Option.some.injEq]
      refine (and_iff_left_of_imp ?_).symm
      rintro rfl hmax
      by_contra hout
      exact hrange ⟨hmax, by simpa using hout⟩

theorem parse_legacy_eq_some {piece : Bytes} {percentile : Percentile} :
    parse_legacy_percentile piece = some percentile ↔
      percentile = ⟨strtol piece, 0, 0⟩ ∧ 0 < strtol piece ∧ strtol piece ≤ 100 := by
  unfold parse_legacy_percentile
  simp only
  split
  · next hrange =>
    refine iff_of_false (by simp) ?_
    rintro ⟨-, hlow, hhigh⟩
    omega
  · next hrange =>
    rw [Option.some.injEq]
    constructor
    · rintro rfl
      exact ⟨rfl, by omega, by omega⟩
    · rintro ⟨rfl, -, -⟩
      rfl

/-- The last field is read if its pieces are in range. -/
theorem parse_percentiles_isSome : (parse_percentiles f3).isSome ↔ if f3.take 2 = ascii "p=" then
      f3.drop 2 ≠ [] ∧ (f3.drop 2).getLast? ≠ some 44 ∧
        ∀ piece ∈ pieces 44 (f3.drop 2), (pinba_parse_fractional_percentile piece).isSome
    else ∀ piece ∈ pieces 44 f3, 0 < strtol piece ∧ strtol piece ≤ 100 := by
  unfold parse_percentiles
  simp only
  split
  · split
    · next hrefused =>
      refine iff_of_false (by simp) ?_
      rintro ⟨hne, hlast, -⟩
      exact hrefused.elim hne hlast
    · next hkept =>
      rw [not_or] at hkept
      rw [mapM_isSome_iff]
      exact ⟨fun h => ⟨hkept.1, hkept.2, h⟩, fun h => h.2.2⟩
  · rw [mapM_isSome_iff]
    refine forall₂_congr fun piece _ => ?_
    rw [Option.isSome_iff_exists]
    constructor
    · rintro ⟨percentile, hpercentile⟩
      exact (parse_legacy_eq_some.mp hpercentile).2
    · intro hrange
      exact ⟨_, parse_legacy_eq_some.mpr ⟨rfl, hrange⟩⟩

theorem parse_percentiles_pieces {percentiles : List Percentile}
    (h : parse_percentiles f3 = some percentiles) : if f3.take 2 = ascii "p=" then
      List.Forall₂ (fun piece percentile => pinba_parse_fractional_percentile piece = some percentile)
        (pieces 44 (f3.drop 2)) percentiles
    else List.Forall₂ (fun piece percentile => percentile = ⟨strtol piece, 0, 0⟩)
      (pieces 44 f3) percentiles := by
  unfold parse_percentiles at h
  simp only at h
  split at h
  · next hmark =>
    rw [if_pos hmark]
    split at h
    · cases h
    · exact mapM_eq_some_iff.mp h
  · next hmark =>
    rw [if_neg hmark]
    exact (mapM_eq_some_iff.mp h).imp fun _ _ hread => (parse_legacy_eq_some.mp hread).1

/-- A text is parsed if its only colon is not its last character and its fields can be
    parsed; the share has their pieces. -/
theorem parse_text_fields_iff (h : Fields str f1 f2 f3) (hparams : base.params = [])
    (hconds : base.conds = []) (hpercentiles : base.percentiles = []) :
    ((parse_text base str parse_only).isSome ↔ ¬ EndsInColon str ∧ Parsable f1 f2 f3) ∧
      ∀ n share, parse_text base str parse_only = some (n, share) → ParsedAs f1 f2 f3 share := by
  by_cases hend : EndsInColon str
  · obtain ⟨name, hname, rfl⟩ := hend
    have hnone : parse_text base (name ++ [58]) parse_only = none := by
      rw [parse_text, after_colon_append hname]
      rfl
    rw [hnone]
    exact ⟨iff_of_false (by simp) fun h => h.1 ⟨name, hname, rfl⟩, fun n share h => by cases h⟩
  have hfields := @parse_text_fields str f1 f2 f3 base parse_only h hparams hconds hpercentiles hend
  have hsome : (parse_text base str parse_only).isSome =
      ((parse_text base str parse_only).map Prod.snd).isSome := Option.isSome_map.symm
  constructor
  · rw [hsome, hfields, and_iff_right hend]
    by_cases hempty : [] ∈ pieces 44 f1
    · rw [if_pos hempty]
      exact iff_of_false (by simp) fun h => h.params hempty
    · rw [if_neg hempty]
      have hboth : (((pieces 44 f2).mapM parse_condition).bind fun conds =>
          (parse_percentiles f3).map fun percentiles =>
            { base with params := pieces 44 f1, conds := conds, percentiles := percentiles }).isSome ↔
          ((pieces 44 f2).mapM parse_condition).isSome ∧ (parse_percentiles f3).isSome := by
        cases (pieces 44 f2).mapM parse_condition with
        | none => simp
        | some conds => simp
      rw [hboth, mapM_isSome_iff, parse_percentiles_isSome]
      simp only [Option.isSome_iff_exists, parse_condition_eq_some]
      exact ⟨fun h => ⟨hempty, h.1, by simpa only [Option.isSome_iff_exists] using h.2⟩,
        fun h => ⟨h.conds, by simpa only [Option.isSome_iff_exists] using h.percentiles⟩⟩
  · intro n share hshare
    rw [hshare, Option.map_some] at hfields
    split at hfields
    · cases hfields
    · obtain ⟨conds, hconds', hfields⟩ := Option.bind_eq_some_iff.mp hfields.symm
      obtain ⟨percentiles, hpercentiles', rfl⟩ := Option.map_eq_some_iff.mp hfields
      refine ⟨rfl, ?_, parse_percentiles_pieces hpercentiles'⟩
      exact (mapM_eq_some_iff.mp hconds').imp fun _ _ hcond => (parse_condition_eq_some.mp hcond).1

end spec

/-- The parser in place does what the parser of texts does, with and without a share. -/
theorem parse_comment_eq (comment : Text) (type : TableType) (given : Bool) :
    parse_comment comment.bytes type (if given then some .zero else none) =
      settle ((pinba_parse_params comment.bytes type !given).map fun r =>
        (r.1, if given then some r.2 else none)) := by
  have hmap : ∀ f : TableShare → TableShare, (if given then some .zero else none : Option TableShare).map f =
      if given then some (f .zero) else none := by
    intro f
    cases given <;> rfl
  unfold parse_comment pinba_parse_params
  simp only [hmap]
  split
  · split
    · rfl
    · have h0 : 0 ∉ comment.bytes.drop 3 := fun h => comment.nul_free (List.mem_of_mem_drop h)
      exact parse_fields_eq h0 _ rfl rfl rfl given
  · exact parse_fields_eq comment.nul_free _ rfl rfl rfl given

/-- The comment without `hv.`, which holds the fields. -/
def fields_text (comment : Bytes) : Bytes :=
  if (pinba_get_table_type comment).1 = .histogram_view then comment.drop 3 else comment

/-- The report behind a histogram view is known. -/
def KnownReport (comment : Bytes) : Prop :=
  (pinba_get_table_type comment).1 = .histogram_view → (pinba_get_table_type (fields_text comment)).1 ≠ .unknown

theorem parse_params_iff {comment f1 f2 f3 : Bytes} (h : Fields (fields_text comment) f1 f2 f3)
    (parse_only : Bool) :
    ((pinba_parse_params comment (pinba_get_table_type comment).1 parse_only).isSome ↔
      KnownReport comment ∧ ¬ EndsInColon (fields_text comment) ∧ Parsable f1 f2 f3) ∧
    ∀ n share, pinba_parse_params comment (pinba_get_table_type comment).1 parse_only = some (n, share) →
      ParsedAs f1 f2 f3 share := by
  unfold KnownReport
  unfold fields_text at h ⊢
  unfold pinba_parse_params
  by_cases hview : (pinba_get_table_type comment).1 = .histogram_view
  · rw [if_pos hview] at h ⊢
    simp only [hview, if_true, true_implies]
    by_cases hknown : (pinba_get_table_type (comment.drop 3)).1 = .unknown
    · rw [if_pos hknown]
      exact ⟨iff_of_false (by simp) fun h => h.1 hknown, fun n share h => by cases h⟩
    · rw [if_neg hknown]
      obtain ⟨hiff, hparsed⟩ := @parse_text_fields_iff _ _ _ _ { TableShare.zero with
        hv_table_type := (pinba_get_table_type (comment.drop 3)).1
        report_kind := (pinba_get_table_type (comment.drop 3)).2 } parse_only h rfl rfl rfl
      exact ⟨hiff.trans (and_iff_right hknown).symm, hparsed⟩
  · rw [if_neg hview] at h ⊢
    simp only [hview, if_false, false_implies]
    obtain ⟨hiff, hparsed⟩ := @parse_text_fields_iff _ _ _ _ { TableShare.zero with
      report_kind := (pinba_get_table_type comment).2 } parse_only h rfl rfl rfl
    exact ⟨hiff.trans (and_iff_right trivial).symm, hparsed⟩

/-- Every comment is parsed or refused, with a share to fill as without one. It is parsed exactly
    if it names a known report, does not end in its only colon, and its fields can be parsed;
    then the share has their pieces. -/
theorem comment_parser_spec (comment : Text) :
    let type := (pinba_get_table_type comment.bytes).1
    let str := fields_text comment.bytes
    ∃ f1 f2 f3, Fields str f1 f2 f3 ∧
      (KnownReport comment.bytes ∧ ¬ EndsInColon str ∧ Parsable f1 f2 f3 →
        (∃ num, parse_comment comment.bytes type none = pure (num, none)) ∧
        ∃ num share, parse_comment comment.bytes type (some .zero) = pure (num, some share) ∧
          ParsedAs f1 f2 f3 share) ∧
      (¬ (KnownReport comment.bytes ∧ ¬ EndsInColon str ∧ Parsable f1 f2 f3) →
        parse_comment comment.bytes type none = throw () ∧
        parse_comment comment.bytes type (some .zero) = throw ()) := by
  intro type str
  obtain ⟨f1, f2, f3, hfields⟩ := fields_exist str
  have hnone : parse_comment comment.bytes type none = _ := parse_comment_eq comment type false
  have hsome : parse_comment comment.bytes type (some .zero) = _ := parse_comment_eq comment type true
  obtain ⟨haccepts, -⟩ := parse_params_iff hfields true
  obtain ⟨haccepts', hparsed⟩ := parse_params_iff hfields false
  refine ⟨f1, f2, f3, hfields, fun haccepted => ?_, fun hrefused => ?_⟩
  · obtain ⟨r, hr⟩ := Option.isSome_iff_exists.mp (haccepts.mpr haccepted)
    obtain ⟨⟨num, share⟩, hr'⟩ := Option.isSome_iff_exists.mp (haccepts'.mpr haccepted)
    rw [hnone, hsome]
    simp only [Bool.not_false, Bool.not_true]
    rw [hr, hr']
    exact ⟨⟨r.1, rfl⟩, num, share, rfl, hparsed num share hr'⟩
  · have hr := Option.not_isSome_iff_eq_none.mp fun h => hrefused (haccepts.mp h)
    have hr' := Option.not_isSome_iff_eq_none.mp fun h => hrefused (haccepts'.mp h)
    rw [hnone, hsome]
    simp only [Bool.not_false, Bool.not_true]
    rw [hr, hr']
    exact ⟨rfl, rfl⟩

/-- Two tags, a condition with an equal sign in its value, and two percentiles. -/
example : parse_comment (ascii "tag2_info:group,server:min_time=a=b:95,99.9") (.tag_report .tag2_info)
    (some .zero) = pure (2, some ⟨.unknown, .unknown, .tag, [ascii "group", ascii "server"],
      [(ascii "min_time", ascii "a=b")], [⟨95, 0, 0⟩, ⟨99, 0, 0⟩], []⟩) := by
  rfl

end PinbaEngine
