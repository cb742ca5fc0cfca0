import Mathlib.Data.List.Basic
import Mathlib.Data.List.Forall2

/-! # Delimited texts

    When can the parts of a concatenated text be read back? A part ends where
    its character class ends (`append_unique`), in particular at the first
    separator if it contains none (`split_unique`). A list of parts that are
    all terminated by the separator is determined as soon as all parts but the
    last are free of it (`terminated_unique`). A list of parts that each follow a
    separator shows, cut at every separator, the parts cut likewise (`splitOn_headed`).

    A scanner that reads up to the next separator until the text is used up
    cuts it into `pieces`; a separator at the very end opens no further piece.
    Reading a list of parts succeeds if every part can be read (`mapM_eq_some_iff`).
-/

namespace Delimited

variable {α : Type*} {a a' b b' : List α} {sep : α}

/-- A leading run of characters in `P` is determined by the whole text. -/
theorem append_unique (P : α → Prop) (ha : ∀ x ∈ a, P x) (ha' : ∀ x ∈ a', P x)
    (hb : ∀ x ∈ b.head?, ¬ P x) (hb' : ∀ x ∈ b'.head?, ¬ P x) (h : a ++ b = a' ++ b') :
    a = a' ∧ b = b' := by
  induction a generalizing a' with
  | nil =>
    cases a' with
    | nil => exact ⟨rfl, h⟩
    | cons y a' =>
      obtain rfl : b = y :: (a' ++ b') := h
      exact absurd (ha' y List.mem_cons_self) (hb y rfl)
  | cons x a ih =>
    cases a' with
    | nil =>
      obtain rfl : b' = x :: (a ++ b) := h.symm
      exact absurd (ha x List.mem_cons_self) (hb' x rfl)
    | cons y a' =>
      obtain ⟨rfl, htl⟩ := List.cons.inj h
      obtain ⟨rfl, rfl⟩ := ih (fun z hz => ha z (List.mem_cons_of_mem _ hz))
        (fun z hz => ha' z (List.mem_cons_of_mem _ hz)) htl
      exact ⟨rfl, rfl⟩

/-- A text is split in one way at its first separator. -/
theorem split_unique (ha : sep ∉ a) (ha' : sep ∉ a') (h : a ++ sep :: b = a' ++ sep :: b') :
    a = a' ∧ b = b' := by
  obtain ⟨rfl, htl⟩ := append_unique (· ≠ sep) (fun x hx hs => ha (hs ▸ hx))
    (fun x hx hs => ha' (hs ▸ hx)) (by simp) (by simp) h
  exact ⟨rfl, (List.cons.inj htl).2⟩

/-- All parts, each followed by the separator. -/
def terminated (sep : α) (ws : List (List α)) : List α := ws.flatMap fun w => w ++ [sep]

@[simp] theorem terminated_nil : terminated sep ([] : List (List α)) = [] := rfl

@[simp] theorem terminated_cons {w : List α} {ws : List (List α)} :
    terminated sep (w :: ws) = w ++ sep :: terminated sep ws := by
  simp [terminated]

theorem terminated_unique {ws ws' : List (List α)} (hlen : ws.length = ws'.length)
    (hw : ∀ w ∈ ws.dropLast, sep ∉ w) (hw' : ∀ w ∈ ws'.dropLast, sep ∉ w)
    (h : terminated sep ws = terminated sep ws') : ws = ws' := by
  induction ws generalizing ws' with
  | nil => exact (List.eq_nil_of_length_eq_zero hlen.symm).symm
  | cons w ws ih =>
    cases ws' with
    | nil => exact absurd hlen (by simp)
    | cons w' ws' =>
      have hlen' : ws.length = ws'.length := Nat.succ.inj hlen
      rw [terminated_cons, terminated_cons] at h
      by_cases hnil : ws = []
      · -- the last part may contain the separator: it is what precedes the final one
        subst hnil
        obtain rfl : ws' = [] := List.eq_nil_of_length_eq_zero hlen'.symm
        rw [terminated_nil] at h
        rw [List.append_cancel_right h]
      · have hnil' : ws' ≠ [] := fun h0 => hnil (List.eq_nil_of_length_eq_zero (by simp [hlen', h0]))
        rw [List.dropLast_cons_of_ne_nil hnil] at hw
        rw [List.dropLast_cons_of_ne_nil hnil'] at hw'
        obtain ⟨rfl, htl⟩ := split_unique (hw w List.mem_cons_self) (hw' w' List.mem_cons_self) h
        rw [ih hlen' (fun v hv => hw v (List.mem_cons_of_mem _ hv))
          (fun v hv => hw' v (List.mem_cons_of_mem _ hv)) htl]

/-- All parts, each after a separator. -/
def headed (sep : α) (ws : List (List α)) : List α := ws.flatMap (sep :: ·)

@[simp] theorem headed_nil : headed sep ([] : List (List α)) = [] := rfl

@[simp] theorem headed_cons {w : List α} {ws : List (List α)} :
    headed sep (w :: ws) = sep :: (w ++ headed sep ws) := by
  simp [headed]

section split

variable [DecidableEq α]

/-- Cut at every separator, such a text shows the parts, cut at every separator. -/
theorem splitOn_headed (ws : List (List α)) :
    (headed sep ws).splitOn sep = [] :: ws.flatMap (List.splitOn sep) := by
  induction ws with
  | nil => rfl
  | cons w ws ih =>
    -- a separator comes first, so the first piece is empty
    have hcut : (headed sep (w :: ws)).splitOn sep = [] :: (w ++ headed sep ws).splitOn sep := by
      rw [headed_cons]
      exact List.splitOn_append_cons_self [] _
    rw [hcut, List.flatMap_cons]
    congr 1
    cases ws with
    | nil => simp
    | cons v ws =>
      rw [headed_cons] at ih ⊢
      rw [List.splitOn_append_cons_self]
      rw [show (sep :: (v ++ headed sep ws)).splitOn sep = [] :: (v ++ headed sep ws).splitOn sep from
        List.splitOn_append_cons_self [] _, List.cons.injEq] at ih
      rw [ih.2]

theorem splitOn_injective {a a' : List α} (h : a.splitOn sep = a'.splitOn sep) : a = a' := by
  calc
    a = List.intercalate [sep] (a.splitOn sep) := (List.intercalate_splitOn sep).symm
    _ = List.intercalate [sep] (a'.splitOn sep) := by rw [h]
    _ = a' := List.intercalate_splitOn sep

/-- There is nothing to cut. -/
theorem flatMap_splitOn {ws : List (List α)} (h : ∀ w ∈ ws, sep ∉ w) :
    ws.flatMap (List.splitOn sep) = ws := by
  induction ws with
  | nil => rfl
  | cons w ws ih =>
    rw [List.flatMap_cons, List.splitOn_eq_singleton (h w List.mem_cons_self),
      ih fun v hv => h v (List.mem_cons_of_mem _ hv)]
    rfl

end split

section pieces

variable [DecidableEq α]

/-- The pieces of a text, each ended by the separator or by the end of the text. -/
def pieces (sep : α) : List α → List (List α)
  | [] => []
  | x :: xs =>
    if x = sep then [] :: pieces sep xs
    else match pieces sep xs with
      | [] => [[x]]
      | p :: ps => (x :: p) :: ps

@[simp] theorem pieces_nil : pieces sep ([] : List α) = [] := rfl

theorem pieces_cons_sep (xs : List α) : pieces sep (sep :: xs) = [] :: pieces sep xs := by
  simp [pieces]

theorem length_pieces_cons {x : α} (hx : x ≠ sep) (xs : List α) :
    (pieces sep (x :: xs)).length = max 1 (pieces sep xs).length := by
  rw [pieces, if_neg hx]
  cases pieces sep xs with
  | nil => rfl
  | cons p ps => simp

theorem one_le_length_pieces {text : List α} : 1 ≤ (pieces sep text).length ↔ text ≠ [] := by
  cases text with
  | nil => simp
  | cons x xs =>
    by_cases hx : x = sep
    · subst hx
      simp [pieces_cons_sep]
    · rw [length_pieces_cons hx]
      simp only [ne_eq, reduceCtorEq, not_false_eq_true, iff_true]
      exact Nat.le_max_left _ _

/-- There are two pieces as soon as a separator has something after it. -/
theorem two_le_length_pieces {text : List α} :
    2 ≤ (pieces sep text).length ↔ sep ∈ text.dropLast := by
  induction text with
  | nil => simp
  | cons x xs ih =>
    by_cases hxs : xs = []
    · subst hxs
      by_cases hx : x = sep
      · subst hx
        simp [pieces_cons_sep]
      · simp [length_pieces_cons hx]
    · rw [List.dropLast_cons_of_ne_nil hxs, List.mem_cons]
      by_cases hx : x = sep
      · subst hx
        have hone : 1 ≤ (pieces x xs).length := one_le_length_pieces.mpr hxs
        simp only [pieces_cons_sep, List.length_cons, true_or, iff_true]
        omega
      · rw [length_pieces_cons hx, ← ih]
        have hne : sep ≠ x := fun h => hx h.symm
        simp only [hne, false_or]
        omega

theorem pieces_of_notMem {w : List α} (hw : sep ∉ w) (hne : w ≠ []) : pieces sep w = [w] := by
  induction w with
  | nil => exact absurd rfl hne
  | cons x w ih =>
    rw [List.mem_cons, not_or] at hw
    rw [pieces, if_neg (Ne.symm hw.1)]
    cases w with
    | nil => rfl
    | cons y w => rw [ih hw.2 (List.cons_ne_nil y w)]

/-- A text begins with its first piece. -/
theorem pieces_append_sep {w : List α} (hw : sep ∉ w) (rest : List α) :
    pieces sep (w ++ sep :: rest) = w :: pieces sep rest := by
  induction w with
  | nil => exact pieces_cons_sep rest
  | cons x w ih =>
    rw [List.mem_cons, not_or] at hw
    rw [List.cons_append, pieces, if_neg (Ne.symm hw.1), ih hw.2]

/-- Parts that end in the separator are the pieces of the whole. -/
theorem pieces_terminated {ws : List (List α)} (h : ∀ w ∈ ws, sep ∉ w) :
    pieces sep (terminated sep ws) = ws := by
  induction ws with
  | nil => rfl
  | cons w ws ih =>
    rw [terminated_cons, pieces_append_sep (h w List.mem_cons_self),
      ih fun v hv => h v (List.mem_cons_of_mem w hv)]

/-- A text without the separator, or a first piece, a separator and a shorter text. -/
theorem cut_at_first (sep : α) (text : List α) :
    sep ∉ text ∨ ∃ w rest, sep ∉ w ∧ text = w ++ sep :: rest := by
  by_cases hmem : sep ∈ text
  · obtain ⟨w, rest, rfl, hw⟩ := List.eq_append_cons_of_mem hmem
    exact .inr ⟨w, rest, hw, rfl⟩
  · exact .inl hmem

/-- Induction over the pieces of a text. -/
theorem pieces_induction {motive : List α → Prop} (sep : α) (last : ∀ w, sep ∉ w → motive w)
    (next : ∀ w rest, sep ∉ w → motive rest → motive (w ++ sep :: rest)) (text : List α) : motive text := by
  induction hlen : text.length using Nat.strongRecOn generalizing text with
  | _ n ih =>
    rcases cut_at_first sep text with hmem | ⟨w, rest, hw, rfl⟩
    · exact last text hmem
    · refine next w rest hw (ih rest.length ?_ rest rfl)
      rw [← hlen, List.length_append, List.length_cons]
      omega

/-- A piece has the characters of the text, but not the separator. -/
theorem mem_piece {text w : List α} (hw : w ∈ pieces sep text) : sep ∉ w ∧ ∀ x ∈ w, x ∈ text := by
  induction text using pieces_induction sep generalizing w with
  | last text htext =>
    cases text with
    | nil => cases hw
    | cons y text =>
      rw [pieces_of_notMem htext (List.cons_ne_nil y text), List.mem_singleton] at hw
      rw [hw]
      exact ⟨htext, fun _ hx => hx⟩
  | next first rest hfirst ih =>
    rw [pieces_append_sep hfirst, List.mem_cons] at hw
    rcases hw with rfl | hw
    · exact ⟨hfirst, fun x hx => List.mem_append_left _ hx⟩
    · obtain ⟨hsep, hmem⟩ := ih hw
      exact ⟨hsep, fun x hx => List.mem_append_right _ (List.mem_cons_of_mem _ (hmem x hx))⟩

end pieces

/-- All parts are read, each on its own. -/
theorem mapM_eq_some_iff {β : Type*} {f : α → Option β} {parts : List α} {ys : List β} :
    parts.mapM f = some ys ↔ List.Forall₂ (fun part y => f part = some y) parts ys := by
  induction parts generalizing ys with
  | nil =>
    rw [List.forall₂_nil_left_iff]
    exact ⟨fun h => (Option.some.inj h).symm, fun h => h ▸ rfl⟩
  | cons part parts ih =>
    rw [List.mapM_cons, List.forall₂_cons_left_iff]
    simp only [Option.bind_eq_bind, Option.bind_eq_some_iff, Option.pure_def, Option.some.injEq, ih]
    constructor
    · rintro ⟨y, hy, ys, hys, rfl⟩
      exact ⟨y, ys, hy, hys, rfl⟩
    · rintro ⟨y, ys, hy, hys, rfl⟩
      exact ⟨y, hy, ys, hys, rfl⟩

end Delimited
