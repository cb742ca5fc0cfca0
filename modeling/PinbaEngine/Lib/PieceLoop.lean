import PinbaEngine.Lib.Checked
import PinbaEngine.Lib.Delimited
import PinbaEngine.Lib.Turns

/-! # Loops over the pieces of a text

    A scanner that reads a text piece by piece, one in each turn of a loop, and stops at the
    first piece it cannot read. Such a loop does what reading all pieces at once does
    (`pieces_loop`), if its last turn, its turn at a separator that ends the text and its other
    turns each read the piece that is next.
-/

namespace PinbaEngine

open Delimited

section pieces
variable {α σ γ β : Type} [DecidableEq α] {sep : α} {strict : Bool} {body : σ → σ ⊕ Except Unit γ}
  {read : List α → Option β} {add : γ → β → γ}

/-- The pieces as a loop reads them; a strict one refuses a separator at the end. -/
def read_pieces (sep : α) (strict : Bool) (read : List α → Option β) (text : List α) :
    Option (List β) :=
  if strict ∧ text.getLast? = some sep then none else (pieces sep text).mapM read

theorem read_pieces_append {w rest : List α} (hw : sep ∉ w) (hne : rest ≠ []) :
    read_pieces sep strict read (w ++ sep :: rest) =
      (read w).bind fun b => (read_pieces sep strict read rest).map (b :: ·) := by
  have hlast : (w ++ sep :: rest).getLast? = rest.getLast? := by
    rw [List.getLast?_append_of_ne_nil _ (List.cons_ne_nil sep rest), List.getLast?_cons_of_ne_nil hne]
  unfold read_pieces
  rw [hlast, pieces_append_sep hw, List.mapM_cons]
  split
  · cases read w <;> rfl
  · cases read w with
    | none => rfl
    | some b => cases (pieces sep rest).mapM read <;> rfl

/-- A loop that reads one piece after the other reads them all, up to the first one it cannot
    read. -/
theorem pieces_loop {text : List α} {share : γ} {s : σ} (At : List α → γ → σ → Prop)
    (hlast : ∀ w share s, sep ∉ w → w ≠ [] → At w share s →
      body s = .inr ((read w).elim (.error ()) fun b => .ok (add share b)))
    (hend : ∀ w share s, sep ∉ w → At (w ++ [sep]) share s →
      body s = .inr (if strict then .error () else (read w).elim (.error ()) fun b => .ok (add share b)))
    (hnext : ∀ w rest share s, sep ∉ w → rest ≠ [] → At (w ++ sep :: rest) share s →
      (read w = none ∧ body s = .inr (.error ())) ∨
        ∃ b s', read w = some b ∧ body s = .inl s' ∧ At rest (add share b) s')
    (hat : At text share s) (hne : text ≠ []) {n : Nat} (hn : text.length ≤ n) :
    turns body n s = some ((read_pieces sep strict read text).elim (.error ()) fun bs =>
      .ok (bs.foldl add share)) := by
  obtain ⟨n, rfl⟩ : ∃ k, n = k + 1 := ⟨n - 1, by have := List.length_pos_iff.mpr hne; omega⟩
  induction text using pieces_induction sep generalizing share s n with
  | last w hw =>
    have hkeep : ¬ (strict = true ∧ w.getLast? = some sep) := fun h => hw (List.mem_of_getLast? h.2)
    rw [turns_of_inr (hlast w share s hw hne hat) n, read_pieces, if_neg hkeep, pieces_of_notMem hw hne]
    cases hread : read w <;> simp [hread]
  | next w rest hw ih =>
    by_cases hnil : rest = []
    · subst hnil
      rw [turns_of_inr (hend w share s hw hat) n, read_pieces, pieces_append_sep hw]
      cases strict with
      | true => simp
      | false => cases hread : read w <;> simp [hread]
    · rw [read_pieces_append hw hnil]
      rcases hnext w rest share s hw hnil hat with ⟨hread, hbody⟩ | ⟨b, s', hread, hbody, hat'⟩
      · rw [turns_of_inr hbody n, hread]
        rfl
      · rw [List.length_append, List.length_cons] at hn
        have hpos := List.length_pos_iff.mpr hnil
        obtain ⟨n, rfl⟩ : ∃ k, n = k + 1 := ⟨n - 1, by omega⟩
        rw [turns, hbody, hread]
        simp only [Option.bind_some]
        rw [ih hat' hnil n (by omega)]
        cases read_pieces sep strict read rest <;> rfl

end pieces

/-- Reading fails at the first part that cannot be read. -/
theorem mapM_isSome_iff {α β : Type} {f : α → Option β} {parts : List α} :
    (parts.mapM f).isSome ↔ ∀ part ∈ parts, (f part).isSome := by
  induction parts with
  | nil => exact iff_of_true rfl nofun
  | cons part parts ih =>
    rw [List.mapM_cons, List.forall_mem_cons, ← ih]
    cases f part with
    | none => simp
    | some y => cases parts.mapM f <;> simp

end PinbaEngine
