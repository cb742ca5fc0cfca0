import Mathlib.Algebra.GroupWithZero.Nat
import Mathlib.Data.List.TakeWhile
import PinbaEngine.Lib.Delimited

/-! # Blocks with checked stores

    A block is the list of its cells. A store outside of the block has no
    result, so a program that stores through `Block.store` has a result exactly
    if it stays inside.

    Stores one after the other are one store of everything (`store_append`).
    Section 2 applies this to pieces that are each followed by a separator,
    Section 3 collects the rules for runs of steps that may have no result, and
    Section 4 reads back what stands before the first terminator.
-/

namespace PinbaEngine

/-! ## Section 1: Stores -/

/-- A block of cells. -/
abbrev Block (α : Type*) := List α

namespace Block

open Delimited

variable {α : Type*} {block after : Block α} {pos : Nat} {src more : List α}

/-- Copy `src` to the cells from `pos` on. -/
def store (block : Block α) (pos : Nat) (src : List α) : Option (Block α) :=
  if pos + src.length ≤ block.length then
    some (block.take pos ++ src ++ block.drop (pos + src.length))
  else none

theorem store_isSome : (block.store pos src).isSome = true ↔ pos + src.length ≤ block.length := by
  unfold store
  split <;> simp [*]

theorem store_eq_none : block.store pos src = none ↔ block.length < pos + src.length := by
  unfold store
  split <;> simp <;> omega

/-- The size of a block never changes. -/
theorem length_store (h : block.store pos src = some after) : after.length = block.length := by
  unfold store at h
  split at h
  · cases h
    simp only [List.length_append, List.length_take, List.length_drop]
    omega
  · cases h

/-- A store right behind another one. -/
theorem store_append (block : Block α) (pos : Nat) (src more : List α) :
    ((block.store pos src).bind fun after => after.store (pos + src.length) more) =
      block.store pos (src ++ more) := by
  by_cases hfits : pos + (src ++ more).length ≤ block.length
  · have hlen : pos + src.length + more.length ≤ block.length := by
      rw [List.length_append] at hfits
      omega
    -- the second store starts where the first one ended
    have hsrc : (block.take pos ++ src).length = pos + src.length := by
      simp only [List.length_append, List.length_take]
      omega
    have hafter : (block.take pos ++ src ++ block.drop (pos + src.length)).length = block.length := by
      rw [List.length_append, hsrc, List.length_drop]
      omega
    have htake : (block.take pos ++ src ++ block.drop (pos + src.length)).take (pos + src.length) =
        block.take pos ++ src := by
      rw [← hsrc, List.take_left]
    have hdrop : (block.take pos ++ src ++ block.drop (pos + src.length)).drop
        (pos + src.length + more.length) = block.drop (pos + src.length + more.length) := by
      rw [← List.drop_drop, ← hsrc, List.drop_left, List.drop_drop]
    unfold store
    rw [if_pos (by omega), Option.bind_some, hafter, if_pos hlen, htake, hdrop, if_pos hfits,
      List.length_append]
    simp only [List.append_assoc, Nat.add_assoc]
  · -- whichever store fails, there is no result
    have hnone : block.store pos (src ++ more) = none := store_eq_none.mpr (Nat.not_le.mp hfits)
    rw [List.length_append] at hfits
    rw [hnone]
    cases hstore : block.store pos src with
    | none => rfl
    | some after =>
      rw [Option.bind_some, store_eq_none, length_store hstore]
      omega

/-- Storing what a cell holds changes nothing. -/
theorem store_same {a : α} (h : block[pos]? = some a) : block.store pos [a] = some block := by
  obtain ⟨hlt, ha⟩ := List.getElem?_eq_some_iff.mp h
  have hsplit : block.take pos ++ [a] ++ block.drop (pos + 1) = block := by
    rw [List.append_assoc, List.singleton_append, ← ha, ← List.drop_eq_getElem_cons hlt,
      List.take_append_drop]
  unfold store
  rw [if_pos (show pos + [a].length ≤ block.length from hlt)]
  exact congrArg some hsplit

/-- A store to the start of a block leaves `src` there. -/
theorem starts_of_store_zero (h : block.store 0 src = some after) : src <+: after := by
  unfold store at h
  split at h
  · cases h
    rw [List.take_zero, List.nil_append]
    exact List.prefix_append _ _
  · cases h

/-! ## Section 2: Pieces with separators -/

/-- Copy a piece to the current position, put the separator behind it and move on. -/
def put_piece (sep : α) (buffer : Block α × Nat) (piece : List α) : Option (Block α × Nat) := do
  let index ← buffer.1.store buffer.2 piece
  let index_len := buffer.2 + piece.length
  let index ← index.store index_len [sep]
  return (index, index_len + 1)

/-- Put all the pieces from the start of the block on, and the terminator. -/
def put_pieces (sep nul : α) (block : Block α) (pieces : List (List α)) : Option (Block α) := do
  let (index, index_len) ← pieces.foldlM (put_piece sep) (block, 0)
  index.store index_len [nul]

theorem length_terminated (sep : α) (pieces : List (List α)) :
    (terminated sep pieces).length = (pieces.map fun piece => piece.length + 1).sum := by
  simp [terminated, List.length_flatMap]

theorem put_piece_eq (sep : α) (block : Block α) (pos : Nat) (piece : List α) :
    put_piece sep (block, pos) piece =
      (block.store pos (piece ++ [sep])).map fun after => (after, pos + (piece ++ [sep]).length) := by
  rw [← store_append]
  unfold put_piece
  cases block.store pos piece with
  | none => rfl
  | some index => cases hsep : index.store (pos + piece.length) [sep] <;> simp [hsep, Nat.add_assoc]

theorem foldlM_put_piece (sep : α) (pieces : List (List α)) (block : Block α) (pos : Nat)
    (hpos : pos ≤ block.length) :
    pieces.foldlM (put_piece sep) (block, pos) =
      (block.store pos (terminated sep pieces)).map fun after =>
        (after, pos + (terminated sep pieces).length) := by
  induction pieces generalizing block pos with
  | nil => simp [store, hpos]
  | cons piece pieces ih =>
    have hcons : terminated sep (piece :: pieces) = (piece ++ [sep]) ++ terminated sep pieces := rfl
    rw [List.foldlM_cons, put_piece_eq, hcons,
      ← store_append block pos (piece ++ [sep]) (terminated sep pieces)]
    cases hstore : block.store pos (piece ++ [sep]) with
    | none => rfl
    | some after =>
      have hroom : pos + (piece ++ [sep]).length ≤ after.length := by
        rw [length_store hstore]
        exact store_isSome.mp (by rw [hstore]; rfl)
      have hrest := ih after (pos + (piece ++ [sep]).length) hroom
      rw [Option.map_some, Option.bind_eq_bind, Option.bind_some, Option.bind_some, hrest]
      simp only [Nat.add_assoc, List.length_append]

/-- Everything that `put_pieces` writes, as one store. -/
theorem put_pieces_eq (sep nul : α) (block : Block α) (pieces : List (List α)) :
    put_pieces sep nul block pieces = block.store 0 (terminated sep pieces ++ [nul]) := by
  rw [← store_append, put_pieces, foldlM_put_piece sep pieces block 0 (Nat.zero_le _)]
  cases block.store 0 (terminated sep pieces) <;> rfl

/-- The bytes written are the pieces, one separator for each, and the terminator. -/
theorem put_pieces_isSome {sep nul : α} {pieces : List (List α)} :
    (put_pieces sep nul block pieces).isSome = true ↔
      (pieces.map fun piece => piece.length + 1).sum + 1 ≤ block.length := by
  rw [put_pieces_eq, store_isSome, List.length_append, length_terminated, Nat.zero_add]
  rfl

theorem length_put_pieces {sep nul : α} {pieces : List (List α)}
    (h : put_pieces sep nul block pieces = some after) : after.length = block.length := by
  rw [put_pieces_eq] at h
  exact length_store h

/-! ## Section 3: Runs of partial steps -/

section runs
variable {σ τ ι : Type*} {step : σ → ι → Option σ}

/-- A run has a result if every step has one and keeps the invariant. -/
theorem foldlM_total {inv : σ → Prop}
    (hstep : ∀ s i, inv s → ∃ s', step s i = some s' ∧ inv s') (is : List ι) {s : σ} (h : inv s) :
    ∃ s', is.foldlM step s = some s' ∧ inv s' := by
  induction is generalizing s with
  | nil => exact ⟨s, rfl, h⟩
  | cons i is ih =>
    obtain ⟨s', hs', hinv⟩ := hstep s i h
    obtain ⟨last, hlast, hinv⟩ := ih hinv
    exact ⟨last, by rw [List.foldlM_cons, hs']; exact hlast, hinv⟩

/-- If every step with a result is a step of `total` on what `view` shows, then so
    is every run. -/
theorem view_foldlM {view : σ → τ} {total : τ → ι → τ}
    (hstep : ∀ s i s', step s i = some s' → view s' = total (view s) i) (is : List ι) {s s' : σ}
    (h : is.foldlM step s = some s') : view s' = is.foldl total (view s) := by
  induction is generalizing s with
  | nil =>
    cases h
    rfl
  | cons i is ih =>
    rw [List.foldlM_cons, Option.bind_eq_bind, Option.bind_eq_some_iff] at h
    obtain ⟨next, hnext, h⟩ := h
    rw [ih h, hstep s i next hnext, List.foldl_cons]

end runs

/-! ## Section 4: Terminated strings -/

variable [DecidableEq α] {nul : α}

/-- What stands before the first terminator. -/
def string (nul : α) (block : Block α) : List α := block.takeWhile (· ≠ nul)

theorem string_of_prefix {text : List α} (hfree : nul ∉ text) (h : text ++ [nul] <+: block) :
    block.string nul = text := by
  obtain ⟨rest, rfl⟩ := h
  unfold string
  rw [List.append_assoc, List.takeWhile_append_of_pos]
  · simp
  · intro c hc
    have hne : c ≠ nul := fun heq => hfree (heq ▸ hc)
    simpa using hne

theorem notMem_string (nul : α) (block : Block α) : nul ∉ block.string nul := by
  intro hmem
  have hne := List.mem_takeWhile_imp hmem
  simp at hne

/-- A copy of the string in a block, with its terminator. -/
def duplicate (nul : α) (block : Block α) : Block α := block.string nul ++ [nul]

theorem length_duplicate : (duplicate nul block).length = (block.string nul).length + 1 := by
  simp [duplicate]

/-- A terminator in the copy cuts the string. -/
theorem string_store_duplicate {n : Nat} (h : n ≤ (block.string nul).length) :
    ∃ after, (duplicate nul block).store n [nul] = some after ∧
      after.string nul = (block.string nul).take n := by
  have hfits : n + [nul].length ≤ (duplicate nul block).length := by
    rw [length_duplicate]
    exact Nat.succ_le_succ h
  refine ⟨_, if_pos hfits, ?_⟩
  apply string_of_prefix
  · exact fun hmem => notMem_string nul block (List.mem_of_mem_take hmem)
  · have htake : (duplicate nul block).take n = (block.string nul).take n := by
      rw [duplicate, List.take_append_of_le_length h]
    rw [htake]
    exact List.prefix_append _ _

/-- The string in a block after the pieces were put there. -/
theorem string_put_pieces {sep : α} {pieces : List (List α)}
    (hfree : nul ∉ terminated sep pieces) (h : put_pieces sep nul block pieces = some after) :
    after.string nul = terminated sep pieces := by
  rw [put_pieces_eq] at h
  exact string_of_prefix hfree (starts_of_store_zero h)

end Block

end PinbaEngine
