import Mathlib.Data.List.TakeWhile
import Mathlib.Data.Option.Basic

/-! # Loops that jump back

    A loop whose body either jumps back to its start with a new state or leaves with
    a result. `turns` runs the body a bounded number of times; `Leaves` says that some
    number of turns is enough, and `Ends` that there is such a result.

    The rules follow one turn of the body: leaving, jumping back, and jumping back
    within a set of states that nothing leaves.
-/

namespace PinbaEngine

/-- At most `n` turns of a loop. -/
def turns {σ ρ : Type*} (body : σ → σ ⊕ ρ) : Nat → σ → Option ρ
  | 0, _ => none
  | n + 1, s =>
    match body s with
    | .inl s => turns body n s
    | .inr r => some r

/-- The loop leaves with this result. -/
def Leaves {σ ρ : Type*} (body : σ → σ ⊕ ρ) (s : σ) (r : ρ) : Prop := ∃ n, turns body n s = some r

/-- The loop ends after finitely many turns. -/
def Ends {σ ρ : Type*} (body : σ → σ ⊕ ρ) (s : σ) : Prop := ∃ n, (turns body n s).isSome

section turns
variable {σ ρ : Type*} {body : σ → σ ⊕ ρ} {s s' : σ} {r r' : ρ}

theorem turns_mono {m n : Nat} (hmn : m ≤ n) (h : turns body m s = some r) :
    turns body n s = some r := by
  induction m generalizing n s with
  | zero => cases h
  | succ m ih =>
    obtain ⟨n, rfl⟩ : ∃ k, n = k + 1 := ⟨n - 1, by omega⟩
    rw [turns] at h ⊢
    cases hbody : body s with
    | inl s' =>
      rw [hbody] at h
      exact ih (by omega) h
    | inr r' =>
      rw [hbody] at h
      exact h

/-- A loop has one result. -/
theorem leaves_unique (h : Leaves body s r) (h' : Leaves body s r') : r = r' := by
  obtain ⟨m, hm⟩ := h
  obtain ⟨n, hn⟩ := h'
  have hr := turns_mono (Nat.le_max_left m n) hm
  rw [turns_mono (Nat.le_max_right m n) hn] at hr
  exact (Option.some.inj hr).symm

theorem ends_iff_leaves : Ends body s ↔ ∃ r, Leaves body s r := by
  unfold Ends Leaves
  simp only [Option.isSome_iff_exists]
  exact exists_comm

theorem turns_of_inr (h : body s = .inr r) (n : Nat) : turns body (n + 1) s = some r := by
  rw [turns, h]

theorem leaves_of_inr (h : body s = .inr r) : Leaves body s r := ⟨1, turns_of_inr h 0⟩

theorem leaves_inl_iff (h : body s = .inl s') : Leaves body s r ↔ Leaves body s' r := by
  constructor
  · rintro ⟨n, hn⟩
    cases n with
    | zero => cases hn
    | succ n =>
      rw [turns, h] at hn
      exact ⟨n, hn⟩
  · rintro ⟨n, hn⟩
    refine ⟨n + 1, ?_⟩
    rw [turns, h]
    exact hn

/-- From a set of states that always jumps back into itself there is no way out. -/
theorem not_leaves_of_trapped (trap : σ → Prop) (hstep : ∀ s, trap s → ∃ s', body s = .inl s' ∧ trap s')
    (hs : trap s) : ¬ Leaves body s r := by
  rintro ⟨n, hn⟩
  induction n generalizing s with
  | zero => cases hn
  | succ n ih =>
    obtain ⟨s', hbody, hs'⟩ := hstep s hs
    rw [turns, hbody] at hn
    exact ih hs' hn

/-- What holds of every result that the body leaves with, as long as its states are kept, holds of
    the result of the loop. -/
theorem leaves_kept (kept : σ → Prop) (good : ρ → Prop)
    (hback : ∀ s s', kept s → body s = .inl s' → kept s') (hleave : ∀ s r, kept s → body s = .inr r → good r)
    (hs : kept s) (h : Leaves body s r) : good r := by
  obtain ⟨n, hn⟩ := h
  induction n generalizing s with
  | zero => cases hn
  | succ n ih =>
    rw [turns] at hn
    cases hbody : body s with
    | inl s' =>
      rw [hbody] at hn
      exact ih (hback s s' hs hbody) hn
    | inr r' =>
      rw [hbody] at hn
      obtain rfl := Option.some.inj hn
      exact hleave s r' hs hbody

/-- What is left after passing over starts with a good element. -/
theorem good_of_dropWhile {α : Type*} {good : α → Bool} {xs l : List α} {a : α}
    (h : xs.dropWhile (fun a => !good a) = a :: l) : good a = true := by
  have hhead := List.head?_dropWhile_not (fun a => !good a) xs
  rw [h] at hhead
  simpa using hhead

/-- Nothing is passed over. -/
theorem dropWhile_of_good {α : Type*} {good : α → Bool} {xs : List α} (h : ∀ a ∈ xs, good a = true) :
    xs.dropWhile (fun a => !good a) = xs := by
  cases xs with
  | nil => rfl
  | cons a l =>
    have hgood := h a List.mem_cons_self
    rw [List.dropWhile_cons_of_neg (by simp [hgood])]

/-- A loop that looks at one element after the other and passes over those that are not
    good comes to the first good one, and what it keeps is still the same. -/
theorem leaves_skip {α κ : Type*} {ahead : σ → List α} {good : α → Bool} (keep : σ → κ)
    (hstep : ∀ s a l, ahead s = a :: l → good a = false →
      ∃ s', body s = .inl s' ∧ ahead s' = l ∧ keep s' = keep s) (s : σ) :
    ∃ s', ahead s' = (ahead s).dropWhile (fun a => !good a) ∧ keep s' = keep s ∧
      ∀ r, Leaves body s r ↔ Leaves body s' r := by
  generalize hl : ahead s = l
  induction l generalizing s with
  | nil => exact ⟨s, hl, rfl, fun _ => Iff.rfl⟩
  | cons a l ih =>
    cases hgood : good a with
    | true =>
      rw [List.dropWhile_cons_of_neg (by simp [hgood])]
      exact ⟨s, hl, rfl, fun _ => Iff.rfl⟩
    | false =>
      obtain ⟨s₁, hbody, hl₁, hkeep₁⟩ := hstep s a l hl hgood
      obtain ⟨s₂, hl₂, hkeep₂, hleaves⟩ := ih s₁ hl₁
      rw [List.dropWhile_cons_of_pos (by simp [hgood])]
      exact ⟨s₂, hl₂, hkeep₂.trans hkeep₁, fun r => (leaves_inl_iff hbody).trans (hleaves r)⟩

end turns

end PinbaEngine
