import Mathlib.Data.List.Basic

/-! # Sequences of calls

    A reader calls an interface again and again, and the interface keeps a state
    between the calls: `call s a t` says that a call in state `s` may answer `a` and
    leave `t`. The first call of a sequence may be another one than the rest, as
    opening a scan and going on with it.

    - `Calls` are the answers of some calls in a row. An interface with one answer per
      state has one sequence of each length.
    - `firstAnswers` are the answers of a scan over a list: its items and, from then
      on, the end of file.
    - `ReadsUntil` are the answers up to one at which the reader stops.
-/

namespace PinbaEngine

section calls
variable {σ α ι : Type*}

/-- Every state has one answer. -/
def Deterministic (call : σ → α → σ → Prop) : Prop :=
  ∀ s a t a' t', call s a t → call s a' t' → a = a' ∧ t = t'

/-- The answers of calls in a row; after the first one they are made by `next`. -/
inductive Calls (next : σ → α → σ → Prop) : (σ → α → σ → Prop) → σ → List α → Prop
  | nil {call : σ → α → σ → Prop} {s : σ} : Calls next call s []
  | cons {call : σ → α → σ → Prop} {s t : σ} {a : α} {answers : List α} (h : call s a t)
    (hrest : Calls next next t answers) : Calls next call s (a :: answers)

variable {next first : σ → α → σ → Prop} {s : σ} {xs ys : List α}

/-- The shorter of two sequences is the start of the other one. -/
theorem calls_of_le (hnext : Deterministic next) (hfirst : Deterministic first)
    (h : Calls next first s xs) (h' : Calls next first s ys) (hlen : xs.length ≤ ys.length) :
    xs <+: ys := by
  induction h generalizing ys with
  | nil => exact List.nil_prefix
  | cons ha _ ih =>
    cases h' with
    | nil => simp at hlen
    | cons ha' hrest' =>
      obtain ⟨rfl, rfl⟩ := hfirst _ _ _ _ _ ha ha'
      exact List.cons_prefix_cons.mpr ⟨rfl, ih hnext hrest' (by simpa using hlen)⟩

theorem calls_unique (hnext : Deterministic next) (hfirst : Deterministic first)
    (h : Calls next first s xs) (h' : Calls next first s ys) (hlen : xs.length = ys.length) :
    xs = ys :=
  (calls_of_le hnext hfirst h h' (Nat.le_of_eq hlen)).eq_of_length hlen

/-- What every call answers, from states that no call leaves. -/
theorem calls_all (kept : σ → Prop) (good : α → Prop)
    (hstep : ∀ s a t, kept s → next s a t → good a ∧ kept t) (hs : kept s) (h : Calls next next s xs) :
    ∀ a ∈ xs, good a := by
  induction xs generalizing s with
  | nil => nofun
  | cons a xs ih =>
    cases h with
    | cons ha hrest =>
      obtain ⟨hgood, hkept⟩ := hstep _ _ _ hs ha
      exact List.forall_mem_cons.mpr ⟨hgood, ih hkept hrest⟩

/-! ### Scans -/

/-- The first `n` answers of a scan over the items. -/
def firstAnswers (item : ι → α) (eof : α) : List ι → Nat → List α
  | _, 0 => []
  | [], n + 1 => eof :: firstAnswers item eof [] n
  | i :: items, n + 1 => item i :: firstAnswers item eof items n

variable {item : ι → α} {eof : α}

@[simp] theorem length_firstAnswers (items : List ι) (n : Nat) :
    (firstAnswers item eof items n).length = n := by
  induction n generalizing items with
  | zero => cases items <;> rfl
  | succ n ih => cases items <;> simp [firstAnswers, ih]

/-- One call more than there are items. -/
theorem firstAnswers_all (items : List ι) :
    firstAnswers item eof items (items.length + 1) = items.map item ++ [eof] := by
  induction items with
  | nil => rfl
  | cons i items ih =>
    rw [List.length_cons, firstAnswers, ih]
    rfl

/-- If `At items` holds between the calls, where `items` are what the scan has still
    ahead, the calls answer the items and then the end of file. -/
theorem calls_ahead (At : List ι → σ → Prop) (hend : ∀ s, At [] s → ∃ t, next s eof t ∧ At [] t)
    (hitem : ∀ i items s, At (i :: items) s → ∃ t, next s (item i) t ∧ At items t)
    {items : List ι} (h : At items s) (n : Nat) :
    Calls next next s (firstAnswers item eof items n) := by
  induction n generalizing items s with
  | zero =>
    cases items <;> exact .nil
  | succ n ih =>
    cases items with
    | nil =>
      obtain ⟨t, ht, hat⟩ := hend s h
      exact .cons ht (ih hat)
    | cons i items =>
      obtain ⟨t, ht, hat⟩ := hitem i items s h
      exact .cons ht (ih hat)

/-! ### Reading up to an answer -/

/-- The answers up to the first one that stops the reader. -/
def ReadsUntil (stops : α → Prop) (next first : σ → α → σ → Prop) (s : σ) (answers : List α) : Prop :=
  ∃ a, stops a ∧ (∀ x ∈ answers, ¬ stops x) ∧ Calls next first s (answers ++ [a])

variable {stops : α → Prop}

/-- A reader that stops cannot have read on. -/
theorem readsUntil_length_le (hnext : Deterministic next) (hfirst : Deterministic first)
    (h : ReadsUntil stops next first s xs) (h' : ReadsUntil stops next first s ys) :
    ys.length ≤ xs.length := by
  obtain ⟨a, hstop, -, hcalls⟩ := h
  obtain ⟨b, -, hgo, hcalls'⟩ := h'
  by_contra hlt
  rw [Nat.not_le] at hlt
  have hpre := calls_of_le hnext hfirst hcalls hcalls' (by simp; omega)
  have hpre' : xs ++ [a] <+: ys := List.prefix_of_prefix_length_le hpre (List.prefix_append _ _)
    (by simp; omega)
  exact hgo a (hpre'.subset (by simp)) hstop

theorem readsUntil_unique (hnext : Deterministic next) (hfirst : Deterministic first)
    (h : ReadsUntil stops next first s xs) (h' : ReadsUntil stops next first s ys) : xs = ys := by
  have hlen : xs.length = ys.length :=
    Nat.le_antisymm (readsUntil_length_le hnext hfirst h' h)
      (readsUntil_length_le hnext hfirst h h')
  obtain ⟨a, -, -, hcalls⟩ := h
  obtain ⟨b, -, -, hcalls'⟩ := h'
  have heq := calls_unique hnext hfirst hcalls hcalls' (by simp [hlen])
  exact (List.append_inj heq hlen).1

end calls

end PinbaEngine
