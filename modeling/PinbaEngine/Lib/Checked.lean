import Mathlib.Data.List.Basic
import PinbaEngine.Lib.Turns

/-! # Checked accesses

    Programs over arrays, in a monad with two ways to stop: a `throw` is a return
    that the program means, and an access outside of an array has no result at
    all. A program is safe for a postcondition if it has a result and every
    result that is not thrown satisfies it.

    The rules of this triple follow the shape of a program. A loop over `range n`
    has an invariant that may depend on the number of turns done.
-/

namespace PinbaEngine

/-- A program that may throw `ε`, and has no result after a bad access. -/
abbrev Checked (ε α : Type) := ExceptT ε Option α

namespace Checked

variable {ε α β σ : Type}

/-! ## Section 1: Accesses -/

/-- Index `i` is inside of an array of `n` cells. -/
def inBounds (i n : Nat) : Checked ε Unit := ExceptT.mk (if i < n then some (.ok ()) else none)

def read (xs : List α) (i : Nat) : Checked ε α := ExceptT.mk (xs[i]?.map .ok)

def write (xs : List α) (i : Nat) (a : α) : Checked ε (List α) :=
  ExceptT.mk (if i < xs.length then some (.ok (xs.set i a)) else none)

/-! ## Section 2: The triple -/

/-- No access is bad, and a result that is not thrown satisfies `post`. -/
def Safe (x : Checked ε α) (post : α → Prop) : Prop :=
  ∃ r, x.run = some r ∧ ∀ a, r = .ok a → post a

variable {x : Checked ε α} {f : α → Checked ε β} {post mid : α → Prop} {goal : β → Prop}

theorem safe_pure {a : α} (h : post a) : Safe (pure a : Checked ε α) post :=
  ⟨.ok a, rfl, by rintro b ⟨⟩; exact h⟩

theorem safe_throw {e : ε} : Safe (throw e : Checked ε α) post :=
  ⟨.error e, rfl, by rintro b ⟨⟩⟩

theorem safe_bind (hx : Safe x mid) (hf : ∀ a, mid a → Safe (f a) goal) : Safe (x >>= f) goal := by
  obtain ⟨r, hr, hmid⟩ := hx
  cases r with
  | error e =>
    refine ⟨.error e, ?_, by rintro b ⟨⟩⟩
    rw [ExceptT.run_bind, hr]
    rfl
  | ok a =>
    obtain ⟨s, hs, hgoal⟩ := hf a (hmid a rfl)
    refine ⟨s, ?_, hgoal⟩
    rw [ExceptT.run_bind, hr]
    exact hs

/-- Nothing needs to be known about the first result. -/
theorem safe_seq (hx : Safe x fun _ => True) (hf : ∀ a, Safe (f a) goal) : Safe (x >>= f) goal :=
  safe_bind hx fun a _ => hf a

theorem safe_mono (hx : Safe x mid) (h : ∀ a, mid a → post a) : Safe x post := by
  obtain ⟨r, hr, hmid⟩ := hx
  exact ⟨r, hr, fun a ha => h a (hmid a ha)⟩

theorem safe_ite {c : Prop} [Decidable c] {y z : Checked ε α} (hy : c → Safe y post)
    (hz : ¬ c → Safe z post) : Safe (if c then y else z) post := by
  split
  · next hc => exact hy hc
  · next hc => exact hz hc

/-! An access in range goes on with what it yields. -/

theorem safe_inBounds {i n : Nat} {f : Unit → Checked ε β} (h : i < n) (hf : Safe (f ()) goal) :
    Safe (inBounds i n >>= f) goal := by
  have hin : Safe (inBounds i n : Checked ε Unit) fun _ => True :=
    ⟨.ok (), if_pos h, fun _ _ => trivial⟩
  exact safe_seq hin fun _ => hf

theorem safe_read {xs : List α} {i : Nat} (h : i < xs.length) (hf : Safe (f xs[i]) goal) :
    Safe (read xs i >>= f) goal := by
  have hread : Safe (read xs i : Checked ε α) (· = xs[i]) := by
    refine ⟨.ok xs[i], ?_, by rintro b ⟨⟩; rfl⟩
    show xs[i]?.map Except.ok = _
    rw [List.getElem?_eq_getElem h]
    rfl
  exact safe_bind hread (by rintro a rfl; exact hf)

theorem safe_write {xs : List α} {i : Nat} {a : α} {f : List α → Checked ε β} (h : i < xs.length)
    (hf : Safe (f (xs.set i a)) goal) : Safe (write xs i a >>= f) goal := by
  have hwrite : Safe (write xs i a : Checked ε (List α)) (· = xs.set i a) :=
    ⟨.ok (xs.set i a), if_pos h, by rintro b ⟨⟩; rfl⟩
  exact safe_bind hwrite (by rintro ys rfl; exact hf)

/-- A program that cannot throw returns. -/
theorem safe_total {x : Checked Empty α} (h : Safe x post) :
    ∃ a, x.run = some (.ok a) ∧ post a := by
  obtain ⟨r, hr, hpost⟩ := h
  cases r with
  | error e => exact e.elim
  | ok a => exact ⟨a, hr, hpost a rfl⟩

/-! ## Section 3: Loops -/

/-- What every turn of a loop takes from `k` turns done to `k + 1`, the loop takes
    from none to all. -/
theorem safe_foldlM_range (inv : Nat → σ → Prop) {step : σ → Nat → Checked ε σ} {n : Nat} {s : σ}
    (hstep : ∀ k, k < n → ∀ s, inv k s → Safe (step s k) (inv (k + 1))) (h : inv 0 s) :
    Safe ((List.range n).foldlM step s) (inv n) := by
  induction n with
  | zero => exact safe_pure h
  | succ n ih =>
    rw [List.range_succ, List.foldlM_append]
    refine safe_bind (ih fun k hk => hstep k (by omega)) fun s hs => ?_
    rw [List.foldlM_cons]
    exact safe_bind (hstep n (by omega) s hs) fun s hs => safe_pure hs

/-- A loop that jumps back, and what it leaves with; no result if it still runs after `n` turns. -/
def loop (body : σ → σ ⊕ Except ε α) (n : Nat) (s : σ) : Checked ε α := ExceptT.mk (turns body n s)

/-! ## Section 4: Results -/

/-- A program that is done: it has thrown or has a result. -/
def settle (o : Option α) : Checked Unit α := ExceptT.mk (some (o.elim (.error ()) .ok))

theorem settle_some_bind (a : α) (f : α → Checked Unit β) : settle (some a) >>= f = f a := rfl

end Checked

end PinbaEngine
