import Mathlib.Algebra.Order.Group.Multiset
import PinbaEngine.Lib.Turns

/-! # Programs that take locks

    A program works on some data and takes and gives back locks one by one, as code with
    early returns does. The locks that its thread holds are a multiset: a lock may be
    held for reading more than once. While the thread waits for a lock, other threads
    change the data.

    A program can go wrong by giving back a lock that it does not hold. That is
    told apart from having no result for another reason, a crash or a loop without an
    end. `Moves` says which locks are held after a program, whatever its data are; the
    rules follow the steps of the program. A loop that follows one without locks turn by
    turn has its result (`loop_of_follows`).
-/

namespace PinbaEngine

/-- The data that a thread sees, and the locks that it holds. -/
structure Thread (σ L : Type) where
  data : σ
  held : Multiset L

/-- Ways not to return. -/
inductive Stuck where
  /-- A lock was given back that is not held. -/
  | not_held
  | no_return
deriving DecidableEq

abbrev Locked (σ L α : Type) := StateT (Thread σ L) (Except Stuck) α

namespace Locked

variable {σ L α β τ ρ : Type}

/-! ## Section 1: Steps -/

/-- Something is read from the data. -/
def view (f : σ → α) : Locked σ L α := fun t => .ok (f t.data, t)

/-- The data are changed. -/
def update (f : σ → σ) : Locked σ L Unit := fun t => .ok ((), { t with data := f t.data })

/-- The thread waits for a lock and then holds it; `wake` is what others have done meanwhile. -/
def lock (wake : σ → σ) (l : L) : Locked σ L Unit := fun t => .ok ((), ⟨wake t.data, l ::ₘ t.held⟩)

/-- A lock is given back. -/
def unlock [DecidableEq L] (l : L) : Locked σ L Unit := fun t =>
  if l ∈ t.held then .ok ((), { t with held := t.held.erase l }) else .error .not_held

/-- There is no result. -/
def stop : Locked σ L α := fun _ => .error .no_return

/-- A loop that jumps back, or leaves with a result; it runs on if `n` turns are not enough. -/
def loop (body : β → Locked σ L (β ⊕ α)) : Nat → β → Locked σ L α
  | 0, _ => stop
  | n + 1, b => do
    match ← body b with
    | .inl b => loop body n b
    | .inr a => return a

/-! ## Section 2: The locks that are held -/

/-- No lock is given back that is not held, and a result comes with these locks. -/
def EndsWith (x : Locked σ L α) (t : Thread σ L) (after : α → Multiset L) : Prop :=
  match x t with
  | .ok (a, t') => t'.held = after a
  | .error e => e = .no_return

/-- The same for all data. -/
def Moves (x : Locked σ L α) (before : Multiset L) (after : α → Multiset L) : Prop :=
  ∀ s, EndsWith x ⟨s, before⟩ after

/-- A program gives back what it takes. -/
def Balanced (x : Locked σ L α) : Prop := ∀ held, Moves x held fun _ => held

variable {x : Locked σ L α} {f : α → Locked σ L β} {before held : Multiset L} {after : β → Multiset L}
  {mid last : α → Multiset L}

theorem moves_pure {a : α} (h : held = last a) : Moves (pure a : Locked σ L α) held last := fun _ => h

theorem moves_stop : Moves (stop : Locked σ L α) held last := fun _ => rfl

theorem moves_bind (hx : Moves x before mid) (hf : ∀ a, Moves (f a) (mid a) after) :
    Moves (x >>= f) before after := by
  intro s
  have hs := hx s
  unfold EndsWith at hs ⊢
  have hrun : (x >>= f) ⟨s, before⟩ = (x ⟨s, before⟩).bind fun r => f r.1 r.2 := rfl
  rw [hrun]
  cases hr : x ⟨s, before⟩ with
  | error e =>
    rw [hr] at hs
    exact hs
  | ok r =>
    obtain ⟨a, t⟩ := r
    rw [hr] at hs
    obtain ⟨s', held'⟩ := t
    obtain rfl : held' = mid a := hs
    exact hf a s'

/-- A call in the middle of a program. -/
theorem moves_call (hx : Balanced x) (hf : ∀ a, Moves (f a) held after) : Moves (x >>= f) held after :=
  moves_bind (hx held) hf

theorem balanced_bind (hx : Balanced x) (hf : ∀ a, Balanced (f a)) : Balanced (x >>= f) :=
  fun held => moves_call hx fun a => hf a held

theorem balanced_pure (a : α) : Balanced (pure a : Locked σ L α) := fun _ => moves_pure rfl

/-! Reading and writing, and then the rest. -/

theorem moves_view {g : σ → α} (hf : ∀ a, Moves (f a) held after) : Moves (view g >>= f) held after :=
  fun s => hf (g s) s

theorem moves_update {g : σ → σ} {f : Unit → Locked σ L β} (hf : Moves (f ()) held after) :
    Moves (update g >>= f) held after := fun s => hf (g s)

/-- A call, and something written behind it. -/
theorem balanced_then_update {g : σ → σ} (hx : Balanced x) :
    Balanced (do
      let a ← x
      update g
      return a) := fun _ => moves_call hx fun _ => moves_update (moves_pure rfl)

theorem balanced_update (g : σ → σ) : Balanced (update g : Locked σ L Unit) := fun _ _ => rfl

theorem moves_ite {c : Prop} [Decidable c] {y z : Locked σ L β} (hy : c → Moves y before after)
    (hz : ¬ c → Moves z before after) : Moves (if c then y else z) before after := by
  split
  · next hc => exact hy hc
  · next hc => exact hz hc

/-! Taking and giving back, and then the rest. -/

section locks
variable {wake : σ → σ} {l : L} {g : Unit → Locked σ L β}

theorem moves_lock (hg : Moves (g ()) (l ::ₘ held) after) : Moves (lock wake l >>= g) held after :=
  fun s => hg (wake s)

theorem moves_lock_last {last : Unit → Multiset L} (h : l ::ₘ held = last ()) :
    Moves (lock wake l : Locked σ L Unit) held last := fun _ => h

variable [DecidableEq L]

/-- The lock that was taken last is given back. -/
theorem moves_unlock (hg : Moves (g ()) held after) : Moves (unlock l >>= g) (l ::ₘ held) after := by
  refine @moves_bind _ _ _ _ _ _ _ _ (fun _ => held) (fun s => ?_) fun _ => hg
  unfold EndsWith unlock
  simp

/-- The lock that was taken before the last one is given back. -/
theorem moves_unlock_below {l' : L} (hg : Moves (g ()) (l' ::ₘ held) after) :
    Moves (unlock l >>= g) (l' ::ₘ l ::ₘ held) after := by
  rw [Multiset.cons_swap]
  exact moves_unlock hg

/-- Nothing follows. -/
theorem moves_unlock_last {last : Unit → Multiset L} (h : held = last ()) :
    Moves (unlock l : Locked σ L Unit) (l ::ₘ held) last := by
  intro s
  unfold EndsWith unlock
  simp [h]

/-- An exit under a lock. -/
theorem moves_exit {a : α} (h : held = last a) :
    Moves (unlock l >>= fun _ => pure a : Locked σ L α) (l ::ₘ held) last := moves_unlock (moves_pure h)

end locks

/-! ## Section 3: Loops -/

/-- Every turn jumps back with the locks of the start. -/
theorem moves_loop {body : β → Locked σ L (β ⊕ α)}
    (h : ∀ b, Moves (body b) before (Sum.elim (fun _ => before) last)) (n : Nat) (b : β) :
    Moves (loop body n b) before last := by
  induction n generalizing b with
  | zero => exact moves_stop
  | succ n ih =>
    refine moves_bind (h b) fun r => ?_
    cases r with
    | inl b => exact ih b
    | inr a => exact moves_pure rfl

theorem moves_forM {f : α → Locked σ L PUnit} {xs : List α} (h : ∀ a ∈ xs, Moves (f a) held fun _ => held) :
    Moves (xs.forM f) held fun _ => held := by
  induction xs with
  | nil => exact moves_pure rfl
  | cons a xs ih =>
    exact moves_bind (h a List.mem_cons_self) fun _ => ih fun b hb => h b (List.mem_cons_of_mem a hb)

/-! ## Section 4: Runs -/

variable {t : Thread σ L}

theorem run_view {g : σ → α} {f : α → Locked σ L β} :
    (view g >>= f) t = f (g t.data) t := rfl

theorem run_update {g : σ → σ} {f : Unit → Locked σ L β} :
    (update g >>= f) t = f () ⟨g t.data, t.held⟩ := rfl

theorem run_lock {wake : σ → σ} {l : L} {f : Unit → Locked σ L β} :
    (lock wake l >>= f) t = f () ⟨wake t.data, l ::ₘ t.held⟩ := rfl

theorem run_unlock [DecidableEq L] {l : L} {f : Unit → Locked σ L β} {s : σ} {held : Multiset L} :
    (unlock l >>= f) ⟨s, l ::ₘ held⟩ = f () ⟨s, held⟩ := by
  have hrun : (unlock l >>= f) ⟨s, l ::ₘ held⟩ = (unlock l ⟨s, l ::ₘ held⟩).bind fun r => f r.1 r.2 := rfl
  rw [hrun, unlock, if_pos (Multiset.mem_cons_self l held)]
  simp [Except.bind]

/-- The turns of a loop are those of a loop that takes no locks: related ones jump back to related
    ones, and leave with the same result. -/
def Follows (body : β → Locked σ L (β ⊕ α)) (turn : τ → τ ⊕ ρ) (Related : τ → β → Thread σ L → Prop)
    (out : ρ → α × Thread σ L) : Prop :=
  ∀ x b t, Related x b t → ∃ r t', body b t = .ok (r, t') ∧
    Sum.LiftRel (Related · · t') (fun y a => (a, t') = out y) (turn x) r

theorem loop_of_follows {body : β → Locked σ L (β ⊕ α)} {turn : τ → τ ⊕ ρ}
    {Related : τ → β → Thread σ L → Prop} {out : ρ → α × Thread σ L} (hturn : Follows body turn Related out)
    (n : Nat) {x : τ} {b : β} (h : Related x b t) :
    loop body n b t = (turns turn n x).elim (.error .no_return) fun y => .ok (out y) := by
  induction n generalizing x b t with
  | zero => rfl
  | succ n ih =>
    obtain ⟨r, t', hbody, hr⟩ := hturn x b t h
    have hrun : loop body (n + 1) b t = (body b t).bind fun r =>
        (match r.1 with | .inl b => loop body n b | .inr a => pure a : Locked σ L α) r.2 := rfl
    rw [turns, hrun, hbody]
    cases hx : turn x with
    | inl y =>
      rw [hx] at hr
      cases hr with
      | inl hy => exact ih hy
    | inr y =>
      rw [hx] at hr
      cases hr with
      | inr hy => exact congrArg Except.ok hy

theorem endsWith_lock {wake : σ → σ} {l : L} {f : Unit → Locked σ L β} :
    EndsWith (lock wake l >>= f) t after = EndsWith (f ()) ⟨wake t.data, l ::ₘ t.held⟩ after := rfl

theorem endsWith_view {g : σ → α} : EndsWith (view g >>= f) t after = EndsWith (f (g t.data)) t after := rfl

theorem endsWith_ite {c : Prop} [Decidable c] {y z : Locked σ L β} (hy : c → EndsWith y t after)
    (hz : ¬ c → EndsWith z t after) : EndsWith (if c then y else z) t after := by
  split
  · next hc => exact hy hc
  · next hc => exact hz hc

/-- What is done with the result alone does not matter. -/
theorem endsWith_map_iff {g : α → β} :
    EndsWith (x >>= fun a => pure (g a)) t (fun _ => held) ↔ EndsWith x t fun _ => held := by
  unfold EndsWith
  have hrun : (x >>= fun a => pure (g a)) t = (x t).bind fun r => .ok (g r.1, r.2) := rfl
  rw [hrun]
  cases x t <;> exact Iff.rfl

end Locked

end PinbaEngine
