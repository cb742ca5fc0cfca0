import Mathlib.Algebra.Order.BigOperators.Group.List
import Mathlib.Algebra.Order.Group.Multiset
import Mathlib.Algebra.Order.Group.Nat
import Mathlib.Data.List.AList

/-! # Programs over owned memory

    A program allocates, reads, writes and frees the blocks of a memory, and may throw an
    exception. What uses or frees a block that is not there has no result.

    `Runs x own post thrown` says that a program that owns the blocks `own` has a result,
    whatever else is in memory, and leaves everything else as it is; `post` and `thrown`
    say what it owns in the end. The rest of the memory is part of the definition, so a
    program can be used below any other blocks (`runs_frame`). A block that nobody owns
    in the end would be a leak: there is no rule that drops one.
-/

/-- The blocks that somebody owns, by address. -/
abbrev Blocks (V : Type) := Multiset (Nat × V)

/-- The blocks in use, and how often a new one was asked for. -/
structure BlockMemory (V : Type) where
  blocks : AList fun _ : Nat => V
  asked : Nat

/-- An allocator answers null, or with an address that is not in use. -/
structure Allocator (V : Type) where
  answer : BlockMemory V → Option Nat
  fresh : ∀ m p, answer m = some p → p ∉ m.blocks

/-- A program that may throw `ε`. -/
abbrev MemoryProgram (V ε α : Type) := ExceptT ε (StateT (BlockMemory V) Option) α

namespace BlockMemory

variable {V ε α β : Type}

def empty : BlockMemory V := ⟨∅, 0⟩

/-- Everything in memory. -/
def all (m : BlockMemory V) : Blocks V := (m.blocks.entries.map fun e => (e.1, e.2) : List (Nat × V))

/-! ## Section 1: Steps -/

/-- The next block lies behind all others. -/
def bump (V : Type) : Allocator V where
  answer m := some (m.blocks.keys.foldr (· + ·) 0 + 1)
  fresh m p h := by
    obtain rfl := Option.some.inj h
    intro hmem
    have hle : _ ≤ m.blocks.keys.foldr (· + ·) 0 := List.le_sum_of_mem (AList.mem_keys.mp hmem)
    omega

def malloc (a : Allocator V) (v : V) : MemoryProgram V ε (Option Nat) := fun m =>
  match a.answer m with
  | none => some (.ok none, { m with asked := m.asked + 1 })
  | some p => some (.ok (some p), ⟨m.blocks.insert p v, m.asked + 1⟩)

def load (p : Nat) : MemoryProgram V ε V := fun m => (m.blocks.lookup p).map fun v => (.ok v, m)

def store (p : Nat) (v : V) : MemoryProgram V ε Unit := fun m =>
  if p ∈ m.blocks then some (.ok (), { m with blocks := m.blocks.insert p v }) else none

def release (p : Nat) : MemoryProgram V ε Unit := fun m =>
  if p ∈ m.blocks then some (.ok (), { m with blocks := m.blocks.erase p }) else none

/-- `free`: a null pointer is left alone. -/
def free : Option Nat → MemoryProgram V ε Unit
  | none => pure ()
  | some p => release p

/-- Ask the environment a question. -/
def ask (question : BlockMemory V → Bool) : MemoryProgram V ε Bool := fun m =>
  some (.ok (question m), { m with asked := m.asked + 1 })

/-- There is no result. -/
def undefined : MemoryProgram V ε α := fun _ => none

/-- Handle an exception. -/
def handle (x : MemoryProgram V ε α) (h : ε → MemoryProgram V ε α) : MemoryProgram V ε α := tryCatch x h

/-! ## Section 2: The triple -/

/-- A result satisfies `post`, an exception `thrown`. -/
def Outcome (post : α → Blocks V → Prop) (thrown : ε → Blocks V → Prop) :
    Except ε α → Blocks V → Prop
  | .ok a => post a
  | .error e => thrown e

def Runs (x : MemoryProgram V ε α) (own : Blocks V) (post : α → Blocks V → Prop)
    (thrown : ε → Blocks V → Prop) : Prop :=
  ∀ m F, m.all = own + F →
    ∃ r m' own', x m = some (r, m') ∧ m'.all = own' + F ∧ Outcome post thrown r own'

variable {x : MemoryProgram V ε α} {f : α → MemoryProgram V ε β} {own own' F : Blocks V}
  {mid : α → Blocks V → Prop} {post : β → Blocks V → Prop} {thrown : ε → Blocks V → Prop}

theorem runs_pure {b : β} (h : post b own) : Runs (pure b : MemoryProgram V ε β) own post thrown :=
  fun m _ hm => ⟨.ok b, m, own, rfl, hm, h⟩

theorem runs_throw {e : ε} (h : thrown e own) :
    Runs (throw e : MemoryProgram V ε β) own post thrown :=
  fun m _ hm => ⟨.error e, m, own, rfl, hm, h⟩

theorem runs_bind (hx : Runs x own mid thrown)
    (hf : ∀ a own', mid a own' → Runs (f a) own' post thrown) : Runs (x >>= f) own post thrown := by
  intro m F hm
  obtain ⟨r, m₁, own₁, hr, hm₁, hout⟩ := hx m F hm
  cases r with
  | error e =>
    refine ⟨.error e, m₁, own₁, ?_, hm₁, hout⟩
    show (x m).bind _ = _
    rw [hr]
    rfl
  | ok a =>
    obtain ⟨r₂, m₂, own₂, hr₂, hm₂, hout₂⟩ := hf a own₁ hout m₁ F hm₁
    refine ⟨r₂, m₂, own₂, ?_, hm₂, hout₂⟩
    show (x m).bind _ = _
    rw [hr]
    exact hr₂

theorem runs_mono {thrown' : ε → Blocks V → Prop} (hx : Runs x own mid thrown)
    {last : α → Blocks V → Prop} (hpost : ∀ a own', mid a own' → last a own')
    (hthrown : ∀ e own', thrown e own' → thrown' e own') : Runs x own last thrown' := by
  intro m F hm
  obtain ⟨r, m', own', hr, hm', hout⟩ := hx m F hm
  refine ⟨r, m', own', hr, hm', ?_⟩
  cases r with
  | error e => exact hthrown e own' hout
  | ok a => exact hpost a own' hout

/-- Other blocks stay as they are. -/
theorem runs_frame (hx : Runs x own mid thrown) (F : Blocks V) :
    Runs x (own + F) (fun a all => ∃ own', all = own' + F ∧ mid a own')
      fun e all => ∃ own', all = own' + F ∧ thrown e own' := by
  intro m rest' hm
  rw [add_assoc] at hm
  obtain ⟨r, m', own', hr, hm', hout⟩ := hx m (F + rest') hm
  refine ⟨r, m', own' + F, hr, by rw [hm', add_assoc], ?_⟩
  cases r with
  | error e => exact ⟨own', rfl, hout⟩
  | ok a => exact ⟨own', rfl, hout⟩

theorem runs_throw_bind {e : ε} (h : thrown e own) :
    Runs ((throw e : MemoryProgram V ε α) >>= f) own post thrown :=
  fun m _ hm => ⟨.error e, m, own, rfl, hm, h⟩

/-- A call below other blocks, and then the rest of the program. -/
theorem runs_call (hx : Runs x own mid fun e own' => thrown e (own' + F))
    (hf : ∀ a own', mid a own' → Runs (f a) (own' + F) post thrown) :
    Runs (x >>= f) (own + F) post thrown := by
  refine runs_bind (runs_mono (runs_frame hx F) (fun _ _ h => h) ?_) ?_
  · rintro e _ ⟨own', rfl, h⟩
    exact h
  · rintro a _ ⟨own', rfl, h⟩
    exact hf a own' h

theorem runs_handle {h : ε → MemoryProgram V ε β} {x : MemoryProgram V ε β}
    (caught : ε → Blocks V → Prop) (hx : Runs x own post caught)
    (hh : ∀ e own', caught e own' → Runs (h e) own' post thrown) :
    Runs (handle x h) own post thrown := by
  intro m F hm
  obtain ⟨r, m₁, own₁, hr, hm₁, hout⟩ := hx m F hm
  cases r with
  | ok a =>
    refine ⟨.ok a, m₁, own₁, ?_, hm₁, hout⟩
    show (x m).bind _ = _
    rw [hr]
    rfl
  | error e =>
    obtain ⟨r₂, m₂, own₂, hr₂, hm₂, hout₂⟩ := hh e own₁ hout m₁ F hm₁
    refine ⟨r₂, m₂, own₂, ?_, hm₂, hout₂⟩
    show (x m).bind _ = _
    rw [hr]
    exact hr₂

/-! ## Section 3: Rules of the steps -/

variable {m : BlockMemory V} {p : Nat} {v v' : V}

theorem mem_all : (p, v) ∈ m.all ↔ m.blocks.lookup p = some v := by
  unfold all
  rw [Multiset.mem_coe, List.mem_map, ← Option.mem_def, AList.mem_lookup_iff]
  constructor
  · rintro ⟨e, he, heq⟩
    obtain ⟨rfl, rfl⟩ := Prod.mk.inj heq
    exact he
  · exact fun h => ⟨_, h, rfl⟩

theorem all_insert (h : p ∉ m.blocks) (n : Nat) : all ⟨m.blocks.insert p v, n⟩ = {(p, v)} + m.all := by
  unfold all
  rw [AList.entries_insert_of_notMem h]
  rfl

/-- Without its block at `p` the memory is the rest. -/
theorem all_erase (h : m.all = {(p, v)} + F) (n : Nat) : all ⟨m.blocks.erase p, n⟩ = F := by
  have hmem : (⟨p, v⟩ : Sigma fun _ : Nat => V) ∈ m.blocks.entries :=
    AList.mem_lookup_iff.mp (mem_all.mp (h ▸ Multiset.mem_add.mpr (.inl (Multiset.mem_singleton_self _))))
  have hperm : m.blocks.entries.Perm (⟨p, v⟩ :: m.blocks.entries.kerase p) := by
    obtain ⟨v', l₁, l₂, hnot, hl, hk⟩ := List.exists_of_kerase (List.mem_keys_of_mem hmem)
    obtain rfl : v' = v := by
      have hnd := m.blocks.nodupKeys
      have hv' : (⟨p, v'⟩ : Sigma fun _ : Nat => V) ∈ m.blocks.entries := by
        rw [hl]
        simp
      exact eq_of_heq (Sigma.mk.inj (hnd.eq_of_fst_eq hv' hmem rfl)).2
    rw [hk, hl]
    exact List.perm_middle
  have hall : m.all = {(p, v)} + all ⟨m.blocks.erase p, n⟩ :=
    Multiset.coe_eq_coe.mpr (hperm.map fun e => (e.1, e.2))
  exact (add_left_cancel (h.symm.trans hall)).symm

theorem mem_of_all (h : m.all = {(p, v)} + F) : p ∈ m.blocks :=
  AList.lookup_isSome.mp (by
    rw [mem_all.mp (h ▸ Multiset.mem_add.mpr (.inl (Multiset.mem_singleton_self (p, v))))]
    rfl)

section rules
variable {f : Unit → MemoryProgram V ε β} {g : V → MemoryProgram V ε β}
  {k : Option Nat → MemoryProgram V ε β}

theorem runs_load (hmem : (p, v) ∈ own) (h : Runs (g v) own post thrown) :
    Runs (load p >>= g) own post thrown := by
  intro m F hm
  have hlookup : m.blocks.lookup p = some v := mem_all.mp (by
    rw [hm]
    exact Multiset.mem_add.mpr (.inl hmem))
  obtain ⟨r, m', own', hr, hout⟩ := h m F hm
  refine ⟨r, m', own', ?_, hout⟩
  show ((m.blocks.lookup p).map _).bind _ = _
  rw [hlookup]
  exact hr

theorem runs_store (hown : own = {(p, v)} + F) (h : Runs (f ()) ({(p, v')} + F) post thrown) :
    Runs (store p v' >>= f) own post thrown := by
  intro m others hm
  rw [hown, add_assoc] at hm
  obtain ⟨r, m', own', hr, hout⟩ := h { m with blocks := m.blocks.insert p v' } others (by
    have herase : (m.blocks.erase p).insert p v' = m.blocks.insert p v' := by
      apply AList.ext
      rw [AList.entries_insert, AList.entries_insert]
      show _ :: List.kerase p (List.kerase p m.blocks.entries) = _
      rw [List.kerase_of_notMem_keys (List.notMem_keys_kerase p m.blocks.nodupKeys)]
    rw [← herase, all_insert (m := ⟨m.blocks.erase p, m.asked⟩)
      (fun hmem => (AList.mem_erase.mp hmem).1 rfl), all_erase hm, add_assoc])
  refine ⟨r, m', own', ?_, hout⟩
  show (store (ε := ε) p v' m).bind _ = _
  unfold store
  rw [if_pos (mem_of_all hm)]
  exact hr

theorem runs_release (hown : own = {(p, v)} + F) (h : Runs (f ()) F post thrown) :
    Runs (release p >>= f) own post thrown := by
  intro m others hm
  rw [hown, add_assoc] at hm
  obtain ⟨r, m', own', hr, hout⟩ := h { m with blocks := m.blocks.erase p } others (all_erase hm _)
  refine ⟨r, m', own', ?_, hout⟩
  show (release (ε := ε) p m).bind _ = _
  unfold release
  rw [if_pos (mem_of_all hm)]
  exact hr

theorem runs_malloc {a : Allocator V}
    (hnull : (∃ m, a.answer m = none) → Runs (k none) own post thrown)
    (hsome : ∀ p, Runs (k (some p)) ({(p, v)} + own) post thrown) :
    Runs (malloc a v >>= k) own post thrown := by
  intro m F hm
  cases ha : a.answer m with
  | none =>
    obtain ⟨r, m', own', hr, hout⟩ := hnull ⟨m, ha⟩ { m with asked := m.asked + 1 } F hm
    refine ⟨r, m', own', ?_, hout⟩
    show (malloc (ε := ε) a v m).bind _ = _
    unfold malloc
    rw [ha]
    exact hr
  | some p =>
    obtain ⟨r, m', own', hr, hout⟩ := hsome p ⟨m.blocks.insert p v, m.asked + 1⟩ F (by
      rw [all_insert (a.fresh m p ha), hm, add_assoc])
    refine ⟨r, m', own', ?_, hout⟩
    show (malloc (ε := ε) a v m).bind _ = _
    unfold malloc
    rw [ha]
    exact hr

/-- Every answer is possible. -/
theorem runs_ask {question : BlockMemory V → Bool} {k : Bool → MemoryProgram V ε β}
    (h : ∀ b, Runs (k b) own post thrown) : Runs (ask question >>= k) own post thrown := by
  intro m F hm
  exact h (question m) { m with asked := m.asked + 1 } F hm

end rules

end BlockMemory
