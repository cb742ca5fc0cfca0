import PinbaEngine.Lib.KeyedSum

/-! # Keyed stores

    A finite map seen through four operations and the equations between them.
    Two representations are provided: a flat association list, and a map of
    maps in which an inner map is created on demand and dropped as soon as it
    becomes empty. Clients only use the equations, so a result proved over
    `KeyedStore` holds for both.
-/

/-- Finite maps from `K` to `R` represented in `S`. -/
structure KeyedStore (K R S : Type*) where
  empty : S
  get : S → K → Option R
  set : S → K → R → S
  del : S → K → S
  /-- Number of keys that are bound. -/
  size : S → Nat
  get_empty : ∀ k, get empty k = none
  size_empty : size empty = 0
  get_set_self : ∀ s k r, get (set s k r) k = some r
  get_set_ne : ∀ s k r k', k' ≠ k → get (set s k r) k' = get s k'
  get_del_self : ∀ s k, get (del s k) k = none
  get_del_ne : ∀ s k k', k' ≠ k → get (del s k) k' = get s k'
  size_set_new : ∀ s k r, get s k = none → size (set s k r) = size s + 1
  size_set_old : ∀ s k r r', get s k = some r' → size (set s k r) = size s
  size_del : ∀ s k r, get s k = some r → size (del s k) + 1 = size s
  size_eq_zero : ∀ s, (∀ k, get s k = none) → size s = 0

namespace KeyedStore

variable {K K₁ K₂ R : Type*}

/-! ## Section 1: Sizes of association lists -/

section sizes
variable [DecidableEq K] {s : AList fun _ : K => R} {k : K} {r r' : R}

theorem lookup_insert_if (s : AList fun _ : K => R) (k k' : K) (r : R) :
    (s.insert k r).lookup k' = if k' = k then some r else s.lookup k' := by
  split
  · next h =>
    subst h
    exact AList.lookup_insert s
  · next h => exact AList.lookup_insert_ne h

theorem lookup_erase_if (s : AList fun _ : K => R) (k k' : K) :
    (s.erase k).lookup k' = if k' = k then none else s.lookup k' := by
  split
  · next h =>
    subst h
    exact AList.lookup_erase k' s
  · next h => exact AList.lookup_erase_ne h

/-- An entry that was not there is erased without a trace. -/
theorem erase_insert_of_none (r : R) (h : s.lookup k = none) : (s.insert k r).erase k = s := by
  have hk : k ∉ s.keys := AList.lookup_eq_none.mp h
  apply AList.ext
  calc ((s.insert k r).erase k).entries
      = List.kerase k (⟨k, r⟩ :: List.kerase k s.entries) := rfl
    _ = List.kerase k s.entries := List.kerase_cons_eq rfl
    _ = s.entries := List.kerase_of_notMem_keys hk

/-- Number of entries of an association list. -/
def entryCount (s : AList fun _ : K => R) : Nat := s.keys.length

theorem entryCount_insert_new (h : s.lookup k = none) :
    entryCount (s.insert k r) = entryCount s + 1 := by
  have hk : k ∉ s.keys := AList.lookup_eq_none.mp h
  simp [entryCount, AList.keys_insert, List.erase_of_not_mem hk]

theorem entryCount_insert_old (h : s.lookup k = some r') :
    entryCount (s.insert k r) = entryCount s := by
  have hk : k ∈ s.keys := AList.lookup_isSome.mp (by rw [h]; rfl)
  have hpos := List.length_pos_of_mem hk
  simp only [entryCount, AList.keys_insert, List.length_cons, List.length_erase_of_mem hk]
  omega

theorem entryCount_erase (h : s.lookup k = some r') :
    entryCount (s.erase k) + 1 = entryCount s := by
  have hk : k ∈ s.keys := AList.lookup_isSome.mp (by rw [h]; rfl)
  have hpos := List.length_pos_of_mem hk
  simp only [entryCount, AList.keys_erase, List.length_erase_of_mem hk]
  omega

theorem erase_unbound (h : s.lookup k = none) : s.erase k = s := by
  have hk : k ∉ s.entries.keys := AList.lookup_eq_none.mp h
  apply AList.ext
  exact List.kerase_of_notMem_keys hk

/-- Taking back a new binding. -/
theorem erase_insert_new (h : s.lookup k = none) : (s.insert k r).erase k = s := by
  apply AList.ext
  have hhead : (⟨k, r⟩ :: s.entries.kerase k : List (Sigma fun _ : K => R)).kerase k =
      s.entries.kerase k := by
    simp [List.kerase]
  exact hhead.trans (congrArg AList.entries (erase_unbound h))

theorem entryCount_eq_zero (h : ∀ k, s.lookup k = none) : entryCount s = 0 := by
  rw [entryCount, List.length_eq_zero_iff]
  exact List.eq_nil_iff_forall_not_mem.mpr fun k hk => AList.lookup_eq_none.mp (h k) hk

end sizes

/-! ## Section 2: The flat store -/

/-- One association list. -/
def flat [DecidableEq K] : KeyedStore K R (AList fun _ : K => R) where
  empty := ∅
  get s k := s.lookup k
  set s k r := s.insert k r
  del s k := s.erase k
  size := entryCount
  get_empty k := AList.lookup_empty k
  size_empty := rfl
  get_set_self s _ _ := AList.lookup_insert s
  get_set_ne _ _ _ _ h := AList.lookup_insert_ne h
  get_del_self s k := AList.lookup_erase k s
  get_del_ne _ _ _ h := AList.lookup_erase_ne h
  size_set_new _ _ _ h := entryCount_insert_new h
  size_set_old _ _ _ _ h := entryCount_insert_old h
  size_del _ _ _ h := entryCount_erase h
  size_eq_zero _ h := entryCount_eq_zero h

/-! ## Section 3: The two-level store -/

section nested
variable [DecidableEq K₁] [DecidableEq K₂]

/-- A map of maps. -/
abbrev Nested (K₁ K₂ R : Type*) := AList fun _ : K₁ => AList fun _ : K₂ => R

/-- The inner map of an outer key, empty when there is none. -/
def inner (s : Nested K₁ K₂ R) (k : K₁) : AList fun _ : K₂ => R := (s.lookup k).getD ∅

/-- Look a key up in its inner map, if that exists. -/
def nestedGet (s : Nested K₁ K₂ R) (k : K₁ × K₂) : Option R :=
  (s.lookup k.1).bind fun m => m.lookup k.2

/-- Bind a key, creating its inner map when needed. -/
def nestedSet (s : Nested K₁ K₂ R) (k : K₁ × K₂) (r : R) : Nested K₁ K₂ R :=
  s.insert k.1 ((inner s k.1).insert k.2 r)

/-- Remove a key, and its inner map when that becomes empty. -/
def nestedDel (s : Nested K₁ K₂ R) (k : K₁ × K₂) : Nested K₁ K₂ R :=
  let m := (inner s k.1).erase k.2
  if m.keys.isEmpty then s.erase k.1 else s.insert k.1 m

/-- Total number of inner entries. -/
def nestedSize (s : Nested K₁ K₂ R) : Nat :=
  (s.entries.map fun e => entryCount e.2).sum

variable {s : Nested K₁ K₂ R} {k k' : K₁ × K₂} {r r' : R}

theorem nestedGet_eq_inner : nestedGet s k = (inner s k.1).lookup k.2 := by
  unfold nestedGet inner
  cases s.lookup k.1 <;> simp

omit [DecidableEq K₂] in
theorem inner_insert_self (m : AList fun _ : K₂ => R) (a : K₁) :
    inner (s.insert a m) a = m := by
  simp [inner]

omit [DecidableEq K₂] in
theorem inner_insert_ne {m : AList fun _ : K₂ => R} {a a' : K₁} (h : a' ≠ a) :
    inner (s.insert a m) a' = inner s a' := by
  simp [inner, AList.lookup_insert_ne h]

/-- Removing a key is replacing its inner map, as far as inner maps go. -/
theorem inner_nestedDel (s : Nested K₁ K₂ R) (k : K₁ × K₂) (a : K₁) :
    inner (nestedDel s k) a = inner (s.insert k.1 ((inner s k.1).erase k.2)) a := by
  unfold nestedDel
  simp only
  split
  · next h =>
    have hm : (inner s k.1).erase k.2 = ∅ := by
      apply AList.ext
      exact List.map_eq_nil_iff.mp (List.isEmpty_iff.mp h)
    by_cases ha : a = k.1
    · subst ha
      rw [inner_insert_self, hm]
      simp [inner]
    · rw [inner_insert_ne ha]
      simp [inner, AList.lookup_erase_ne ha]
  · rfl

theorem nestedGet_nestedSet_ne (h : k' ≠ k) : nestedGet (nestedSet s k r) k' = nestedGet s k' := by
  rw [nestedGet_eq_inner, nestedGet_eq_inner, nestedSet]
  by_cases h₁ : k'.1 = k.1
  · have h₂ : k'.2 ≠ k.2 := fun h₂ => h (Prod.ext h₁ h₂)
    rw [h₁, inner_insert_self, AList.lookup_insert_ne h₂]
  · rw [inner_insert_ne h₁]

theorem nestedGet_nestedDel_self : nestedGet (nestedDel s k) k = none := by
  rw [nestedGet_eq_inner, inner_nestedDel, inner_insert_self, AList.lookup_erase]

theorem nestedGet_nestedDel_ne (h : k' ≠ k) : nestedGet (nestedDel s k) k' = nestedGet s k' := by
  rw [nestedGet_eq_inner, nestedGet_eq_inner, inner_nestedDel]
  by_cases h₁ : k'.1 = k.1
  · have h₂ : k'.2 ≠ k.2 := fun h₂ => h (Prod.ext h₁ h₂)
    rw [h₁, inner_insert_self, AList.lookup_erase_ne h₂]
  · rw [inner_insert_ne h₁]

omit [DecidableEq K₂] in
/-- Erasing an outer key gives up the entries of its inner map. -/
theorem nestedSize_erase (s : Nested K₁ K₂ R) (a : K₁) :
    nestedSize (s.erase a) + entryCount (inner s a) = nestedSize s := by
  have hinner : entryCount (inner s a) = (s.lookup a).elim 0 entryCount := by
    unfold inner
    cases s.lookup a <;> rfl
  rw [hinner]
  exact keyedSum_erase entryCount s a

omit [DecidableEq K₂] in
theorem nestedSize_insert (s : Nested K₁ K₂ R) (a : K₁) (m : AList fun _ : K₂ => R) :
    nestedSize (s.insert a m) = entryCount m + nestedSize (s.erase a) :=
  keyedSum_insert_erase entryCount s a m

theorem nestedSize_nestedSet_new (h : nestedGet s k = none) :
    nestedSize (nestedSet s k r) = nestedSize s + 1 := by
  rw [nestedGet_eq_inner] at h
  have he := nestedSize_erase s k.1
  rw [nestedSet, nestedSize_insert, entryCount_insert_new h]
  omega

theorem nestedSize_nestedSet_old (h : nestedGet s k = some r') :
    nestedSize (nestedSet s k r) = nestedSize s := by
  rw [nestedGet_eq_inner] at h
  have he := nestedSize_erase s k.1
  rw [nestedSet, nestedSize_insert, entryCount_insert_old h]
  omega

theorem nestedSize_nestedDel (h : nestedGet s k = some r') :
    nestedSize (nestedDel s k) + 1 = nestedSize s := by
  rw [nestedGet_eq_inner] at h
  have he := nestedSize_erase s k.1
  have hm := entryCount_erase h
  unfold nestedDel
  simp only
  split
  · next hempty =>
    have h0 : entryCount ((inner s k.1).erase k.2) = 0 := by
      rw [entryCount, List.isEmpty_iff.mp hempty, List.length_nil]
    omega
  · rw [nestedSize_insert]
    omega

theorem nestedSize_eq_zero (h : ∀ k, nestedGet s k = none) : nestedSize s = 0 := by
  rw [nestedSize, List.sum_eq_zero_iff_forall_eq_nat]
  intro n hn
  obtain ⟨e, he, rfl⟩ := List.mem_map.mp hn
  apply entryCount_eq_zero
  intro k
  have hl : s.lookup e.1 = some e.2 := AList.mem_lookup_iff.mpr he
  simpa [nestedGet, hl] using h (e.1, k)

/-- A map of maps without empty inner maps. -/
def nested : KeyedStore (K₁ × K₂) R (Nested K₁ K₂ R) where
  empty := ∅
  get := nestedGet
  set := nestedSet
  del := nestedDel
  size := nestedSize
  get_empty k := by simp [nestedGet]
  size_empty := rfl
  get_set_self s k r := by rw [nestedGet_eq_inner, nestedSet, inner_insert_self, AList.lookup_insert]
  get_set_ne _ _ _ _ h := nestedGet_nestedSet_ne h
  get_del_self _ _ := nestedGet_nestedDel_self
  get_del_ne _ _ _ h := nestedGet_nestedDel_ne h
  size_set_new _ _ _ h := nestedSize_nestedSet_new h
  size_set_old _ _ _ _ h := nestedSize_nestedSet_old h
  size_del _ _ _ h := nestedSize_nestedDel h
  size_eq_zero _ h := nestedSize_eq_zero h

end nested

end KeyedStore
