import PinbaEngine.Dictionary

/-! # The tag registry

    `tags.cc`: the names of timer tags get numeric ids. `D->tag` keeps the
    descriptors in two indices, by name and by id, and in a third one, ordered by
    id, when tags are collected. The indices are guarded by `words_lock`.

    Creating a descriptor can run out of memory in four places, and what was done
    before is then undone. Collecting looks at three things that may still need a
    descriptor: cursors, the dictionary word with the same name, and the selectors
    of reports.
-/

namespace PinbaEngine

open KeyedStore (entryCount)

/-! ## Section 1: State -/

/-- `pinba_tag` without its cursor references. -/
structure TagDescriptor where
  id : Nat
  name : Key
deriving DecidableEq

/-- The settings that the registry reads. -/
structure TagSettings where
  /-- Zero means no limit. -/
  tag_names_limit : Nat
  tag_gc_enabled : Bool

/-- `D->tag`. The indices hold the addresses of descriptors. -/
structure TagRegistry where
  name_index : AList fun _ : Key => Nat
  table : AList fun _ : Nat => Nat
  live_ids : AList fun _ : Nat => Nat
  next_id : Nat
  /-- The descriptors by address, with their `cursor_references`. -/
  heap : CountedHeap TagDescriptor

/-- Which allocations of a call succeed. -/
structure TagMemory where
  /-- The address of the new descriptor, if there is memory for it. -/
  descriptor : Option Nat
  name_index : Bool
  table : Bool
  live_ids : Bool

/-! ## Section 2: Operations -/

namespace TagRegistry

variable (r : TagRegistry) (settings : TagSettings)

def init : TagRegistry := ⟨∅, ∅, ∅, 0, ⟨∅, false⟩⟩

/-- `pinba_map_get(D->tag.name_index, name)`: strings are compared as a whole. -/
def find (name : Text) : Option Nat :=
  if h : name.bytes.length < PINBA_TAG_NAME_SIZE then
    r.name_index.lookup ⟨name.bytes, h, name.nul_free⟩
  else none

/-- The admission test. -/
def rejects : Bool :=
  (settings.tag_names_limit != 0 && decide (settings.tag_names_limit ≤ entryCount r.table)) ||
    decide (INT_MAX < r.next_id)

/-- `pinba_tag_lookup_or_create_locked` once it has the write lock. Up to there it
    only looks at `find name`. -/
def lookup_or_create (name : Text) (memory : TagMemory) : Option Nat × TagRegistry :=
  match r.find name with
  | some a => (some a, r)
  | none =>
    if r.rejects settings then (none, r)
    else
      match memory.descriptor with
      | none => (none, r)
      | some a =>
        -- the descriptor has room for 64 bytes of the name
        let key := name.key
        let tag_id := r.next_id
        let heap := r.heap.alloc a ⟨tag_id, key⟩
        if !memory.name_index then
          (none, { r with name_index := r.name_index.erase key, heap := heap.free a })
        else
          let name_index := r.name_index.insert key a
          if !memory.table then
            (none, { r with name_index := name_index.erase key, heap := heap.free a })
          else
            let table := r.table.insert tag_id a
            if settings.tag_gc_enabled && !memory.live_ids then
              (none,
                { r with
                  name_index := name_index.erase key
                  table := table.erase tag_id
                  heap := heap.free a })
            else
              (some a,
                { name_index, table, heap
                  live_ids :=
                    if settings.tag_gc_enabled then r.live_ids.insert tag_id a else r.live_ids
                  next_id := r.next_id + 1 })

/-- The references of the word that spells a name, none if there is no such word. -/
def word_references (d : Dictionary) (name : Key) : Nat :=
  (d.map.lookup name).elim 0 fun p => (d.heap.cells.lookup p).elim 0 Counted.references

/-- What keeps a descriptor from being collected. -/
def needed (d : Dictionary) (selectors : List Nat) (tag : Counted TagDescriptor) : Prop :=
  tag.references ≠ 0 ∨ word_references d tag.value.name ≠ 0 ∨ tag.value.id ∈ selectors

instance (d : Dictionary) (selectors : List Nat) (tag : Counted TagDescriptor) :
    Decidable (needed d selectors tag) :=
  inferInstanceAs (Decidable (_ ∨ _ ∨ _))

/-- The loop body of `pinba_collect_unused_tags`. -/
def collect_entry (d : Dictionary) (selectors : List Nat) (r : TagRegistry)
    (e : Sigma fun _ : Nat => Nat) : TagRegistry :=
  match r.heap.cells.lookup e.2 with
  | none => { r with heap := { r.heap with broken := true } }
  | some tag =>
    if needed d selectors tag then r
    else
      { r with
        table := r.table.erase tag.value.id
        name_index := r.name_index.erase tag.value.name
        live_ids := r.live_ids.erase e.1
        heap := r.heap.free e.2 }

/-- `pinba_collect_unused_tags` under its locks, given the ids that reports select. -/
def collect_unused_tags (d : Dictionary) (selectors : List Nat) : TagRegistry :=
  if settings.tag_gc_enabled then r.live_ids.entries.foldl (collect_entry d selectors) r else r

/-! ## Section 3: Consistent registries -/

/-- The indices are views of one set of descriptors. -/
structure Consistent (settings : TagSettings) (r : TagRegistry) : Prop where
  named : ∀ name a, r.name_index.lookup name = some a → ∃ id, r.heap.get a = some ⟨id, name⟩
  numbered : ∀ id a, r.table.lookup id = some a → ∃ name, r.heap.get a = some ⟨id, name⟩
  complete : ∀ a tag, r.heap.get a = some tag →
    r.name_index.lookup tag.name = some a ∧ r.table.lookup tag.id = some a
  live : ∀ id, r.live_ids.lookup id = if settings.tag_gc_enabled then r.table.lookup id else none
  below : ∀ a tag, r.heap.get a = some tag → tag.id < r.next_id
  limit : settings.tag_names_limit ≠ 0 → entryCount r.table ≤ settings.tag_names_limit

variable {r settings} {a : Nat} {name : Text} {memory : TagMemory}

theorem consistent_init : Consistent settings init := by
  refine ⟨?_, ?_, ?_, ?_, ?_, fun _ => Nat.zero_le _⟩
  · intro name a h
    cases h
  · intro id a h
    cases h
  · intro a tag h
    cases h
  · intro id
    cases settings.tag_gc_enabled <;> rfl
  · intro a tag h
    cases h

/-- The registry with one descriptor more. -/
def added (r : TagRegistry) (settings : TagSettings) (key : Key) (a : Nat) : TagRegistry where
  name_index := r.name_index.insert key a
  table := r.table.insert r.next_id a
  live_ids := if settings.tag_gc_enabled then r.live_ids.insert r.next_id a else r.live_ids
  next_id := r.next_id + 1
  heap := r.heap.alloc a ⟨r.next_id, key⟩

theorem find_of_fits (hfits : name.bytes.length < PINBA_TAG_NAME_SIZE) :
    r.find name = r.name_index.lookup name.key := by
  unfold find
  rw [dif_pos hfits]
  congr 1
  apply CString.ext
  rw [Dictionary.key_bytes]
  exact (List.take_of_length_le (Nat.le_of_lt_succ hfits)).symm

/-- The id of the next descriptor is free. -/
theorem lookup_next_id (hr : Consistent settings r) : r.table.lookup r.next_id = none := by
  cases htable : r.table.lookup r.next_id with
  | none => rfl
  | some a =>
    obtain ⟨name, hget⟩ := hr.numbered _ _ htable
    exact absurd (hr.below a _ hget) (lt_irrefl _)

/-- A call finds the name, fails and changes nothing, or adds a descriptor. What
    a failed call has done is undone. -/
theorem lookup_or_create_cases (hr : Consistent settings r)
    (hfits : name.bytes.length < PINBA_TAG_NAME_SIZE)
    (hfresh : ∀ a ∈ memory.descriptor, r.heap.get a = none) :
    (∃ a, r.name_index.lookup name.key = some a ∧
      r.lookup_or_create settings name memory = (some a, r)) ∨
    r.lookup_or_create settings name memory = (none, r) ∨
    ∃ a, r.heap.get a = none ∧ r.name_index.lookup name.key = none ∧
      r.rejects settings = false ∧
      r.lookup_or_create settings name memory = (some a, r.added settings name.key a) := by
  unfold lookup_or_create
  rw [find_of_fits hfits]
  cases hname : r.name_index.lookup name.key with
  | some a => exact .inl ⟨a, rfl, rfl⟩
  | none =>
    cases hrejects : r.rejects settings with
    | true => exact .inr (.inl rfl)
    | false =>
      cases hmem : memory.descriptor with
      | none => exact .inr (.inl rfl)
      | some a =>
        have ha := hfresh a hmem
        -- whatever the failing step was, the registry is the old one again
        have hheap : (r.heap.alloc a ⟨r.next_id, name.key⟩).free a = r.heap :=
          CountedHeap.free_alloc ha
        have hindex := KeyedStore.erase_insert_new (r := a) hname
        have htable := KeyedStore.erase_insert_new (r := a) (lookup_next_id hr)
        simp only [hheap, hindex, htable, KeyedStore.erase_unbound hname, Bool.false_eq_true,
          if_false]
        by_cases h₁ : memory.name_index = true
        · by_cases h₂ : memory.table = true
          · by_cases h₃ : (settings.tag_gc_enabled && !memory.live_ids) = true
            · exact .inr (.inl (by rw [if_neg (by simp [h₁]), if_neg (by simp [h₂]), if_pos h₃]))
            · refine .inr (.inr ⟨a, ha, trivial, trivial, ?_⟩)
              rw [if_neg (by simp [h₁]), if_neg (by simp [h₂]), if_neg h₃]
              rfl
          · exact .inr (.inl (by rw [if_neg (by simp [h₁]), if_pos (by simpa using h₂)]))
        · exact .inr (.inl (by rw [if_pos (by simpa using h₁)]))

/-! ## Section 4: Creating -/

variable {key : Key} {b : Nat} {tag tag' : TagDescriptor}

theorem get_added (hb : (r.added settings key a).heap.get b = some tag) :
    b = a ∧ tag = ⟨r.next_id, key⟩ ∨ b ≠ a ∧ r.heap.get b = some tag := by
  by_cases hba : b = a
  · subst hba
    rw [show (r.added settings key b).heap.get b = _ from CountedHeap.get_alloc_self] at hb
    exact .inl ⟨rfl, (Option.some.inj hb).symm⟩
  · rw [show (r.added settings key a).heap.get b = _ from CountedHeap.get_alloc_ne hba] at hb
    exact .inr ⟨hba, hb⟩

/-- A new descriptor hides no old one. -/
theorem get_added_of_get (ha : r.heap.get a = none) (hb : r.heap.get b = some tag) :
    (r.added settings key a).heap.get b = some tag := by
  have hba : b ≠ a := fun heq => by
    rw [heq, ha] at hb
    exact absurd hb (by simp)
  exact (CountedHeap.get_alloc_ne hba).trans hb

theorem lookup_added {id : Nat} (hr : Consistent settings r) (hid : r.table.lookup id = some b) :
    (r.added settings key a).table.lookup id = some b := by
  have hne : id ≠ r.next_id := fun heq => by
    rw [heq, lookup_next_id hr] at hid
    exact absurd hid (by simp)
  exact (AList.lookup_insert_ne hne).trans hid

theorem consistent_added (hr : Consistent settings r) (ha : r.heap.get a = none)
    (hname : r.name_index.lookup key = none) (hrejects : r.rejects settings = false) :
    Consistent settings (r.added settings key a) := by
  have hself : (r.added settings key a).heap.get a = some ⟨r.next_id, key⟩ :=
    CountedHeap.get_alloc_self
  refine ⟨?_, ?_, ?_, ?_, ?_, ?_⟩
  · -- found by name
    intro name b hb
    by_cases hk : name = key
    · subst hk
      rw [show (r.added settings name a).name_index.lookup name = _ from AList.lookup_insert _,
        Option.some.injEq] at hb
      subst hb
      exact ⟨r.next_id, hself⟩
    · obtain ⟨id, hget⟩ := hr.named name b ((AList.lookup_insert_ne hk).symm.trans hb)
      exact ⟨id, get_added_of_get ha hget⟩
  · -- found by id
    intro id b hb
    by_cases hid : id = r.next_id
    · subst hid
      rw [show (r.added settings key a).table.lookup r.next_id = _ from AList.lookup_insert _,
        Option.some.injEq] at hb
      subst hb
      exact ⟨key, hself⟩
    · obtain ⟨name, hget⟩ := hr.numbered id b ((AList.lookup_insert_ne hid).symm.trans hb)
      exact ⟨name, get_added_of_get ha hget⟩
  · -- every descriptor is found both ways
    intro b tag hb
    rcases get_added hb with ⟨rfl, rfl⟩ | ⟨-, hold⟩
    · exact ⟨AList.lookup_insert _, AList.lookup_insert _⟩
    · obtain ⟨hindex, htable⟩ := hr.complete b tag hold
      have hk : tag.name ≠ key := fun heq => by
        rw [heq, hname] at hindex
        exact absurd hindex (by simp)
      exact ⟨(AList.lookup_insert_ne hk).trans hindex, lookup_added hr htable⟩
  · -- the ordered index is a copy of the table
    intro id
    have hlive := hr.live id
    cases hgc : settings.tag_gc_enabled with
    | false =>
      rw [hgc] at hlive
      simpa [added, hgc] using hlive
    | true =>
      rw [hgc] at hlive
      simp only [added, hgc, if_true]
      by_cases hid : id = r.next_id
      · rw [hid, AList.lookup_insert, AList.lookup_insert]
      · rw [AList.lookup_insert_ne hid, AList.lookup_insert_ne hid]
        exact hlive
  · intro b tag hb
    show tag.id < r.next_id + 1
    rcases get_added hb with ⟨-, rfl⟩ | ⟨-, hold⟩
    · exact Nat.lt_succ_self _
    · exact Nat.lt_succ_of_lt (hr.below b tag hold)
  -- the check of the limit left room for one more
  · intro hlimit
    show entryCount (r.table.insert r.next_id a) ≤ _
    rw [KeyedStore.entryCount_insert_new (lookup_next_id hr)]
    simp only [rejects, Bool.or_eq_false_iff, Bool.and_eq_false_iff, bne_eq_false_iff_eq,
      decide_eq_false_iff_not] at hrejects
    rcases hrejects.1 with hzero | hroom
    · exact absurd hzero hlimit
    · omega

/-! ## Section 5: Collecting -/

/-- The registry without a descriptor. -/
def removed (r : TagRegistry) (tag : TagDescriptor) (a : Nat) : TagRegistry where
  name_index := r.name_index.erase tag.name
  table := r.table.erase tag.id
  live_ids := r.live_ids.erase tag.id
  next_id := r.next_id
  heap := r.heap.free a

theorem get_removed (hb : (r.removed tag a).heap.get b = some tag') :
    b ≠ a ∧ r.heap.get b = some tag' := by
  have hba : b ≠ a := fun heq => by
    rw [heq, show (r.removed tag a).heap.get a = none from CountedHeap.get_free_self] at hb
    exact absurd hb (by simp)
  exact ⟨hba, (CountedHeap.get_free_ne hba).symm.trans hb⟩

theorem consistent_removed (hr : Consistent settings r) (ha : r.heap.get a = some tag) :
    Consistent settings (r.removed tag a) := by
  have hother : ∀ {b tag'}, b ≠ a → r.heap.get b = some tag' →
      (r.removed tag a).heap.get b = some tag' :=
    fun hba hb => (CountedHeap.get_free_ne hba).trans hb
  obtain ⟨hindex, htable⟩ := hr.complete a tag ha
  refine ⟨?_, ?_, ?_, ?_, ?_, ?_⟩
  · -- the names that are left belong to other descriptors
    intro name b hb
    have hname : name ≠ tag.name := fun heq => by
      rw [heq] at hb
      exact absurd ((AList.lookup_erase _ _).symm.trans hb) (by simp)
    have hold := (AList.lookup_erase_ne hname).symm.trans hb
    obtain ⟨id, hget⟩ := hr.named name b hold
    refine ⟨id, hother ?_ hget⟩
    rintro rfl
    rw [ha, Option.some.injEq] at hget
    exact hname (by rw [hget])
  · -- and so do the ids
    intro id b hb
    have hid : id ≠ tag.id := fun heq => by
      rw [heq] at hb
      exact absurd ((AList.lookup_erase _ _).symm.trans hb) (by simp)
    have hold := (AList.lookup_erase_ne hid).symm.trans hb
    obtain ⟨name, hget⟩ := hr.numbered id b hold
    refine ⟨name, hother ?_ hget⟩
    rintro rfl
    rw [ha, Option.some.injEq] at hget
    exact hid (by rw [hget])
  · -- other descriptors have other names and ids
    intro b tag' hb
    obtain ⟨hba, hold⟩ := get_removed hb
    obtain ⟨hindex', htable'⟩ := hr.complete b tag' hold
    have hname : tag'.name ≠ tag.name := fun heq => by
      rw [heq, hindex, Option.some.injEq] at hindex'
      exact hba hindex'.symm
    have hid : tag'.id ≠ tag.id := fun heq => by
      rw [heq, htable, Option.some.injEq] at htable'
      exact hba htable'.symm
    exact ⟨(AList.lookup_erase_ne hname).trans hindex', (AList.lookup_erase_ne hid).trans htable'⟩
  · intro id
    have hlive := hr.live id
    show (r.live_ids.erase tag.id).lookup id =
      if settings.tag_gc_enabled then (r.table.erase tag.id).lookup id else none
    by_cases hid : id = tag.id
    · rw [hid, AList.lookup_erase, AList.lookup_erase, ite_self]
    · rw [AList.lookup_erase_ne hid, AList.lookup_erase_ne hid]
      exact hlive
  · intro b tag' hb
    exact hr.below b tag' (get_removed hb).2
  · intro hlimit
    have hcount := KeyedStore.entryCount_erase htable
    have hold := hr.limit hlimit
    show entryCount (r.table.erase tag.id) ≤ _
    omega

variable {d : Dictionary} {selectors : List Nat} {own : Multiset Nat}

/-- What a sweep leaves behind: all descriptors that are needed, and no new ones. -/
structure Collected (settings : TagSettings) (d : Dictionary) (selectors : List Nat)
    (own : Multiset Nat) (r r' : TagRegistry) : Prop where
  consistent : Consistent settings r'
  refs : r'.heap.Refs own
  kept : ∀ a tag, r.heap.cells.lookup a = some tag → needed d selectors tag →
    r'.heap.cells.lookup a = some tag
  old : ∀ a tag, r'.heap.get a = some tag → r.heap.get a = some tag
  next_id : r'.next_id = r.next_id

theorem collected_refl (hr : Consistent settings r) (hrefs : r.heap.Refs own) :
    Collected settings d selectors own r r :=
  ⟨hr, hrefs, fun _ _ h _ => h, fun _ _ h => h, rfl⟩

theorem Collected.trans {r₁ r₂ r₃ : TagRegistry} (h₁₂ : Collected settings d selectors own r₁ r₂)
    (h₂₃ : Collected settings d selectors own r₂ r₃) :
    Collected settings d selectors own r₁ r₃ where
  consistent := h₂₃.consistent
  refs := h₂₃.refs
  kept a tag ha hneeded := h₂₃.kept a tag (h₁₂.kept a tag ha hneeded) hneeded
  old a tag ha := h₁₂.old a tag (h₂₃.old a tag ha)
  next_id := h₂₃.next_id.trans h₁₂.next_id

theorem collected_removed {cell : Counted TagDescriptor} (hr : Consistent settings r)
    (hrefs : r.heap.Refs own) (hcell : r.heap.cells.lookup a = some cell)
    (hneeded : ¬ needed d selectors cell) :
    Collected settings d selectors own r (r.removed cell.value a) := by
  have hget : r.heap.get a = some cell.value := by
    rw [CountedHeap.get, hcell]
    rfl
  have hzero : cell.references = 0 := not_not.mp (not_or.mp hneeded).1
  refine ⟨consistent_removed hr hget, hrefs.free hcell hzero, ?_, ?_, rfl⟩
  · intro b tag hb hkeep
    have hba : b ≠ a := by
      rintro rfl
      rw [hcell, Option.some.injEq] at hb
      exact hneeded (hb ▸ hkeep)
    exact (AList.lookup_erase_ne hba).trans hb
  · intro b tag hb
    exact (get_removed hb).2

/-- The sweep over the entries that are left; as for words, all of them are still
    bound. -/
theorem collected_entries {entries : List (Sigma fun _ : Nat => Nat)} (hr : Consistent settings r)
    (hrefs : r.heap.Refs own) (hgc : settings.tag_gc_enabled = true)
    (hnodup : (entries.map Sigma.fst).Nodup)
    (hbound : ∀ e ∈ entries, r.live_ids.lookup e.1 = some e.2) :
    Collected settings d selectors own r (entries.foldl (collect_entry d selectors) r) := by
  induction entries generalizing r with
  | nil => exact collected_refl hr hrefs
  | cons e entries ih =>
    rw [List.map_cons, List.nodup_cons] at hnodup
    -- the entry is bound in the table too
    have htable : r.table.lookup e.1 = some e.2 := by
      have hlive := hr.live e.1
      rw [hgc, if_pos rfl, hbound e List.mem_cons_self] at hlive
      exact hlive.symm
    obtain ⟨name, hget⟩ := hr.numbered _ _ htable
    rw [CountedHeap.get, Option.map_eq_some_iff] at hget
    obtain ⟨cell, hcell, hvalue⟩ := hget
    have hrest : ∀ x ∈ entries, r.live_ids.lookup x.1 = some x.2 :=
      fun x hx => hbound x (List.mem_cons_of_mem _ hx)
    rw [List.foldl_cons, collect_entry, hcell]
    by_cases hneeded : needed d selectors cell
    · simp only [if_pos hneeded]
      exact ih hr hrefs hnodup.2 hrest
    · simp only [if_neg hneeded]
      have hone := collected_removed hr hrefs hcell hneeded
      have hsame : { r with
          table := r.table.erase cell.value.id
          name_index := r.name_index.erase cell.value.name
          live_ids := r.live_ids.erase e.1
          heap := r.heap.free e.2 } = r.removed cell.value e.2 := by
        unfold removed
        rw [hvalue]
      rw [hsame]
      refine hone.trans (ih hone.consistent hone.refs hnodup.2 ?_)
      intro x hx
      have hne : x.1 ≠ cell.value.id := by
        rw [hvalue]
        intro (heq : x.1 = e.1)
        exact hnodup.1 (heq ▸ List.mem_map_of_mem hx)
      exact (AList.lookup_erase_ne hne).trans (hrest x hx)

theorem collected_collect_unused_tags (hr : Consistent settings r) (hrefs : r.heap.Refs own) :
    Collected settings d selectors own r (r.collect_unused_tags settings d selectors) := by
  unfold collect_unused_tags
  by_cases hgc : settings.tag_gc_enabled = true
  · rw [if_pos hgc]
    refine collected_entries hr hrefs hgc r.live_ids.nodupKeys ?_
    intro e he
    exact AList.mem_lookup_iff.mpr he
  · rw [if_neg hgc]
    exact collected_refl hr hrefs

end TagRegistry

end PinbaEngine
