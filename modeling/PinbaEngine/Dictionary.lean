import Mathlib.Algebra.BigOperators.Ring.Finset
import PinbaEngine.Lib.CountedHeap
import PinbaEngine.Lib.KeyedStore
import PinbaEngine.Types

/-! # The dictionary

    `pinba_dictionary.cc`: tag names and values are interned, so that equal
    strings share one word and are compared by pointer. A word keeps the first
    64 bytes of its string.

    Interning holds `words_lock` for reading. When the word is missing the lock is
    dropped and taken again for writing, so other threads may run in between:
    `intern_read` and `intern_write` are the two critical sections. Releasing a
    word takes no lock and frees nothing; words without references are freed by
    `collect`, which holds the lock exclusively.

    The byte counter is a plain integer: what it counts is memory that is in use,
    so it stays far below the range of the counter.
-/

namespace PinbaEngine

open KeyedStore (entryCount)

/-! ## Section 1: Words -/

/-- A string as callers pass it to the dictionary. -/
@[ext] structure Text where
  bytes : Bytes
  nul_free : 0 ∉ bytes

instance : DecidableEq Text := fun a b => decidable_of_iff (a.bytes = b.bytes) Text.ext_iff.symm

/-- What a word stores. -/
abbrev Key := CString PINBA_TAG_VALUE_SIZE

/-- `copied`: the number of bytes that fit the key. -/
def Text.copied (t : Text) : Nat := min t.bytes.length (PINBA_TAG_VALUE_SIZE - 1)

/-- The key under which a string is interned. -/
def Text.key (t : Text) : Key where
  bytes := t.bytes.take t.copied
  length_lt := by
    rw [List.length_take, Text.copied]
    simp only [PINBA_TAG_VALUE_SIZE]
    omega
  nul_free h := t.nul_free (List.mem_of_mem_take h)

/-- `pinba_word` without its reference count; `len` is an unsigned char. -/
structure WordText where
  str : Key
  len : UInt8
deriving DecidableEq

/-- `sizeof(pinba_word)`: a pointer, a padded char and a counter. -/
def sizeof_pinba_word : Nat := 24

/-- The bytes charged for a word of `n` bytes: the word, its string, and the
    copy of the string that the map keeps. -/
def word_charge (n : Nat) : Nat := sizeof_pinba_word + 2 * (n + 1)

/-- `pinba_dictionary_budget`; zero means no limit. -/
structure Budget where
  max_words : Nat
  max_bytes : Nat
deriving DecidableEq

/-- The dictionary with its memory and its two gauges. -/
structure Dictionary where
  /-- The map from strings to words. -/
  map : AList fun _ : Key => Nat
  /-- The words by address, with their reference counts. -/
  heap : CountedHeap WordText
  words_live : Int
  words_bytes : Int

/-! ## Section 2: Operations -/

namespace Dictionary

variable (d : Dictionary)

def init : Dictionary := ⟨∅, ⟨∅, false⟩, 0, 0⟩

/-- `pinba_word_retain`. -/
def pinba_word_retain (p : Nat) : Dictionary := { d with heap := d.heap.retain p }

/-- `pinba_word_release`. -/
def pinba_word_release (p : Nat) : Dictionary := { d with heap := d.heap.release p }

/-- `pinba_words_release`. -/
def pinba_words_release (words : List (Option Nat)) : Dictionary :=
  { d with heap := d.heap.releaseSlots words }

/-- `pinba_dictionary_intern_rdlock` up to the point where it drops the read
    lock; nothing if the word is missing. -/
def intern_read (t : Text) : Option (Nat × Dictionary) :=
  (d.map.lookup t.key).map fun p => (p, d.pinba_word_retain p)

/-- The admission test. -/
def over_budget (budget : Budget) (charge : Nat) : Bool :=
  (budget.max_words != 0 && decide (budget.max_words ≤ entryCount d.map)) ||
    (budget.max_bytes != 0 && (decide (budget.max_bytes < charge) ||
      decide ((budget.max_bytes - charge : Nat) < d.words_bytes)))

/-- The rest of `pinba_dictionary_intern_rdlock`, under the write lock. `fresh`
    is the address of a new word, nothing if memory for the word, its string or
    its map entry is missing. -/
def intern_write (t : Text) (budget : Budget) (fresh : Option Nat) : Option Nat × Dictionary :=
  match d.map.lookup t.key with
  | some p => (some p, d.pinba_word_retain p)
  | none =>
    if d.over_budget budget (word_charge t.copied) then (none, d)
    else
      match fresh with
      | none => (none, d)
      | some p =>
        (some p,
          { map := d.map.insert t.key p
            heap := (d.heap.alloc p ⟨t.key, UInt8.ofNat t.copied⟩).retain p
            words_live := d.words_live + 1
            words_bytes := d.words_bytes + word_charge t.copied })

/-- `pinba_dictionary_lookup`: the string is compared as a whole. -/
def lookup (t : Text) : Option (Nat × Dictionary) :=
  if h : t.bytes.length < PINBA_TAG_VALUE_SIZE then
    (d.map.lookup ⟨t.bytes, h, t.nul_free⟩).map fun p => (p, d.pinba_word_retain p)
  else none

/-- The predicate of `pinba_dictionary_collect` on one entry. -/
def collect_entry (e : Sigma fun _ : Key => Nat) : Dictionary :=
  match d.heap.cells.lookup e.2 with
  | none => { d with heap := { d.heap with broken := true } }
  | some word =>
    if word.references ≠ 0 then d
    else
      { map := d.map.erase e.1
        heap := d.heap.free e.2
        words_live := d.words_live - 1
        words_bytes := d.words_bytes - word_charge word.value.len.toNat }

/-- `pinba_dictionary_collect`. -/
def pinba_dictionary_collect : Dictionary := d.map.entries.foldl collect_entry d

end Dictionary

/-! ## Section 3: Canonical dictionaries -/

namespace Dictionary

variable {d : Dictionary} {t : Text} {budget : Budget} {fresh : Option Nat} {p : Nat}
  {own : Multiset Nat}

/-- The word of a key. -/
def word_of (key : Key) : WordText := ⟨key, UInt8.ofNat key.bytes.length⟩

theorem length_key (t : Text) : t.key.bytes.length = t.copied := by
  rw [Text.key, List.length_take, Text.copied]
  omega

theorem key_bytes (t : Text) : t.key.bytes = t.bytes.take 64 := by
  show t.bytes.take (min t.bytes.length 64) = t.bytes.take 64
  rw [min_comm, ← List.take_take, List.take_length]

/-- The length survives the unsigned char. -/
theorem len_word_of (key : Key) : (word_of key).len.toNat = key.bytes.length := by
  have hlt := key.length_lt
  simp only [PINBA_TAG_VALUE_SIZE] at hlt
  show (UInt8.ofNat key.bytes.length).toNat = _
  rw [UInt8.toNat_ofNat']
  omega

/-- The map and the words in memory are two views of one set, and the gauges
    measure it. -/
structure Canonical (d : Dictionary) : Prop where
  indexed : ∀ key p, d.map.lookup key = some p → d.heap.get p = some (word_of key)
  complete : ∀ p w, d.heap.get p = some w → d.map.lookup w.str = some p
  counted : entryCount d.map = entryCount d.heap.cells
  words_live : d.words_live = entryCount d.heap.cells
  words_bytes : d.words_bytes =
    keyedSum (fun c : Counted WordText => (word_charge c.value.len.toNat : Int)) d.heap.cells

/-- A dictionary whose counts are those of its owners. -/
structure Owned (d : Dictionary) (own : Multiset Nat) : Prop where
  canonical : d.Canonical
  refs : d.heap.Refs own

/-- Changing counts keeps a dictionary canonical. -/
theorem canonical_of_sameValues {heap : CountedHeap WordText} (h : d.Canonical)
    (hsame : d.heap.SameValues heap) : { d with heap := heap }.Canonical := by
  refine ⟨?_, ?_, h.counted.trans hsame.size.symm, ?_, ?_⟩
  · intro key q hq
    rw [hsame.get]
    exact h.indexed key q hq
  · intro q w hq
    rw [hsame.get] at hq
    exact h.complete q w hq
  · rw [hsame.size]
    exact h.words_live
  · rw [hsame.sum fun w => (word_charge w.len.toNat : Int)]
    exact h.words_bytes

theorem owned_init : init.Owned 0 := by
  refine ⟨⟨?_, ?_, rfl, rfl, rfl⟩, ⟨?_, ?_, rfl⟩⟩
  · exact fun key p hp => absurd hp (by simp [init])
  · exact fun p w hp => absurd hp (by simp [init, CountedHeap.get])
  · exact fun p c hp => absurd hp (by simp [init])
  · exact fun p hp => absurd hp (Multiset.notMem_zero p)

theorem owned_retain (h : d.Owned own) (hp : d.heap.get p ≠ none) :
    (d.pinba_word_retain p).Owned (p ::ₘ own) :=
  ⟨canonical_of_sameValues h.canonical (CountedHeap.sameValues_retain _ p), h.refs.retain hp⟩

theorem owned_release (h : d.Owned (p ::ₘ own)) : (d.pinba_word_release p).Owned own :=
  ⟨canonical_of_sameValues h.canonical (CountedHeap.sameValues_release _ p), h.refs.release⟩

theorem owned_words_release {words : List (Option Nat)}
    (h : d.Owned (CountedHeap.pointers words + own)) : (d.pinba_words_release words).Owned own :=
  ⟨canonical_of_sameValues h.canonical (CountedHeap.sameValues_releaseSlots _ words),
    h.refs.releaseSlots⟩

/-- A word that is found is retained for the caller. -/
theorem owned_found {key : Key} (h : d.Owned own) (hp : d.map.lookup key = some p) :
    (d.pinba_word_retain p).Owned (p ::ₘ own) := by
  refine owned_retain h ?_
  rw [h.canonical.indexed key p hp]
  simp

/-- A new word keeps the index and the counters right. -/
theorem canonical_insert (h : d.Canonical) (hmiss : d.map.lookup t.key = none)
    (hfresh : d.heap.get p = none) :
    Canonical
      { map := d.map.insert t.key p
        heap := d.heap.alloc p (word_of t.key)
        words_live := d.words_live + 1
        words_bytes := d.words_bytes + word_charge t.copied } := by
  have hcell : d.heap.cells.lookup p = none := CountedHeap.get_eq_none_iff.mp hfresh
  refine ⟨?_, ?_, ?_, ?_, ?_⟩
  · intro key q hq
    by_cases hkey : key = t.key
    · subst hkey
      obtain rfl : p = q := Option.some.inj ((AList.lookup_insert _).symm.trans hq)
      exact CountedHeap.get_alloc_self
    · have hold := h.indexed key q ((AList.lookup_insert_ne hkey).symm.trans hq)
      have hqp : q ≠ p := fun heq => by rw [heq, hfresh] at hold; exact absurd hold (by simp)
      exact (CountedHeap.get_alloc_ne hqp).trans hold
  · intro q w hq
    by_cases hqp : q = p
    · subst hqp
      obtain rfl : word_of t.key = w :=
        Option.some.inj (CountedHeap.get_alloc_self.symm.trans hq)
      exact AList.lookup_insert _
    · have hold := h.complete q w ((CountedHeap.get_alloc_ne hqp).symm.trans hq)
      -- another word has another text, since this one was not in the map
      have hkey : w.str ≠ t.key := fun heq => by
        rw [heq, hmiss] at hold; exact absurd hold (by simp)
      exact (AList.lookup_insert_ne hkey).trans hold
  · show entryCount (d.map.insert t.key p) = entryCount (d.heap.cells.insert p _)
    rw [KeyedStore.entryCount_insert_new hmiss, KeyedStore.entryCount_insert_new hcell, h.counted]
  · show d.words_live + 1 = (entryCount (d.heap.cells.insert p _) : Nat)
    rw [KeyedStore.entryCount_insert_new hcell, h.words_live, Nat.cast_add, Nat.cast_one]
  · show d.words_bytes + _ = keyedSum _ (d.heap.cells.insert p _)
    rw [keyedSum_insert_new _ _ hcell, len_word_of, length_key, h.words_bytes, add_comm]

/-- A new word belongs to the caller. -/
theorem owned_insert (h : d.Owned own) (hmiss : d.map.lookup t.key = none)
    (hfresh : d.heap.get p = none) :
    Owned
      { map := d.map.insert t.key p
        heap := (d.heap.alloc p ⟨t.key, UInt8.ofNat t.copied⟩).retain p
        words_live := d.words_live + 1
        words_bytes := d.words_bytes + word_charge t.copied } (p ::ₘ own) := by
  have hword : (⟨t.key, UInt8.ofNat t.copied⟩ : WordText) = word_of t.key := by
    rw [word_of, length_key]
  rw [hword]
  have hcanon := canonical_insert h.canonical hmiss hfresh
  refine ⟨canonical_of_sameValues hcanon (CountedHeap.sameValues_retain _ p), ?_⟩
  refine (h.refs.alloc hfresh).retain ?_
  rw [CountedHeap.get_alloc_self]
  simp

/-- What the write section returns and what it leaves behind. -/
theorem owned_intern_write (h : d.Owned own) (hfresh : ∀ p ∈ fresh, d.heap.get p = none) :
    match (d.intern_write t budget fresh).1 with
    | none => (d.intern_write t budget fresh).2 = d
    | some p => (d.intern_write t budget fresh).2.Owned (p ::ₘ own) ∧
        (d.intern_write t budget fresh).2.heap.get p = some (word_of t.key) := by
  unfold intern_write
  cases hmap : d.map.lookup t.key with
  | some p =>
    refine ⟨owned_found h hmap, ?_⟩
    show (d.heap.retain p).get p = _
    rw [(CountedHeap.sameValues_retain _ p).get]
    exact h.canonical.indexed _ _ hmap
  | none =>
    by_cases hover : d.over_budget budget (word_charge t.copied) = true
    · simp only [if_pos hover]
    · simp only [if_neg hover]
      cases fresh with
      | none => rfl
      | some p =>
        have hp := hfresh p rfl
        refine ⟨owned_insert h hmap hp, ?_⟩
        show ((d.heap.alloc p _).retain p).get p = _
        rw [(CountedHeap.sameValues_retain _ p).get, CountedHeap.get_alloc_self, word_of, length_key]

theorem owned_intern_read {d' : Dictionary} (h : d.Owned own) (hr : d.intern_read t = some (p, d')) :
    d'.Owned (p ::ₘ own) ∧ d'.heap.get p = some (word_of t.key) := by
  unfold intern_read at hr
  obtain ⟨q, hq, heq⟩ := Option.map_eq_some_iff.mp hr
  obtain ⟨rfl, rfl⟩ := Prod.mk.inj heq
  refine ⟨owned_found h hq, ?_⟩
  show (d.heap.retain q).get q = _
  rw [(CountedHeap.sameValues_retain _ q).get]
  exact h.canonical.indexed _ _ hq

theorem owned_lookup {d' : Dictionary} (h : d.Owned own) (hr : d.lookup t = some (p, d')) :
    d'.Owned (p ::ₘ own) := by
  unfold lookup at hr
  split at hr
  · obtain ⟨q, hq, heq⟩ := Option.map_eq_some_iff.mp hr
    obtain ⟨rfl, rfl⟩ := Prod.mk.inj heq
    exact owned_found h hq
  · exact absurd hr (by simp)

/-! ## Section 4: Collection -/

/-- Freeing a word without references. -/
theorem canonical_erase {key : Key} {c : Counted WordText} (h : d.Canonical)
    (hkey : d.map.lookup key = some p) (hc : d.heap.cells.lookup p = some c) :
    Canonical
      { map := d.map.erase key
        heap := d.heap.free p
        words_live := d.words_live - 1
        words_bytes := d.words_bytes - word_charge c.value.len.toNat } := by
  have hmap := KeyedStore.entryCount_erase hkey
  have hheap := KeyedStore.entryCount_erase hc
  have hcounted := h.counted
  have hlive := h.words_live
  refine ⟨?_, ?_, ?_, ?_, ?_⟩
  · intro key' q hq
    have hne : key' ≠ key := fun heq => by
      subst heq
      rw [AList.lookup_erase] at hq
      exact absurd hq (by simp)
    rw [AList.lookup_erase_ne hne] at hq
    have hold := h.indexed key' q hq
    have hqp : q ≠ p := by
      intro heq
      subst heq
      -- one address cannot carry two keys
      have hother := h.indexed key q hkey
      rw [hold, Option.some.injEq, word_of, word_of, WordText.mk.injEq] at hother
      exact hne hother.1
    exact (CountedHeap.get_free_ne hqp).trans hold
  · intro q w hq
    have hqp : q ≠ p := fun heq => by
      subst heq
      rw [CountedHeap.get_free_self] at hq
      exact absurd hq (by simp)
    rw [CountedHeap.get_free_ne hqp] at hq
    have hold := h.complete q w hq
    have hne : w.str ≠ key := fun heq => by
      rw [heq, hkey, Option.some.injEq] at hold
      exact hqp hold.symm
    exact (AList.lookup_erase_ne hne).trans hold
  · show entryCount (d.map.erase key) = entryCount (d.heap.cells.erase p)
    omega
  · show d.words_live - 1 = (entryCount (d.heap.cells.erase p) : Nat)
    omega
  · show d.words_bytes - _ = keyedSum _ (d.heap.cells.erase p)
    have hsum := keyedSum_erase
      (fun c : Counted WordText => (word_charge c.value.len.toNat : Int)) d.heap.cells p
    rw [hc, Option.elim_some, ← h.words_bytes] at hsum
    omega

/-- The sweep over the entries that are left. Every one of them is still bound,
    because only entries that were passed already have been erased. -/
theorem owned_collect_entries {entries : List (Sigma fun _ : Key => Nat)} (h : d.Owned own)
    (hnodup : (entries.map Sigma.fst).Nodup)
    (hbound : ∀ e ∈ entries, d.map.lookup e.1 = some e.2) :
    (entries.foldl collect_entry d).Owned own := by
  induction entries generalizing d with
  | nil => exact h
  | cons e entries ih =>
    rw [List.map_cons, List.nodup_cons] at hnodup
    have hword := h.canonical.indexed _ _ (hbound e List.mem_cons_self)
    obtain ⟨c, hc⟩ : ∃ c, d.heap.cells.lookup e.2 = some c := by
      rw [CountedHeap.get, Option.map_eq_some_iff] at hword
      exact ⟨_, hword.choose_spec.1⟩
    have hrest : ∀ x ∈ entries, d.map.lookup x.1 = some x.2 :=
      fun x hx => hbound x (List.mem_cons_of_mem _ hx)
    rw [List.foldl_cons, collect_entry, hc]
    by_cases hzero : c.references = 0
    · simp only [hzero, ne_eq, not_true_eq_false, if_false]
      refine ih ⟨canonical_erase h.canonical (hbound e List.mem_cons_self) hc,
        h.refs.free hc hzero⟩ hnodup.2 ?_
      intro x hx
      have hne : x.1 ≠ e.1 := fun heq => hnodup.1 (heq ▸ List.mem_map_of_mem hx)
      exact (AList.lookup_erase_ne hne).trans (hrest x hx)
    · simp only [ne_eq, hzero, not_false_eq_true, if_true]
      exact ih h hnodup.2 hrest

/-- A collection keeps every word that has an owner. -/
theorem owned_collect (h : d.Owned own) : d.pinba_dictionary_collect.Owned own := by
  refine owned_collect_entries h d.map.nodupKeys ?_
  intro e he
  exact AList.mem_lookup_iff.mpr he

/-! ## Section 5: Frames and budgets -/

/-- Interning leaves every other word as it is. -/
theorem get_intern_write {q : Nat} {w : WordText} (hq : d.heap.get q = some w)
    (hfresh : ∀ p ∈ fresh, d.heap.get p = none) :
    (d.intern_write t budget fresh).2.heap.get q = some w := by
  unfold intern_write
  cases hmap : d.map.lookup t.key with
  | some p => exact ((CountedHeap.sameValues_retain _ p).get q).trans hq
  | none =>
    by_cases hover : d.over_budget budget (word_charge t.copied) = true
    · simpa only [if_pos hover] using hq
    · simp only [if_neg hover]
      cases fresh with
      | none => exact hq
      | some p =>
        have hqp : q ≠ p := fun heq => by
          rw [heq, hfresh p rfl] at hq
          exact absurd hq (by simp)
        show ((d.heap.alloc p _).retain p).get q = _
        rw [(CountedHeap.sameValues_retain _ p).get, CountedHeap.get_alloc_ne hqp]
        exact hq

/-- A collection changes no word that it keeps. -/
theorem get_collect_entries (entries : List (Sigma fun _ : Key => Nat)) (d : Dictionary) (q : Nat) :
    (entries.foldl collect_entry d).heap.get q = d.heap.get q ∨
      (entries.foldl collect_entry d).heap.get q = none := by
  induction entries generalizing d with
  | nil => exact .inl rfl
  | cons e entries ih =>
    rw [List.foldl_cons]
    have hone : (d.collect_entry e).heap.get q = d.heap.get q ∨
        (d.collect_entry e).heap.get q = none := by
      unfold collect_entry
      split
      · exact .inl rfl
      · split
        · exact .inl rfl
        · by_cases hq : q = e.2
          · rw [hq]
            exact .inr CountedHeap.get_free_self
          · exact .inl (CountedHeap.get_free_ne hq)
    rcases ih (d.collect_entry e) with hsame | hnone
    · rw [hsame]
      exact hone
    · exact .inr hnone

theorem get_collect {q : Nat} (h : d.Owned own) (hq : q ∈ own) :
    d.pinba_dictionary_collect.heap.get q = d.heap.get q := by
  rcases get_collect_entries d.map.entries d q with hsame | hnone
  · exact hsame
  · exact absurd hnone ((owned_collect h).refs.live q hq)

/-- What an intern with a budget may do to the totals. -/
structure WithinBudget (budget : Budget) (d d' : Dictionary) : Prop where
  words : budget.max_words ≠ 0 → d'.words_live = d.words_live ∨ d'.words_live ≤ budget.max_words
  bytes : budget.max_bytes ≠ 0 → d'.words_bytes = d.words_bytes ∨ d'.words_bytes ≤ budget.max_bytes

theorem withinBudget_intern_write (h : d.Canonical) :
    WithinBudget budget d (d.intern_write t budget fresh).2 := by
  unfold intern_write
  cases hmap : d.map.lookup t.key with
  | some p => exact ⟨fun _ => .inl rfl, fun _ => .inl rfl⟩
  | none =>
    by_cases hover : d.over_budget budget (word_charge t.copied) = true
    · simp only [if_pos hover]
      exact ⟨fun _ => .inl rfl, fun _ => .inl rfl⟩
    · simp only [if_neg hover]
      cases fresh with
      | none => exact ⟨fun _ => .inl rfl, fun _ => .inl rfl⟩
      | some p =>
        unfold over_budget at hover
        simp only [Bool.or_eq_true, Bool.and_eq_true, bne_iff_ne, decide_eq_true_eq, not_or,
          not_and] at hover
        obtain ⟨hwords, hbytes⟩ := hover
        have hlive := h.words_live
        rw [← h.counted] at hlive
        refine ⟨?_, ?_⟩
        · intro hmax
          right
          have hroom := hwords hmax
          show d.words_live + 1 ≤ _
          omega
        · intro hmax
          right
          obtain ⟨hfits, hroom⟩ := hbytes hmax
          show d.words_bytes + _ ≤ _
          omega

end Dictionary

/-! ## Section 6: Interning by many threads -/

/-- Threads that intern, hold and release words. -/
structure Interning where
  dictionary : Dictionary
  /-- The threads that dropped the read lock and wait for the write lock. -/
  waiting : List (Text × Budget)
  /-- The references that are held: the string that was interned and its word. -/
  held : List (Text × Nat)

namespace Interning

def init : Interning := ⟨.init, [], []⟩

/-- A waiting thread gets the write lock. -/
def write (s : Interning) (w : Text × Budget) (fresh : Option Nat) : Interning :=
  let r := s.dictionary.intern_write w.1 w.2 fresh
  { dictionary := r.2
    waiting := s.waiting.erase w
    held := match r.1 with
      | none => s.held
      | some p => (w.1, p) :: s.held }

/-- One critical section, or one release. -/
inductive Step : Interning → Interning → Prop
  | found {s : Interning} {d : Dictionary} {p : Nat} (t : Text)
    (h : s.dictionary.intern_read t = some (p, d)) :
    Step s { s with dictionary := d, held := (t, p) :: s.held }
  | missed {s : Interning} (t : Text) (budget : Budget) (h : s.dictionary.intern_read t = none) :
    Step s { s with waiting := (t, budget) :: s.waiting }
  | write {s : Interning} {w : Text × Budget} (hw : w ∈ s.waiting) (fresh : Option Nat)
    (hfresh : ∀ p ∈ fresh, s.dictionary.heap.get p = none) : Step s (s.write w fresh)
  | release {s : Interning} {e : Text × Nat} (he : e ∈ s.held) :
    Step s { s with dictionary := s.dictionary.pinba_word_release e.2, held := s.held.erase e }
  | collect {s : Interning} :
    Step s { s with dictionary := s.dictionary.pinba_dictionary_collect }

/-- The states that the threads can reach. -/
inductive Reachable : Interning → Prop
  | init : Reachable init
  | step {s s' : Interning} (hs : Reachable s) (h : Step s s') : Reachable s'

/-- The holders own the words, and each has the word of its string. -/
structure Inv (s : Interning) : Prop where
  owned : s.dictionary.Owned (s.held.map Prod.snd : List Nat)
  text : ∀ e ∈ s.held, s.dictionary.heap.get e.2 = some (Dictionary.word_of e.1.key)

/-- The write section adds the word to what is held, or changes nothing. -/
theorem inv_write {s : Interning} (hs : s.Inv) (w : Text × Budget) {fresh : Option Nat}
    (hfresh : ∀ p ∈ fresh, s.dictionary.heap.get p = none) : (s.write w fresh).Inv := by
  have hspec := @Dictionary.owned_intern_write _ w.1 w.2 _ _ hs.owned hfresh
  have htext : ∀ e ∈ s.held, (s.dictionary.intern_write w.1 w.2 fresh).2.heap.get e.2 =
      some (Dictionary.word_of e.1.key) :=
    fun e he => Dictionary.get_intern_write (hs.text e he) hfresh
  cases hres : (s.dictionary.intern_write w.1 w.2 fresh).1 with
  -- out of memory or over budget
  | none =>
    rw [hres] at hspec
    have hheld : (s.write w fresh).held = s.held := by
      unfold Interning.write
      simp only [hres]
    refine ⟨?_, ?_⟩
    · rw [hheld]
      show (s.dictionary.intern_write w.1 w.2 fresh).2.Owned _
      rw [hspec]
      exact hs.owned
    · rw [hheld]
      exact htext
  | some p =>
    rw [hres] at hspec
    have hheld : (s.write w fresh).held = (w.1, p) :: s.held := by
      unfold Interning.write
      simp only [hres]
    refine ⟨?_, ?_⟩
    · rw [hheld]
      exact hspec.1
    · rw [hheld]
      intro e he
      rcases List.mem_cons.mp he with rfl | hold
      · exact hspec.2
      · exact htext e hold

theorem inv_step {s s' : Interning} (hs : s.Inv) (h : Step s s') : s'.Inv := by
  cases h with
  | @found d p t hr =>
    obtain ⟨howned, hword⟩ := Dictionary.owned_intern_read hs.owned hr
    have hget : ∀ q, d.heap.get q = s.dictionary.heap.get q := by
      unfold Dictionary.intern_read at hr
      obtain ⟨q, -, heq⟩ := Option.map_eq_some_iff.mp hr
      obtain ⟨rfl, rfl⟩ := Prod.mk.inj heq
      exact (CountedHeap.sameValues_retain _ _).get
    refine ⟨howned, ?_⟩
    intro e he
    rcases List.mem_cons.mp he with rfl | hold
    · exact hword
    · exact (hget e.2).trans (hs.text e hold)
  | missed t budget hr => exact ⟨hs.owned, hs.text⟩
  | @write w hw fresh hfresh =>
    exact inv_write hs w hfresh
  | @release e he =>
    have hperm : (s.held.map Prod.snd : List Nat).Perm (e.2 :: (s.held.erase e).map Prod.snd) :=
      (List.perm_cons_erase he).map Prod.snd
    have howned := hs.owned
    rw [Multiset.coe_eq_coe.mpr hperm] at howned
    refine ⟨Dictionary.owned_release howned, ?_⟩
    intro x hx
    show (s.dictionary.heap.release e.2).get x.2 = _
    rw [(CountedHeap.sameValues_release _ _).get]
    exact hs.text x (List.mem_of_mem_erase hx)
  | collect =>
    refine ⟨Dictionary.owned_collect hs.owned, ?_⟩
    intro e he
    rw [Dictionary.get_collect hs.owned (List.mem_map_of_mem he)]
    exact hs.text e he

theorem inv_of_reachable {s : Interning} (h : Reachable s) : s.Inv := by
  induction h with
  | init => exact ⟨Dictionary.owned_init, fun e he => absurd he List.not_mem_nil⟩
  | step _ h ih => exact inv_step ih h

/-- The words in memory. -/
def words (s : Interning) : List WordText :=
  s.dictionary.heap.cells.entries.map fun e => e.2.value

/-- What interning promises in a state. -/
structure Sound (s : Interning) : Prop where
  /-- No two live words have equal strings. -/
  distinct : ∀ p q w v, s.dictionary.heap.get p = some w → s.dictionary.heap.get q = some v →
    w.str = v.str → p = q
  /-- Words that are held are live and spell their strings. -/
  spelled : ∀ e ∈ s.held, ∃ w, s.dictionary.heap.get e.2 = some w ∧
    w.str.bytes = e.1.bytes.take 64
  /-- Comparing held words is comparing the first 64 bytes. -/
  same_word : ∀ e ∈ s.held, ∀ f ∈ s.held, e.2 = f.2 ↔ e.1.bytes.take 64 = f.1.bytes.take 64
  words_live : s.dictionary.words_live = s.words.length
  words_bytes : s.dictionary.words_bytes =
    (s.words.map fun w => (sizeof_pinba_word + 2 * (w.str.bytes.length + 1) : Nat)).sum
  /-- A thread with a budget pushes no total over its limit. -/
  budget : ∀ w fresh, (∀ p ∈ fresh, s.dictionary.heap.get p = none) →
    Dictionary.WithinBudget w.2 s.dictionary (s.write w fresh).dictionary
  /-- A rejected intern leaves the dictionary as it was. -/
  rejected : ∀ w fresh, (∀ p ∈ fresh, s.dictionary.heap.get p = none) →
    (s.dictionary.intern_write w.1 w.2 fresh).1 = none → (s.write w fresh).dictionary = s.dictionary

/-- However threads interleave, the dictionary stays canonical and within the
    budgets. -/
theorem canonical_interning {s : Interning} (h : Reachable s) : s.Sound := by
  have hinv := inv_of_reachable h
  have hcanon := hinv.owned.canonical
  refine ⟨?_, ?_, ?_, ?_, ?_, ?_, ?_⟩
  · intro p q w v hp hq heq
    have hw := hcanon.complete p w hp
    rw [heq, hcanon.complete q v hq] at hw
    exact (Option.some.inj hw).symm
  · intro e he
    exact ⟨_, hinv.text e he, Dictionary.key_bytes e.1⟩
  · intro e he f hf
    have hewd := hinv.text e he
    have hfwd := hinv.text f hf
    constructor
    · intro heq
      rw [heq, hfwd, Option.some.injEq, Dictionary.word_of, Dictionary.word_of,
        WordText.mk.injEq] at hewd
      rw [← Dictionary.key_bytes, ← Dictionary.key_bytes, hewd.1]
    · intro hbytes
      have hkey : e.1.key = f.1.key := by
        apply CString.ext
        rw [Dictionary.key_bytes, Dictionary.key_bytes, hbytes]
      have hecomp := hcanon.complete _ _ hewd
      have hfcomp := hcanon.complete _ _ hfwd
      rw [show (Dictionary.word_of e.1.key).str = (Dictionary.word_of f.1.key).str from hkey,
        hfcomp] at hecomp
      exact (Option.some.inj hecomp).symm
  · rw [hcanon.words_live]
    simp [words, KeyedStore.entryCount, AList.keys, List.keys]
  · rw [hcanon.words_bytes, keyedSum, words, List.map_map, Nat.cast_list_sum, List.map_map]
    congr 1
    apply List.map_congr_left
    intro e he
    have hget : s.dictionary.heap.get e.1 = some e.2.value := by
      rw [CountedHeap.get, AList.mem_lookup_iff.mpr he]
      rfl
    -- the length is that of the string
    have hword := hcanon.indexed _ _ (hcanon.complete _ _ hget)
    rw [hget, Option.some.injEq] at hword
    show ((word_charge e.2.value.len.toNat : Nat) : Int) = _
    rw [hword, Dictionary.len_word_of]
    rfl
  · intro w fresh _
    exact Dictionary.withinBudget_intern_write hcanon
  · intro w fresh hfresh hnone
    have hspec := @Dictionary.owned_intern_write _ w.1 w.2 _ _ hinv.owned hfresh
    rw [hnone] at hspec
    exact hspec

/-- A one-letter string. -/
def letter : Text := ⟨[97], by decide⟩

/-- The state after a thread has created a word. -/
def one_word : Interning :=
  { init with waiting := [(letter, ⟨10, 1000⟩)] }.write (letter, ⟨10, 1000⟩) (some 1)

/-- Two threads that have interned the same string. -/
theorem canonical_interning_twice :
    let s : Interning := { one_word with
      dictionary := one_word.dictionary.pinba_word_retain 1
      held := (letter, 1) :: one_word.held }
    s.held.map Prod.snd = [1, 1] ∧ s.Sound := by
  intro s
  have hwait : Reachable { init with waiting := [(letter, ⟨10, 1000⟩)] } :=
    .step .init (.missed letter ⟨10, 1000⟩ rfl)
  have hword : Reachable one_word :=
    .step hwait (.write List.mem_cons_self (some 1) fun p _ => rfl)
  exact ⟨rfl, canonical_interning (.step hword (.found letter rfl))⟩

end Interning

end PinbaEngine
