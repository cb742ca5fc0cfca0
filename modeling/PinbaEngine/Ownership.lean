import PinbaEngine.Dictionary

/-! # Who owns the words

    Every array that stores dictionary words for longer than a critical section
    owns one reference per entry: the staging records of the data threads, the
    records of the request ring, the conditions of reports, the selectors of
    request tag reports, and the words that a report constructor has looked up.
    Request tags and timers only borrow from the array of their record.

    `request_copy_job_func` moves the entries of a staging record to a ring
    record instead of retaining and releasing them, and a failed copy leaves them
    where they are. The module follows every array through all operations that
    touch it and shows that the reference counts are those of the arrays. Some
    report constructors forget the words of their report when they fail; without
    such failures nothing is lost.
-/

namespace PinbaEngine

open CountedHeap (pointers)

/-! ## Section 1: State -/

/-- The arrays that own words. -/
inductive Holder where
  /-- `words[0..words_cnt)` of a record in a per-thread staging pool. -/
  | staging (thread n : Nat)
  /-- `dictionary_words[0..dictionary_words_count)` of a ring slot. -/
  | raw (slot : Nat)
  /-- `cond.tag_names` of a report. -/
  | cond_names (report : Nat)
  /-- `cond.tag_values` of a report. -/
  | cond_values (report : Nat)
  /-- `tags` of a request tag report. -/
  | selector (report : Nat)
  /-- The words that a constructor has looked up and not stored yet. -/
  | lookups (report : Nat)
deriving DecidableEq

/-- The arrays that words are interned into. -/
def Holder.Interns : Holder → Prop
  | .staging _ _ | .cond_names _ | .cond_values _ => True
  | .raw _ | .selector _ | .lookups _ => False

/-- The word pointers that a ring record borrows. -/
structure BorrowedWords where
  /-- Names and values of the request tags. -/
  tags : List (Nat × Nat)
  /-- `tag_values` of the timers of the record. -/
  timers : List (List Nat)

/-- A thread that waits for the write lock to fill the last entry of an array. -/
structure Waiting where
  holder : Holder
  text : Text
  budget : Budget
deriving DecidableEq

/-- Everything that points to words. -/
structure WordStore where
  dictionary : Dictionary
  arrays : AList fun _ : Holder => List (Option Nat)
  staged_tags : Nat × Nat → List (Nat × Nat)
  raw : Nat → BorrowedWords
  waiting : List Waiting

namespace WordStore

variable (s : WordStore)

def init : WordStore := ⟨.init, ∅, fun _ => [], fun _ => ⟨[], []⟩, []⟩

/-- The entries of an array. -/
def words (h : Holder) : List (Option Nat) := (s.arrays.lookup h).getD []

/-- Exchange the entries of an array. -/
def set_words (h : Holder) (entries : List (Option Nat)) : WordStore :=
  { s with arrays := s.arrays.insert h entries }

/-- All owners, one for each entry that is not null. -/
def owners : Multiset Nat := keyedSum pointers s.arrays

/-- No thread is about to fill an entry of the array. -/
def Idle (h : Holder) : Prop := h ∉ s.waiting.map Waiting.holder

/-! ## Section 2: Operations -/

/-- `pinba_words_release` on a whole array. -/
def release_words (h : Holder) : WordStore :=
  { s.set_words h [] with dictionary := s.dictionary.pinba_words_release (s.words h) }

/-- Intern a word into a new entry of an array, up to the end of the read section. -/
def intern_read (h : Holder) (t : Text) (budget : Budget) : WordStore :=
  match s.dictionary.intern_read t with
  | some (p, d) => { s.set_words h (s.words h ++ [some p]) with dictionary := d }
  | none =>
    { s.set_words h (s.words h ++ [none]) with waiting := ⟨h, t, budget⟩ :: s.waiting }

/-- The write section of an intern. -/
def intern_write (w : Waiting) (fresh : Option Nat) : WordStore :=
  match s.dictionary.intern_write w.text w.budget fresh with
  | (some p, d) =>
    { s.set_words w.holder ((s.words w.holder).dropLast ++ [some p]) with
      dictionary := d, waiting := s.waiting.erase w }
  | (none, d) => { s with dictionary := d, waiting := s.waiting.erase w }

/-- `pinba_dictionary_lookup` by a constructor; a miss gives a null entry. -/
def lookup (report : Nat) (t : Text) : WordStore :=
  match s.dictionary.lookup t with
  | some (p, d) =>
    { s.set_words (.lookups report) (s.words (.lookups report) ++ [some p]) with dictionary := d }
  | none => s

/-- The word in an entry. -/
def entry (words : List (Option Nat)) (i : Nat) : Option Nat := words[i]?.join

/-- Pairs of entries by their indices. -/
def entry_pairs (words : List (Option Nat)) (tags : List (Nat × Nat)) : List (Nat × Nat) :=
  tags.filterMap fun t =>
    (entry words t.1).bind fun name => (entry words t.2).map fun value => (name, value)

/-- The end of `request_to_record`: request tags by dictionary index. -/
def request_tags (thread n : Nat) (tags : List (Nat × Nat)) : WordStore :=
  { s with
    staged_tags := Function.update s.staged_tags (thread, n)
      (entry_pairs (s.words (.staging thread n)) tags) }

/-- `pinba_tmp_release_words`. -/
def pinba_tmp_release_words (thread n : Nat) : WordStore :=
  { s.release_words (.staging thread n) with
    staged_tags := Function.update s.staged_tags (thread, n) [] }

/-- `pinba_record_release_words`. -/
def pinba_record_release_words (slot : Nat) : WordStore :=
  { s.release_words (.raw slot) with
    raw := Function.update s.raw slot { s.raw slot with tags := [] } }

/-- The body of the loop in `request_copy_job_func`. -/
def request_copy (thread n slot : Nat) (copied : Bool) : WordStore :=
  let s := s.pinba_record_release_words slot
  -- the ring record is overwritten, with no timers yet
  let s := { s with raw := Function.update s.raw slot ⟨[], []⟩ }
  if copied then
    let words := s.words (.staging thread n)
    { (s.set_words (.raw slot) words).set_words (.staging thread n)
        (List.replicate words.length none) with
      raw := Function.update s.raw slot ⟨s.staged_tags (thread, n), []⟩
      staged_tags := Function.update s.staged_tags (thread, n) [] }
  else s

/-- Two ring slots change places when a batch with failed copies is compacted. -/
def swap (a b : Nat) : WordStore :=
  { (s.set_words (.raw a) (s.words (.raw b))).set_words (.raw b) (s.words (.raw a)) with
    raw := Function.update (Function.update s.raw a (s.raw b)) b (s.raw a) }

/-- `_add_timers`: the tag values of the timers by dictionary index. -/
def add_timers (slot : Nat) (timers : List (List Nat)) : WordStore :=
  { s with
    raw := Function.update s.raw slot { s.raw slot with
      timers := timers.map fun values => values.filterMap (entry (s.words (.raw slot))) } }

/-- `clear_record_timers_func` for one record. -/
def clear_record_timers (slot : Nat) : WordStore :=
  { s with raw := Function.update s.raw slot { s.raw slot with timers := [] } }

/-- A constructor stores the words it has looked up as the selector of its report. -/
def take_selector (report : Nat) : WordStore :=
  (s.set_words (.selector report) (s.words (.lookups report))).set_words (.lookups report) []

/-- `pinba_std_report_dtor`, and the selector of a request tag report. -/
def report_dtor (report : Nat) : WordStore :=
  ((s.release_words (.cond_names report)).release_words (.cond_values report)).release_words
    (.selector report)

/-- The places where a constructor can fail after it has parsed the conditions. -/
inductive ConstructorFailure where
  /-- Base reports: `pinba_array_add` or `pinba_update_report_tables`. -/
  | base_registration
  /-- `tagN` reports: the buffers for index and words. -/
  | tagN_buffers
  /-- Timer tag and request tag reports: as for base reports. -/
  | tag_registration
  /-- `rtagN` reports: the buffer for the index. -/
  | rtagN_index
deriving DecidableEq

/-- The places where the words of the report are given back. -/
def ConstructorFailure.releases : ConstructorFailure → Bool
  | .base_registration | .tagN_buffers => false
  | .tag_registration | .rtagN_index => true

/-- What such a constructor does with the words of its report. -/
def constructor_failed (report : Nat) (failure : ConstructorFailure) : WordStore :=
  if failure.releases then s.report_dtor report
  else
    -- the report is freed as it is
    ((s.set_words (.cond_names report) []).set_words (.cond_values report) []).set_words
      (.selector report) []

/-! ## Section 3: Runs -/

/-- One critical section or one operation on the arrays. -/
inductive Event where
  | intern_read (h : Holder) (t : Text) (budget : Budget)
  | intern_write (w : Waiting) (fresh : Option Nat)
  | lookup (report : Nat) (t : Text)
  | request_tags (thread n : Nat) (tags : List (Nat × Nat))
  | pinba_tmp_release_words (thread n : Nat)
  | request_copy (thread n slot : Nat) (copied : Bool)
  | swap (a b : Nat)
  | add_timers (slot : Nat) (timers : List (List Nat))
  | clear_record_timers (slot : Nat)
  | pinba_record_release_words (slot : Nat)
  | take_selector (report : Nat)
  | drop_lookups (report : Nat)
  | report_dtor (report : Nat)
  | constructor_failed (report : Nat) (failure : ConstructorFailure)
  | collect

def step : Event → WordStore
  | .intern_read h t budget => s.intern_read h t budget
  | .intern_write w fresh => s.intern_write w fresh
  | .lookup report t => s.lookup report t
  | .request_tags thread n tags => s.request_tags thread n tags
  | .pinba_tmp_release_words thread n => s.pinba_tmp_release_words thread n
  | .request_copy thread n slot copied => s.request_copy thread n slot copied
  | .swap a b => s.swap a b
  | .add_timers slot timers => s.add_timers slot timers
  | .clear_record_timers slot => s.clear_record_timers slot
  | .pinba_record_release_words slot => s.pinba_record_release_words slot
  | .take_selector report => s.take_selector report
  | .drop_lookups report => s.release_words (.lookups report)
  | .report_dtor report => s.report_dtor report
  | .constructor_failed report failure => s.constructor_failed report failure
  | .collect => { s with dictionary := s.dictionary.pinba_dictionary_collect }

/-- When the code may do it. A thread that waits for the write lock does nothing
    else, a new word gets an address that is not in use, timers are cleared before
    the words of their record are released, and copies go to slots outside the
    ring. -/
def Event.Enabled : Event → Prop
  | .intern_read h _ _ => s.Idle h ∧ h.Interns
  | .intern_write w fresh => w ∈ s.waiting ∧ ∀ p ∈ fresh, s.dictionary.heap.get p = none
  | .request_tags thread n tags => s.Idle (.staging thread n) ∧
      ∀ t ∈ tags, t.1 < (s.words (.staging thread n)).length ∧
        t.2 < (s.words (.staging thread n)).length
  | .pinba_tmp_release_words thread n => s.Idle (.staging thread n)
  | .request_copy thread n slot _ => s.Idle (.staging thread n) ∧ (s.raw slot).timers = []
  | .swap a b => a ≠ b
  | .pinba_record_release_words slot => (s.raw slot).timers = []
  | .take_selector report => s.words (.selector report) = []
  | .report_dtor report | .constructor_failed report _ =>
      s.Idle (.cond_names report) ∧ s.Idle (.cond_values report)
  | _ => True

/-- The states that the daemon can reach. Every event meets `ok` in its state. -/
inductive Run (ok : WordStore → Event → Prop) : WordStore → Prop
  | init : Run ok init
  | step {s : WordStore} (e : Event) (hs : Run ok s) (he : e.Enabled s) (hok : ok s e) :
    Run ok (s.step e)

/-! ## Section 4: Arrays -/

variable {s} {h h' : Holder} {p : Nat} {entries : List (Option Nat)}

theorem words_set_self : (s.set_words h entries).words h = entries := by
  simp [words, set_words]

theorem words_set_ne (hne : h' ≠ h) : (s.set_words h entries).words h' = s.words h' := by
  simp [words, set_words, AList.lookup_insert_ne hne]

/-- Exchanging an array exchanges its owners. -/
theorem owners_set_words (s : WordStore) (h : Holder) (entries : List (Option Nat)) :
    (s.set_words h entries).owners + pointers (s.words h) = pointers entries + s.owners := by
  have hold : (s.arrays.lookup h).elim 0 pointers = pointers (s.words h) := by
    unfold words
    cases s.arrays.lookup h <;> rfl
  rw [← hold]
  exact keyedSum_insert pointers s.arrays h entries

theorem mem_pointers : p ∈ pointers entries ↔ some p ∈ entries := by
  simp [pointers]

theorem mem_owners (hp : some p ∈ s.words h) : p ∈ s.owners := by
  have hsum := owners_set_words s h []
  rw [CountedHeap.pointers_nil, zero_add] at hsum
  rw [← hsum]
  exact Multiset.mem_add.mpr (.inr (mem_pointers.mpr hp))

theorem mem_of_entry {i : Nat} (hp : entry entries i = some p) : some p ∈ entries := by
  unfold entry at hp
  rw [Option.join_eq_some_iff] at hp
  exact List.mem_of_getElem? hp

theorem mem_of_entry_pairs {tags : List (Nat × Nat)} {e : Nat × Nat}
    (he : e ∈ entry_pairs entries tags) : some e.1 ∈ entries ∧ some e.2 ∈ entries := by
  obtain ⟨t, -, ht⟩ := List.mem_filterMap.mp he
  obtain ⟨name, hname, hrest⟩ := Option.bind_eq_some_iff.mp ht
  obtain ⟨value, hvalue, rfl⟩ := Option.map_eq_some_iff.mp hrest
  exact ⟨mem_of_entry hname, mem_of_entry hvalue⟩

/-- Filling the last entry of an array. -/
theorem pointers_fill (hlast : entries.getLast? = some none) :
    pointers (entries.dropLast ++ [some p]) = p ::ₘ pointers entries := by
  obtain ⟨init, rfl⟩ := List.getLast?_eq_some_iff.mp hlast
  rw [List.dropLast_concat, CountedHeap.pointers_append, CountedHeap.pointers_append,
    CountedHeap.pointers_some, CountedHeap.pointers_nil, CountedHeap.pointers_none,
    CountedHeap.pointers_nil, add_zero, Multiset.add_cons, add_zero]

theorem pointers_replicate_none (n : Nat) : pointers (List.replicate n none) = 0 := by
  induction n with
  | zero => rfl
  | succ n ih => exact ih

/-! ## Section 5: The invariant -/

/-- The words that a record borrows from its array. -/
def borrowed (s : WordStore) : Holder → List Nat
  | .staging thread n => (s.staged_tags (thread, n)).flatMap fun e => [e.1, e.2]
  | .raw slot => ((s.raw slot).tags.flatMap fun e => [e.1, e.2]) ++ (s.raw slot).timers.flatten
  | _ => []

/-- The arrays own the words, except for some references that are lost. Waiting
    threads have a null entry to fill, and what is borrowed is in the array it is
    borrowed from. -/
structure Inv (s : WordStore) (lost : Multiset Nat) : Prop where
  owned : s.dictionary.Owned (s.owners + lost)
  unfilled : ∀ w ∈ s.waiting, w.holder.Interns ∧ (s.words w.holder).getLast? = some none
  once : (s.waiting.map Waiting.holder).Nodup
  borrowed : ∀ h, ∀ p ∈ s.borrowed h, some p ∈ s.words h

variable {lost : Multiset Nat}

theorem idle_of_not_interns (hs : s.Inv lost) (hh : ¬ h.Interns) : s.Idle h := by
  intro hmem
  obtain ⟨w, hw, rfl⟩ := List.mem_map.mp hmem
  exact hh (hs.unfilled w hw).1

theorem ne_of_idle {w : Waiting} (hidle : s.Idle h) (hw : w ∈ s.waiting) : w.holder ≠ h :=
  fun heq => hidle (heq ▸ List.mem_map_of_mem hw)

/-- A staging record may borrow what is in its array. -/
theorem inv_set_staged {thread n : Nat} {tags : List (Nat × Nat)} (hs : s.Inv lost)
    (htags : ∀ e ∈ tags, some e.1 ∈ s.words (.staging thread n) ∧
      some e.2 ∈ s.words (.staging thread n)) :
    { s with staged_tags := Function.update s.staged_tags (thread, n) tags }.Inv lost := by
  refine ⟨hs.owned, hs.unfilled, hs.once, ?_⟩
  intro h' p hp
  cases h' with
  | staging thread' n' =>
    unfold borrowed at hp
    by_cases heq : (thread', n') = (thread, n)
    · obtain ⟨rfl, rfl⟩ := Prod.mk.inj heq
      simp only [Function.update_self] at hp
      obtain ⟨e, he, hpe⟩ := List.mem_flatMap.mp hp
      simp only [List.mem_cons, List.not_mem_nil, or_false] at hpe
      rcases hpe with rfl | rfl
      · exact (htags e he).1
      · exact (htags e he).2
    · simp only [Function.update_of_ne heq] at hp
      exact hs.borrowed (.staging thread' n') p hp
  | _ => exact hs.borrowed _ p hp

/-- So may a ring record. -/
theorem inv_set_raw {slot : Nat} {r : BorrowedWords} (hs : s.Inv lost)
    (htags : ∀ e ∈ r.tags, some e.1 ∈ s.words (.raw slot) ∧ some e.2 ∈ s.words (.raw slot))
    (htimers : ∀ timer ∈ r.timers, ∀ p ∈ timer, some p ∈ s.words (.raw slot)) :
    { s with raw := Function.update s.raw slot r }.Inv lost := by
  refine ⟨hs.owned, hs.unfilled, hs.once, ?_⟩
  intro h' p hp
  cases h' with
  | raw slot' =>
    unfold borrowed at hp
    by_cases heq : slot' = slot
    · subst heq
      simp only [Function.update_self] at hp
      rcases List.mem_append.mp hp with htag | htimer
      · obtain ⟨e, he, hpe⟩ := List.mem_flatMap.mp htag
        simp only [List.mem_cons, List.not_mem_nil, or_false] at hpe
        rcases hpe with rfl | rfl
        · exact (htags e he).1
        · exact (htags e he).2
      · obtain ⟨timer, ht, hpt⟩ := List.mem_flatten.mp htimer
        exact htimers timer ht p hpt
    · simp only [Function.update_of_ne heq] at hp
      exact hs.borrowed (.raw slot') p hp
  | _ => exact hs.borrowed _ p hp

theorem tags_borrowed {slot : Nat} (hs : s.Inv lost) : ∀ e ∈ (s.raw slot).tags,
    some e.1 ∈ s.words (.raw slot) ∧ some e.2 ∈ s.words (.raw slot) := by
  intro e he
  have hmem : ∀ p ∈ [e.1, e.2], p ∈ s.borrowed (.raw slot) := fun p hp =>
    List.mem_append_left _ (List.mem_flatMap.mpr ⟨e, he, hp⟩)
  exact ⟨hs.borrowed _ _ (hmem e.1 (by simp)), hs.borrowed _ _ (hmem e.2 (by simp))⟩

theorem timers_borrowed {slot : Nat} (hs : s.Inv lost) :
    ∀ timer ∈ (s.raw slot).timers, ∀ p ∈ timer, some p ∈ s.words (.raw slot) := by
  intro timer ht p hp
  exact hs.borrowed (.raw slot) p
    (List.mem_append_right _ (List.mem_flatten.mpr ⟨timer, ht, hp⟩))

/-- An array from which nothing is borrowed may be released. -/
theorem inv_release_words (hs : s.Inv lost) (hidle : s.Idle h) (hfree : s.borrowed h = []) :
    (s.release_words h).Inv lost := by
  have howners : s.owners = pointers (s.words h) + (s.release_words h).owners := by
    have hsum := owners_set_words s h []
    rw [CountedHeap.pointers_nil, zero_add] at hsum
    rw [add_comm]
    exact hsum.symm
  refine ⟨?_, ?_, hs.once, ?_⟩
  · have howned := hs.owned
    rw [howners, add_assoc] at howned
    exact Dictionary.owned_words_release howned
  · intro w hw
    show _ ∧ ((s.set_words h []).words w.holder).getLast? = _
    rw [words_set_ne (ne_of_idle hidle hw)]
    exact hs.unfilled w hw
  · intro h' p hp
    show some p ∈ (s.set_words h []).words h'
    by_cases hne : h' = h
    · subst hne
      have hnil : (s.release_words h').borrowed h' = s.borrowed h' := by
        cases h' <;> rfl
      rw [hnil, hfree] at hp
      exact absurd hp List.not_mem_nil
    · rw [words_set_ne hne]
      refine hs.borrowed h' p ?_
      cases h' <;> exact hp

/-- A new entry at the end of an array, with the reference it owns. -/
theorem inv_append (hs : s.Inv lost) (hidle : s.Idle h) {d : Dictionary} {entry : Option Nat}
    (howned : d.Owned (pointers [entry] + (s.owners + lost))) :
    { s.set_words h (s.words h ++ [entry]) with dictionary := d }.Inv lost := by
  have howners : (s.set_words h (s.words h ++ [entry])).owners = pointers [entry] + s.owners := by
    have hsum := owners_set_words s h (s.words h ++ [entry])
    rw [CountedHeap.pointers_append, add_assoc, add_comm] at hsum
    exact add_left_cancel hsum
  refine ⟨?_, ?_, hs.once, ?_⟩
  · show d.Owned ((s.set_words h (s.words h ++ [entry])).owners + lost)
    rw [howners, add_assoc]
    exact howned
  · intro w hw
    show _ ∧ ((s.set_words h _).words w.holder).getLast? = _
    rw [words_set_ne (ne_of_idle hidle hw)]
    exact hs.unfilled w hw
  · intro h' p hp
    have hold : some p ∈ s.words h' := hs.borrowed h' p (by cases h' <;> exact hp)
    show some p ∈ (s.set_words h _).words h'
    by_cases hne : h' = h
    · subst hne
      rw [words_set_self]
      exact List.mem_append_left _ hold
    · rw [words_set_ne hne]
      exact hold

/-! ## Section 6: One step -/

theorem inv_intern_read {t : Text} {budget : Budget} (hs : s.Inv lost) (hidle : s.Idle h)
    (hh : h.Interns) : (s.intern_read h t budget).Inv lost := by
  unfold intern_read
  cases hread : s.dictionary.intern_read t with
  | some r =>
    obtain ⟨p, d⟩ := r
    refine inv_append hs hidle ?_
    exact (Dictionary.owned_intern_read hs.owned hread).1
  | none =>
    have happend : { s.set_words h (s.words h ++ [none]) with dictionary := s.dictionary }.Inv lost :=
      inv_append hs hidle (by simpa using hs.owned)
    refine ⟨happend.owned, ?_, ?_, ?_⟩
    · intro w hw
      rcases List.mem_cons.mp hw with rfl | hold
      · refine ⟨hh, ?_⟩
        show ((s.set_words h _).words h).getLast? = _
        rw [words_set_self, List.getLast?_concat]
      · exact happend.unfilled w hold
    · exact List.nodup_cons.mpr ⟨hidle, hs.once⟩
    · intro h' p hp
      exact happend.borrowed h' p (by cases h' <;> exact hp)

theorem inv_intern_write {w : Waiting} {fresh : Option Nat} (hs : s.Inv lost) (hw : w ∈ s.waiting)
    (hfresh : ∀ p ∈ fresh, s.dictionary.heap.get p = none) : (s.intern_write w fresh).Inv lost := by
  have hspec := @Dictionary.owned_intern_write _ w.text w.budget _ _ hs.owned hfresh
  have hlast := (hs.unfilled w hw).2
  have hrest : ∀ w' ∈ s.waiting.erase w, w'.holder ≠ w.holder := by
    intro w' hw' heq
    have hperm := (List.perm_cons_erase hw).map Waiting.holder
    have hnodup := hperm.nodup_iff.mp hs.once
    rw [List.map_cons, List.nodup_cons] at hnodup
    exact hnodup.1 (heq ▸ List.mem_map_of_mem hw')
  have honce : ((s.waiting.erase w).map Waiting.holder).Nodup :=
    hs.once.sublist (List.erase_sublist.map _)
  unfold intern_write
  rcases hres : s.dictionary.intern_write w.text w.budget fresh with ⟨r, d⟩
  rw [hres] at hspec
  cases r with
  | none =>
    -- rejected: the entry stays null
    refine ⟨?_, ?_, honce, ?_⟩
    · show d.Owned (s.owners + lost)
      rw [show d = s.dictionary from hspec]
      exact hs.owned
    · exact fun w' hw' => hs.unfilled w' (List.mem_of_mem_erase hw')
    · intro h' p hp
      exact hs.borrowed h' p (by cases h' <;> exact hp)
  | some p =>
    have howners : (s.set_words w.holder ((s.words w.holder).dropLast ++ [some p])).owners =
        p ::ₘ s.owners := by
      have hsum := owners_set_words s w.holder ((s.words w.holder).dropLast ++ [some p])
      rw [pointers_fill hlast, Multiset.cons_add, add_comm, add_comm (pointers _) s.owners,
        ← Multiset.cons_add, add_comm] at hsum
      exact add_right_cancel hsum
    refine ⟨?_, ?_, honce, ?_⟩
    · show d.Owned ((s.set_words w.holder _).owners + lost)
      rw [howners, Multiset.cons_add]
      exact hspec.1
    · intro w' hw'
      show _ ∧ ((s.set_words w.holder _).words w'.holder).getLast? = _
      rw [words_set_ne (hrest w' hw')]
      exact hs.unfilled w' (List.mem_of_mem_erase hw')
    · intro h' q hq
      have hold : some q ∈ s.words h' := hs.borrowed h' q (by cases h' <;> exact hq)
      show some q ∈ (s.set_words w.holder _).words h'
      by_cases hne : h' = w.holder
      · subst hne
        obtain ⟨init, hinit⟩ := List.getLast?_eq_some_iff.mp hlast
        rw [words_set_self]
        rw [hinit] at hold ⊢
        rw [List.dropLast_concat]
        exact List.mem_append_left _ (by simpa using hold)
      · rw [words_set_ne hne]
        exact hold

theorem inv_lookup {report : Nat} {t : Text} (hs : s.Inv lost) : (s.lookup report t).Inv lost := by
  unfold lookup
  cases hlookup : s.dictionary.lookup t with
  | none => exact hs
  | some r =>
    obtain ⟨p, d⟩ := r
    exact inv_append hs (idle_of_not_interns hs id) (Dictionary.owned_lookup hs.owned hlookup)

theorem inv_request_tags {thread n : Nat} {tags : List (Nat × Nat)} (hs : s.Inv lost) :
    (s.request_tags thread n tags).Inv lost :=
  inv_set_staged hs fun _ he => mem_of_entry_pairs he

theorem inv_tmp_release_words {thread n : Nat} (hs : s.Inv lost) (hidle : s.Idle (.staging thread n)) :
    (s.pinba_tmp_release_words thread n).Inv lost := by
  have hcleared : { s with staged_tags := Function.update s.staged_tags (thread, n) [] }.Inv lost :=
    inv_set_staged hs fun _ he => absurd he List.not_mem_nil
  refine inv_release_words hcleared hidle ?_
  unfold borrowed
  simp only [Function.update_self, List.flatMap_nil]

theorem inv_record_release_words {slot : Nat} (hs : s.Inv lost) (htimers : (s.raw slot).timers = []) :
    (s.pinba_record_release_words slot).Inv lost := by
  have hcleared : { s with raw := Function.update s.raw slot { s.raw slot with tags := [] } }.Inv lost :=
    inv_set_raw hs (fun _ he => absurd he List.not_mem_nil) (timers_borrowed hs)
  refine inv_release_words hcleared (idle_of_not_interns hcleared id) ?_
  unfold borrowed
  simp only [Function.update_self, List.flatMap_nil, htimers, List.flatten_nil, List.append_nil]

theorem inv_add_timers {slot : Nat} {timers : List (List Nat)} (hs : s.Inv lost) :
    (s.add_timers slot timers).Inv lost := by
  refine inv_set_raw hs (tags_borrowed hs) ?_
  intro timer ht p hp
  obtain ⟨values, -, rfl⟩ := List.mem_map.mp ht
  obtain ⟨i, -, hi⟩ := List.mem_filterMap.mp hp
  exact mem_of_entry hi

theorem inv_clear_record_timers {slot : Nat} (hs : s.Inv lost) : (s.clear_record_timers slot).Inv lost :=
  inv_set_raw hs (tags_borrowed hs) fun _ ht => absurd ht List.not_mem_nil

/-- The owners when two arrays are exchanged at once. -/
theorem owners_set_two {a b : Holder} (hab : a ≠ b) (x y : List (Option Nat)) :
    ((s.set_words a x).set_words b y).owners + (pointers (s.words a) + pointers (s.words b)) =
      pointers x + pointers y + s.owners := by
  have ha := owners_set_words s a x
  have hb := owners_set_words (s.set_words a x) b y
  rw [words_set_ne hab.symm] at hb
  calc ((s.set_words a x).set_words b y).owners + (pointers (s.words a) + pointers (s.words b))
      = ((s.set_words a x).set_words b y).owners + pointers (s.words b) + pointers (s.words a) := by
        rw [add_comm (pointers (s.words a)), add_assoc]
    _ = pointers y + ((s.set_words a x).owners + pointers (s.words a)) := by rw [hb, add_assoc]
    _ = pointers x + pointers y + s.owners := by rw [ha, ← add_assoc, add_comm (pointers y)]

theorem words_set_two {a b : Holder} (x y : List (Option Nat)) (h : Holder) :
    ((s.set_words a x).set_words b y).words h =
      if h = b then y else if h = a then x else s.words h := by
  by_cases hb : h = b
  · rw [if_pos hb, hb, words_set_self]
  · rw [if_neg hb, words_set_ne hb]
    by_cases ha : h = a
    · rw [if_pos ha, ha, words_set_self]
    · rw [if_neg ha, words_set_ne ha]

/-- Moving the entries of a staging record to a ring slot whose array is empty. -/
theorem inv_move {thread n slot : Nat} (hs : s.Inv lost) (hidle : s.Idle (.staging thread n))
    (hempty : s.words (.raw slot) = []) (hnone : s.raw slot = ⟨[], []⟩) :
    { (s.set_words (.raw slot) (s.words (.staging thread n))).set_words (.staging thread n)
        (List.replicate (s.words (.staging thread n)).length none) with
      raw := Function.update s.raw slot ⟨s.staged_tags (thread, n), []⟩
      staged_tags := Function.update s.staged_tags (thread, n) [] }.Inv lost := by
  have hne : Holder.raw slot ≠ .staging thread n := by simp
  have hraw : s.Idle (.raw slot) := idle_of_not_interns hs id
  refine ⟨?_, ?_, hs.once, ?_⟩
  · -- the references move with the entries
    have howners := owners_set_two (s := s) hne (s.words (.staging thread n))
      (List.replicate (s.words (.staging thread n)).length none)
    rw [hempty, CountedHeap.pointers_nil, zero_add, pointers_replicate_none, add_zero,
      add_comm] at howners
    have hsame := add_left_cancel howners
    show s.dictionary.Owned (((s.set_words _ _).set_words _ _).owners + lost)
    rw [hsame]
    exact hs.owned
  · intro w hw
    show _ ∧ (((s.set_words _ _).set_words _ _).words w.holder).getLast? = _
    rw [words_set_two, if_neg (ne_of_idle hidle hw), if_neg (ne_of_idle hraw hw)]
    exact hs.unfilled w hw
  · -- what the tags of the record borrow moves with them
    intro h' p hp
    show some p ∈ ((s.set_words _ _).set_words _ _).words h'
    rw [words_set_two]
    cases h' with
    | staging thread' n' =>
      unfold borrowed at hp
      by_cases heq : (thread', n') = (thread, n)
      · simp only [heq, Function.update_self, List.flatMap_nil] at hp
        exact absurd hp List.not_mem_nil
      · simp only [Function.update_of_ne heq] at hp
        have hstaging : Holder.staging thread' n' ≠ .staging thread n := by
          intro hh
          obtain ⟨rfl, rfl⟩ := Holder.staging.inj hh
          exact heq rfl
        rw [if_neg hstaging, if_neg (by simp)]
        exact hs.borrowed (.staging thread' n') p hp
    | raw slot' =>
      unfold borrowed at hp
      rw [if_neg (by simp)]
      by_cases heq : slot' = slot
      · subst heq
        simp only [Function.update_self, List.flatten_nil, List.append_nil] at hp
        rw [if_pos rfl]
        exact hs.borrowed (.staging thread n) p hp
      · simp only [Function.update_of_ne heq] at hp
        rw [if_neg (by simpa using heq)]
        exact hs.borrowed (.raw slot') p hp
    | cond_names | cond_values | selector | lookups => exact absurd hp List.not_mem_nil

theorem inv_request_copy {thread n slot : Nat} {copied : Bool} (hs : s.Inv lost)
    (hidle : s.Idle (.staging thread n)) (htimers : (s.raw slot).timers = []) :
    (s.request_copy thread n slot copied).Inv lost := by
  have hreleased := inv_record_release_words hs htimers
  have hempty : (s.pinba_record_release_words slot).words (.raw slot) = [] :=
    words_set_self (s := s)
  have hwritten : { s.pinba_record_release_words slot with
      raw := Function.update (s.pinba_record_release_words slot).raw slot ⟨[], []⟩ }.Inv lost :=
    inv_set_raw hreleased (fun _ he => absurd he List.not_mem_nil)
      fun _ ht => absurd ht List.not_mem_nil
  unfold request_copy
  cases copied with
  | false => exact hwritten
  | true => exact inv_move hwritten hidle hempty (by simp only [Function.update_self])

theorem inv_swap {a b : Nat} (hs : s.Inv lost) (hab : a ≠ b) : (s.swap a b).Inv lost := by
  have hne : Holder.raw a ≠ .raw b := by simpa using hab
  refine ⟨?_, ?_, hs.once, ?_⟩
  · -- the sum over all arrays is the same
    have howners := owners_set_two (s := s) hne (s.words (.raw b)) (s.words (.raw a))
    rw [add_comm (pointers (s.words (.raw b))), add_comm] at howners
    show s.dictionary.Owned (((s.set_words _ _).set_words _ _).owners + lost)
    rw [add_left_cancel howners]
    exact hs.owned
  · intro w hw
    have hidle : ∀ slot, w.holder ≠ .raw slot := fun slot =>
      ne_of_idle (idle_of_not_interns hs id) hw
    show _ ∧ (((s.set_words _ _).set_words _ _).words w.holder).getLast? = _
    rw [words_set_two, if_neg (hidle b), if_neg (hidle a)]
    exact hs.unfilled w hw
  · intro h' p hp
    show some p ∈ ((s.set_words _ _).set_words _ _).words h'
    rw [words_set_two]
    cases h' with
    | raw slot =>
      unfold borrowed at hp
      by_cases hb : slot = b
      · subst hb
        have hold : p ∈ s.borrowed (.raw a) := by simpa [swap, borrowed] using hp
        rw [if_pos rfl]
        exact hs.borrowed _ p hold
      · rw [if_neg (by simpa using hb)]
        by_cases ha : slot = a
        · subst ha
          have hold : p ∈ s.borrowed (.raw b) := by simpa [swap, borrowed, hab] using hp
          rw [if_pos rfl]
          exact hs.borrowed _ p hold
        · have hold : p ∈ s.borrowed (.raw slot) := by simpa [swap, borrowed, ha, hb] using hp
          rw [if_neg (by simpa using ha)]
          exact hs.borrowed _ p hold
    | staging thread n =>
      rw [if_neg (by simp), if_neg (by simp)]
      exact hs.borrowed (.staging thread n) p hp
    | cond_names | cond_values | selector | lookups => exact absurd hp List.not_mem_nil

theorem inv_take_selector {report : Nat} (hs : s.Inv lost) (hempty : s.words (.selector report) = []) :
    (s.take_selector report).Inv lost := by
  have hne : Holder.selector report ≠ .lookups report := by simp
  refine ⟨?_, ?_, hs.once, ?_⟩
  · have howners := owners_set_two (s := s) hne (s.words (.lookups report)) []
    rw [hempty, CountedHeap.pointers_nil, zero_add, add_zero, add_comm] at howners
    show s.dictionary.Owned (((s.set_words _ _).set_words _ _).owners + lost)
    rw [add_left_cancel howners]
    exact hs.owned
  · intro w hw
    show _ ∧ (((s.set_words _ _).set_words _ _).words w.holder).getLast? = _
    rw [words_set_two, if_neg (ne_of_idle (idle_of_not_interns hs id) hw),
      if_neg (ne_of_idle (idle_of_not_interns hs id) hw)]
    exact hs.unfilled w hw
  · intro h' p hp
    show some p ∈ ((s.set_words _ _).set_words _ _).words h'
    rw [words_set_two]
    cases h' with
    | staging thread n =>
      rw [if_neg (by simp), if_neg (by simp)]
      exact hs.borrowed (.staging thread n) p hp
    | raw slot =>
      rw [if_neg (by simp), if_neg (by simp)]
      exact hs.borrowed (.raw slot) p hp
    | cond_names | cond_values | selector | lookups => exact absurd hp List.not_mem_nil

theorem inv_report_dtor {report : Nat} (hs : s.Inv lost) (hnames : s.Idle (.cond_names report))
    (hvalues : s.Idle (.cond_values report)) : (s.report_dtor report).Inv lost := by
  have h₁ : (s.release_words (.cond_names report)).Inv lost := inv_release_words hs hnames rfl
  have h₂ : ((s.release_words (.cond_names report)).release_words (.cond_values report)).Inv lost :=
    inv_release_words h₁ hvalues rfl
  exact inv_release_words h₂ (idle_of_not_interns h₂ id) rfl

/-- Emptying an array without releasing its entries loses their references. -/
theorem inv_set_nil (hs : s.Inv lost) (hidle : s.Idle h) (hfree : s.borrowed h = []) :
    (s.set_words h []).Inv (pointers (s.words h) + lost) := by
  refine ⟨?_, ?_, hs.once, ?_⟩
  · have hsum := owners_set_words s h []
    rw [CountedHeap.pointers_nil, zero_add] at hsum
    show s.dictionary.Owned ((s.set_words h []).owners + (pointers (s.words h) + lost))
    rw [← add_assoc, hsum]
    exact hs.owned
  · intro w hw
    rw [words_set_ne (ne_of_idle hidle hw)]
    exact hs.unfilled w hw
  · intro h' p hp
    have hsame : (s.set_words h []).borrowed h' = s.borrowed h' := by cases h' <;> rfl
    rw [hsame] at hp
    by_cases hne : h' = h
    · subst hne
      rw [hfree] at hp
      exact absurd hp List.not_mem_nil
    · rw [words_set_ne hne]
      exact hs.borrowed h' p hp

/-- The words that a report holds. -/
def held (s : WordStore) (report : Nat) : Multiset Nat :=
  pointers (s.words (.selector report)) + (pointers (s.words (.cond_values report)) +
    pointers (s.words (.cond_names report)))

/-- A constructor that fails gives back the words of its report or loses them. -/
theorem inv_constructor_failed {report : Nat} {failure : ConstructorFailure} (hs : s.Inv lost)
    (hnames : s.Idle (.cond_names report)) (hvalues : s.Idle (.cond_values report)) :
    (s.constructor_failed report failure).Inv
      ((if failure.releases then 0 else s.held report) + lost) := by
  unfold constructor_failed
  by_cases hrel : failure.releases = true
  · rw [if_pos hrel, if_pos hrel, zero_add]
    exact inv_report_dtor hs hnames hvalues
  · have h₁ := inv_set_nil hs hnames rfl
    have h₂ := inv_set_nil h₁ hvalues rfl
    have h₃ := @inv_set_nil _ (.selector report) _ h₂ (idle_of_not_interns h₂ id) rfl
    -- each array is still the one of the first state
    rw [words_set_ne (by simp), words_set_ne (by simp), words_set_ne (by simp), ← add_assoc,
      ← add_assoc, add_assoc (pointers _)] at h₃
    rw [if_neg hrel, if_neg hrel]
    exact h₃

/-! ## Section 7: Frames -/

/-- The ring slots whose words an event takes away or moves. -/
def Event.Overwrites : Event → Nat → Prop
  | .request_copy _ _ slot' _, slot | .pinba_record_release_words slot', slot => slot = slot'
  | .swap a b, slot => slot = a ∨ slot = b
  | _, _ => False

theorem words_report_dtor (report slot : Nat) :
    (s.report_dtor report).words (.raw slot) = s.words (.raw slot) := by
  refine (words_set_ne (s := (s.release_words _).release_words _) (by simp)).trans ?_
  exact (words_set_ne (s := s.release_words _) (by simp)).trans (words_set_ne (s := s) (by simp))

/-- All other slots keep their words. -/
theorem words_step {e : Event} {slot : Nat} (hs : s.Inv lost) (he : e.Enabled s)
    (hslot : ¬ e.Overwrites slot) : (s.step e).words (.raw slot) = s.words (.raw slot) := by
  cases e with
  | intern_read h t budget =>
    -- records do not intern words
    have hne : Holder.raw slot ≠ h := fun heq => by
      subst heq
      exact he.2
    show (s.intern_read h t budget).words _ = _
    unfold intern_read
    cases s.dictionary.intern_read t <;> exact words_set_ne hne
  | intern_write w fresh =>
    have hne : Holder.raw slot ≠ w.holder := fun heq => by
      have hinterns := (hs.unfilled w he.1).1
      rw [← heq] at hinterns
      exact hinterns
    show (s.intern_write w fresh).words _ = _
    unfold intern_write
    rcases s.dictionary.intern_write w.text w.budget fresh with ⟨_ | p, d⟩
    · rfl
    · exact words_set_ne hne
  | lookup report t =>
    show (s.lookup report t).words _ = _
    unfold lookup
    cases s.dictionary.lookup t with
    | none => rfl
    | some r => exact words_set_ne (by simp)
  -- the copy only touches the slot that it overwrites
  | request_copy thread n slot' copied =>
    have hne : Holder.raw slot ≠ .raw slot' := fun heq => hslot (Holder.raw.inj heq)
    show (s.request_copy thread n slot' copied).words _ = _
    cases copied with
    | false => exact words_set_ne (s := s) hne
    | true =>
      refine (words_set_ne (by simp)).trans ((words_set_ne hne).trans ?_)
      exact words_set_ne (s := s) hne
  | swap a b =>
    have ha : Holder.raw slot ≠ .raw a := fun heq => hslot (.inl (Holder.raw.inj heq))
    have hb : Holder.raw slot ≠ .raw b := fun heq => hslot (.inr (Holder.raw.inj heq))
    exact (words_set_ne hb).trans (words_set_ne ha)
  | pinba_record_release_words slot' =>
    have hne : Holder.raw slot ≠ .raw slot' := fun heq => hslot (Holder.raw.inj heq)
    exact words_set_ne (s := s) hne
  | pinba_tmp_release_words thread n => exact words_set_ne (s := s) (by simp)
  | take_selector report => exact (words_set_ne (by simp)).trans (words_set_ne (by simp))
  | drop_lookups report => exact words_set_ne (s := s) (by simp)
  | report_dtor report => exact words_report_dtor report slot
  | constructor_failed report failure =>
    show (s.constructor_failed report failure).words _ = _
    unfold constructor_failed
    by_cases hrel : failure.releases = true
    · rw [if_pos hrel]
      exact words_report_dtor report slot
    · rw [if_neg hrel, words_set_ne (by simp), words_set_ne (by simp), words_set_ne (by simp)]
  | request_tags | add_timers | clear_record_timers | collect => rfl

theorem get_release_words (s : WordStore) (h : Holder) (p : Nat) :
    (s.release_words h).dictionary.heap.get p = s.dictionary.heap.get p :=
  (CountedHeap.sameValues_releaseSlots _ _).get p

theorem get_report_dtor (report p : Nat) :
    (s.report_dtor report).dictionary.heap.get p = s.dictionary.heap.get p := by
  unfold report_dtor
  rw [get_release_words, get_release_words, get_release_words]

/-- A word with an owner stays and does not change. -/
theorem get_step {e : Event} {w : WordText} (hs : s.Inv lost) (he : e.Enabled s)
    (hp : p ∈ s.owners) (hw : s.dictionary.heap.get p = some w) :
    (s.step e).dictionary.heap.get p = some w := by
  rw [← hw]
  cases e with
  | intern_read h t budget =>
    show (s.intern_read h t budget).dictionary.heap.get p = _
    unfold intern_read Dictionary.intern_read
    cases s.dictionary.map.lookup t.key with
    | none => rfl
    | some q => exact (CountedHeap.sameValues_retain _ q).get p
  | intern_write v fresh =>
    show (s.intern_write v fresh).dictionary.heap.get p = _
    have hget := @Dictionary.get_intern_write _ v.text v.budget _ p w hw he.2
    rw [hw, ← hget]
    unfold intern_write
    rcases s.dictionary.intern_write v.text v.budget fresh with ⟨_ | q, d⟩ <;> rfl
  | lookup report t =>
    show (s.lookup report t).dictionary.heap.get p = _
    unfold lookup Dictionary.lookup
    by_cases hlen : t.bytes.length < PINBA_TAG_VALUE_SIZE
    · rw [dif_pos hlen]
      cases s.dictionary.map.lookup ⟨t.bytes, hlen, t.nul_free⟩ with
      | none => rfl
      | some q => exact (CountedHeap.sameValues_retain _ q).get p
    · rw [dif_neg hlen]
  | pinba_tmp_release_words thread n => exact get_release_words s _ p
  | request_copy thread n slot copied => cases copied <;> exact get_release_words s _ p
  | pinba_record_release_words slot => exact get_release_words s _ p
  | drop_lookups report => exact get_release_words s _ p
  | report_dtor report => exact get_report_dtor report p
  | constructor_failed report failure =>
    show (s.constructor_failed report failure).dictionary.heap.get p = _
    unfold constructor_failed
    by_cases hrel : failure.releases = true
    · rw [if_pos hrel]
      exact get_report_dtor report p
    · rw [if_neg hrel]
      rfl
  | collect => exact Dictionary.get_collect hs.owned (Multiset.mem_add.mpr (.inl hp))
  | request_tags | swap | add_timers | clear_record_timers | take_selector => rfl

/-! ## Section 8: Whole runs -/

/-- The references that an event loses. -/
def loses (s : WordStore) : Event → Multiset Nat
  | .constructor_failed report failure => if failure.releases then 0 else s.held report
  | _ => 0

/-- A constructor that does not give back the words of its report must not hold any. -/
def Lossless (s : WordStore) : Event → Prop
  | .constructor_failed report failure => failure.releases = true ∨ s.held report = 0
  | _ => True

theorem loses_of_lossless {e : Event} (hok : s.Lossless e) : s.loses e = 0 := by
  cases e with
  | constructor_failed report failure =>
    rcases hok with hrel | hheld
    · exact if_pos hrel
    · simp only [loses, hheld, ite_self]
  | _ => rfl

theorem inv_collect (hs : s.Inv lost) :
    { s with dictionary := s.dictionary.pinba_dictionary_collect }.Inv lost :=
  ⟨Dictionary.owned_collect hs.owned, hs.unfilled, hs.once, hs.borrowed⟩

theorem inv_step {e : Event} (hs : s.Inv lost) (he : e.Enabled s) :
    (s.step e).Inv (s.loses e + lost) := by
  have hkeep : ∀ {s' : WordStore}, s'.Inv lost → s'.Inv (0 + lost) := by
    intro s' h
    rwa [zero_add]
  cases e with
  | intern_read => exact hkeep (inv_intern_read hs he.1 he.2)
  | intern_write => exact hkeep (inv_intern_write hs he.1 he.2)
  | lookup => exact hkeep (inv_lookup hs)
  | request_tags => exact hkeep (inv_request_tags hs)
  | pinba_tmp_release_words => exact hkeep (inv_tmp_release_words hs he)
  | request_copy => exact hkeep (inv_request_copy hs he.1 he.2)
  | swap => exact hkeep (inv_swap hs he)
  | add_timers => exact hkeep (inv_add_timers hs)
  | clear_record_timers => exact hkeep (inv_clear_record_timers hs)
  | pinba_record_release_words => exact hkeep (inv_record_release_words hs he)
  | take_selector => exact hkeep (inv_take_selector hs he)
  | drop_lookups => exact hkeep (inv_release_words hs (idle_of_not_interns hs id) rfl)
  | report_dtor => exact hkeep (inv_report_dtor hs he.1 he.2)
  | constructor_failed => exact inv_constructor_failed hs he.1 he.2
  | collect => exact hkeep (inv_collect hs)

theorem inv_init : init.Inv 0 := by
  refine ⟨Dictionary.owned_init, ?_, List.nodup_nil, ?_⟩
  · intro w hw
    exact absurd hw List.not_mem_nil
  · intro h p hp
    cases h <;> exact absurd hp List.not_mem_nil

/-- Nothing is lost in a lossless run. -/
theorem inv_of_run (h : Run Lossless s) : s.Inv 0 := by
  induction h with
  | init => exact inv_init
  | step e _ he hok ih =>
    have hstep := inv_step ih he
    rwa [loses_of_lossless hok, zero_add] at hstep

/-- The word is there, and a collection leaves it there as it is. -/
def Kept (s : WordStore) (p : Nat) : Prop :=
  s.dictionary.heap.get p ≠ none ∧
    s.dictionary.pinba_dictionary_collect.heap.get p = s.dictionary.heap.get p

/-- What ownership promises in a state. -/
structure WordsSafe (s : WordStore) : Prop where
  /-- The references of a live word are its owners. -/
  counted : ∀ p word, s.dictionary.heap.cells.lookup p = some word →
    word.references = s.owners.count p
  /-- No count was decremented at zero, no freed word was touched. -/
  never_broken : s.dictionary.heap.broken = false
  request_tags : ∀ slot, ∀ tag ∈ (s.raw slot).tags, s.Kept tag.1 ∧ s.Kept tag.2
  timers : ∀ slot, ∀ timer ∈ (s.raw slot).timers, ∀ p ∈ timer, s.Kept p
  /-- So are the entries of all arrays, those of conditions and selectors among them. -/
  entries : ∀ h p, some p ∈ s.words h → s.Kept p

theorem kept_of_entry (hs : s.Inv lost) (hp : some p ∈ s.words h) : s.Kept p :=
  have hown : p ∈ s.owners + lost := Multiset.mem_add.mpr (.inl (mem_owners hp))
  ⟨hs.owned.refs.live p hown, Dictionary.get_collect hs.owned hown⟩

/-- In a lossless run the counts are those of the owners, and nothing in use is
    ever freed. -/
theorem words_owned_of_run (h : Run Lossless s) : s.WordsSafe := by
  have hinv := inv_of_run h
  have howned := hinv.owned
  rw [add_zero] at howned
  refine ⟨howned.refs.count, howned.refs.sound, ?_, ?_, ?_⟩
  · intro slot tag htag
    have hmem := tags_borrowed hinv tag htag
    exact ⟨kept_of_entry hinv hmem.1, kept_of_entry hinv hmem.2⟩
  · intro slot timer ht p hp
    exact kept_of_entry hinv (timers_borrowed hinv timer ht p hp)
  · intro h p hp
    exact kept_of_entry hinv hp

/-- The events of a request whose one word becomes the value of a timer. -/
def one_timer : List Event :=
  [.intern_read (.staging 0 0) Interning.letter ⟨10, 1000⟩,
    .intern_write ⟨.staging 0 0, Interning.letter, ⟨10, 1000⟩⟩ (some 1),
    .request_tags 0 0 [(0, 0)], .request_copy 0 0 5 true, .add_timers 5 [[0]],
    .pinba_tmp_release_words 0 0]

/-- The timer of such a request is safe. -/
theorem words_owned_of_run_one_timer :
    let s := one_timer.foldl step init
    ((s.raw 5).tags, (s.raw 5).timers) = ([(1, 1)], [[1]]) ∧ s.WordsSafe := by
  refine ⟨rfl, words_owned_of_run ?_⟩
  have hread : Run Lossless (init.intern_read (.staging 0 0) Interning.letter ⟨10, 1000⟩) :=
    .step (.intern_read _ _ _) .init ⟨List.not_mem_nil, trivial⟩ trivial
  have hwrite := Run.step
    (.intern_write ⟨.staging 0 0, Interning.letter, ⟨10, 1000⟩⟩ (some 1)) hread
    ⟨List.mem_cons_self, fun p _ => rfl⟩ trivial
  have htags := Run.step (.request_tags 0 0 [(0, 0)]) hwrite
    ⟨List.not_mem_nil, by decide⟩ trivial
  have hcopy := Run.step (.request_copy 0 0 5 true) htags ⟨List.not_mem_nil, rfl⟩ trivial
  have htimers := Run.step (.add_timers 5 [[0]]) hcopy trivial trivial
  exact Run.step (.pinba_tmp_release_words 0 0) htimers List.not_mem_nil trivial

/-- A base report on `tag.a = 'a'` that cannot be registered. -/
def leak : List Event :=
  [.intern_read (.cond_names 0) Interning.letter ⟨0, 0⟩,
    .intern_write ⟨.cond_names 0, Interning.letter, ⟨0, 0⟩⟩ (some 1),
    .intern_read (.cond_values 0) Interning.letter ⟨0, 0⟩,
    .constructor_failed 0 .base_registration]

/-- Its word keeps two references that nobody can release any more. -/
theorem words_leak_of_failed_constructor :
    ¬ ∀ s : WordStore, Run (fun _ _ => True) s → s.WordsSafe := by
  intro hall
  have hread : Run (fun _ _ => True) (init.intern_read (.cond_names 0) Interning.letter ⟨0, 0⟩) :=
    .step (.intern_read _ _ _) .init ⟨List.not_mem_nil, trivial⟩ trivial
  have hwrite := Run.step
    (.intern_write ⟨.cond_names 0, Interning.letter, ⟨0, 0⟩⟩ (some 1)) hread
    ⟨List.mem_cons_self, fun p _ => rfl⟩ trivial
  have hvalue := Run.step (.intern_read (.cond_values 0) Interning.letter ⟨0, 0⟩) hwrite
    ⟨List.not_mem_nil, trivial⟩ trivial
  have hfail := Run.step (.constructor_failed 0 .base_registration) hvalue
    ⟨List.not_mem_nil, List.not_mem_nil⟩ trivial
  have hcount := (hall (leak.foldl step init) hfail).counted 1
    ⟨⟨Interning.letter.key, 1⟩, 2⟩ rfl
  exact absurd hcount (by decide)

end WordStore

end PinbaEngine
