import PinbaEngine.Ownership
import PinbaEngine.TagRegistry

/-! # How long tags live

    Timers and reports store the ids of tags, open tables point to descriptors.
    `pinba_collect_unused_tags` may free a descriptor only when none of them needs
    it. For reports and cursors it can look that up. For timers it relies on the
    dictionary: the ring record of a timer owns the word that spells the name of
    the tag, so that word has references.

    The daemon of this module runs the events of the words, the calls that create
    tags, the stages of `_add_timers`, the SQL threads and the collector in any
    order. `collector_lock` is the map `readers`: a collection waits until it is
    empty. A collection may even run while timers are being added.
-/

namespace PinbaEngine

open KeyedStore (entryCount)

/-! ## Section 1: State -/

/-- The string of a word. -/
def WordText.text (w : WordText) : Text := ⟨w.str.bytes, w.str.nul_free⟩

/-- The registry and everything that refers to tags. -/
structure TagStore where
  settings : TagSettings
  words : WordStore
  tag : TagRegistry
  /-- `tag_id` of the reports in `D->tag_reports_arr`. -/
  tag_reports : AList fun _ : Nat => List Nat
  /-- The SQL threads that hold `collector_lock`, and what they have looked up. -/
  readers : AList fun _ : Nat => List Nat
  /-- `tag_cursor` of the open tables. -/
  cursors : AList fun _ : Nat => Nat
  /-- `temp_tags` of `_add_timers`, for the ring slots it works on. -/
  merging : AList fun _ : Nat => List Nat
  /-- `tag_ids` of the timers of a ring slot. -/
  timer_tags : Nat → List Nat
  /-- All descriptors that were ever created. -/
  created : List TagDescriptor

namespace TagStore

variable (s : TagStore)

def init (settings : TagSettings) : TagStore :=
  ⟨settings, .init, .init, ∅, ∅, ∅, ∅, fun _ => [], []⟩

/-! ## Section 2: Operations -/

/-- The string in an entry of an array. -/
def name_of (h : Holder) (i : Nat) : Option Text :=
  (WordStore.entry (s.words.words h) i).bind fun p =>
    (s.words.dictionary.heap.get p).map WordText.text

/-- `pinba_tag_lookup_or_create_locked`, and the record of what it creates. -/
def pinba_tag_lookup_or_create_locked (name : Text) (memory : TagMemory) : Option Nat × TagStore :=
  let (found, tag) := s.tag.lookup_or_create s.settings name memory
  let created :=
    match s.tag.find name, found with
    | none, some a => (tag.heap.get a).toList ++ s.created
    | _, _ => s.created
  (found, { s with tag, created })

/-- `request_to_record` admits a timer tag of a staging record. -/
def preflight (thread n i : Nat) (memory : TagMemory) : TagStore :=
  match s.name_of (.staging thread n) i with
  | none => s
  | some name => (s.pinba_tag_lookup_or_create_locked name memory).2

/-- Put a descriptor into `temp_tags`. -/
def keep_temp_tag (slot : Nat) (found : Option Nat) : TagStore :=
  { s with
    merging := s.merging.insert slot (found.toList ++ (s.merging.lookup slot).getD []) }

/-- `_add_timers` looks a name up, as it does for all entries at its start. -/
def cache_tag (slot i : Nat) : TagStore :=
  match s.name_of (.raw slot) i with
  | none => s
  | some name => s.keep_temp_tag slot (s.tag.find name)

/-- `_add_timers` creates a tag that was missing. -/
def create_tag (slot i : Nat) (memory : TagMemory) : TagStore :=
  match s.name_of (.raw slot) i with
  | none => s
  | some name =>
    let (found, s) := s.pinba_tag_lookup_or_create_locked name memory
    s.keep_temp_tag slot found

/-- `timer->tag_ids[timer->tag_num] = tag->id`. -/
def add_tag (slot a : Nat) : TagStore :=
  match s.tag.heap.get a with
  | none => { s with tag := { s.tag with heap := { s.tag.heap with broken := true } } }
  | some tag => { s with timer_tags := Function.update s.timer_tags slot (tag.id :: s.timer_tags slot) }

/-- A constructor registers its report, with the ids of tags it has looked up. -/
def register (report : Nat) (tags : List Nat) : TagStore :=
  { s with
    tag_reports := s.tag_reports.insert report
      (tags.filterMap fun a => (s.tag.heap.get a).map TagDescriptor.id) }

/-- `release_tag_cursor`. -/
def release_tag_cursor (table : Nat) : TagStore :=
  match s.cursors.lookup table with
  | none => s
  | some a =>
    { s with
      tag := { s.tag with heap := s.tag.heap.release a }
      cursors := s.cursors.erase table }

/-- `pin_tag_cursor`. -/
def pin_tag_cursor (table a : Nat) : TagStore :=
  if !s.settings.tag_gc_enabled || s.cursors.lookup table = some a then s
  else
    let s := { s with tag := { s.tag with heap := s.tag.heap.retain a } }
    let s := s.release_tag_cursor table
    { s with cursors := s.cursors.insert table a }

/-- The ids that reports select. -/
def selectors : List Nat := s.tag_reports.entries.flatMap fun e => e.2

/-- `pinba_collect_unused_tags`; without memory for the selectors it is put off. -/
def pinba_collect_unused_tags (memory : Bool) : TagStore :=
  if memory then
    { s with tag := s.tag.collect_unused_tags s.settings s.words.dictionary s.selectors }
  else s

/-! ## Section 3: Runs -/

/-- One critical section of one thread. -/
inductive Event where
  | word (e : WordStore.Event)
  | preflight (thread n i : Nat) (memory : TagMemory)
  | begin_timers (slot : Nat)
  | cache_tag (slot i : Nat)
  | create_tag (slot i : Nat) (memory : TagMemory)
  | add_tag (slot a : Nat)
  | end_timers (slot : Nat)
  | lock (reader : Nat)
  | look_up (reader a : Nat)
  | register (reader report : Nat) (tags : List Nat)
  | pin_tag_cursor (reader table a : Nat)
  | unlock (reader : Nat)
  | release_tag_cursor (table : Nat)
  | drop_report (report : Nat)
  | collect (memory : Bool)

/-- The tag ids go away with the timers. -/
def clear_timer_tags (e : WordStore.Event) : Nat → List Nat :=
  match e with
  | .clear_record_timers slot => Function.update s.timer_tags slot []
  | _ => s.timer_tags

def step : Event → TagStore
  | .word e => { s with words := s.words.step e, timer_tags := s.clear_timer_tags e }
  | .preflight thread n i memory => s.preflight thread n i memory
  | .begin_timers slot => { s with merging := s.merging.insert slot [] }
  | .cache_tag slot i => s.cache_tag slot i
  | .create_tag slot i memory => s.create_tag slot i memory
  | .add_tag slot a => s.add_tag slot a
  | .end_timers slot => { s with merging := s.merging.erase slot }
  | .lock reader => { s with readers := s.readers.insert reader [] }
  | .look_up reader a =>
    { s with readers := s.readers.insert reader (a :: (s.readers.lookup reader).getD []) }
  | .register _ report tags => s.register report tags
  | .pin_tag_cursor _ table a => s.pin_tag_cursor table a
  | .unlock reader => { s with readers := s.readers.erase reader }
  | .release_tag_cursor table => s.release_tag_cursor table
  | .drop_report report => { s with tag_reports := s.tag_reports.erase report }
  | .collect memory => s.pinba_collect_unused_tags memory

/-- A thread has looked the descriptor up and still holds `collector_lock`. -/
def Borrowed (reader a : Nat) : Prop := ∃ tags, s.readers.lookup reader = some tags ∧ a ∈ tags

/-- When the code may do it. The words of a ring record stay in their slot while
    `_add_timers` works on it and as long as it has timers, new descriptors get
    addresses that are not in use, and what is looked up is in an index. -/
def Event.Enabled : Event → Prop
  | .word e => e.Enabled s.words ∧
      ∀ slot, e.Overwrites slot → s.timer_tags slot = [] ∧ s.merging.lookup slot = none
  | .preflight _ _ _ memory => ∀ a ∈ memory.descriptor, s.tag.heap.get a = none
  | .create_tag slot _ memory => s.merging.lookup slot ≠ none ∧
      ∀ a ∈ memory.descriptor, s.tag.heap.get a = none
  | .cache_tag slot _ => s.merging.lookup slot ≠ none
  | .add_tag slot a => ∃ tags, s.merging.lookup slot = some tags ∧ a ∈ tags
  | .look_up reader a => s.readers.lookup reader ≠ none ∧
      ((∃ name, s.tag.name_index.lookup name = some a) ∨ (∃ id, s.tag.table.lookup id = some a) ∨
        ∃ id, s.tag.live_ids.lookup id = some a)
  | .register reader _ tags => ∀ a ∈ tags, s.Borrowed reader a
  | .pin_tag_cursor reader _ a => s.Borrowed reader a
  | .collect _ => ∀ reader, s.readers.lookup reader = none
  | _ => True

/-- The states that the daemon can reach. -/
inductive Reachable (settings : TagSettings) : TagStore → Prop
  | init : Reachable settings (init settings)
  | step {s : TagStore} (e : Event) (hs : Reachable settings s) (he : e.Enabled s) :
    Reachable settings (s.step e)

/-! ## Section 4: The invariant -/

variable {s} {slot : Nat}

/-- One owner for each cursor. -/
def pins (s : TagStore) : Multiset Nat := keyedSum (fun a => ({a} : Multiset Nat)) s.cursors

/-- The ring record in a slot owns a word that spells the name. -/
def Spelled (s : TagStore) (slot : Nat) (name : Key) : Prop :=
  ∃ p, some p ∈ s.words.words (.raw slot) ∧
    s.words.dictionary.heap.get p = some (Dictionary.word_of name)

/-- The indices agree, cursors own their descriptors, ids are given out once, and
    every descriptor that is referred to is there. -/
structure Inv (s : TagStore) : Prop where
  words : ∃ lost, s.words.Inv lost
  consistent : s.tag.Consistent s.settings
  refs : s.tag.heap.Refs s.pins
  once : (s.created.map TagDescriptor.id).Nodup
  past : ∀ tag ∈ s.created, tag.id < s.tag.next_id
  recorded : ∀ a tag, s.tag.heap.get a = some tag → tag ∈ s.created
  readers : ∀ reader a, s.Borrowed reader a → ∃ tag, s.tag.heap.get a = some tag
  reports : ∀ report ids, s.tag_reports.lookup report = some ids → ∀ id ∈ ids,
    ∃ a tag, s.tag.heap.get a = some tag ∧ tag.id = id
  merging : ∀ slot tags, s.merging.lookup slot = some tags → ∀ a ∈ tags,
    ∃ tag, s.tag.heap.get a = some tag ∧ s.Spelled slot tag.name
  timers : ∀ slot, ∀ id ∈ s.timer_tags slot,
    ∃ a tag, s.tag.heap.get a = some tag ∧ tag.id = id ∧ s.Spelled slot tag.name

theorem inv_init (settings : TagSettings) : (init settings).Inv where
  words := ⟨0, WordStore.inv_init⟩
  consistent := TagRegistry.consistent_init
  refs := ⟨fun _ _ h => absurd h (by simp [init, TagRegistry.init]),
    fun _ h => absurd h (Multiset.notMem_zero _), rfl⟩
  once := List.nodup_nil
  past _ h := absurd h List.not_mem_nil
  recorded _ _ h := by cases h
  readers _ _ h := by
    obtain ⟨tags, hnone, -⟩ := h
    cases hnone
  reports _ _ h := by cases h
  merging _ _ h := by cases h
  timers _ _ h := absurd h List.not_mem_nil

/-! ## Section 5: One step -/

/-- Words of slots that an event leaves alone go on spelling what they did. -/
theorem spelled_step {e : WordStore.Event} {name : Key} {timer_tags : Nat → List Nat} (hs : s.Inv)
    (he : e.Enabled s.words) (hslot : ¬ e.Overwrites slot) (hname : s.Spelled slot name) :
    { s with words := s.words.step e, timer_tags := timer_tags }.Spelled slot name := by
  obtain ⟨lost, hwords⟩ := hs.words
  obtain ⟨p, hp, hget⟩ := hname
  refine ⟨p, ?_, ?_⟩
  · show some p ∈ (s.words.step e).words (.raw slot)
    rw [WordStore.words_step hwords he hslot]
    exact hp
  · exact WordStore.get_step hwords he (WordStore.mem_owners hp) hget

theorem timer_tags_of_clear {e : WordStore.Event} {id : Nat} (hid : id ∈ s.clear_timer_tags e slot) :
    id ∈ s.timer_tags slot := by
  unfold clear_timer_tags at hid
  split at hid
  case h_1 slot' =>
    by_cases hslot : slot = slot'
    · subst hslot
      rw [Function.update_self] at hid
      exact absurd hid List.not_mem_nil
    · rwa [Function.update_of_ne hslot] at hid
  case h_2 => exact hid

theorem inv_word {e : WordStore.Event} (hs : s.Inv) (he : (Event.word e).Enabled s) :
    (s.step (.word e)).Inv := by
  obtain ⟨henabled, hkeep⟩ := he
  obtain ⟨lost, hwords⟩ := hs.words
  refine ⟨⟨_, WordStore.inv_step hwords henabled⟩, hs.consistent, hs.refs, hs.once, hs.past,
    hs.recorded, hs.readers, hs.reports, ?_, ?_⟩
  · intro slot tags htags a ha
    have hslot : ¬ e.Overwrites slot := fun hover => by
      have hnone := (hkeep slot hover).2
      rw [show s.merging.lookup slot = some tags from htags] at hnone
      exact absurd hnone (by simp)
    obtain ⟨tag, hget, hname⟩ := hs.merging slot tags htags a ha
    exact ⟨tag, hget, spelled_step hs henabled hslot hname⟩
  · intro slot id hid
    have hold := timer_tags_of_clear hid
    have hslot : ¬ e.Overwrites slot := fun hover => by
      rw [(hkeep slot hover).1] at hold
      exact absurd hold List.not_mem_nil
    obtain ⟨a, tag, hget, heq, hname⟩ := hs.timers slot id hold
    exact ⟨a, tag, hget, heq, spelled_step hs henabled hslot hname⟩

/-- A new descriptor takes nothing away. -/
theorem inv_added {key : Key} {a : Nat} (hs : s.Inv) (ha : s.tag.heap.get a = none)
    (hname : s.tag.name_index.lookup key = none) (hrejects : s.tag.rejects s.settings = false) :
    { s with
      tag := s.tag.added s.settings key a
      created := ⟨s.tag.next_id, key⟩ :: s.created }.Inv where
  words := hs.words
  consistent := TagRegistry.consistent_added hs.consistent ha hname hrejects
  refs := hs.refs.alloc ha
  once := by
    rw [List.map_cons, List.nodup_cons]
    refine ⟨?_, hs.once⟩
    intro hmem
    obtain ⟨tag, htag, hid⟩ := List.mem_map.mp hmem
    have hlt := hs.past tag htag
    rw [hid] at hlt
    exact absurd hlt (lt_irrefl _)
  past tag htag := by
    rcases List.mem_cons.mp htag with rfl | hold
    · exact Nat.lt_succ_self _
    · exact Nat.lt_succ_of_lt (hs.past tag hold)
  recorded b tag hb := by
    rcases TagRegistry.get_added hb with ⟨-, rfl⟩ | ⟨-, hold⟩
    · exact List.mem_cons_self
    · exact List.mem_cons_of_mem _ (hs.recorded b tag hold)
  readers reader b hb := by
    obtain ⟨tag, hget⟩ := hs.readers reader b hb
    exact ⟨tag, TagRegistry.get_added_of_get ha hget⟩
  reports report ids hids id hid := by
    obtain ⟨b, tag, hget, heq⟩ := hs.reports report ids hids id hid
    exact ⟨b, tag, TagRegistry.get_added_of_get ha hget, heq⟩
  merging slot tags htags b hb := by
    obtain ⟨tag, hget, hspelled⟩ := hs.merging slot tags htags b hb
    exact ⟨tag, TagRegistry.get_added_of_get ha hget, hspelled⟩
  timers slot id hid := by
    obtain ⟨b, tag, hget, heq, hspelled⟩ := hs.timers slot id hid
    exact ⟨b, tag, TagRegistry.get_added_of_get ha hget, heq, hspelled⟩

/-- What a call for a name gives: a descriptor with that name, or nothing. -/
theorem inv_lookup_or_create {name : Text} {memory : TagMemory} (hs : s.Inv)
    (hfits : name.bytes.length < PINBA_TAG_NAME_SIZE)
    (hfresh : ∀ a ∈ memory.descriptor, s.tag.heap.get a = none) :
    (s.pinba_tag_lookup_or_create_locked name memory).2.Inv ∧
      (s.pinba_tag_lookup_or_create_locked name memory).2.words = s.words ∧
      ∀ a ∈ (s.pinba_tag_lookup_or_create_locked name memory).1,
        ∃ tag, (s.pinba_tag_lookup_or_create_locked name memory).2.tag.heap.get a = some tag ∧
          tag.name = name.key := by
  unfold pinba_tag_lookup_or_create_locked
  rw [TagRegistry.find_of_fits hfits]
  rcases TagRegistry.lookup_or_create_cases hs.consistent hfits hfresh with
    ⟨a, hfound, hcall⟩ | hcall | ⟨a, ha, hmiss, hrejects, hcall⟩
  · rw [hcall, hfound]
    refine ⟨hs, rfl, ?_⟩
    intro b hb
    obtain rfl : a = b := Option.some.inj hb
    obtain ⟨id, hget⟩ := hs.consistent.named _ _ hfound
    exact ⟨_, hget, rfl⟩
  · rw [hcall]
    cases s.tag.name_index.lookup name.key <;>
      exact ⟨hs, rfl, fun _ hb => absurd hb (by simp)⟩
  · have hself : (s.tag.added s.settings name.key a).heap.get a = some ⟨s.tag.next_id, name.key⟩ :=
      CountedHeap.get_alloc_self
    rw [hcall, hmiss]
    refine ⟨?_, rfl, ?_⟩
    · simp only [hself]
      exact inv_added hs ha hmiss hrejects
    · intro b hb
      obtain rfl : a = b := Option.some.inj hb
      exact ⟨_, hself, rfl⟩

theorem word_of_name {h : Holder} {i : Nat} {name : Text} (hname : s.name_of h i = some name) :
    ∃ p w, some p ∈ s.words.words h ∧ s.words.dictionary.heap.get p = some w ∧ w.text = name := by
  obtain ⟨p, hp, hrest⟩ := Option.bind_eq_some_iff.mp hname
  obtain ⟨w, hw, hname⟩ := Option.map_eq_some_iff.mp hrest
  exact ⟨p, w, WordStore.mem_of_entry hp, hw, hname⟩

/-- The strings of words fit the descriptor. -/
theorem fits_of_name {h : Holder} {i : Nat} {name : Text} (hname : s.name_of h i = some name) :
    name.bytes.length < PINBA_TAG_NAME_SIZE := by
  obtain ⟨p, w, -, -, rfl⟩ := word_of_name hname
  exact w.str.length_lt

theorem spelled_of_name {i : Nat} {name : Text} (hs : s.Inv)
    (hname : s.name_of (.raw slot) i = some name) : s.Spelled slot name.key := by
  obtain ⟨lost, hwords⟩ := hs.words
  obtain ⟨p, w, hp, hget, rfl⟩ := word_of_name hname
  have hcanon := hwords.owned.canonical
  have hword := hcanon.indexed _ _ (hcanon.complete p w hget)
  have hkey : w.text.key = w.str := by
    apply CString.ext
    rw [Dictionary.key_bytes]
    exact List.take_of_length_le (Nat.le_of_lt_succ w.str.length_lt)
  rw [hkey]
  exact ⟨p, hp, hword⟩

theorem inv_preflight {thread n i : Nat} {memory : TagMemory} (hs : s.Inv)
    (hfresh : ∀ a ∈ memory.descriptor, s.tag.heap.get a = none) :
    (s.preflight thread n i memory).Inv := by
  unfold preflight
  cases hname : s.name_of (.staging thread n) i with
  | none => exact hs
  | some name => exact (inv_lookup_or_create hs (fits_of_name hname) hfresh).1

theorem inv_set_merging {tags : List Nat} (hs : s.Inv)
    (htags : ∀ a ∈ tags, ∃ tag, s.tag.heap.get a = some tag ∧ s.Spelled slot tag.name) :
    { s with merging := s.merging.insert slot tags }.Inv := by
  refine ⟨hs.words, hs.consistent, hs.refs, hs.once, hs.past, hs.recorded, hs.readers, hs.reports,
    ?_, hs.timers⟩
  intro slot' tags' hlookup
  by_cases hslot : slot' = slot
  · subst hslot
    rw [show (s.merging.insert slot' tags).lookup slot' = _ from AList.lookup_insert _,
      Option.some.injEq] at hlookup
    subst hlookup
    exact htags
  · exact hs.merging slot' tags' ((AList.lookup_insert_ne hslot).symm.trans hlookup)

theorem inv_keep_temp_tag {found : Option Nat} (hs : s.Inv)
    (hfound : ∀ a ∈ found, ∃ tag, s.tag.heap.get a = some tag ∧ s.Spelled slot tag.name) :
    (s.keep_temp_tag slot found).Inv := by
  refine inv_set_merging hs ?_
  intro a ha
  rcases List.mem_append.mp ha with hnew | hold
  · exact hfound a (Option.mem_toList.mp hnew)
  · cases hlookup : s.merging.lookup slot with
    | none =>
      rw [hlookup] at hold
      exact absurd hold List.not_mem_nil
    | some tags =>
      rw [hlookup] at hold
      exact hs.merging slot tags hlookup a hold

theorem inv_cache_tag {i : Nat} (hs : s.Inv) : (s.cache_tag slot i).Inv := by
  unfold cache_tag
  cases hname : s.name_of (.raw slot) i with
  | none => exact hs
  | some name =>
    refine inv_keep_temp_tag hs ?_
    intro a ha
    rw [TagRegistry.find_of_fits (fits_of_name hname)] at ha
    obtain ⟨id, hget⟩ := hs.consistent.named _ _ ha
    exact ⟨_, hget, spelled_of_name hs hname⟩

theorem inv_create_tag {i : Nat} {memory : TagMemory} (hs : s.Inv)
    (hfresh : ∀ a ∈ memory.descriptor, s.tag.heap.get a = none) :
    (s.create_tag slot i memory).Inv := by
  unfold create_tag
  cases hname : s.name_of (.raw slot) i with
  | none => exact hs
  | some name =>
    obtain ⟨hinv, hwords, hfound⟩ := inv_lookup_or_create hs (fits_of_name hname) hfresh
    refine inv_keep_temp_tag hinv ?_
    intro a ha
    obtain ⟨tag, hget, hkey⟩ := hfound a ha
    refine ⟨tag, hget, ?_⟩
    rw [hkey]
    obtain ⟨p, hp, hword⟩ := spelled_of_name hs hname
    exact ⟨p, hwords ▸ hp, hwords ▸ hword⟩

theorem inv_add_tag {a : Nat} {tags : List Nat} (hs : s.Inv)
    (htags : s.merging.lookup slot = some tags) (ha : a ∈ tags) : (s.add_tag slot a).Inv := by
  obtain ⟨tag, hget, hspelled⟩ := hs.merging slot tags htags a ha
  unfold add_tag
  rw [hget]
  refine ⟨hs.words, hs.consistent, hs.refs, hs.once, hs.past, hs.recorded, hs.readers, hs.reports,
    hs.merging, ?_⟩
  intro slot' id hid
  by_cases hslot : slot' = slot
  · subst hslot
    simp only [Function.update_self] at hid
    rcases List.mem_cons.mp hid with rfl | hold
    · exact ⟨a, tag, hget, rfl, hspelled⟩
    · exact hs.timers slot' id hold
  · simp only [Function.update_of_ne hslot] at hid
    exact hs.timers slot' id hid

theorem inv_end_timers (hs : s.Inv) : (s.step (.end_timers slot)).Inv := by
  refine ⟨hs.words, hs.consistent, hs.refs, hs.once, hs.past, hs.recorded, hs.readers, hs.reports,
    ?_, hs.timers⟩
  intro slot' tags htags
  have hslot : slot' ≠ slot := fun heq => by
    rw [heq] at htags
    exact absurd ((AList.lookup_erase _ _).symm.trans htags) (by simp)
  exact hs.merging slot' tags ((AList.lookup_erase_ne hslot).symm.trans htags)

theorem inv_set_readers {reader : Nat} {tags : List Nat} (hs : s.Inv)
    (htags : ∀ a ∈ tags, ∃ tag, s.tag.heap.get a = some tag) :
    { s with readers := s.readers.insert reader tags }.Inv := by
  refine ⟨hs.words, hs.consistent, hs.refs, hs.once, hs.past, hs.recorded, ?_, hs.reports,
    hs.merging, hs.timers⟩
  rintro reader' a ⟨tags', hlookup, ha⟩
  by_cases hreader : reader' = reader
  · subst hreader
    rw [show (s.readers.insert reader' tags).lookup reader' = _ from AList.lookup_insert _,
      Option.some.injEq] at hlookup
    subst hlookup
    exact htags a ha
  · exact hs.readers reader' a ⟨tags', (AList.lookup_insert_ne hreader).symm.trans hlookup, ha⟩

theorem inv_look_up {reader a : Nat} (hs : s.Inv) (he : (Event.look_up reader a).Enabled s) :
    (s.step (.look_up reader a)).Inv := by
  refine inv_set_readers hs ?_
  intro b hb
  rcases List.mem_cons.mp hb with rfl | hold
  · have hlive : ∀ id, s.tag.live_ids.lookup id = some b → s.tag.table.lookup id = some b := by
      intro id hid
      rw [hs.consistent.live id] at hid
      split at hid
      · exact hid
      · exact absurd hid (by simp)
    rcases he.2 with ⟨name, hname⟩ | ⟨id, hid⟩ | ⟨id, hid⟩
    · obtain ⟨id, hget⟩ := hs.consistent.named name b hname
      exact ⟨_, hget⟩
    · obtain ⟨name, hget⟩ := hs.consistent.numbered id b hid
      exact ⟨_, hget⟩
    · obtain ⟨name, hget⟩ := hs.consistent.numbered id b (hlive id hid)
      exact ⟨_, hget⟩
  · cases hlookup : s.readers.lookup reader with
    | none =>
      rw [hlookup] at hold
      exact absurd hold List.not_mem_nil
    | some tags =>
      rw [hlookup] at hold
      exact hs.readers reader b ⟨tags, hlookup, hold⟩

theorem inv_unlock {reader : Nat} (hs : s.Inv) : (s.step (.unlock reader)).Inv := by
  refine ⟨hs.words, hs.consistent, hs.refs, hs.once, hs.past, hs.recorded, ?_, hs.reports,
    hs.merging, hs.timers⟩
  rintro reader' a ⟨tags, hlookup, ha⟩
  have hreader : reader' ≠ reader := fun heq => by
    rw [heq] at hlookup
    exact absurd ((AList.lookup_erase _ _).symm.trans hlookup) (by simp)
  exact hs.readers reader' a ⟨tags, (AList.lookup_erase_ne hreader).symm.trans hlookup, ha⟩

theorem inv_register {report : Nat} {tags : List Nat} (hs : s.Inv) :
    (s.register report tags).Inv := by
  refine ⟨hs.words, hs.consistent, hs.refs, hs.once, hs.past, hs.recorded, hs.readers, ?_,
    hs.merging, hs.timers⟩
  intro report' ids hids id hid
  by_cases hreport : report' = report
  · subst hreport
    rw [show (s.register report' tags).tag_reports.lookup report' = _ from AList.lookup_insert _,
      Option.some.injEq] at hids
    subst hids
    obtain ⟨a, -, ha⟩ := List.mem_filterMap.mp hid
    obtain ⟨tag, hget, hid⟩ := Option.map_eq_some_iff.mp ha
    exact ⟨a, tag, hget, hid⟩
  · exact hs.reports report' ids ((AList.lookup_insert_ne hreport).symm.trans hids) id hid

theorem inv_drop_report {report : Nat} (hs : s.Inv) : (s.step (.drop_report report)).Inv := by
  refine ⟨hs.words, hs.consistent, hs.refs, hs.once, hs.past, hs.recorded, hs.readers, ?_,
    hs.merging, hs.timers⟩
  intro report' ids hids
  have hreport : report' ≠ report := fun heq => by
    rw [heq] at hids
    exact absurd ((AList.lookup_erase _ _).symm.trans hids) (by simp)
  exact hs.reports report' ids ((AList.lookup_erase_ne hreport).symm.trans hids)

/-- Cursors change counts only. -/
theorem inv_set_cursors {heap : CountedHeap TagDescriptor} {cursors : AList fun _ : Nat => Nat}
    (hs : s.Inv) (hsame : s.tag.heap.SameValues heap)
    (hrefs : heap.Refs (keyedSum (fun a => ({a} : Multiset Nat)) cursors)) :
    { s with tag := { s.tag with heap := heap }, cursors := cursors }.Inv := by
  have hget : ∀ a, heap.get a = s.tag.heap.get a := hsame.get
  have hr := hs.consistent
  refine ⟨hs.words, ⟨?_, ?_, ?_, hr.live, ?_, hr.limit⟩, hrefs, hs.once, hs.past, ?_, ?_, ?_, ?_, ?_⟩
  · simpa only [hget] using hr.named
  · simpa only [hget] using hr.numbered
  · simpa only [hget] using hr.complete
  · simpa only [hget] using hr.below
  · simpa only [hget] using hs.recorded
  · intro reader a ha
    rw [hget]
    exact hs.readers reader a ha
  · simpa only [hget] using hs.reports
  · intro slot tags htags a ha
    obtain ⟨tag, hold, hspelled⟩ := hs.merging slot tags htags a ha
    exact ⟨tag, (hget a).trans hold, hspelled⟩
  · intro slot id hid
    obtain ⟨a, tag, hold, heq, hspelled⟩ := hs.timers slot id hid
    exact ⟨a, tag, (hget a).trans hold, heq, hspelled⟩

theorem inv_release_tag_cursor {table : Nat} (hs : s.Inv) : (s.release_tag_cursor table).Inv := by
  unfold release_tag_cursor
  cases hcursor : s.cursors.lookup table with
  | none => exact hs
  | some a =>
    refine inv_set_cursors hs (CountedHeap.sameValues_release _ a) ?_
    have hsum := keyedSum_erase (fun a => ({a} : Multiset Nat)) s.cursors table
    rw [hcursor, Option.elim_some, add_comm, Multiset.singleton_add] at hsum
    have hrefs := hs.refs
    rw [pins, ← hsum] at hrefs
    exact hrefs.release

theorem inv_pin_tag_cursor {table a : Nat} (hs : s.Inv) (ha : ∃ tag, s.tag.heap.get a = some tag) :
    (s.pin_tag_cursor table a).Inv := by
  have hretained : (s.tag.heap.retain a).Refs (a ::ₘ s.pins) := by
    obtain ⟨tag, hget⟩ := ha
    exact hs.refs.retain (by rw [hget]; simp)
  unfold pin_tag_cursor
  split
  · exact hs
  · unfold release_tag_cursor
    cases hcursor : s.cursors.lookup table with
    | none =>
      simp only [hcursor]
      refine inv_set_cursors hs (CountedHeap.sameValues_retain _ a) ?_
      rw [keyedSum_insert_new _ _ hcursor, Multiset.singleton_add]
      exact hretained
    | some c =>
      simp only [hcursor]
      refine inv_set_cursors hs
        ((CountedHeap.sameValues_retain _ a).trans (CountedHeap.sameValues_release _ c)) ?_
      -- the new pin is taken before the old one is given up
      have hsum := keyedSum_erase (fun a => ({a} : Multiset Nat)) s.cursors table
      rw [hcursor, Option.elim_some, add_comm, Multiset.singleton_add] at hsum
      rw [pins, ← hsum, Multiset.cons_swap] at hretained
      rw [keyedSum_insert_new _ _ (AList.lookup_erase _ _), Multiset.singleton_add]
      exact hretained.release

/-- A word that spells the name has references. -/
theorem word_references_of_spelled {name : Key} (hs : s.Inv) (hname : s.Spelled slot name) :
    TagRegistry.word_references s.words.dictionary name ≠ 0 := by
  obtain ⟨lost, hwords⟩ := hs.words
  obtain ⟨p, hp, hget⟩ := hname
  have hmap := hwords.owned.canonical.complete p _ hget
  obtain ⟨cell, hcell, -⟩ := Option.map_eq_some_iff.mp hget
  have hcount := hwords.owned.refs.count p cell hcell
  have hpos : 0 < (s.words.owners + lost).count p :=
    Multiset.count_pos.mpr (Multiset.mem_add.mpr (.inl (WordStore.mem_owners hp)))
  unfold TagRegistry.word_references
  rw [show s.words.dictionary.map.lookup name = some p from hmap, Option.elim_some, hcell,
    Option.elim_some]
  omega

theorem inv_collect {memory : Bool} (hs : s.Inv) (hidle : ∀ reader, s.readers.lookup reader = none) :
    (s.pinba_collect_unused_tags memory).Inv := by
  unfold pinba_collect_unused_tags
  cases memory with
  | false => exact hs
  | true =>
    have hcollected := @TagRegistry.collected_collect_unused_tags s.tag s.settings
      s.words.dictionary s.selectors s.pins hs.consistent hs.refs
    have hkept : ∀ a tag, s.tag.heap.get a = some tag →
        (∀ cell : Counted TagDescriptor, cell.value = tag →
          TagRegistry.needed s.words.dictionary s.selectors cell) →
        (s.tag.collect_unused_tags s.settings s.words.dictionary s.selectors).heap.get a =
          some tag := by
      intro a tag hget hneeded
      obtain ⟨cell, hcell, hvalue⟩ := Option.map_eq_some_iff.mp hget
      rw [CountedHeap.get, hcollected.kept a cell hcell (hneeded cell hvalue), Option.map_some,
        hvalue]
    rw [if_pos rfl]
    refine ⟨hs.words, hcollected.consistent, hcollected.refs, hs.once, ?_, ?_, ?_, ?_, ?_, ?_⟩
    · intro tag htag
      show tag.id < TagRegistry.next_id _
      rw [hcollected.next_id]
      exact hs.past tag htag
    · intro a tag hget
      exact hs.recorded a tag (hcollected.old a tag hget)
    · rintro reader a ⟨tags, hlookup, -⟩
      exact absurd ((hidle reader).symm.trans hlookup) (by simp)
    · intro report ids hids id hid
      obtain ⟨a, tag, hget, heq⟩ := hs.reports report ids hids id hid
      refine ⟨a, tag, hkept a tag hget ?_, heq⟩
      -- selected by a report
      rintro cell rfl
      refine .inr (.inr ?_)
      rw [heq]
      exact List.mem_flatMap.mpr ⟨⟨report, ids⟩, AList.mem_lookup_iff.mp hids, hid⟩
    · intro slot tags htags a ha
      obtain ⟨tag, hget, hspelled⟩ := hs.merging slot tags htags a ha
      refine ⟨tag, hkept a tag hget ?_, hspelled⟩
      rintro cell rfl
      exact .inr (.inl (word_references_of_spelled hs hspelled))
    · intro slot id hid
      obtain ⟨a, tag, hget, heq, hspelled⟩ := hs.timers slot id hid
      refine ⟨a, tag, hkept a tag hget ?_, heq, hspelled⟩
      rintro cell rfl
      exact .inr (.inl (word_references_of_spelled hs hspelled))

theorem inv_step {e : Event} (hs : s.Inv) (he : e.Enabled s) : (s.step e).Inv := by
  cases e with
  | word => exact inv_word hs he
  | preflight => exact inv_preflight hs he
  | begin_timers => exact inv_set_merging hs fun _ ha => absurd ha List.not_mem_nil
  | cache_tag => exact inv_cache_tag hs
  | create_tag => exact inv_create_tag hs he.2
  | add_tag =>
    obtain ⟨tags, htags, ha⟩ := he
    exact inv_add_tag hs htags ha
  | end_timers => exact inv_end_timers hs
  | lock => exact inv_set_readers hs fun _ ha => absurd ha List.not_mem_nil
  | look_up => exact inv_look_up hs he
  | register => exact inv_register hs
  | pin_tag_cursor => exact inv_pin_tag_cursor hs (hs.readers _ _ he)
  | unlock => exact inv_unlock hs
  | release_tag_cursor => exact inv_release_tag_cursor hs
  | drop_report => exact inv_drop_report hs
  | collect => exact inv_collect hs he

theorem inv_of_reachable {settings : TagSettings} (h : Reachable settings s) : s.Inv := by
  induction h with
  | init => exact inv_init settings
  | step e _ he ih => exact inv_step ih he

/-! ## Section 6: Whole runs -/

/-- The id that a name has. -/
def id_of (s : TagStore) (name : Key) : Option Nat :=
  (s.tag.name_index.lookup name).bind fun a => (s.tag.heap.get a).map TagDescriptor.id

/-- What the registry promises in a state. -/
structure TagsSafe (s : TagStore) : Prop where
  /-- The three indices describe the descriptors in memory. -/
  name_index : ∀ name a, s.tag.name_index.lookup name = some a ↔
    ∃ id, s.tag.heap.get a = some ⟨id, name⟩
  table : ∀ id a, s.tag.table.lookup id = some a ↔ ∃ name, s.tag.heap.get a = some ⟨id, name⟩
  live_ids : s.settings.tag_gc_enabled = true → ∀ id,
    s.tag.live_ids.lookup id = s.tag.table.lookup id
  injective : ∀ name name' id, s.id_of name = some id → s.id_of name' = some id → name = name'
  /-- No id was given out twice, and all that were are in the past. -/
  once : (s.created.map TagDescriptor.id).Nodup
  past : ∀ tag ∈ s.created, tag.id < s.tag.next_id
  created : ∀ a tag, s.tag.heap.get a = some tag → tag ∈ s.created
  limit : s.settings.tag_names_limit ≠ 0 →
    entryCount s.tag.table ≤ s.settings.tag_names_limit
  /-- Whatever is referred to is in the table. -/
  timers : ∀ slot, ∀ id ∈ s.timer_tags slot, s.tag.table.lookup id ≠ none
  reports : ∀ report ids, s.tag_reports.lookup report = some ids → ∀ id ∈ ids,
    s.tag.table.lookup id ≠ none
  cursors : ∀ table a, s.cursors.lookup table = some a →
    ∃ tag, s.tag.heap.get a = some tag ∧ s.tag.table.lookup tag.id = some a
  /-- No descriptor is used after it was freed. -/
  never_broken : s.tag.heap.broken = false

theorem table_of_id {id : Nat} (hs : s.Inv)
    (hid : ∃ a tag, s.tag.heap.get a = some tag ∧ tag.id = id) : s.tag.table.lookup id ≠ none := by
  obtain ⟨a, tag, hget, rfl⟩ := hid
  rw [(hs.consistent.complete a tag hget).2]
  simp

theorem mem_pins {table a : Nat} (hcursor : s.cursors.lookup table = some a) : a ∈ s.pins := by
  have hsum := keyedSum_erase (fun a => ({a} : Multiset Nat)) s.cursors table
  rw [hcursor, Option.elim_some] at hsum
  rw [pins, ← hsum]
  exact Multiset.mem_add.mpr (.inr (Multiset.mem_singleton_self a))

/-- Whatever threads do, the registry stays consistent and keeps every tag that a
    timer, a report or a cursor refers to. -/
theorem tags_outlive_their_users {settings : TagSettings} (h : Reachable settings s) :
    s.TagsSafe := by
  have hinv := inv_of_reachable h
  have hr := hinv.consistent
  refine ⟨?_, ?_, ?_, ?_, hinv.once, hinv.past, hinv.recorded, hr.limit, ?_, ?_, ?_, hinv.refs.sound⟩
  · intro name a
    constructor
    · exact hr.named name a
    · rintro ⟨id, hget⟩
      exact (hr.complete a _ hget).1
  · intro id a
    constructor
    · exact hr.numbered id a
    · rintro ⟨name, hget⟩
      exact (hr.complete a _ hget).2
  · intro hgc id
    rw [hr.live id, if_pos hgc]
  · intro name name' id hname hname'
    have hdescriptor : ∀ {name : Key}, s.id_of name = some id →
        ∃ a, s.tag.heap.get a = some ⟨id, name⟩ := by
      intro name hid
      obtain ⟨a, hlookup, hrest⟩ := Option.bind_eq_some_iff.mp hid
      obtain ⟨id', hget⟩ := hr.named name a hlookup
      rw [hget, Option.map_some, Option.some.injEq] at hrest
      exact ⟨a, hrest ▸ hget⟩
    obtain ⟨a, hget⟩ := hdescriptor hname
    obtain ⟨a', hget'⟩ := hdescriptor hname'
    -- both are the descriptor with this id
    have htable := (hr.complete a _ hget).2
    rw [(hr.complete a' _ hget').2, Option.some.injEq] at htable
    rw [← htable, hget', Option.some.injEq, TagDescriptor.mk.injEq] at hget
    exact hget.2.symm
  · intro slot id hid
    obtain ⟨a, tag, hget, heq, -⟩ := hinv.timers slot id hid
    exact table_of_id hinv ⟨a, tag, hget, heq⟩
  · intro report ids hids id hid
    exact table_of_id hinv (hinv.reports report ids hids id hid)
  · intro table a hcursor
    obtain ⟨tag, hget⟩ := Option.ne_none_iff_exists'.mp (hinv.refs.live a (mem_pins hcursor))
    exact ⟨tag, hget, (hr.complete a tag hget).2⟩

/-- A request with one timer tag, followed by a collection. -/
def one_tag : List Event :=
  [.word (.intern_read (.staging 0 0) Interning.letter ⟨0, 0⟩),
    .word (.intern_write ⟨.staging 0 0, Interning.letter, ⟨0, 0⟩⟩ (some 1)),
    .preflight 0 0 0 ⟨some 7, true, true, true⟩,
    .word (.request_copy 0 0 5 true), .begin_timers 5, .cache_tag 5 0, .add_tag 5 7, .end_timers 5,
    .word (.pinba_tmp_release_words 0 0), .collect true]

/-- The tag of such a request survives. -/
theorem tags_outlive_their_users_one_tag :
    let s := one_tag.foldl step (init ⟨2, true⟩)
    (s.timer_tags 5, s.tag.table.lookup 0) = ([0], some 7) ∧ s.TagsSafe := by
  refine ⟨rfl, @tags_outlive_their_users _ ⟨2, true⟩ ?_⟩
  have hread : Reachable ⟨2, true⟩ (step (init ⟨2, true⟩)
      (.word (.intern_read (.staging 0 0) Interning.letter ⟨0, 0⟩))) :=
    .step _ .init ⟨⟨List.not_mem_nil, trivial⟩, fun _ h => h.elim⟩
  have hwrite := Reachable.step
    (.word (.intern_write ⟨.staging 0 0, Interning.letter, ⟨0, 0⟩⟩ (some 1))) hread
    ⟨⟨List.mem_cons_self, fun p _ => rfl⟩, fun _ h => h.elim⟩
  have hpre := Reachable.step (.preflight 0 0 0 ⟨some 7, true, true, true⟩) hwrite fun a _ => rfl
  have hcopy := Reachable.step (.word (.request_copy 0 0 5 true)) hpre
    ⟨⟨List.not_mem_nil, rfl⟩, fun _ _ => ⟨rfl, rfl⟩⟩
  have hbegin := Reachable.step (.begin_timers 5) hcopy trivial
  have hcache := Reachable.step (.cache_tag 5 0) hbegin (by simp [Event.Enabled, step])
  have hadd := Reachable.step (.add_tag 5 7) hcache ⟨[7], rfl, List.mem_cons_self⟩
  have hend := Reachable.step (.end_timers 5) hadd trivial
  have hrelease := Reachable.step (.word (.pinba_tmp_release_words 0 0)) hend
    ⟨List.not_mem_nil, fun _ h => h.elim⟩
  exact Reachable.step (.collect true) hrelease fun _ => rfl

end TagStore

end PinbaEngine
