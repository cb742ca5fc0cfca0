import PinbaEngine.TagLifetime

/-! # Scanning the tag catalogue

    `SELECT` on a `tag` table reads the descriptors one call at a time, by
    `rnd_next` or by `index_first` and `index_next` on the id. Every call takes
    `collector_lock`, asks `pinba_tag_get_after` for the next descriptor, fills the
    row, and keeps nothing but an id. Between its calls, and even inside a call
    after the descriptor was found, other threads go on: tags are created, and
    collected if collecting is on and no call is under way.

    Without collecting the next descriptor is the one with exactly the next id, so
    the scan relies on ids without gaps (`Contiguous`). With collecting it is the
    first one in the ordered index from the next id on.
-/

namespace PinbaEngine

/-! ## Section 1: Finding the next descriptor -/

namespace TagRegistry

variable (r : TagRegistry) (settings : TagSettings)

/-- `D->tag.live_ids.lower_bound(id)`. -/
def lower_bound (id : Nat) : Option Nat :=
  ((r.live_ids.keys.filter fun key => decide (id ≤ key)).min?).bind fun key => r.live_ids.lookup key

/-- `pinba_tag_get_after`. -/
def pinba_tag_get_after (id : Nat) (exact_ : Bool) : Option Nat :=
  if exact_ || !settings.tag_gc_enabled then r.table.lookup id else r.lower_bound id

/-- Every id below the next one is taken. -/
def Contiguous : Prop := ∀ id < r.next_id, r.table.lookup id ≠ none

/-- When ids may have gaps they are read from the ordered index. -/
def Gapless : Prop := settings.tag_gc_enabled = false → r.Contiguous

variable {r settings} {id a : Nat}

theorem lower_bound_some (hgc : settings.tag_gc_enabled = true) (hr : Consistent settings r)
    (h : r.lower_bound id = some a) :
    ∃ key, id ≤ key ∧ r.table.lookup key = some a ∧
      ∀ j, id ≤ j → j < key → r.table.lookup j = none := by
  obtain ⟨key, hmin, hlookup⟩ := Option.bind_eq_some_iff.mp h
  obtain ⟨hmem, hleast⟩ := List.min?_eq_some_iff.mp hmin
  have htable : ∀ j, r.live_ids.lookup j = r.table.lookup j := by
    intro j
    rw [hr.live j, if_pos hgc]
  refine ⟨key, by simpa using (List.mem_filter.mp hmem).2, by rw [← htable, hlookup], ?_⟩
  intro j hle hlt
  rw [← htable]
  apply AList.lookup_eq_none.mpr
  intro hj
  have := hleast j (List.mem_filter.mpr ⟨hj, by simpa using hle⟩)
  omega

theorem lower_bound_none (hgc : settings.tag_gc_enabled = true) (hr : Consistent settings r)
    (h : r.lower_bound id = none) (j : Nat) (hle : id ≤ j) : r.table.lookup j = none := by
  have htable : r.live_ids.lookup j = r.table.lookup j := by rw [hr.live j, if_pos hgc]
  rw [← htable]
  apply AList.lookup_eq_none.mpr
  intro hj
  -- an id from here on would be a candidate for the minimum
  have hmem : j ∈ r.live_ids.keys.filter fun key => decide (id ≤ key) :=
    List.mem_filter.mpr ⟨hj, by simpa using hle⟩
  obtain ⟨key, hmin⟩ := Option.isSome_iff_exists.mp (List.isSome_min?_of_mem hmem)
  have hkey := (List.mem_filter.mp (List.min?_mem hmin)).1
  obtain ⟨b, hb⟩ := Option.isSome_iff_exists.mp (AList.lookup_isSome.mpr hkey)
  unfold lower_bound at h
  rw [hmin, Option.bind_some, hb] at h
  exact absurd h (by simp)

/-- A descriptor that is found has the smallest id from the next one on. -/
theorem get_after_some (hr : Consistent settings r)
    (h : r.pinba_tag_get_after settings id false = some a) :
    ∃ tag, r.heap.get a = some tag ∧ id ≤ tag.id ∧ r.table.lookup tag.id = some a ∧
      ∀ j, id ≤ j → j < tag.id → r.table.lookup j = none := by
  have hfound : ∃ key, id ≤ key ∧ r.table.lookup key = some a ∧
      ∀ j, id ≤ j → j < key → r.table.lookup j = none := by
    unfold pinba_tag_get_after at h
    cases hgc : settings.tag_gc_enabled with
    | false =>
      -- the descriptor with this very id
      rw [hgc] at h
      exact ⟨id, le_refl _, h, fun j hle hlt => absurd hlt (by omega)⟩
    | true =>
      rw [hgc] at h
      exact lower_bound_some hgc hr h
  obtain ⟨key, hle, hlookup, hgap⟩ := hfound
  obtain ⟨name, hget⟩ := hr.numbered key a hlookup
  exact ⟨⟨key, name⟩, hget, hle, hlookup, hgap⟩

/-- If none is found there is none from the next id on. -/
theorem get_after_none (hr : Consistent settings r) (hids : r.Gapless settings)
    (h : r.pinba_tag_get_after settings id false = none) (j : Nat) (hle : id ≤ j) :
    r.table.lookup j = none := by
  unfold pinba_tag_get_after at h
  cases hgc : settings.tag_gc_enabled with
  | false =>
    rw [hgc] at h
    have hmiss : r.table.lookup id = none := h
    -- the first id that is missing is the next one to be given out
    have hnext : r.next_id ≤ id := by
      by_contra hlt
      exact hids hgc id (by omega) hmiss
    cases hj : r.table.lookup j with
    | none => rfl
    | some b =>
      obtain ⟨name, hget⟩ := hr.numbered j b hj
      have hlt : j < r.next_id := hr.below b _ hget
      omega
  | true =>
    rw [hgc] at h
    exact lower_bound_none hgc hr h j hle

end TagRegistry

/-! ## Section 2: What other threads do to the descriptors -/

namespace TagStore

variable {s : TagStore} {e : Event}

/-- The effect of an event on the registry: the descriptors stay as they are, there
    is one more, or some are collected while nobody holds `collector_lock`. -/
inductive Effect (s s' : TagStore) : Prop
  | same (table : s'.tag.table = s.tag.table) (next_id : s'.tag.next_id = s.tag.next_id)
    (get : ∀ a, s'.tag.heap.get a = s.tag.heap.get a)
  | added (key : Key) (a : Nat) (free : s.tag.heap.get a = none)
    (tag : s'.tag = s.tag.added s.settings key a)
  | collected (enabled : s.settings.tag_gc_enabled = true)
    (idle : ∀ reader, s.readers.lookup reader = none)

theorem effect_of_tag_eq {s' : TagStore} (h : s'.tag = s.tag) : Effect s s' :=
  .same (by rw [h]) (by rw [h]) (by rw [h]; exact fun _ => rfl)

theorem effect_lookup_or_create {name : Text} {memory : TagMemory} (hs : s.Inv)
    (hfits : name.bytes.length < PINBA_TAG_NAME_SIZE)
    (hfresh : ∀ a ∈ memory.descriptor, s.tag.heap.get a = none) :
    Effect s (s.pinba_tag_lookup_or_create_locked name memory).2 := by
  have htag : (s.pinba_tag_lookup_or_create_locked name memory).2.tag =
      (s.tag.lookup_or_create s.settings name memory).2 := rfl
  rcases TagRegistry.lookup_or_create_cases hs.consistent hfits hfresh with
    ⟨a, -, hcall⟩ | hcall | ⟨a, ha, -, -, hcall⟩
  · rw [hcall] at htag
    exact effect_of_tag_eq htag
  · rw [hcall] at htag
    exact effect_of_tag_eq htag
  · rw [hcall] at htag
    exact .added name.key a ha htag

theorem effect_release_tag_cursor (table : Nat) : Effect s (s.release_tag_cursor table) := by
  unfold release_tag_cursor
  cases s.cursors.lookup table with
  | none => exact effect_of_tag_eq rfl
  | some a => exact .same rfl rfl (CountedHeap.sameValues_release _ a).get

theorem effect_pin_tag_cursor (table a : Nat) : Effect s (s.pin_tag_cursor table a) := by
  unfold pin_tag_cursor
  split
  · exact effect_of_tag_eq rfl
  · unfold release_tag_cursor
    cases hcursor : s.cursors.lookup table with
    | none =>
      simp only [hcursor]
      exact .same rfl rfl (CountedHeap.sameValues_retain _ a).get
    | some c =>
      simp only [hcursor]
      exact .same rfl rfl
        ((CountedHeap.sameValues_retain _ a).trans (CountedHeap.sameValues_release _ c)).get

theorem effect_collect {memory : Bool} (hidle : ∀ reader, s.readers.lookup reader = none) :
    Effect s (s.pinba_collect_unused_tags memory) := by
  unfold pinba_collect_unused_tags
  split
  · by_cases hgc : s.settings.tag_gc_enabled = true
    · exact .collected hgc hidle
    · refine effect_of_tag_eq ?_
      exact if_neg hgc
  · exact effect_of_tag_eq rfl

theorem effect_step (hs : s.Inv) (he : e.Enabled s) : Effect s (s.step e) := by
  cases e with
  | preflight thread n i memory =>
    show Effect s (s.preflight thread n i memory)
    unfold preflight
    cases hname : s.name_of (.staging thread n) i with
    | none => exact effect_of_tag_eq rfl
    | some name => exact effect_lookup_or_create hs (fits_of_name hname) he
  | cache_tag slot i =>
    show Effect s (s.cache_tag slot i)
    unfold cache_tag
    cases s.name_of (.raw slot) i <;> exact effect_of_tag_eq rfl
  | create_tag slot i memory =>
    show Effect s (s.create_tag slot i memory)
    unfold create_tag
    cases hname : s.name_of (.raw slot) i with
    | none => exact effect_of_tag_eq rfl
    | some name =>
      cases effect_lookup_or_create hs (fits_of_name hname) he.2 with
      | same htable hnext hget => exact .same htable hnext hget
      | added key a ha htag => exact .added key a ha htag
      | collected hgc hidle => exact .collected hgc hidle
  -- the descriptor of the timer is there, and its count is all that changes
  | add_tag slot a =>
    obtain ⟨tags, htags, ha⟩ := he
    obtain ⟨tag, hget, -⟩ := hs.merging slot tags htags a ha
    refine effect_of_tag_eq ?_
    show (s.add_tag slot a).tag = s.tag
    unfold add_tag
    rw [hget]
  | pin_tag_cursor reader table a => exact effect_pin_tag_cursor table a
  | release_tag_cursor table => exact effect_release_tag_cursor table
  | collect memory => exact effect_collect he
  | word | begin_timers | end_timers | lock | look_up | register | unlock | drop_report =>
    exact effect_of_tag_eq rfl

/-- The events in which a thread uses its hold on `collector_lock`. -/
def Event.Uses (reader : Nat) : Event → Prop
  | .lock r | .look_up r _ | .register r _ _ | .pin_tag_cursor r _ _ | .unlock r => r = reader
  | _ => False

/-- What an event leaves alone. -/
structure Frame (reader : Nat) (s s' : TagStore) : Prop where
  settings : s'.settings = s.settings
  readers : s'.readers.lookup reader = s.readers.lookup reader

theorem frame_pin_tag_cursor (reader table a : Nat) : Frame reader s (s.pin_tag_cursor table a) := by
  unfold pin_tag_cursor release_tag_cursor
  split
  · exact ⟨rfl, rfl⟩
  · simp only
    cases s.cursors.lookup table <;> exact ⟨rfl, rfl⟩

theorem frame_step {reader : Nat} (he : ¬ e.Uses reader) : Frame reader s (s.step e) := by
  cases e with
  | preflight thread n i memory =>
    show Frame reader s (s.preflight thread n i memory)
    unfold preflight
    cases s.name_of (.staging thread n) i <;> exact ⟨rfl, rfl⟩
  | cache_tag slot i =>
    show Frame reader s (s.cache_tag slot i)
    unfold cache_tag
    cases s.name_of (.raw slot) i <;> exact ⟨rfl, rfl⟩
  | create_tag slot i memory =>
    show Frame reader s (s.create_tag slot i memory)
    unfold create_tag
    cases s.name_of (.raw slot) i <;> exact ⟨rfl, rfl⟩
  | add_tag slot a =>
    show Frame reader s (s.add_tag slot a)
    unfold add_tag
    cases s.tag.heap.get a <;> exact ⟨rfl, rfl⟩
  | pin_tag_cursor _ table a => exact frame_pin_tag_cursor reader table a
  | release_tag_cursor table =>
    show Frame reader s (s.release_tag_cursor table)
    unfold release_tag_cursor
    cases s.cursors.lookup table <;> exact ⟨rfl, rfl⟩
  | collect memory =>
    show Frame reader s (s.pinba_collect_unused_tags memory)
    unfold pinba_collect_unused_tags
    cases memory <;> exact ⟨rfl, rfl⟩
  | lock r => exact ⟨rfl, AList.lookup_insert_ne (Ne.symm he)⟩
  | look_up r a => exact ⟨rfl, AList.lookup_insert_ne (Ne.symm he)⟩
  | unlock r => exact ⟨rfl, AList.lookup_erase_ne (Ne.symm he)⟩
  | word | begin_timers | end_timers | register | drop_report => exact ⟨rfl, rfl⟩

/-- Ids stay without gaps when nothing is collected. -/
theorem gapless_of_effect {s' : TagStore} (h : Effect s s') (hsettings : s'.settings = s.settings)
    (hids : s.tag.Gapless s.settings) : s'.tag.Gapless s'.settings := by
  intro hgc id hid
  rw [hsettings] at hgc
  cases h with
  | same htable hnext _ =>
    rw [hnext] at hid
    rw [htable]
    exact hids hgc id hid
  | added key a _ htag =>
    rw [htag] at hid ⊢
    -- the new tag has the next id
    by_cases hlast : id = s.tag.next_id
    · subst hlast
      rw [show (s.tag.added s.settings key a).table.lookup s.tag.next_id = _ from
        AList.lookup_insert _]
      simp
    · rw [show (s.tag.added s.settings key a).table.lookup id = _ from AList.lookup_insert_ne hlast]
      have hlt : id < s.tag.next_id + 1 := hid
      exact hids hgc id (by omega)
  | collected henabled _ =>
    rw [henabled] at hgc
    exact absurd hgc (by simp)

theorem gapless_of_reachable {settings : TagSettings} (h : Reachable settings s) :
    s.tag.Gapless s.settings := by
  induction h with
  | init =>
    intro _ id hid
    exact absurd hid (Nat.not_lt_zero id)
  | @step s e hs he ih =>
    -- any reader that the event is not about will do: settings never change
    obtain ⟨reader, hreader⟩ : ∃ reader, ¬ e.Uses reader := by
      cases e with
      | lock r | look_up r | register r | pin_tag_cursor r | unlock r =>
        exact ⟨r + 1, Nat.ne_of_lt (Nat.lt_succ_self r)⟩
      | _ => exact ⟨0, id⟩
    exact gapless_of_effect (effect_step (inv_of_reachable hs) he) (frame_step hreader).settings ih

/-- As long as somebody holds `collector_lock` descriptors stay. -/
theorem get_of_effect {s' : TagStore} {reader a : Nat} {tag : TagDescriptor} (h : Effect s s')
    (hheld : s.readers.lookup reader ≠ none) (hget : s.tag.heap.get a = some tag) :
    s'.tag.heap.get a = some tag := by
  cases h with
  | same _ _ hsame => rw [hsame, hget]
  | added key b hb htag =>
    rw [htag]
    exact TagRegistry.get_added_of_get hb hget
  | collected _ hidle => exact absurd (hidle reader) hheld

end TagStore

/-! ## Section 3: The scan -/

/-- `this_index[0]` of the handler. -/
structure TagCursor where
  ival : Nat
  position : Nat

/-- The handler functions that read the table by id. -/
inductive TagCall where
  | rnd_next | index_first | index_next

namespace TagCursor

variable (c : TagCursor)

/-- The id that a call passes to `tags_fetch_row`. -/
def index : TagCall → Nat
  | .rnd_next | .index_next => c.ival
  | .index_first => 0

/-- The cursor after a call that found the id, or that found nothing: the call
    stores `*new_index`, and `index_first` and `index_next` then count a row. -/
def after (call : TagCall) (found : Option Nat) : TagCursor :=
  let new_index := found.elim (c.index call) (· + 1)
  match call with
  | .rnd_next => ⟨new_index, new_index⟩
  | .index_first => ⟨new_index, found.elim 0 fun _ => 1⟩
  | .index_next => ⟨new_index, found.elim new_index fun _ => new_index + 1⟩

end TagCursor

/-- How the server reads the table. -/
inductive TagAccess where
  | rnd | index

/-- A scan in progress. -/
structure TagScan where
  store : TagStore
  cursor : TagCursor
  /-- Whether the first call was made. -/
  started : Bool
  /-- The descriptor that the current call has found and not yet returned. -/
  fetching : Option Nat
  /-- The ids of the rows so far, last one first. -/
  rows : List Nat
  /-- `HA_ERR_END_OF_FILE` was returned. -/
  eof : Bool

namespace TagScan

variable (reader table : Nat) (access : TagAccess) (s : TagScan)

/-- The call that comes next. -/
def call : TagCall :=
  match access with
  | .rnd => .rnd_next
  | .index => if s.started then .index_next else .index_first

/-- A scan before its first call: `rnd_init` sets the cursor to zero, `index_init`
    leaves `ival` as it is. -/
def begin_ (store : TagStore) (ival : Nat) : TagScan :=
  ⟨store, match access with | .rnd => ⟨0, 0⟩ | .index => ⟨ival, 0⟩, false, none, [], false⟩

/-- A call ends with `HA_ERR_END_OF_FILE`. -/
def at_end : TagScan :=
  { s with
    store := (s.store.step (.lock reader)).step (.unlock reader)
    cursor := s.cursor.after (s.call access) none
    started := true
    eof := true }

/-- A call has found a descriptor. -/
def borrowed (a : Nat) : TagScan :=
  { s with
    store := (s.store.step (.lock reader)).step (.look_up reader a)
    fetching := some a }

/-- The first half of `tags_fetch_row`: lock, and find a descriptor. -/
def fetch : TagScan :=
  match s.store.tag.pinba_tag_get_after s.store.settings (s.cursor.index (s.call access)) false with
  | none => s.at_end reader access
  | some a => s.borrowed reader a

/-- A call ends with the row of a tag; the descriptor is pinned. -/
def returned (a : Nat) (tag : TagDescriptor) : TagScan :=
  { s with
    store := (s.store.step (.pin_tag_cursor reader table a)).step (.unlock reader)
    cursor := s.cursor.after (s.call access) (some tag.id)
    started := true
    fetching := none
    rows := tag.id :: s.rows }

/-- The second half: the row is filled from the descriptor, which has to be there. -/
def fill (a : Nat) : TagScan :=
  match s.store.tag.heap.get a with
  | none =>
    { s with
      store :=
        { s.store with tag := { s.store.tag with heap := { s.store.tag.heap with broken := true } } } }
  | some tag => s.returned reader table access a tag

/-- One half of a call, or whatever another thread does. -/
inductive Step (s : TagScan) : TagScan → Prop
  | other (e : TagStore.Event) (enabled : e.Enabled s.store) (foreign : ¬ e.Uses reader) :
    Step s { s with store := s.store.step e }
  | fetch (idle : s.fetching = none) (more : s.eof = false) : Step s (s.fetch reader access)
  | fill (a : Nat) (found : s.fetching = some a) : Step s (s.fill reader table access a)

/-- The states from the first call on, last one first. -/
inductive Run (start : TagScan) : List TagScan → TagScan → Prop
  | start : Run start [start] start
  | step {visited : List TagScan} {s s' : TagScan} (hrun : Run start visited s)
    (hstep : Step reader table access s s') : Run start (s' :: visited) s'

/-- The tag with this id exists. -/
def Registered (id : Nat) : Prop := s.store.tag.table.lookup id ≠ none

/-! ## Section 4: The invariant -/

variable {reader table access s} {visited : List TagScan} {start s' : TagScan} {a : Nat}

/-- The id from which the next call looks. -/
abbrev index (access : TagAccess) (s : TagScan) : Nat := s.cursor.index (s.call access)

/-- The tags that existed in all these states. -/
def Always (visited : List TagScan) (id : Nat) : Prop := ∀ v ∈ visited, v.Registered id

theorem Always.tail {id : Nat} (h : Always (s' :: visited) id) : Always visited id :=
  fun v hv => h v (List.mem_cons_of_mem _ hv)

/-- The rows so far are the tags below the cursor, as far as these have existed all
    the time, and the descriptor that a call has found is still there. -/
structure Inv (reader : Nat) (access : TagAccess) (visited : List TagScan) (s : TagScan) : Prop where
  store : s.store.Inv
  ids : s.store.tag.Gapless s.store.settings
  current : s ∈ visited
  held : ∀ a, s.fetching = some a → s.store.Borrowed reader a
  found : ∀ a, s.fetching = some a → ∃ tag, s.store.tag.heap.get a = some tag ∧
    s.index access ≤ tag.id ∧ ∀ id, Always visited id → id < tag.id → id ∈ s.rows
  increasing : s.rows.Pairwise (· > ·)
  below : ∀ id ∈ s.rows, id < s.index access
  complete : ∀ id, Always visited id → id < s.index access → id ∈ s.rows
  all : s.eof = true → ∀ id, Always visited id → id ∈ s.rows

theorem inv_begin {store : TagStore} {ival : Nat} {settings : TagSettings}
    (h : TagStore.Reachable settings store) :
    Inv reader access [begin_ access store ival] (begin_ access store ival) := by
  have hindex : (begin_ access store ival).index access = 0 := by cases access <;> rfl
  refine ⟨TagStore.inv_of_reachable h, TagStore.gapless_of_reachable h, List.mem_singleton_self _,
    fun a ha => ?_, fun a ha => ?_, .nil, fun id hid => ?_, fun id _ hid => ?_, fun heof => ?_⟩
  · cases ha
  · cases ha
  · cases hid
  · rw [hindex] at hid
    exact absurd hid (Nat.not_lt_zero id)
  · cases heof

/-- Another thread takes a step. -/
theorem inv_other {e : TagStore.Event} (h : Inv reader access visited s)
    (he : e.Enabled s.store) (hforeign : ¬ e.Uses reader) :
    Inv reader access ({ s with store := s.store.step e } :: visited)
      { s with store := s.store.step e } := by
  have heffect := TagStore.effect_step h.store he
  have hframe : TagStore.Frame reader s.store (s.store.step e) := TagStore.frame_step hforeign
  refine ⟨TagStore.inv_step h.store he, TagStore.gapless_of_effect heffect hframe.settings h.ids,
    List.mem_cons_self, ?_, ?_, h.increasing, h.below, fun id hid => h.complete id hid.tail,
    fun heof id hid => h.all heof id hid.tail⟩
  · -- only the reader itself gives its hold back
    intro a ha
    obtain ⟨tags, hlookup, hmem⟩ := h.held a ha
    exact ⟨tags, hframe.readers.trans hlookup, hmem⟩
  · -- so that nothing is collected while the row is filled
    intro a ha
    obtain ⟨tags, hlookup, -⟩ := h.held a ha
    obtain ⟨tag, hget, hle, hbelow⟩ := h.found a ha
    refine ⟨tag, TagStore.get_of_effect heffect (by rw [hlookup]; simp) hget, hle, ?_⟩
    exact fun id hid => hbelow id hid.tail

/-- Where the next call looks after this one. -/
theorem index_after (found : Option Nat) {s' : TagScan} (hstarted : s'.started = true)
    (hcursor : s'.cursor = s.cursor.after (s.call access) found) :
    s'.index access = found.elim (s.index access) (· + 1) := by
  unfold index call
  rw [hcursor, hstarted]
  cases access with
  | rnd => rfl
  | index => cases hs : s.started <;> simp [call, hs, TagCursor.index, TagCursor.after]

/-- A call finds nothing. -/
theorem inv_at_end (h : Inv reader access visited s) (hidle : s.fetching = none)
    (hnone : s.store.tag.pinba_tag_get_after s.store.settings (s.index access) false = none) :
    Inv reader access (s.at_end reader access :: visited) (s.at_end reader access) := by
  have hindex : (s.at_end reader access).index access = s.index access :=
    index_after none rfl rfl
  -- a tag at or above the cursor would have been found
  have hlast : ∀ id, Always visited id → id ∈ s.rows := by
    intro id hid
    apply h.complete id hid
    by_contra hge
    exact hid s h.current
      (TagRegistry.get_after_none h.store.consistent h.ids hnone id (by omega))
  have hlocked : (s.store.step (.lock reader)).Inv := TagStore.inv_step h.store trivial
  refine ⟨TagStore.inv_unlock hlocked, h.ids, List.mem_cons_self, ?_, ?_, h.increasing, ?_,
    fun id hid _ => hlast id hid.tail, fun _ id hid => hlast id hid.tail⟩
  · intro a ha
    rw [show s.fetching = some a from ha] at hidle
    cases hidle
  · intro a ha
    rw [show s.fetching = some a from ha] at hidle
    cases hidle
  · rw [hindex]
    exact h.below

/-- A call finds a descriptor. -/
theorem inv_borrowed (h : Inv reader access visited s)
    (hsome : s.store.tag.pinba_tag_get_after s.store.settings (s.index access) false = some a) :
    Inv reader access (s.borrowed reader a :: visited) (s.borrowed reader a) := by
  obtain ⟨tag, hget, hle, htable, hgap⟩ := TagRegistry.get_after_some h.store.consistent hsome
  have hlocked : (s.store.step (.lock reader)).Inv := TagStore.inv_step h.store trivial
  have hlookup : (s.store.step (.lock reader)).readers.lookup reader = some [] :=
    AList.lookup_insert _
  refine ⟨TagStore.inv_look_up hlocked ⟨by rw [hlookup]; simp, .inr (.inl ⟨tag.id, htable⟩)⟩, h.ids,
    List.mem_cons_self, ?_, ?_, h.increasing, h.below, fun id hid => h.complete id hid.tail,
    fun heof id hid => h.all heof id hid.tail⟩
  · intro b hb
    obtain rfl : a = b := Option.some.inj hb
    exact ⟨_, AList.lookup_insert _, List.mem_cons_self⟩
  · intro b hb
    obtain rfl : a = b := Option.some.inj hb
    refine ⟨tag, hget, hle, ?_⟩
    intro id hid hlt
    -- no tag between the cursor and this one existed all the time
    apply h.complete id hid.tail
    by_contra hge
    exact hid.tail s h.current (hgap id (by omega) hlt)

/-- A call returns the row of the descriptor it has found. -/
theorem inv_returned {tag : TagDescriptor} (h : Inv reader access visited s)
    (ha : s.fetching = some a) (hget : s.store.tag.heap.get a = some tag) :
    Inv reader access (s.returned reader table access a tag :: visited)
      (s.returned reader table access a tag) := by
  obtain ⟨tag', hget', hle, hbelow⟩ := h.found a ha
  obtain rfl : tag = tag' := Option.some.inj (hget.symm.trans hget')
  have hindex : (s.returned reader table access a tag).index access = tag.id + 1 :=
    index_after (some tag.id) rfl rfl
  have hpinned : (s.store.pin_tag_cursor table a).Inv :=
    TagStore.inv_pin_tag_cursor h.store ⟨tag, hget⟩
  have hids := TagStore.gapless_of_effect (TagStore.effect_pin_tag_cursor table a)
    (TagStore.frame_pin_tag_cursor reader table a).settings h.ids
  -- the tags below the new cursor are those below the old one and this one
  have hcomplete : ∀ id, Always visited id → id < tag.id + 1 → id ∈ tag.id :: s.rows := by
    intro id hid hlt
    rcases Nat.lt_succ_iff_lt_or_eq.mp hlt with hlt | rfl
    · exact List.mem_cons_of_mem _ (hbelow id hid hlt)
    · exact List.mem_cons_self
  refine ⟨TagStore.inv_unlock hpinned, hids, List.mem_cons_self, ?_, ?_, ?_, ?_, ?_, ?_⟩
  · intro b hb
    cases hb
  · intro b hb
    cases hb
  · refine List.pairwise_cons.mpr ⟨?_, h.increasing⟩
    intro id hid
    have := h.below id hid
    omega
  · rw [hindex]
    intro id hid
    rcases List.mem_cons.mp hid with rfl | hold
    · omega
    · have := h.below id hold
      omega
  · rw [hindex]
    exact fun id hid => hcomplete id hid.tail
  · exact fun heof id hid => List.mem_cons_of_mem _ (h.all heof id hid.tail)

theorem inv_step (h : Inv reader access visited s) (hstep : Step reader table access s s') :
    Inv reader access (s' :: visited) s' := by
  cases hstep with
  | other e henabled hforeign => exact inv_other h henabled hforeign
  | fetch hidle _ =>
    unfold fetch
    split
    · next hnone => exact inv_at_end h hidle hnone
    · next a hsome => exact inv_borrowed h hsome
  | fill a hfound =>
    obtain ⟨tag, hget, -⟩ := h.found a hfound
    unfold fill
    rw [hget]
    exact inv_returned h hfound hget

theorem inv_run (h : Inv reader access [start] start) (hrun : Run reader table access start visited s) :
    Inv reader access visited s := by
  induction hrun with
  | start => exact h
  | step _ hstep ih => exact inv_step ih hstep

/-! ## Section 5: Whole scans -/

/-- In every state of a scan the ids of the rows so far increase, and the descriptor
    that a row is filled from is registered. At the end of the scan every tag that
    existed all the time has been returned once. -/
theorem tag_scan_exact {settings : TagSettings} {store : TagStore} {ival : Nat}
    (hstore : TagStore.Reachable settings store)
    (hrun : Run reader table access (begin_ access store ival) visited s) :
    s.rows.reverse.Pairwise (· < ·) ∧
    (s.eof = true → ∀ id, Always visited id → s.rows.count id = 1) ∧
    (∀ a, s.fetching = some a → ∃ tag, s.store.tag.heap.get a = some tag ∧
      s.store.tag.table.lookup tag.id = some a ∧
      s.store.tag.name_index.lookup tag.name = some a) := by
  have hinv := inv_run (inv_begin hstore) hrun
  refine ⟨List.pairwise_reverse.mpr hinv.increasing, ?_, ?_⟩
  · intro heof id hid
    have hnodup : s.rows.Nodup := hinv.increasing.imp fun hgt => Nat.ne_of_gt hgt
    exact List.count_eq_one_of_mem hnodup (hinv.all heof id hid)
  · intro a ha
    obtain ⟨tag, hget, -⟩ := hinv.found a ha
    obtain ⟨hindex, htable⟩ := hinv.store.consistent.complete a tag hget
    exact ⟨tag, hget, htable, hindex⟩

/-- A registry with one tag. -/
def one_tag_store : TagStore :=
  [TagStore.Event.word (.intern_read (.staging 0 0) Interning.letter ⟨0, 0⟩),
    .word (.intern_write ⟨.staging 0 0, Interning.letter, ⟨0, 0⟩⟩ (some 1)),
    .preflight 0 0 0 ⟨some 7, true, true, true⟩].foldl TagStore.step (.init ⟨2, true⟩)

theorem one_tag_store_reachable : TagStore.Reachable ⟨2, true⟩ one_tag_store := by
  have hread : TagStore.Reachable ⟨2, true⟩ ((TagStore.init ⟨2, true⟩).step
      (.word (.intern_read (.staging 0 0) Interning.letter ⟨0, 0⟩))) :=
    .step _ .init ⟨⟨List.not_mem_nil, trivial⟩, fun _ h => h.elim⟩
  have hwrite := TagStore.Reachable.step
    (.word (.intern_write ⟨.staging 0 0, Interning.letter, ⟨0, 0⟩⟩ (some 1))) hread
    ⟨⟨List.mem_cons_self, fun p _ => rfl⟩, fun _ h => h.elim⟩
  exact TagStore.Reachable.step (.preflight 0 0 0 ⟨some 7, true, true, true⟩) hwrite fun a _ => rfl

/-- The tag is read by `index_first`, a collection follows, and `index_next` finds
    the end. -/
theorem tag_scan_exact_one_tag :
    ∃ visited s, Run 0 0 .index (begin_ .index one_tag_store 5) visited s ∧
      s.eof = true ∧ Always visited 0 ∧ s.rows.count 0 = 1 := by
  let s₁ := (begin_ .index one_tag_store 5).fetch 0 .index
  let s₂ := s₁.fill 0 0 .index 7
  let s₃ := { s₂ with store := s₂.store.step (.collect true) }
  have hrun : Run 0 0 .index (begin_ .index one_tag_store 5)
      [s₃.fetch 0 .index, s₃, s₂, s₁, begin_ .index one_tag_store 5] (s₃.fetch 0 .index) :=
    .step (.step (.step (.step .start (.fetch rfl rfl)) (.fill 7 rfl))
      (.other (.collect true) (fun _ => rfl) id)) (.fetch rfl rfl)
  have halways : Always
      [s₃.fetch 0 .index, s₃, s₂, s₁, begin_ .index one_tag_store 5] 0 := by
    intro v hv
    fin_cases hv <;> exact ne_of_beq_false rfl
  exact ⟨_, _, hrun, rfl, halways,
    (tag_scan_exact one_tag_store_reachable hrun).2.1 rfl 0 halways⟩

end TagScan

end PinbaEngine
