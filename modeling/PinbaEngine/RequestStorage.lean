import PinbaEngine.Dictionary
import PinbaEngine.Lib.Checked
import PinbaEngine.RequestValidation
import PinbaEngine.TimerPool

/-! # Storing an accepted request

    After `pinba_validate_request` nobody checks the arrays of a request again.
    Four loops index them: the preflight of the tag names and the copy of the
    request tags in `request_to_record`, the count of the timers to reserve
    (`pinba_stored_timer_count`), and `_add_timers`, which walks over the flattened
    tags of all timers with an offset of its own.

    Every subscript is a checked access here, so that a subscript out of range
    leaves the function without a result. What the functions call (the dictionary,
    the tag registry, the allocator) is a parameter: it may fail at every call.
-/

namespace PinbaEngine

open Circular Checked

/-! ## Section 1: Decoded requests -/

def PINBA_TEMP_DICTIONARY_SIZE : Nat := 1024
def PINBA_MIN_TAG_VALUES_CNT_MAGIC_NUMBER : Nat := 8

/-- `Pinba__Request` as `convert_request` fills it. -/
structure DecodedRequest extends Request where
  /-- What `float_to_timeval` makes of the sanitized values. -/
  timer_value : List Duration
  timer_ru_utime : List Duration
  timer_ru_stime : List Duration
  dictionary : List Text
  n_timer_value_eq : n_timer_value = timer_value.length
  n_dictionary_eq : n_dictionary = dictionary.length
  /-- `dictionary_size()` is an `int`. -/
  dictionary_size : dictionary.length ≤ INT_MAX

/-- A value that is stored in an `int`. -/
def to_int (n : Nat) : Int := Int.bmod n (2 ^ 32)

/-- What the functions call. A failed call has no result; every call may change
    the state `σ`. -/
structure Services (σ : Type) where
  /-- Whether the next allocation succeeds. -/
  realloc : σ → Bool × σ
  /-- `pinba_dictionary_intern_rdlock`. -/
  intern : σ → Text → Option Word × σ
  /-- `pinba_map_get(D->tag.name_index, name)`: the id of the tag. -/
  find_tag : σ → Word → Option Nat
  /-- `pinba_tag_lookup_or_create_locked`. -/
  lookup_or_create : σ → Word → Option Nat × σ

section program
variable {σ : Type} (services : Services σ) (request : DecodedRequest)

/-- `realloc` if it is needed; `throw` is the early return when it fails. -/
def grow_if (needed : Bool) (s : σ) : Checked Unit σ :=
  if needed then
    let r := services.realloc s
    if r.1 then pure r.2 else throw ()
  else pure s

/-! ## Section 2: `request_to_record` -/

/-- What `request_to_record` builds. -/
structure Staging (σ : Type) where
  state : σ
  /-- `record_ex->words`, `words_cnt` of them. -/
  words : List Word
  /-- `tag_names` and `tag_values`, `tags_cnt` of them. -/
  tags : List (Word × Word)

/-- The room that a staging record has already. -/
structure StagingRoom where
  words_alloc : Nat
  tags_alloc_cnt : Nat

/-- One turn of the loop over the dictionary. -/
def intern_word (words_alloc : Nat) (s : Staging σ) (i : Nat) : Checked Unit (Staging σ) := do
  let str ← read request.dictionary i
  inBounds i words_alloc
  match services.intern s.state str with
  | (none, _) => throw ()
  | (some word, state) => return { s with state, words := s.words ++ [word] }

/-- One tag of the preflight. -/
def preflight_tag (words : List Word) (offset : Nat) (state : σ) (n : Nat) : Checked Unit σ := do
  let tag_name ← read request.timer_tag_name (offset + n)
  let word ← read words tag_name
  match services.lookup_or_create state word with
  | (none, _) => throw ()
  | (some _, state) => return state

/-- One timer of the preflight; the state is `offset` too. -/
def preflight_timer (words : List Word) (s : σ × Nat) (timer : Nat) : Checked Unit (σ × Nat) := do
  let count ← read request.timer_tag_count timer
  let hits ← read request.timer_hit_count timer
  let tags : Checked Unit σ :=
    if hits ≠ 0 ∧ count ≠ 0 then
      (List.range count).foldlM (preflight_tag services request words s.2) s.1
    else pure s.1
  let state ← tags
  return (state, s.2 + count)

/-- One turn of the loop over the request tags. -/
def copy_tag (tags_alloc_cnt : Nat) (s : Staging σ) (i : Nat) : Checked Unit (Staging σ) := do
  let tag_name ← read request.tag_name i
  if request.n_dictionary ≤ tag_name then throw ()
  else
    let tag_value ← read request.tag_value i
    if request.n_dictionary ≤ tag_value then throw ()
    else
      inBounds i tags_alloc_cnt
      let name ← read s.words tag_name
      let value ← read s.words tag_value
      return { s with tags := s.tags ++ [(name, value)] }

/-- The preflight over all timers. -/
def preflight_tags (s : Staging σ) : Checked Unit (Staging σ) := do
  let r ← (List.range request.timer_hit_count.length).foldlM
    (preflight_timer services request s.words) (s.state, 0)
  return { s with state := r.1 }

/-- The part under `dict_size > 0`. `preflight` is `tag_gc_enabled || tag_names_limit`. -/
def intern_dictionary (preflight : Bool) (words_alloc : Nat) (state : σ) :
    Checked Unit (Staging σ) := do
  let dict_size := request.n_dictionary
  let state ← grow_if services (words_alloc < dict_size) state
  let s ← (List.range dict_size).foldlM
    (intern_word services request (max words_alloc dict_size)) ⟨state, [], []⟩
  if preflight then preflight_tags services request s else return s

/-- The part under `request->n_tag_name > 0`: the names and the values are
    enlarged one after the other. -/
def copy_tags (tags_alloc_cnt : Nat) (s : Staging σ) : Checked Unit (Staging σ) := do
  let n_tag_name := request.tag_name.length
  let state ← grow_if services (tags_alloc_cnt < n_tag_name) s.state
  let state ← grow_if services (tags_alloc_cnt < n_tag_name) state
  (List.range n_tag_name).foldlM (copy_tag request (max tags_alloc_cnt n_tag_name)) { s with state }

/-- `request_to_record`, up to the scalar fields. -/
def request_to_record (preflight : Bool) (room : StagingRoom) (state : σ) :
    Checked Unit (Staging σ) := do
  let dictionary : Checked Unit (Staging σ) :=
    if 0 < request.n_dictionary then
      intern_dictionary services request preflight room.words_alloc state
    else pure ⟨state, [], []⟩
  let s ← dictionary
  if 0 < request.tag_name.length then copy_tags services request room.tags_alloc_cnt s
  else return s

/-! ## Section 3: Counting and storing timers -/

/-- `pinba_stored_timer_count`, on the arrays. -/
def stored_timer_count : Checked Empty Nat :=
  (List.range request.timer_hit_count.length).foldlM
    (fun count i => do
      let hits ← read request.timer_hit_count i
      if hits = 0 then return count
      else
        let tags ← read request.timer_tag_count i
        return if tags = 0 then count else count + 1) 0

/-- The variables of `_add_timers`. -/
structure AddTimers (σ : Type) where
  state : σ
  /-- `record->timers_cnt`, an `unsigned short`. -/
  timers_cnt : Nat
  tt : Nat
  timertag_cnt : Nat
  slots : Nat → PoolTimer
  /-- `tag_num_allocated` of the slots; both tag arrays have so many entries. -/
  allocated : Nat → Nat
  /-- The cache of the tags by dictionary index, if there is memory for one. -/
  temp_tags : Option (List (Option Nat))
  /-- The values of `tag_start` so far. -/
  offsets : List Nat

/-- The size of the cache: a static array, or one that has to be allocated. -/
def allocate_temp_tags (state : σ) : Option Nat × σ :=
  if PINBA_TEMP_DICTIONARY_SIZE < request.n_dictionary then
    let r := services.realloc state
    (if r.1 then some request.n_dictionary else none, r.2)
  else (some PINBA_TEMP_DICTIONARY_SIZE, state)

/-- The cache with the tags that exist already. -/
def fill_temp_tags (words : List Word) (state : σ) :
    Checked Empty (σ × Option (List (Option Nat))) :=
  match allocate_temp_tags services request state with
  | (none, state) => return (state, none)
  | (some size, state) => do
    let temp_tags ← (List.range request.n_dictionary).foldlM
      (fun temp_tags n => do
        let word ← read words n
        write temp_tags n (services.find_tag state word)) (List.replicate size none)
    return (state, some temp_tags)

/-- What the loop over the tags of a timer changes. -/
structure AddTags (σ : Type) where
  state : σ
  temp_tags : Option (List (Option Nat))
  timertag_cnt : Nat
  /-- `tag_ids` and `tag_values`, `tag_num` of them. -/
  tags : List (Int × Word)

/-- The tag for a name: from the cache or the index, else created. -/
def tag_for_name (s : AddTags σ) (tag_name : Nat) (word : Word) :
    Checked Empty (Option Nat × AddTags σ) := do
  let find : Checked Empty (Option Nat) :=
    match s.temp_tags with
    | some temp_tags => read temp_tags tag_name
    | none => pure (services.find_tag s.state word)
  match ← find with
  | some tag => return (some tag, s)
  | none =>
    match services.lookup_or_create s.state word with
    | (none, state) => return (none, { s with state })
    | (some tag, state) =>
      match s.temp_tags with
      | some temp_tags =>
        let temp_tags ← write temp_tags tag_name (some tag)
        return (some tag, { s with state, temp_tags := some temp_tags })
      | none => return (some tag, { s with state })

/-- One turn of the loop over the tags of a timer. -/
def add_tag (words : List Word) (allocated tag_start : Nat) (s : AddTags σ) (j : Nat) :
    Checked Empty (AddTags σ) := do
  let dict_size := to_int request.n_dictionary
  let tag_value ← to_int <$> read request.timer_tag_value (tag_start + j)
  let tag_name ← to_int <$> read request.timer_tag_name (tag_start + j)
  -- `timer->tag_values[timer->tag_num] = nullptr`
  inBounds s.tags.length allocated
  if tag_value < dict_size ∧ tag_name < dict_size ∧ 0 ≤ tag_value ∧ 0 ≤ tag_name then
    let value ← read words tag_value.toNat
    let name ← read words tag_name.toNat
    let (tag, s) ← tag_for_name services s tag_name.toNat name
    match tag with
    | none => return s
    | some tag =>
      return { s with tags := s.tags ++ [((tag : Int), value)], timertag_cnt := s.timertag_cnt + 1 }
  else return s

/-- Enlarge the tag arrays of a slot: both must grow for the new size to count. -/
def allocate_tags (allocated timer_tag_cnt : Nat) (state : σ) : Nat × σ :=
  if allocated < timer_tag_cnt then
    let ids := services.realloc state
    let values := services.realloc ids.2
    (if ids.1 && values.1 then max timer_tag_cnt PINBA_MIN_TAG_VALUES_CNT_MAGIC_NUMBER
      else allocated, values.2)
  else (allocated, state)

/-- `timer_ru_utime` and `timer_ru_stime` may be shorter than the other arrays. -/
def read_optional (xs : List Duration) (i : Nat) : Checked Empty Duration :=
  if i < xs.length then read xs i else pure default

/-- One turn of the loop over the timers. The timer goes to its slot when it is
    complete. -/
def add_timer (words : List Word) (size request_id timers_start : Nat) (s : AddTimers σ) (i : Nat) :
    Checked Empty (AddTimers σ) := do
  let timer_value ← read request.timer_value i
  let timer_tag_cnt ← read request.timer_tag_count i
  let timer_hit_cnt ← read request.timer_hit_count i
  let tag_start := s.tt
  let s := { s with tt := s.tt + timer_tag_cnt, offsets := s.offsets ++ [tag_start] }
  -- a skipped timer moves the offset all the same
  if timer_hit_cnt = 0 ∨ timer_tag_cnt = 0 then return s
  else
    let id := advance size timers_start s.timers_cnt
    let ru_stime ← read_optional request.timer_ru_stime i
    let ru_utime ← read_optional request.timer_ru_utime i
    let (allocated, state) := allocate_tags services (s.allocated id) timer_tag_cnt s.state
    let none_added : AddTags σ := ⟨state, s.temp_tags, s.timertag_cnt, []⟩
    let tags : Checked Empty (AddTags σ) :=
      -- without room for its tags the timer is stored without them
      if allocated < timer_tag_cnt then pure none_added
      else
        (List.range timer_tag_cnt).foldlM (add_tag services request words allocated tag_start)
          none_added
    let added ← tags
    return { s with
      state := added.state
      temp_tags := added.temp_tags
      timertag_cnt := added.timertag_cnt
      allocated := Function.update s.allocated id allocated
      timers_cnt := (s.timers_cnt + 1) % (USHRT_MAX + 1)
      slots := Function.update s.slots id
        ⟨request_id, timer_value, ru_utime, ru_stime, (to_int timer_hit_cnt).toNat, added.tags⟩ }

/-- `_add_timers` for a record whose timers start at `timers_start`; `words` are
    the words that the record has taken over. -/
def _add_timers (words : List Word) (size request_id timers_start : Nat) (state : σ)
    (slots : Nat → PoolTimer) (allocated : Nat → Nat) : Checked Empty (AddTimers σ) := do
  let (state, temp_tags) ← fill_temp_tags services request words state
  (List.range request.timer_hit_count.length).foldlM
    (add_timer services request words size request_id timers_start)
    ⟨state, 0, 0, 0, slots, allocated, temp_tags, []⟩

/-! ## Section 4: Offsets and indices of an accepted request -/

namespace DecodedRequest

variable {request}

/-- Where the tags of timer `i` start. -/
def offset (request : DecodedRequest) (i : Nat) : Nat := (request.timer_tag_count.take i).sum

theorem offset_succ {i : Nat} (hi : i < request.timer_tag_count.length) :
    request.offset (i + 1) = request.offset i + request.timer_tag_count[i] :=
  List.sum_take_succ _ i hi

variable (h : request.WellFormed)
include h

theorem offset_length :
    request.offset request.timer_hit_count.length = request.timer_tag_name.length := by
  rw [offset, ← h.counts, List.take_length, h.flattened.1]

/-- The tags of a timer are inside of the flattened arrays. -/
theorem offset_add_lt {i j : Nat} (hi : i < request.timer_tag_count.length)
    (hj : j < request.timer_tag_count[i]) :
    request.offset i + j < request.timer_tag_name.length ∧
      request.offset i + j < request.timer_tag_value.length := by
  have hsplit := List.sum_take_add_sum_drop request.timer_tag_count (i + 1)
  have hsucc := offset_succ hi
  rw [offset] at hsucc
  rw [h.flattened.1, h.flattened.2]
  omega

theorem timer_tag_name_lt {i : Nat} (hi : i < request.timer_tag_name.length) :
    request.timer_tag_name[i] < request.n_dictionary :=
  h.indices _ (by simp)

theorem tag_name_lt {i : Nat} (hi : i < request.tag_name.length) :
    request.tag_name[i] < request.n_dictionary :=
  h.indices _ (by simp)

theorem tag_value_lt {i : Nat} (hi : i < request.tag_value.length) :
    request.tag_value[i] < request.n_dictionary :=
  h.indices _ (by simp)

end DecodedRequest

open DecodedRequest

/-- Small values fit an `int`. -/
theorem to_int_of_le {n : Nat} (h : n ≤ INT_MAX) : to_int n = n := by
  unfold INT_MAX at h
  unfold to_int
  rw [Int.bmod_def]
  split_ifs <;> omega

/-! ## Section 5: `request_to_record` stays inside of the arrays -/

section staging
variable {services} {request} {s : Staging σ} {words : List Word}

theorem safe_grow_if (needed : Bool) (state : σ) :
    Safe (grow_if services needed state) fun _ => True := by
  unfold grow_if
  refine safe_ite (fun _ => ?_) fun _ => safe_pure trivial
  exact safe_ite (fun _ => safe_pure trivial) fun _ => safe_throw

theorem safe_intern_word {words_alloc i : Nat} (hi : i < request.dictionary.length)
    (halloc : i < words_alloc) (hwords : s.words.length = i ∧ s.tags = []) :
    Safe (intern_word services request words_alloc s i) fun s =>
      s.words.length = i + 1 ∧ s.tags = [] := by
  unfold intern_word
  refine safe_read hi (safe_inBounds halloc ?_)
  split
  · exact safe_throw
  · exact safe_pure ⟨by rw [List.length_append, hwords.1]; rfl, hwords.2⟩

variable (h : request.WellFormed)
include h

theorem safe_preflight_timer {k : Nat} {t : σ × Nat} (hk : k < request.timer_hit_count.length)
    (hwords : words.length = request.n_dictionary) (hoffset : t.2 = request.offset k) :
    Safe (preflight_timer services request words t k) fun t => t.2 = request.offset (k + 1) := by
  have hcnt : k < request.timer_tag_count.length := by rw [h.counts]; exact hk
  have hloop : Safe ((List.range request.timer_tag_count[k]).foldlM
      (preflight_tag services request words t.2) t.1) fun _ => True := by
    refine safe_foldlM_range (fun _ _ => True) (fun n hn state _ => ?_) trivial
    have hname := (offset_add_lt h hcnt hn).1
    rw [← hoffset] at hname
    unfold preflight_tag
    refine safe_read hname (safe_read ?_ ?_)
    · rw [hwords]
      exact timer_tag_name_lt h hname
    · split
      · exact safe_throw
      · exact safe_pure trivial
  unfold preflight_timer
  refine safe_read hcnt (safe_read hk ?_)
  refine safe_seq (safe_ite (fun _ => hloop) fun _ => safe_pure trivial) fun state => ?_
  exact safe_pure (by rw [offset_succ hcnt, hoffset])

theorem safe_preflight_tags (hwords : s.words.length = request.n_dictionary) (htags : s.tags = []) :
    Safe (preflight_tags services request s) fun s =>
      s.words.length = request.n_dictionary ∧ s.tags = [] := by
  unfold preflight_tags
  refine safe_bind (safe_foldlM_range (fun k t => t.2 = request.offset k)
    (fun k hk t ht => safe_preflight_timer h hk hwords ht) rfl) fun r _ => ?_
  exact safe_pure ⟨hwords, htags⟩

theorem safe_intern_dictionary (preflight : Bool) (words_alloc : Nat) (state : σ) :
    Safe (intern_dictionary services request preflight words_alloc state) fun s =>
      s.words.length = request.n_dictionary ∧ s.tags = [] := by
  have hdict := request.n_dictionary_eq
  unfold intern_dictionary
  refine safe_seq (safe_grow_if _ _) fun state => ?_
  refine safe_bind (safe_foldlM_range (fun k s => s.words.length = k ∧ s.tags = [])
    (fun k hk s hs => safe_intern_word (by omega) (by omega) hs) ⟨rfl, rfl⟩) fun s hs => ?_
  exact safe_ite (fun _ => safe_preflight_tags h hs.1 hs.2) fun _ => safe_pure hs

theorem safe_copy_tag {tags_alloc_cnt i : Nat} (hi : i < request.tag_name.length)
    (halloc : i < tags_alloc_cnt)
    (hs : s.words.length = request.n_dictionary ∧ s.tags.length = i) :
    Safe (copy_tag request tags_alloc_cnt s i) fun s =>
      s.words.length = request.n_dictionary ∧ s.tags.length = i + 1 := by
  have hi' : i < request.tag_value.length := by rw [h.tags.1]; exact hi
  have hname := tag_name_lt h hi
  have hvalue := tag_value_lt h hi'
  rw [← hs.1] at hname hvalue
  unfold copy_tag
  refine safe_read hi (safe_ite (fun _ => safe_throw) fun _ => ?_)
  refine safe_read hi' (safe_ite (fun _ => safe_throw) fun _ => ?_)
  refine safe_inBounds halloc (safe_read hname (safe_read hvalue ?_))
  exact safe_pure ⟨hs.1, by rw [List.length_append, hs.2]; rfl⟩

/-- A staged record has a word for every dictionary entry and all its tags. -/
theorem safe_request_to_record (preflight : Bool) (room : StagingRoom) (state : σ) :
    Safe (request_to_record services request preflight room state) fun s =>
      s.words.length = request.n_dictionary ∧ s.tags.length = request.tag_name.length := by
  have hwords : Safe (if 0 < request.n_dictionary then
      intern_dictionary services request preflight room.words_alloc state
      else pure ⟨state, [], []⟩) fun s => s.words.length = request.n_dictionary ∧ s.tags = [] :=
    safe_ite (fun _ => safe_intern_dictionary h _ _ _) fun hempty => safe_pure ⟨by simp; omega, rfl⟩
  unfold request_to_record
  refine safe_bind hwords ?_
  rintro s ⟨hwords, htags⟩
  refine safe_ite (fun _ => ?_) fun hnone => safe_pure ⟨hwords, by rw [htags]; simp; omega⟩
  unfold copy_tags
  refine safe_seq (safe_grow_if _ _) fun state => ?_
  refine safe_seq (safe_grow_if _ _) fun state => ?_
  exact safe_foldlM_range (fun k (s : Staging σ) =>
      s.words.length = request.n_dictionary ∧ s.tags.length = k)
    (fun k hk s hs => safe_copy_tag h hk (by omega) hs) ⟨hwords, by rw [htags]; rfl⟩

end staging

/-! ## Section 6: The timers that are counted are the timers that are stored -/

namespace DecodedRequest

/-- A timer that is stored, as its hit count and its number of tags. -/
def stored (e : Nat × Nat) : Bool := e.1 ≠ 0 && e.2 ≠ 0

/-- The timers as pairs of hit count and number of tags. -/
def timer_counts (request : DecodedRequest) : List (Nat × Nat) :=
  request.timer_hit_count.zip request.timer_tag_count

variable {request} (h : request.WellFormed)
include h

theorem length_timer_counts :
    request.timer_counts.length = request.timer_hit_count.length := by
  rw [timer_counts, List.length_zip, h.counts, Nat.min_self]

theorem timer_counts_take_succ {k : Nat} (hk : k < request.timer_hit_count.length)
    (hcnt : k < request.timer_tag_count.length) :
    request.timer_counts.take (k + 1) =
      request.timer_counts.take k ++ [(request.timer_hit_count[k], request.timer_tag_count[k])] := by
  have hlt : k < request.timer_counts.length := by rw [length_timer_counts h]; exact hk
  rw [List.take_succ_eq_append_getElem hlt]
  congr 2
  exact List.getElem_zip

end DecodedRequest

section counting
variable {request} (h : request.WellFormed)
include h

theorem safe_stored_timer_count :
    Safe (stored_timer_count request) fun count => count = request.timer_counts.countP stored := by
  have hall : request.timer_counts.take request.timer_hit_count.length = request.timer_counts := by
    rw [← length_timer_counts h, List.take_length]
  rw [← hall]
  unfold stored_timer_count
  refine safe_foldlM_range (fun k count => count = (request.timer_counts.take k).countP stored) ?_ rfl
  rintro k hk count rfl
  have hcnt : k < request.timer_tag_count.length := by rw [h.counts]; exact hk
  rw [timer_counts_take_succ h hk hcnt, List.countP_append, List.countP_singleton]
  refine safe_read hk (safe_ite (fun hnone => safe_pure ?_) fun hhits => safe_read hcnt ?_)
  · simp [stored, hnone]
  · refine safe_pure ?_
    by_cases htags : request.timer_tag_count[k] = 0
    · simp [stored, htags]
    · simp [stored, htags, hhits]

end counting

/-- One more timer. -/
theorem add_timers_append {size request_id timers_start : Nat} (timers : List RequestTimer)
    (t : RequestTimer) (timers_cnt : Nat) (data : Nat → PoolTimer) :
    add_timers size request_id timers_start (timers ++ [t]) timers_cnt data =
      let r := add_timers size request_id timers_start timers timers_cnt data
      if t.skipped then r
      else (r.1 + 1, Function.update r.2 (advance size timers_start r.1) ⟨request_id, t.record⟩) := by
  induction timers generalizing timers_cnt data with
  | nil => cases hskip : t.skipped <;> simp [add_timers, hskip]
  | cons t' timers ih =>
    rw [List.cons_append, add_timers, add_timers]
    split
    · exact ih _ _
    · exact ih _ _

section storing
variable {services} {request} {words : List Word}

/-- The cache has an entry for every word. -/
def CacheFits (request : DecodedRequest) (temp_tags : Option (List (Option Nat))) : Prop :=
  ∀ cache ∈ temp_tags, request.n_dictionary ≤ cache.length

theorem le_allocate_temp_tags {state : σ} {size : Nat}
    (hsize : (allocate_temp_tags services request state).1 = some size) :
    request.n_dictionary ≤ size := by
  unfold allocate_temp_tags at hsize
  split at hsize
  · simp only at hsize
    split at hsize
    · cases hsize
      exact le_refl _
    · cases hsize
  · next hstatic =>
    cases hsize
    exact Nat.le_of_not_lt hstatic

theorem safe_fill_temp_tags (hwords : words.length = request.n_dictionary) (state : σ) :
    Safe (fill_temp_tags services request words state) fun r => CacheFits request r.2 := by
  unfold fill_temp_tags
  split
  · exact safe_pure fun cache hcache => by cases hcache
  · next size state' hroom =>
    have hsize := le_allocate_temp_tags (congrArg Prod.fst hroom)
    refine safe_bind (safe_foldlM_range (fun _ cache => cache.length = size) ?_ (by simp)) ?_
    · intro n hn cache hcache
      refine safe_read (by omega) ?_
      rw [← bind_pure (write _ _ _)]
      exact safe_write (by omega) (safe_pure (by rw [List.length_set, hcache]))
    · intro cache hcache
      refine safe_pure ?_
      rintro _ ⟨⟩
      exact hsize.trans hcache.ge

/-- Looking for a tag by a name of the dictionary. -/
theorem safe_tag_for_name {s : AddTags σ} {tag_name : Nat} {word : Word}
    (hname : tag_name < request.n_dictionary) (hcache : CacheFits request s.temp_tags) :
    Safe (tag_for_name services s tag_name word) fun r =>
      CacheFits request r.2.temp_tags ∧ r.2.tags = s.tags := by
  unfold tag_for_name
  -- the cache is read first, and written when a tag was found
  refine safe_seq ?_ fun cached => ?_
  · split
    · next cache hsome =>
      rw [← bind_pure (read _ _)]
      exact safe_read (hname.trans_le (hcache cache hsome)) (safe_pure trivial)
    · exact safe_pure trivial
  split
  · exact safe_pure ⟨hcache, rfl⟩
  split
  · exact safe_pure ⟨hcache, rfl⟩
  split
  · next cache hsome =>
    have hsize := hcache cache hsome
    refine safe_write (by omega) (safe_pure ⟨?_, rfl⟩)
    rintro _ ⟨⟩
    rwa [List.length_set]
  · exact safe_pure ⟨hcache, rfl⟩

/-- One more tag, or none. -/
theorem safe_add_tag (h : request.WellFormed) {s : AddTags σ} {k j allocated : Nat}
    (hwords : words.length = request.n_dictionary) (hk : k < request.timer_tag_count.length)
    (hj : j < request.timer_tag_count[k]) (hroom : request.timer_tag_count[k] ≤ allocated)
    (hs : CacheFits request s.temp_tags ∧ s.tags.length ≤ j) :
    Safe (add_tag services request words allocated (request.offset k) s j) fun s =>
      CacheFits request s.temp_tags ∧ s.tags.length ≤ j + 1 := by
  obtain ⟨hname, hvalue⟩ := offset_add_lt h hk hj
  have hdict : to_int request.n_dictionary = request.n_dictionary :=
    to_int_of_le (request.n_dictionary_eq ▸ request.dictionary_size)
  unfold add_tag
  rw [hdict, map_eq_pure_bind, map_eq_pure_bind]
  simp only [bind_assoc, pure_bind]
  -- both subscripts are below the end of the timer, and so of the arrays
  refine safe_read hvalue (safe_read hname (safe_inBounds (by omega) (safe_ite ?_ ?_)))
  · rintro ⟨hvalue', hname', hvalue₀, hname₀⟩
    have hvalue := (Int.toNat_lt hvalue₀).mpr hvalue'
    have hname := (Int.toNat_lt hname₀).mpr hname'
    refine safe_read (hwords ▸ hvalue) (safe_read (hwords ▸ hname) ?_)
    refine safe_bind (safe_tag_for_name hname hs.1) ?_
    rintro ⟨tag, s'⟩ ⟨hcache, htags⟩
    simp only at htags
    split
    · exact safe_pure ⟨hcache, by rw [htags]; omega⟩
    · exact safe_pure ⟨hcache, by simp [htags, hs.2]⟩
  · exact fun _ => safe_pure ⟨hs.1, by omega⟩

theorem safe_read_optional (xs : List Duration) (i : Nat) :
    Safe (read_optional xs i) fun _ => True := by
  unfold read_optional
  refine safe_ite (fun hi => ?_) fun _ => safe_pure trivial
  rw [← bind_pure (read _ _)]
  exact safe_read hi (safe_pure trivial)

/-- After `k` turns the pool holds what `add_timers` makes of `k` timers with the
    counts of the request. -/
structure Stores (request : DecodedRequest) (size request_id timers_start : Nat)
    (slots : Nat → PoolTimer) (k : Nat) (s : AddTimers σ) : Prop where
  tt : s.tt = request.offset k
  offsets : s.offsets = (List.range k).map request.offset
  cache : CacheFits request s.temp_tags
  timers : ∃ timers : List RequestTimer,
    timers.map (fun t => (t.hit_count, t.tag_count)) = request.timer_counts.take k ∧
    s.timers_cnt = (add_timers size request_id timers_start timers 0 slots).1 ∧
    s.slots = (add_timers size request_id timers_start timers 0 slots).2

theorem safe_add_timer (h : request.WellFormed) {s : AddTimers σ}
    {size request_id timers_start k : Nat} {slots : Nat → PoolTimer}
    (hwords : words.length = request.n_dictionary) (hk : k < request.timer_hit_count.length)
    (hs : Stores request size request_id timers_start slots k s) :
    Safe (add_timer services request words size request_id timers_start s k)
      (Stores request size request_id timers_start slots (k + 1)) := by
  have hcnt : k < request.timer_tag_count.length := by rw [h.counts]; exact hk
  have hvalue : k < request.timer_value.length := by
    rw [← request.n_timer_value_eq, h.values]
    exact hk
  obtain ⟨timers, hcounts, hstored, hslots⟩ := hs.timers
  have htt : s.tt + request.timer_tag_count[k] = request.offset (k + 1) := by
    rw [hs.tt, offset_succ hcnt]
  have hoffsets : s.offsets ++ [s.tt] = (List.range (k + 1)).map request.offset := by
    rw [List.range_succ, List.map_append, hs.offsets, hs.tt]
    rfl
  have hnext := timer_counts_take_succ h hk hcnt
  unfold add_timer
  refine safe_read hvalue (safe_read hcnt (safe_read hk ?_))
  refine safe_ite (fun hskip => safe_pure ?_) fun hkeep => ?_
  · -- a skipped timer leaves pool and count as they are
    refine ⟨htt, hoffsets, hs.cache, timers ++ [⟨request.timer_hit_count[k],
      request.timer_tag_count[k], default, default, default, []⟩], ?_, ?_⟩
    · rw [List.map_append, hcounts, hnext]
      rfl
    · have hskipped : RequestTimer.skipped ⟨request.timer_hit_count[k], request.timer_tag_count[k],
          default, default, default, []⟩ = true := by
        simpa [RequestTimer.skipped] using hskip
      rw [add_timers_append]
      simp only [hskipped, if_true]
      exact ⟨hstored, hslots⟩
  refine safe_seq (safe_read_optional _ _) fun ru_stime => ?_
  refine safe_seq (safe_read_optional _ _) fun ru_utime => ?_
  generalize allocate_tags services (s.allocated (advance size timers_start s.timers_cnt))
    request.timer_tag_count[k] s.state = room
  obtain ⟨allocated, state⟩ := room
  have htags : Safe (if allocated < request.timer_tag_count[k] then
        pure (⟨state, s.temp_tags, s.timertag_cnt, []⟩ : AddTags σ)
      else (List.range request.timer_tag_count[k]).foldlM
        (add_tag services request words allocated s.tt) ⟨state, s.temp_tags, s.timertag_cnt, []⟩)
      fun added => CacheFits request added.temp_tags := by
    refine safe_ite (fun _ => safe_pure hs.cache) fun hroom => ?_
    rw [hs.tt]
    refine safe_mono (safe_foldlM_range (fun j (added : AddTags σ) =>
      CacheFits request added.temp_tags ∧ added.tags.length ≤ j)
      (fun j hj added hadded => safe_add_tag h hwords hcnt hj (Nat.le_of_not_lt hroom) hadded)
      ⟨hs.cache, le_refl _⟩) fun added hadded => hadded.1
  refine safe_bind htags fun added hadded => safe_pure ?_
  set t : RequestTimer := ⟨request.timer_hit_count[k], request.timer_tag_count[k],
    request.timer_value[k], ru_utime, ru_stime, added.tags⟩
  refine ⟨htt, hoffsets, hadded, timers ++ [t], ?_, ?_⟩
  · rw [List.map_append, hcounts, hnext]
    rfl
  · have hkept : t.skipped = false := by simpa [RequestTimer.skipped, t] using hkeep
    -- the count stays below the limit of its type
    have hlength : timers.length = k := by
      have hlen := congrArg List.length hcounts
      rw [List.length_map, List.length_take, length_timer_counts h] at hlen
      omega
    have hle : s.timers_cnt ≤ k := by
      rw [hstored, add_timers_count, ← hlength, Nat.zero_add]
      exact List.countP_le_length
    have hlimit := h.timers
    have hcount : (s.timers_cnt + 1) % (USHRT_MAX + 1) = s.timers_cnt + 1 :=
      Nat.mod_eq_of_lt (by omega)
    have hhits : (to_int request.timer_hit_count[k]).toNat = request.timer_hit_count[k] := by
      rw [to_int_of_le (h.hit_counts _ (List.getElem_mem hk))]
      exact Int.toNat_natCast _
    rw [add_timers_append]
    simp only [hkept, Bool.false_eq_true, if_false, hcount, hhits]
    rw [← hstored, ← hslots]
    exact ⟨rfl, rfl⟩

/-- `_add_timers` returns, and has stored the timers of the request. -/
theorem safe_add_timers (h : request.WellFormed) (hwords : words.length = request.n_dictionary)
    (size request_id timers_start : Nat) (state : σ) (slots : Nat → PoolTimer)
    (allocated : Nat → Nat) :
    Safe (_add_timers services request words size request_id timers_start state slots allocated)
      (Stores request size request_id timers_start slots request.timer_hit_count.length) := by
  unfold _add_timers
  refine safe_bind (safe_fill_temp_tags hwords state) ?_
  rintro ⟨state, temp_tags⟩ hcache
  exact safe_foldlM_range _ (fun k hk s hs => safe_add_timer h hwords hk hs)
    ⟨rfl, rfl, hcache, [], rfl, rfl, rfl⟩

end storing

/-! ## Section 7: Accepted requests -/

/-- The counts of the request fit the fields that they are stored in. -/
structure DecodedRequest.Fits (request : DecodedRequest) : Prop where
  hit_counts : ∀ hits ∈ request.timer_hit_count, to_int hits = hits
  tag_counts : ∀ tags ∈ request.timer_tag_count, tags ≤ USHRT_MAX
  timers : request.timer_hit_count.length ≤ USHRT_MAX

/-- `request_to_record` makes no bad access: it gives up, or it has a word for
    every dictionary entry and all the request tags. -/
def Staged (request : DecodedRequest) : Prop :=
  ∀ preflight room state, ∃ r, (request_to_record services request preflight room state).run = some r ∧
    ∀ s, r = .ok s → s.words.length = request.dictionary.length ∧
      s.tags.length = request.tag_name.length

/-- `_add_timers` makes no bad access and returns. It reads the tags of timer `i`
    from the sum of the counts before it on, ends at the end of the arrays, and
    stores as many timers as were counted. -/
def TimersStored (request : DecodedRequest) : Prop :=
  ∀ words : List Word, words.length = request.dictionary.length →
    ∀ size request_id timers_start state slots allocated, ∃ s count,
      (_add_timers services request words size request_id timers_start state slots allocated).run =
        some (.ok s) ∧
      (stored_timer_count request).run = some (.ok count) ∧
      s.timers_cnt = count ∧ count ≤ USHRT_MAX ∧
      s.offsets = (List.range request.timer_hit_count.length).map request.offset ∧
      s.tt = request.timer_tag_name.length ∧
      ∃ timers : List RequestTimer,
        timers.map (fun t => (t.hit_count, t.tag_count)) = request.timer_counts ∧
        s.slots = (add_timers size request_id timers_start timers 0 slots).2

/-- Whatever fails on the way, a request that was accepted is stored with the
    timers that were reserved for it. -/
theorem accepted_request_stored (h : pinba_validate_request request.toRequest = .none) :
    request.Fits ∧ Staged services request ∧ TimersStored services request := by
  have hwf := (validate_eq_none_iff request.toRequest).mp h
  refine ⟨⟨fun hits hhits => to_int_of_le (hwf.hit_counts hits hhits), hwf.tag_counts, hwf.timers⟩,
    ?_, ?_⟩
  -- the staging, and then the timers
  · intro preflight room state
    rw [← request.n_dictionary_eq]
    exact safe_request_to_record hwf preflight room state
  · intro words hwords size request_id timers_start state slots allocated
    rw [← request.n_dictionary_eq] at hwords
    have hsafe : Safe (_add_timers services request words size request_id timers_start state slots
        allocated) _ := safe_add_timers hwf hwords size request_id timers_start state slots allocated
    obtain ⟨s, hrun, hs⟩ := safe_total hsafe
    obtain ⟨count, hcount, rfl⟩ := safe_total (safe_stored_timer_count hwf)
    obtain ⟨timers, htimers, hcnt, hslots⟩ := hs.timers
    have hall : request.timer_counts.take request.timer_hit_count.length = request.timer_counts := by
      rw [← length_timer_counts hwf, List.take_length]
    rw [hall] at htimers
    -- what is stored is what `pinba_stored_timer_count` counts
    have hstored : s.timers_cnt = request.timer_counts.countP stored := by
      rw [hcnt, add_timers_count, Nat.zero_add, ← htimers, List.countP_map,
        pinba_stored_timer_count]
      apply List.countP_congr
      intro t _
      simp [stored, RequestTimer.skipped]
    have hlimit : request.timer_counts.countP stored ≤ USHRT_MAX :=
      List.countP_le_length.trans (length_timer_counts hwf ▸ hwf.timers)
    exact ⟨s, _, hrun, hcount, hstored, hlimit, hs.offsets, hs.tt.trans (offset_length hwf), timers,
      htimers, hslots⟩

end program

/-- Everything succeeds, and every tag has the id 0. -/
def succeeding : Services Unit where
  realloc _ := (true, ())
  intern _ t := (some ⟨0, t.key⟩, ())
  find_tag _ _ := none
  lookup_or_create _ _ := (some 0, ())

/-- Two timers; the first one has no hits. -/
def two_timers : DecodedRequest where
  timer_hit_count := [0, 3]
  n_timer_value := 2
  timer_tag_count := [1, 2]
  timer_tag_name := [0, 0, 0]
  timer_tag_value := [0, 0, 0]
  tag_name := [0]
  tag_value := [0]
  n_dictionary := 1
  timer_value := [default, default]
  timer_ru_utime := []
  timer_ru_stime := []
  dictionary := [Interning.letter]
  n_timer_value_eq := rfl
  n_dictionary_eq := rfl
  dictionary_size := by decide

/-- One timer is stored; its tags start behind those of the other one. -/
theorem accepted_request_stored_two_timers :
    pinba_validate_request two_timers.toRequest = .none ∧ ∃ s, (_add_timers succeeding two_timers
      [default] 4 7 3 () (fun _ => .zero) fun _ => 0).run = some (.ok s) ∧
      s.timers_cnt = 1 ∧ s.offsets = [0, 1] ∧ s.tt = 3 := by
  have hvalid : pinba_validate_request two_timers.toRequest = .none := by decide
  obtain ⟨-, -, hstored⟩ := accepted_request_stored succeeding two_timers hvalid
  obtain ⟨s, count, hrun, hcount, hcnt, -, hoffsets, htt, -⟩ :=
    hstored [default] rfl 4 7 3 () (fun _ => .zero) fun _ => 0
  have hone : (stored_timer_count two_timers).run = some (.ok 1) := rfl
  rw [hone] at hcount
  cases hcount
  exact ⟨hvalid, s, hrun, hcnt, hoffsets, htt⟩

end PinbaEngine
