import PinbaEngine.ActiveReports
import PinbaEngine.FailedRegistration
import PinbaEngine.Lib.LockScope
import PinbaEngine.LookupKeys
import PinbaEngine.TagScan
import PinbaEngine.TagValues

/-! # Fetch functions and their locks

    The fetch functions of the handler with every lock that they take and give back,
    return by return. Most take one lock, and give it back on each of their exits: the
    pools and the tags are under `collector_lock`, the rows of a report under the lock
    of that report.

    While a call waits for a lock the other threads go on, so the data that it finds
    under the lock are arbitrary. Storing the columns of a row takes no lock and is left
    out, except for the table `status`, where some columns do.

    Once the lock is granted, the fetches of requests, timers and tag values do what they
    do on the pools alone (`requests_fetch_row_run`, `timers_fetch_row_run`,
    `tag_values_fetch_next_run`).
-/

namespace PinbaEngine

open SavedCursor

/-! ## Section 1: A call and what it sees -/

/-- The locks that the handler takes. -/
inductive EngineLock where
  | collector_lock | words_lock | base_reports_lock | rtag_reports_lock | tag_reports_lock
  | share_mutex | timer_lock | stats_lock
  /-- The lock of the report at an address. -/
  | std_lock (report : Nat)
deriving DecidableEq

/-- A report. An indexed one has a map of rows for every key; the inner map stands for the row in the
    others. -/
structure ReportMemory where
  results : PinbaMap (PinbaMap Unit)
  results_cnt : Nat
  tags_cnt : Nat

/-- `D`, as far as the handler looks at it. -/
structure EngineData where
  pools : RawPools
  timertags_cnt : Nat
  tag : TagRegistry
  settings : TagSettings
  dictionary : Dictionary
  registry : RegistryMemory
  reports : Nat → ReportMemory
  histogram_size : Nat

/-- `pinba_index_st`. The members of the union are kept apart. -/
structure HandlerIndex where
  ival : SizeT
  position : SizeT
  str : Option Bytes
  subindex : Option Bytes

/-- The members of `ha_pinba`, with the columns in `table->read_set`. -/
structure Handler where
  share : TableShare
  active_index : Nat
  this_index : Nat → HandlerIndex
  tag_cursor : Option Nat
  read_set : List Nat
  records : Nat

/-- A call that is under way. -/
structure CallState where
  D : EngineData
  handler : Handler
  /-- What the other threads do before the lock that is asked for in some turn is granted. -/
  others : Nat → EngineData → EngineData
  /-- What the allocation in some turn answers. -/
  memory : Nat → Option Nat
  turn : Nat
  /-- The turns after which a loop counts as running on. -/
  fuel : Nat

namespace CallState

variable (s : CallState)

def wake : CallState := { s with D := s.others s.turn s.D, turn := s.turn + 1 }

def set_index (k : Nat) (f : HandlerIndex → HandlerIndex) : CallState :=
  { s with handler.this_index := Function.update s.handler.this_index k (f (s.handler.this_index k)) }

/-- `ha_pinba::pin_tag_cursor`. -/
def pin_tag_cursor (tag : Option Nat) : CallState :=
  if !s.D.settings.tag_gc_enabled || tag = s.handler.tag_cursor then s
  else
    let heap := tag.elim s.D.tag.heap s.D.tag.heap.retain
    { s with
      D.tag.heap := s.handler.tag_cursor.elim heap heap.release
      handler.tag_cursor := tag }

end CallState

/-- What `new_index` may point to. -/
inductive IndexField where
  | ival (k : Nat) | position (k : Nat)

/-- `*new_index = value`, if there is a `new_index`. -/
def CallState.store (new_index : Option IndexField) (value : SizeT) (s : CallState) : CallState :=
  match new_index with
  | none => s
  | some (.ival k) => s.set_index k ({ · with ival := value })
  | some (.position k) => s.set_index k ({ · with position := value })

/-- What a function of the handler returns. -/
inductive HandlerCode where
  | ok | end_of_file | key_not_found | wrong_index | internal_error
deriving DecidableEq

abbrev HandlerProgram (α : Type) := Locked CallState EngineLock α

namespace ha_pinba

open Locked (view update stop loop Balanced Moves)

abbrev lock (l : EngineLock) : HandlerProgram Unit := Locked.lock CallState.wake l

abbrev unlock (l : EngineLock) : HandlerProgram Unit := Locked.unlock l

abbrev this_index (k : Nat) : HandlerProgram HandlerIndex := view fun s => s.handler.this_index k

abbrev set_index (k : Nat) (f : HandlerIndex → HandlerIndex) : HandlerProgram Unit :=
  update fun s => s.set_index k f

/-- Some allocation: an address, or a null pointer. -/
def malloc : HandlerProgram (Option Nat) := do
  let p ← view fun s => s.memory s.turn
  update fun s => { s with turn := s.turn + 1 }
  return p

theorem balanced_malloc : Balanced malloc := fun _ =>
  Locked.moves_view fun _ => Locked.moves_update (Locked.moves_pure rfl)

/-! ## Section 2: Requests and timers -/

/-- The loop `retry_again` of `ha_pinba::requests_fetch_row`. -/
def retry_again (new_index : Option IndexField) (exact_ : Bool) (index : Nat) :
    HandlerProgram (Nat ⊕ HandlerCode) := do
  let p ← view (·.D.pools)
  let index := RawPools.wrapped p.request_pool.size exact_ index
  update (·.store new_index (some index))
  if index = p.request_pool.inPos ∨ p.request_pool.size ≤ index then do
    unlock .collector_lock
    return .inr .key_not_found
  else if !p.stamped index then
    if exact_ then do
      unlock .collector_lock
      return .inr .key_not_found
    else return .inl (index + 1)
  else do
    update (·.store new_index (some (index + 1)))
    unlock .collector_lock
    return .inr .ok

/-- `ha_pinba::requests_fetch_row`. -/
def requests_fetch_row (index : SizeT) (new_index : Option IndexField) (exact_ : Bool) :
    HandlerProgram HandlerCode := do
  lock .collector_lock
  let s ← view id
  loop (retry_again new_index exact_) s.fuel (index.getD s.D.pools.request_pool.outPos)

/-- The loop `try_next` of `ha_pinba::timers_fetch_row`. -/
def try_next (new_index : Option IndexField) (exact_ : Bool) (index_slot : Nat) (index : Nat) :
    HandlerProgram (Nat ⊕ HandlerCode) := do
  let p ← view (·.D.pools)
  let index := RawPools.wrapped p.timer_pool.size exact_ index
  if index = p.timer_pool.inPos ∨ p.timer_pool.size ≤ index then do
    unlock .collector_lock
    return .inr .key_not_found
  else if !p.stamped (p.request_of index) then
    if exact_ then do
      unlock .collector_lock
      return .inr .key_not_found
    else do
      set_index index_slot ({ · with position := some 0 })
      return .inl (index + 1)
  else do
    let c ← this_index index_slot
    if !exact_ && c.position.reaches (p.request_pool.data (p.request_of index)).timers_cnt then do
      set_index index_slot ({ · with position := some 0 })
      return .inl index
    else do
      set_index index_slot fun c =>
        if !exact_ || new_index.isSome then { c with position := c.position.succ } else c
      update (·.store new_index (some (index + 1)))
      unlock .collector_lock
      return .inr .ok

/-- `ha_pinba::timers_fetch_row`. -/
def timers_fetch_row (index : SizeT) (new_index : Option IndexField) (exact_ : Bool) :
    HandlerProgram HandlerCode := do
  lock .collector_lock
  let s ← view id
  let index := index.getD s.D.pools.timer_pool.outPos
  update (·.store new_index (some index))
  let index_slot := if s.handler.active_index < 2 then s.handler.active_index else 0
  loop (try_next new_index exact_ index_slot) s.fuel index

/-- `ha_pinba::timers_fetch_row_by_request_id`. -/
def timers_fetch_row_by_request_id (index : SizeT) (new_index : Option IndexField) :
    HandlerProgram HandlerCode := do
  lock .collector_lock
  update (·.store new_index index)
  let s ← view id
  let p := s.D.pools
  let c := s.handler.this_index s.handler.active_index
  -- `(size_t)-1` is behind every slot
  if index.all fun slot => slot = p.request_pool.inPos ∨ p.request_pool.size ≤ slot ∨
      p.request_pool.inPos = p.request_pool.outPos then do
    unlock .collector_lock
    return .key_not_found
  else do
    let slot := index.getD 0
    let timers_cnt := (p.request_pool.data slot).timers_cnt
    if !(p.slots slot).active || c.position.reaches timers_cnt then do
      unlock .collector_lock
      return .end_of_file
    else do
      -- the last timer of the record
      update fun s =>
        if new_index.isSome ∧ c.position = some (timers_cnt - 1) then
          (s.store new_index (some (slot + 1))).set_index s.handler.active_index
            ({ · with position := none })
        else s
      unlock .collector_lock
      return .ok

section exits

open Locked

theorem balanced_requests_fetch_row (index : SizeT) (new_index : Option IndexField) (exact_ : Bool) :
    Balanced (requests_fetch_row index new_index exact_) := by
  intro held
  refine moves_lock (moves_view fun s => moves_loop (fun index => ?_) _ _)
  refine moves_view fun p => moves_update (moves_ite (fun _ => ?_) fun _ => moves_ite (fun _ => ?_) fun _ => ?_)
  · exact moves_exit rfl
  · -- a slot that holds nothing
    exact moves_ite (fun _ => moves_exit rfl) fun _ => moves_pure rfl
  · exact moves_update (moves_exit rfl)

theorem balanced_timers_fetch_row (index : SizeT) (new_index : Option IndexField) (exact_ : Bool) :
    Balanced (timers_fetch_row index new_index exact_) := by
  intro held
  refine moves_lock (moves_view fun s => moves_update (moves_loop (fun index => ?_) _ _))
  refine moves_view fun p => moves_ite (fun _ => ?_) fun _ => moves_ite (fun _ => ?_) fun _ => ?_
  · exact moves_exit rfl
  · -- the timer names a request that is gone
    exact moves_ite (fun _ => moves_exit rfl) fun _ => moves_update (moves_pure rfl)
  · refine moves_view fun c => moves_ite (fun _ => ?_) fun _ => ?_
    · exact moves_update (moves_pure rfl)
    · exact moves_update (moves_update (moves_exit rfl))

theorem balanced_timers_fetch_row_by_request_id (index : SizeT) (new_index : Option IndexField) :
    Balanced (timers_fetch_row_by_request_id index new_index) := by
  intro held
  refine moves_lock (moves_update (moves_view fun s => moves_ite (fun _ => ?_) fun _ => ?_))
  · exact moves_exit rfl
  · exact moves_ite (fun _ => moves_exit rfl) fun _ => moves_update (moves_exit rfl)

end exits

/-! ## Section 3: Tags -/

/-- The string that starts at some bytes. -/
def text_of (bytes : Bytes) : Text := ⟨bytes.takeWhile (· ≠ 0), fun h => by simpa using List.mem_takeWhile_imp h⟩

/-- `pinba_tag_get_after`. No tag has the id `(size_t)-1` or a larger one. -/
def pinba_tag_get_after (index : SizeT) (exact_ : Bool) : HandlerProgram (Option Nat) := do
  lock .words_lock
  let D ← view (·.D)
  unlock .words_lock
  return index.bind fun id => D.tag.pinba_tag_get_after D.settings id exact_

/-- `pinba_tag_get_by_name`. -/
def pinba_tag_get_by_name (name : Option Bytes) : HandlerProgram (Option Nat) := do
  match name with
  | none => return none
  | some name => do
    lock .words_lock
    let D ← view (·.D)
    unlock .words_lock
    return D.tag.find (text_of name)

/-- `pinba_map_first` without a key, else `pinba_map_next`, on `D->tag.name_index`. -/
def next_name (name_index : AList fun _ : Key => Nat) (key : Option Bytes) : Option (Bytes × Nat) :=
  let ahead : List Key := match key with
    | none => name_index.keys
    | some key => (name_index.keys.dropWhile fun name => name.bytes ≠ key).tail
  ahead.head?.bind fun name => (name_index.lookup name).map fun tag => (name.bytes, tag)

/-- `pinba_tag_next_name`. -/
def pinba_tag_next_name (key : Option Bytes) : HandlerProgram (Option (Bytes × Nat)) := do
  lock .words_lock
  let D ← view (·.D)
  unlock .words_lock
  return next_name D.tag.name_index key

/-- `ha_pinba::tags_fetch_row`. -/
def tags_fetch_row (index : SizeT) (new_index : Option IndexField) (exact_ : Bool) :
    HandlerProgram HandlerCode := do
  lock .collector_lock
  update (·.store new_index index)
  match ← pinba_tag_get_after index exact_ with
  | none => do
    unlock .collector_lock
    return if exact_ then .key_not_found else .end_of_file
  | some tag => do
    match ← view (·.D.tag.heap.get tag) with
    -- the descriptor is gone
    | none => stop
    | some descriptor => do
      update (·.pin_tag_cursor (some tag))
      update (·.store new_index (some (descriptor.id + 1)))
      unlock .collector_lock
      return .ok

/-- `ha_pinba::tags_fetch_row_by_name`. -/
def tags_fetch_row_by_name (name : Option Bytes) : HandlerProgram HandlerCode := do
  lock .collector_lock
  match ← pinba_tag_get_by_name name with
  | none => do
    unlock .collector_lock
    return .key_not_found
  | some tag => do
    update (·.pin_tag_cursor (some tag))
    unlock .collector_lock
    return .ok

/-- The loop `retry_next` of `ha_pinba::tag_values_fetch_next`. Its variables are in
    `this_index[0]`. -/
def retry_next (_ : Unit) : HandlerProgram (Unit ⊕ HandlerCode) := do
  let p ← view (·.D.pools)
  let c ← this_index 0
  let index := p.wrapped_early (c.ival.getD p.timer_pool.outPos)
  let position := c.position.getD 0
  set_index 0 ({ · with ival := some index, position := some position })
  if index = p.timer_pool.inPos ∨ p.timer_pool.size ≤ index ∨ p.timer_pool.inPos = p.timer_pool.outPos then do
    unlock .collector_lock
    return .inr .key_not_found
  else if (p.tags index).length ≤ position then do
    set_index 0 ({ · with ival := some (index + 1), position := some 0 })
    return .inl ()
  else do
    unlock .collector_lock
    return .inr .ok

/-- `ha_pinba::tag_values_fetch_next`. -/
def tag_values_fetch_next : HandlerProgram HandlerCode := do
  lock .collector_lock
  let s ← view id
  loop retry_next s.fuel ()

/-- `ha_pinba::tag_values_fetch_by_timer_id`. -/
def tag_values_fetch_by_timer_id : HandlerProgram HandlerCode := do
  lock .collector_lock
  let p ← view (·.D.pools)
  set_index 0 fun c => { c with ival := c.ival.map p.wrapped_early }
  let c ← this_index 0
  if c.ival.all fun ival => ival = p.timer_pool.inPos ∨ p.timer_pool.size ≤ ival ∨
      p.timer_pool.inPos = p.timer_pool.outPos then do
    unlock .collector_lock
    return .key_not_found
  else if p.tags (c.ival.getD 0) = [] then do
    unlock .collector_lock
    return .key_not_found
  else if !(p.slots (p.request_of (c.ival.getD 0))).active then do
    unlock .collector_lock
    return .key_not_found
  else do
    unlock .collector_lock
    return .ok

section exits

open Locked

theorem balanced_tag_get_after (index : SizeT) (exact_ : Bool) : Balanced (pinba_tag_get_after index exact_) :=
  fun _ => moves_lock (moves_view fun _ => moves_exit rfl)

theorem balanced_tag_get_by_name (name : Option Bytes) : Balanced (pinba_tag_get_by_name name) := by
  cases name with
  | none => exact balanced_pure none
  | some name => exact fun _ => moves_lock (moves_view fun _ => moves_exit rfl)

theorem balanced_tag_next_name (key : Option Bytes) : Balanced (pinba_tag_next_name key) :=
  fun _ => moves_lock (moves_view fun _ => moves_exit rfl)

theorem balanced_tags_fetch_row (index : SizeT) (new_index : Option IndexField) (exact_ : Bool) :
    Balanced (tags_fetch_row index new_index exact_) := by
  intro held
  refine moves_lock (moves_update (moves_call (balanced_tag_get_after index exact_) fun tag => ?_))
  cases tag with
  | none => exact moves_exit rfl
  | some tag =>
    refine moves_view fun descriptor => ?_
    cases descriptor with
    | none => exact moves_stop
    | some descriptor => exact moves_update (moves_update (moves_exit rfl))

theorem balanced_tags_fetch_row_by_name (name : Option Bytes) : Balanced (tags_fetch_row_by_name name) := by
  intro held
  refine moves_lock (moves_call (balanced_tag_get_by_name name) fun tag => ?_)
  cases tag with
  | none => exact moves_exit rfl
  | some tag => exact moves_update (moves_exit rfl)

theorem balanced_tag_values_fetch_next : Balanced tag_values_fetch_next := by
  intro held
  refine moves_lock (moves_view fun s => moves_loop (fun _ => ?_) _ _)
  refine moves_view fun p => moves_view fun c => moves_update (moves_ite (fun _ => ?_) fun _ => ?_)
  · exact moves_exit rfl
  · -- no further tag of this timer
    exact moves_ite (fun _ => moves_update (moves_pure rfl)) fun _ => moves_exit rfl

theorem balanced_tag_values_fetch_by_timer_id : Balanced tag_values_fetch_by_timer_id := by
  intro held
  refine moves_lock (moves_view fun p => moves_update (moves_view fun c => ?_))
  refine moves_ite (fun _ => moves_exit rfl) fun _ => moves_ite (fun _ => moves_exit rfl) fun _ => ?_
  exact moves_ite (fun _ => moves_exit rfl) fun _ => moves_exit rfl

end exits

/-! ## Section 4: Rows of reports -/

/-- `pinba_get_report`, `pinba_get_tag_report` and `pinba_get_rtag_report`. -/
abbrev get_report (kind : ReportKind) : HandlerProgram (Option Nat) :=
  view fun s => (s.D.registry.maps kind).lookup s.handler.share.index

abbrev report_memory (report : Nat) : HandlerProgram ReportMemory := view fun s => s.D.reports report

/-- `!share->params || share->params[0][0] == '\0'`. -/
def no_params (share : TableShare) : Bool := share.params.head?.elim true (·.isEmpty)

/-- `tags_cnt * (PINBA_TAG_VALUE_SIZE + 1)`. -/
def nary_index_size (tags_cnt : Nat) : Nat := tags_cnt * (PINBA_TAG_VALUE_SIZE + 1)

/-- The blocks of the reports without inner maps, from the lock on. -/
def fetch_flat_row (report : Nat) (null_check : Bool) (index_size : Nat → Nat) : HandlerProgram HandlerCode := do
  lock (.std_lock report)
  let r ← report_memory report
  let c ← this_index 0
  let first := c.position = some 0 || (null_check && c.str.isNone)
  let found := if first then r.results.data_first
    else r.results.data_next (snprintf_s (index_size r.tags_cnt) (c.str.getD []))
  set_index 0 fun c => if first then c else { c with str := none }
  match found with
  | none => do
    unlock (.std_lock report)
    return .end_of_file
  | some (key, _) => do
    set_index 0 fun c =>
      { c with str := some (snprintf_s PINBA_MAX_LINE_LEN key), position := c.position.succ }
    unlock (.std_lock report)
    return .ok

/-- `report1_fetch_row` to `report18_fetch_row`: `REPORT_FETCH_TOP_BLOCK`. -/
def report_fetch_row : HandlerProgram HandlerCode := do
  match ← get_report .base with
  | none => return .end_of_file
  | some report => fetch_flat_row report true fun _ => PINBA_MAX_LINE_LEN

/-- `TAG_INFO_FETCH_TOP_BLOCK`. -/
def tag_info_fetch_row (kind : ReportKind) : HandlerProgram HandlerCode := do
  let s ← view id
  if no_params s.handler.share then return .internal_error
  else do
    match ← get_report kind with
    | none => return .end_of_file
    | some report => fetch_flat_row report false fun _ => PINBA_MAX_LINE_LEN

/-- `ha_pinba::tagN_info_fetch_row`. -/
def tagN_info_fetch_row : HandlerProgram HandlerCode := do
  let s ← view id
  if no_params s.handler.share then return .internal_error
  else do
    match ← get_report .tag with
    | none => return .end_of_file
    | some report => do
      match ← malloc with
      | none => return .internal_error
      | some _ => fetch_flat_row report false nary_index_size

/-- `ha_pinba::info_fetch_row`. -/
def info_fetch_row : HandlerProgram HandlerCode := do
  match ← get_report .base with
  | none => return .end_of_file
  | some report => do
    lock (.std_lock report)
    let c ← this_index 0
    if c.position = some 0 then do
      set_index 0 fun c => { c with position := c.position.succ }
      unlock (.std_lock report)
      return .ok
    else do
      unlock (.std_lock report)
      return .end_of_file

/-- The row after the one in `subindex`, or the first one. -/
def next_in (key_map : PinbaMap Unit) (index_size : Nat) (c : HandlerIndex) : Option (Bytes × Unit) :=
  match c.subindex with
  | none => key_map.data_first
  | some subindex => key_map.data_next (snprintf_s index_size subindex)

/-- A row was found below a name: the end of the blocks for indexed reports. -/
def deliver (report : Nat) (key : Bytes) : HandlerProgram HandlerCode := do
  set_index 0 ({ · with subindex := some (snprintf_s PINBA_MAX_LINE_LEN key) })
  unlock (.std_lock report)
  return .ok

/-- The loop `repeat_with_next_key`, with `index_key` and `key_map`. -/
def repeat_with_next_key (report key_size index_size : Nat) (place : Bytes × PinbaMap Unit) :
    HandlerProgram ((Bytes × PinbaMap Unit) ⊕ HandlerCode) := do
  let r ← report_memory report
  let c ← this_index 0
  set_index 0 ({ · with subindex := none })
  match next_in place.2 index_size c with
  | some (key, _) => do
    let code ← deliver report key
    return .inr code
  | none => do
    match r.results.data_next place.1 with
    | none => do
      set_index 0 ({ · with str := none })
      unlock (.std_lock report)
      return .inr .end_of_file
    | some (name, key_map) => do
      let index_key := snprintf_s key_size name
      set_index 0 ({ · with str := some index_key })
      return .inl (index_key, key_map)

/-- `TAG_REPORT_TOP_BLOCK` and `TAGN_REPORT_TOP_BLOCK`, from the lock on. -/
def fetch_nested_row (report key_size : Nat) (index_size : Nat → Nat) : HandlerProgram HandlerCode := do
  lock (.std_lock report)
  let r ← report_memory report
  let c ← this_index 0
  match c.str with
  | none => do
    match r.results.data_first with
    | none => do
      unlock (.std_lock report)
      return .end_of_file
    | some (name, key_map) => do
      match key_map.data_first with
      | none => do
        unlock (.std_lock report)
        return .end_of_file
      | some (key, _) => do
        set_index 0 ({ · with str := some (snprintf_s key_size name) })
        deliver report key
  | some str => do
    let index_key := snprintf_s key_size str
    match r.results.data_get index_key with
    | none => do
      unlock (.std_lock report)
      return .end_of_file
    | some key_map => do
      let s ← view id
      loop (repeat_with_next_key report key_size (index_size r.tags_cnt)) s.fuel (index_key, key_map)

/-- `TAG_REPORT_TOP_BLOCK`. -/
def tag_report_fetch_row (kind : ReportKind) (key_size : Nat) : HandlerProgram HandlerCode := do
  let s ← view id
  if no_params s.handler.share then return .internal_error
  else do
    match ← get_report kind with
    | none => return .end_of_file
    | some report => fetch_nested_row report key_size fun _ => PINBA_MAX_LINE_LEN

/-- `TAGN_REPORT_TOP_BLOCK`. -/
def tagN_report_fetch_row (kind : ReportKind) (key_size : Nat) : HandlerProgram HandlerCode := do
  let s ← view id
  if no_params s.handler.share then return .internal_error
  else do
    match ← get_report kind with
    | none => return .end_of_file
    | some report => do
      match ← malloc with
      | none => return .internal_error
      | some _ => fetch_nested_row report key_size nary_index_size

/-- `TAG_REPORT_TOP_BLOCK_BY_KEY` once it has the inner map. -/
def fetch_below (report : Nat) (key_map : PinbaMap Unit) : HandlerProgram HandlerCode := do
  let c ← this_index 0
  set_index 0 ({ · with subindex := none })
  match next_in key_map PINBA_MAX_LINE_LEN c with
  | none => do
    unlock (.std_lock report)
    return .end_of_file
  | some (key, _) => deliver report key

/-- `TAG_REPORT_TOP_BLOCK_BY_KEY`. -/
def tag_report_fetch_row_by_key (kind : ReportKind) (key_size : Nat) : HandlerProgram HandlerCode := do
  let s ← view id
  if no_params s.handler.share then return .internal_error
  else do
    match ← get_report kind with
    | none => return .end_of_file
    | some report => do
      lock (.std_lock report)
      let r ← report_memory report
      let c ← this_index 0
      let found := c.str.elim r.results.data_first fun str => (r.results.data_get str).map fun m => (str, m)
      match found with
      | none => do
        unlock (.std_lock report)
        return .end_of_file
      | some (name, key_map) => do
        set_index 0 fun c => if c.str.isNone then { c with str := some (snprintf_s key_size name) } else c
        fetch_below report key_map

/-- `TAGN_REPORT_TOP_BLOCK_BY_KEY` once it has the inner map, which it tests again in place of the
    row. -/
def tagN_fetch_below (report index_size : Nat) (key_map : PinbaMap Unit) : HandlerProgram HandlerCode := do
  let c ← this_index 0
  match next_in key_map index_size c with
  | none => do
    -- from here on the pointer to the row is null
    set_index 0 ({ · with subindex := some (c.subindex.elim [] (snprintf_s index_size)) })
    unlock (.std_lock report)
    return .ok
  | some (key, _) => do
    set_index 0 ({ · with subindex := none })
    deliver report key

/-- `TAGN_REPORT_TOP_BLOCK_BY_KEY`. -/
def tagN_report_fetch_row_by_key (kind : ReportKind) : HandlerProgram HandlerCode := do
  let s ← view id
  if no_params s.handler.share then return .internal_error
  else do
    match ← get_report kind with
    | none => return .end_of_file
    | some report => do
      match ← malloc with
      | none => return .internal_error
      | some _ => do
        lock (.std_lock report)
        let r ← report_memory report
        let c ← this_index 0
        match c.str with
        | none => do
          match r.results.data_first with
          | none => do
            unlock (.std_lock report)
            return .end_of_file
          | some (name, key_map) => do
            set_index 0 ({ · with str := some (snprintf_s PINBA_MAX_LINE_LEN name) })
            tagN_fetch_below report (nary_index_size r.tags_cnt) key_map
        | some str => do
          match r.results.data_get str with
          | none => do
            unlock (.std_lock report)
            return .end_of_file
          | some key_map => tagN_fetch_below report (nary_index_size r.tags_cnt) key_map

section exits

open Locked

variable {report key_size index_size : Nat} {held : Multiset EngineLock}

theorem balanced_fetch_flat_row (report : Nat) (null_check : Bool) (index_size : Nat → Nat) :
    Balanced (fetch_flat_row report null_check index_size) := by
  intro held
  refine moves_lock (moves_view fun r => moves_view fun c => moves_update ?_)
  split
  · exact moves_exit rfl
  · exact moves_update (moves_exit rfl)

/-- The start of the blocks with parameters: without parameters and without a report there is
    nothing to lock. -/
theorem balanced_with_report {kind : ReportKind} {row : Nat → HandlerProgram HandlerCode}
    (hrow : ∀ report, Balanced (row report)) :
    Balanced (do
      let s ← view id
      if no_params s.handler.share then return .internal_error
      else do
        match ← get_report kind with
        | none => return .end_of_file
        | some report => row report) := by
  intro held
  refine moves_view fun s => moves_ite (fun _ => moves_pure rfl) fun _ => moves_view fun report => ?_
  cases report with
  | none => exact moves_pure rfl
  | some report => exact hrow report held

/-- An allocation before the lock. -/
theorem balanced_malloc_first {row : HandlerProgram HandlerCode} (hrow : Balanced row) :
    Balanced (do
      match ← malloc with
      | none => return .internal_error
      | some _ => row) := by
  refine balanced_bind balanced_malloc fun index => ?_
  cases index with
  | none => exact balanced_pure _
  | some _ => exact hrow

theorem balanced_report_fetch_row : Balanced report_fetch_row := by
  refine fun held => moves_view fun report => ?_
  cases report with
  | none => exact moves_pure rfl
  | some report => exact balanced_fetch_flat_row report _ _ held

theorem balanced_tag_info_fetch_row (kind : ReportKind) : Balanced (tag_info_fetch_row kind) :=
  balanced_with_report fun report => balanced_fetch_flat_row report _ _

theorem balanced_tagN_info_fetch_row : Balanced tagN_info_fetch_row :=
  balanced_with_report fun report => balanced_malloc_first (balanced_fetch_flat_row report _ _)

theorem balanced_info_fetch_row : Balanced info_fetch_row := by
  refine fun held => moves_view fun report => ?_
  cases report with
  | none => exact moves_pure rfl
  | some report =>
    refine moves_lock (moves_view fun c => moves_ite (fun _ => ?_) fun _ => moves_exit rfl)
    exact moves_update (moves_exit rfl)

/-- A row ends the hold on its report. -/
theorem moves_deliver (report : Nat) (key : Bytes) :
    Moves (deliver report key) (.std_lock report ::ₘ held) fun _ => held :=
  moves_update (moves_exit rfl)

theorem balanced_fetch_nested_row (report key_size : Nat) (index_size : Nat → Nat) :
    Balanced (fetch_nested_row report key_size index_size) := by
  intro held
  refine moves_lock (moves_view fun r => moves_view fun c => ?_)
  cases c.str with
  | none =>
    simp only
    split
    · exact moves_exit rfl
    · split
      · exact moves_exit rfl
      · exact moves_update (moves_deliver report _)
  | some str =>
    simp only
    split
    · exact moves_exit rfl
    · refine moves_view fun s => moves_loop (fun place => ?_) _ _
      refine moves_view fun r => moves_view fun c => moves_update ?_
      split
      · exact moves_bind (moves_deliver report _) fun code => moves_pure rfl
      · -- nothing follows below this key
        split
        · exact moves_update (moves_exit rfl)
        · exact moves_update (moves_pure rfl)

theorem balanced_tag_report_fetch_row (kind : ReportKind) (key_size : Nat) :
    Balanced (tag_report_fetch_row kind key_size) :=
  balanced_with_report fun report => balanced_fetch_nested_row report _ _

theorem balanced_tagN_report_fetch_row (kind : ReportKind) (key_size : Nat) :
    Balanced (tagN_report_fetch_row kind key_size) :=
  balanced_with_report fun report => balanced_malloc_first (balanced_fetch_nested_row report _ _)

theorem balanced_tag_report_fetch_row_by_key (kind : ReportKind) (key_size : Nat) :
    Balanced (tag_report_fetch_row_by_key kind key_size) := by
  refine balanced_with_report fun report held => ?_
  refine moves_lock (moves_view fun r => moves_view fun c => ?_)
  dsimp only
  split
  · exact moves_exit rfl
  · refine moves_update (moves_view fun c => moves_update ?_)
    split
    · exact moves_exit rfl
    · exact moves_deliver report _

theorem moves_tagN_fetch_below (report index_size : Nat) (key_map : PinbaMap Unit) :
    Moves (tagN_fetch_below report index_size key_map) (.std_lock report ::ₘ held) fun _ => held := by
  refine moves_view fun c => ?_
  split
  · exact moves_update (moves_exit rfl)
  · exact moves_update (moves_deliver report _)

theorem balanced_tagN_report_fetch_row_by_key (kind : ReportKind) :
    Balanced (tagN_report_fetch_row_by_key kind) := by
  refine balanced_with_report fun report => balanced_malloc_first fun held => ?_
  refine moves_lock (moves_view fun r => moves_view fun c => ?_)
  cases c.str with
  | none =>
    simp only
    split
    · exact moves_exit rfl
    · exact moves_update (moves_tagN_fetch_below report _ _)
  | some str =>
    simp only
    split
    · exact moves_exit rfl
    · exact moves_tagN_fetch_below report _ _

end exits

/-! ## Section 5: Status, active reports and histograms -/

/-- A column of `ha_pinba::status_fetch_row`. -/
def status_field (field : Nat) : HandlerProgram PUnit := do
  match field with
  | 1 => do
    lock .timer_lock
    unlock .timer_lock
  | 2 | 4 => do
    lock .stats_lock
    unlock .stats_lock
  | 6 => do
    lock .words_lock
    unlock .words_lock
  | _ => return ()

/-- `ha_pinba::status_fetch_row`. -/
def status_fetch_row : HandlerProgram HandlerCode := do
  let c ← this_index 0
  if c.position ≠ some 0 then return .end_of_file
  else do
    set_index 0 fun c => { c with position := c.position.succ }
    let s ← view id
    s.handler.read_set.forM status_field
    return .ok

/-- The variables of `active_reports_fetch_row`. -/
structure ActiveWalk where
  point : WalkPoint
  tables : Option ReportTables
  index : Bytes

section active
variable (reports_to_tables : PinbaMap ReportTables) (w : ActiveWalk)

/-- `tables = pinba_map_next(D->reports_to_tables, index)`. -/
def next_report : ActiveWalk :=
  match reports_to_tables.data_next w.index with
  | none => { w with tables := none }
  | some (index, tables) => { w with tables := some tables, index := snprintf_s PINBA_MAX_LINE_LEN index }

/-- A table was found. -/
def show_table (std : Nat) (name : Bytes) (table_type : TableType) :
    HandlerProgram (ActiveWalk ⊕ HandlerCode) := do
  if table_type = .histogram_view then
    return .inl { next_report reports_to_tables w with point := .repeat_with_next_report }
  else do
    set_index 0 fun c =>
      { c with
        str := some w.index
        subindex := some (snprintf_s PINBA_MAX_LINE_LEN name)
        position := c.position.succ }
    lock (.std_lock std)
    unlock (.std_lock std)
    unlock .share_mutex
    return .inr .ok

/-- From a test of `tables && !tables->std` to the next one, or to a return. -/
def active_turn : HandlerProgram (ActiveWalk ⊕ HandlerCode) := do
  match w.tables, w.point with
  | none, .first_report => do
    unlock .share_mutex
    return .inr .end_of_file
  | none, .repeat_with_next_report => do
    set_index 0 ({ · with str := none })
    unlock .share_mutex
    return .inr .end_of_file
  -- ignore empty records
  | some ⟨none, _⟩, _ => return .inl (next_report reports_to_tables w)
  | some ⟨some std, tables⟩, .first_report => do
    match PinbaMap.data_first tables with
    | none => do
      unlock .share_mutex
      return .inr .end_of_file
    | some (name, table_type) => show_table reports_to_tables w std name table_type
  | some ⟨some std, tables⟩, .repeat_with_next_report => do
    let c ← this_index 0
    set_index 0 ({ · with subindex := none })
    match c.subindex.elim (PinbaMap.data_first tables)
        fun subindex => PinbaMap.data_next tables (snprintf_s PINBA_MAX_LINE_LEN subindex) with
    | none => return .inl (next_report reports_to_tables w)
    | some (name, table_type) => show_table reports_to_tables w std name table_type

/-- The state at the first test. -/
def active_start (c : HandlerIndex) : ActiveWalk :=
  if c.position = some 0 ∨ c.str = none then
    match reports_to_tables.data_first with
    | none => ⟨.first_report, none, []⟩
    | some (index, tables) => ⟨.first_report, some tables, snprintf_s PINBA_MAX_LINE_LEN index⟩
  else
    let index := snprintf_s PINBA_MAX_LINE_LEN (c.str.getD [])
    ⟨.repeat_with_next_report, reports_to_tables.data_get index, index⟩

end active

/-- `ha_pinba::active_reports_fetch_row`. -/
def active_reports_fetch_row : HandlerProgram HandlerCode := do
  lock .share_mutex
  let s ← view id
  let reports_to_tables := s.D.registry.reports_to_tables
  loop (active_turn reports_to_tables) s.fuel (active_start reports_to_tables (s.handler.this_index 0))

/-- `ha_pinba::histogram_fetch_row`. The last test comes after the lock was taken. -/
def histogram_fetch_row : HandlerProgram HandlerCode := do
  let s ← view id
  if (s.handler.this_index 0).position.reaches s.D.histogram_size then return .end_of_file
  else if s.handler.share.report_kind = .base then do
    match ← get_report .base with
    | none => return .end_of_file
    | some report => do
      lock (.std_lock report)
      if s.handler.share.hv_table_type = .base_report .report_info then do
        set_index 0 fun c => { c with position := c.position.succ }
        unlock (.std_lock report)
        return .ok
      else return .end_of_file
  else return .end_of_file

/-- `pinba_map_get` with a string that may be null. Only a map that was never created takes that. -/
def map_get (results : PinbaMap (PinbaMap Unit)) (str : Option Bytes) :
    HandlerProgram (Option (PinbaMap Unit)) :=
  match str with
  | some str => return results.data_get str
  | none => if results.keys = [] then return none else stop

/-- The types whose `index_value` is split again. -/
def split_types : List TableType :=
  [.tag_report .tag_report, .tag_report .tag2_report, .tag_report .tag_report2, .tag_report .tag2_report2]

/-- Nothing is found under the key. -/
def end_histogram (report : Nat) : HandlerProgram HandlerCode := do
  set_index 0 ({ · with str := none })
  unlock (.std_lock report)
  return .end_of_file

/-- The columns of a histogram view, and the end of the function. -/
def show_histogram (report : Nat) : HandlerProgram HandlerCode := do
  unlock (.std_lock report)
  return .ok

/-- `ha_pinba::histogram_fetch_row_by_key`. -/
def histogram_fetch_row_by_key : HandlerProgram HandlerCode := do
  let s ← view id
  let share := s.handler.share
  if (s.handler.this_index 0).position.reaches s.D.histogram_size then do
    set_index 0 ({ · with str := none })
    return .end_of_file
  else if share.report_kind = .base then do
    match ← get_report .base with
    | none => do
      set_index 0 ({ · with str := none })
      return .end_of_file
    | some report => do
      lock (.std_lock report)
      let r ← report_memory report
      let c ← this_index 0
      match ← map_get r.results c.str with
      | none => end_histogram report
      | some _ => show_histogram report
  else do
    match ← get_report .tag with
    | none => return .end_of_file
    | some report => do
      lock (.std_lock report)
      let r ← report_memory report
      let c ← this_index 0
      if share.hv_table_type ∈ split_types then do
        match c.str with
        | none => do
          unlock (.std_lock report)
          return .end_of_file
        | some str => do
          if bar ∉ str then end_histogram report
          else do
            let script := snprintf_s PINBA_SCRIPT_NAME_SIZE (str.takeWhile (· ≠ bar))
            let tag := snprintf_s PINBA_MAX_LINE_LEN ((str.dropWhile (· ≠ bar)).drop 1)
            match r.results.data_get script with
            | none => end_histogram report
            | some key_map => do
              match key_map.data_get tag with
              | none => end_histogram report
              | some _ => show_histogram report
      else do
        match ← map_get r.results c.str with
        | none => end_histogram report
        | some _ => show_histogram report

section exits

open Locked

variable {held : Multiset EngineLock}

theorem balanced_status_field (field : Nat) : Balanced (status_field field) := by
  intro held
  unfold status_field
  split
  · exact moves_lock (moves_unlock_last rfl)
  · exact moves_lock (moves_unlock_last rfl)
  · exact moves_lock (moves_unlock_last rfl)
  · exact moves_lock (moves_unlock_last rfl)
  · exact moves_pure rfl

theorem balanced_status_fetch_row : Balanced status_fetch_row := by
  refine fun held => moves_view fun c => moves_ite (fun _ => moves_pure rfl) fun _ => ?_
  refine moves_update (moves_view fun s => moves_bind ?_ fun _ => moves_pure rfl)
  exact moves_forM fun field _ => balanced_status_field field held

/-- A row of the list gives back both locks, a histogram view keeps `share_mutex` for the next turn. -/
theorem moves_show_table (reports_to_tables : PinbaMap ReportTables) (w : ActiveWalk) (std : Nat)
    (name : Bytes) (table_type : TableType) :
    Moves (show_table reports_to_tables w std name table_type) (.share_mutex ::ₘ held)
      (Sum.elim (fun _ => .share_mutex ::ₘ held) fun _ => held) := by
  refine moves_ite (fun _ => moves_pure rfl) fun _ => ?_
  exact moves_update (moves_lock (moves_unlock (moves_exit rfl)))

theorem balanced_active_reports_fetch_row : Balanced active_reports_fetch_row := by
  refine fun held => moves_lock (moves_view fun s => moves_loop (fun w => ?_) _ _)
  unfold active_turn
  split
  · exact moves_exit rfl
  · exact moves_update (moves_exit rfl)
  · exact moves_pure rfl
  · split
    · exact moves_exit rfl
    · exact moves_show_table _ _ _ _ _
  · refine moves_view fun c => moves_update ?_
    split
    · exact moves_pure rfl
    · exact moves_show_table _ _ _ _ _

theorem balanced_map_get (results : PinbaMap (PinbaMap Unit)) (str : Option Bytes) :
    Balanced (map_get results str) := by
  cases str with
  | some str => exact balanced_pure _
  | none => exact fun held => moves_ite (fun _ => moves_pure rfl) fun _ => moves_stop

theorem moves_end_histogram (report : Nat) :
    Moves (end_histogram report) (.std_lock report ::ₘ held) fun _ => held := moves_update (moves_exit rfl)

theorem moves_show_histogram (report : Nat) :
    Moves (show_histogram report) (.std_lock report ::ₘ held) fun _ => held := moves_exit rfl

theorem moves_histogram_of_key (report : Nat) (r : ReportMemory) (str : Option Bytes) :
    Moves (do
      match ← map_get r.results str with
      | none => end_histogram report
      | some _ => show_histogram report) (.std_lock report ::ₘ held) fun _ => held := by
  refine moves_call (balanced_map_get _ _) fun found => ?_
  cases found with
  | none => exact moves_end_histogram report
  | some _ => exact moves_show_histogram report

theorem balanced_histogram_fetch_row_by_key : Balanced histogram_fetch_row_by_key := by
  refine fun held => moves_view fun s => moves_ite (fun _ => ?_) fun _ => moves_ite (fun _ => ?_) fun _ => ?_
  · exact moves_update (moves_pure rfl)
  · refine moves_view fun report => ?_
    cases report with
    | none => exact moves_update (moves_pure rfl)
    | some report =>
      exact moves_lock (moves_view fun r => moves_view fun c => moves_histogram_of_key report r c.str)
  · refine moves_view fun report => ?_
    cases report with
    | none => exact moves_pure rfl
    | some report =>
      refine moves_lock (moves_view fun r => moves_view fun c => moves_ite (fun _ => ?_) fun _ => ?_)
      · cases c.str with
        | none => exact moves_exit rfl
        | some str =>
          refine moves_ite (fun _ => moves_end_histogram report) fun _ => ?_
          -- the two lookups, by script and by tag
          dsimp only
          split
          · exact moves_end_histogram report
          · split
            · exact moves_end_histogram report
            · exact moves_show_histogram report
      · exact moves_histogram_of_key report r c.str

/-- The exit under the lock is not taken for the type of the only views that call the function. -/
theorem endsWith_histogram_fetch_row {t : Thread CallState EngineLock}
    (h : t.data.handler.share.hv_table_type = .base_report .report_info) :
    EndsWith histogram_fetch_row t fun _ => t.held := by
  obtain ⟨s, held⟩ := t
  unfold histogram_fetch_row
  rw [endsWith_view]
  refine endsWith_ite (fun _ => rfl) fun _ => endsWith_ite (fun _ => ?_) fun _ => rfl
  rw [endsWith_view]
  cases (s.D.registry.maps .base).lookup s.handler.share.index with
  | none => rfl
  | some report =>
    have hreturn : Moves (do
        lock (.std_lock report)
        set_index 0 fun c => { c with position := c.position.succ }
        unlock (.std_lock report)
        return HandlerCode.ok) held fun _ => held := moves_lock (moves_update (moves_exit rfl))
    simp only [id, if_pos h]
    exact hreturn s

end exits

end ha_pinba

/-! ## Section 6: The same fetches on the pools alone -/

/-- The code for an answer. -/
def RawAnswer.code : RawAnswer → HandlerCode
  | .row _ => .ok
  | .key_not_found => .key_not_found
  | .end_of_file => .end_of_file

namespace CallState

variable (s : CallState)

theorem store_store (new_index : Option IndexField) (v w : SizeT) :
    (s.store new_index v).store new_index w = s.store new_index w := by
  cases new_index with
  | none => rfl
  | some field => cases field <;> simp [store, set_index]

theorem store_D (new_index : Option IndexField) (v : SizeT) : (s.store new_index v).D = s.D := by
  cases new_index with
  | none => rfl
  | some field => cases field <;> rfl

theorem set_index_congr (k : Nat) {f g : HandlerIndex → HandlerIndex}
    (h : f (s.handler.this_index k) = g (s.handler.this_index k)) : s.set_index k f = s.set_index k g := by
  unfold set_index
  rw [h]

def set_position (k : Nat) (position : SizeT) : CallState := s.set_index k ({ · with position := position })

theorem set_position_self (k : Nat) : s.set_position k (s.handler.this_index k).position = s := by
  simp [set_position, set_index]

/-- Where `new_index` is no position, it is written apart from the positions. -/
theorem store_set_position {new_index : Option IndexField} (h : ∀ k, new_index ≠ some (.position k))
    (k : Nat) (p q v : SizeT) :
    ((s.set_position k p).store new_index v).set_position k q = (s.set_position k q).store new_index v := by
  cases new_index with
  | none => simp [store, set_position, set_index]
  | some field =>
    cases field with
    | ival i =>
      obtain rfl | hik := eq_or_ne i k
      · simp [store, set_position, set_index]
      · simp [store, set_position, set_index, Function.update_of_ne hik, Function.update_of_ne hik.symm,
          Function.update_comm hik]
    | position i => exact absurd rfl (h i)

theorem position_of_store {new_index : Option IndexField} (h : ∀ k, new_index ≠ some (.position k))
    (k : Nat) (p v : SizeT) :
    (((s.set_position k p).store new_index v).handler.this_index k).position = p := by
  cases new_index with
  | none => simp [store, set_position, set_index]
  | some field =>
    cases field with
    | ival i =>
      obtain rfl | hik := eq_or_ne i k
      · simp [store, set_position, set_index]
      · simp [store, set_position, set_index, Function.update_of_ne hik.symm]
    | position i => exact absurd rfl (h i)

def set_cursor (c : RawCursor) : CallState := s.set_index 0 ({ · with ival := c.ival, position := c.position })

theorem set_cursor_self : s.set_cursor ⟨(s.handler.this_index 0).ival, (s.handler.this_index 0).position⟩ = s := by
  simp [set_cursor, set_index]

theorem set_cursor_set_cursor (c c' : RawCursor) : (s.set_cursor c).set_cursor c' = s.set_cursor c' := by
  simp [set_cursor, set_index]

end CallState

/-- The code for an answer. -/
def TimerTagAnswer.code : TimerTagAnswer → HandlerCode
  | .row _ => .ok
  | .key_not_found => .key_not_found
  | .end_of_file => .end_of_file

namespace ha_pinba

open Locked CallState

/-- A call in the loop `retry_again`, next to the loop without locks on what the call saw when it
    got the lock. -/
structure Retrying (new_index : Option IndexField) (s : CallState) (held : Multiset EngineLock)
    (f : RawFetch) (index : Nat) (t : Thread CallState EngineLock) : Prop where
  index : f.index = index
  data : t.data.D = s.D
  stores : ∀ v, t.data.store new_index v = s.store new_index v
  held : t.held = EngineLock.collector_lock ::ₘ held

theorem retry_again_follows (new_index : Option IndexField) (exact_ : Bool) (s : CallState)
    (held : Multiset EngineLock) :
    Follows (retry_again new_index exact_) (s.D.pools.retry_again exact_) (Retrying new_index s held)
      fun r => (r.1.code, ⟨s.store new_index (some r.2.new_index), held⟩) := by
  rintro f index ⟨d, held'⟩ ⟨rfl, hdata, hstores, hheld⟩
  obtain rfl : held' = EngineLock.collector_lock ::ₘ held := hheld
  unfold retry_again RawPools.retry_again
  rw [run_view, run_update]
  dsimp only at hdata hstores ⊢
  rw [hdata, hstores]
  split
  · rw [run_unlock]
    exact ⟨_, _, rfl, .inr rfl⟩
  · split
    · split
      · rw [run_unlock]
        exact ⟨_, _, rfl, .inr rfl⟩
      · -- a slot that holds nothing is passed over
        exact ⟨_, _, rfl, .inl ⟨rfl, store_D s _ _, store_store s _ _, rfl⟩⟩
    · rw [run_update, run_unlock, store_store]
      exact ⟨_, _, rfl, .inr rfl⟩

/-- The fetch under its lock is the fetch on the pools that the call finds there. -/
theorem requests_fetch_row_run (index position : SizeT) (new_index : Option IndexField) (exact_ : Bool)
    (t : Thread CallState EngineLock) :
    let s := t.data.wake
    requests_fetch_row index new_index exact_ t =
      (s.D.pools.requests_fetch_row s.fuel index position exact_).elim (.error .no_return) fun r =>
        .ok (r.1.code, ⟨s.store new_index (some r.2.new_index), t.held⟩) := by
  unfold requests_fetch_row RawPools.requests_fetch_row
  rw [run_lock, run_view]
  generalize t.data.wake = s
  set start := index.getD s.D.pools.request_pool.outPos
  have hstart : Retrying new_index s t.held ⟨start, start, position⟩ start
      ⟨s, EngineLock.collector_lock ::ₘ t.held⟩ := ⟨rfl, rfl, fun _ => rfl, rfl⟩
  exact loop_of_follows (retry_again_follows new_index exact_ s t.held) s.fuel hstart

/-- The handler once a fetch of timers has gone so far. -/
def tried (new_index : Option IndexField) (index_slot : Nat) (s : CallState) (f : RawFetch) : CallState :=
  (s.set_position index_slot f.position).store new_index (some f.new_index)

structure Trying (new_index : Option IndexField) (index_slot : Nat) (s : CallState)
    (held : Multiset EngineLock) (f : RawFetch) (index : Nat) (t : Thread CallState EngineLock) : Prop where
  index : f.index = index
  data : t.data = tried new_index index_slot s f
  held : t.held = EngineLock.collector_lock ::ₘ held

theorem try_next_follows {new_index : Option IndexField} (hnew : ∀ k, new_index ≠ some (.position k))
    (exact_ : Bool) (index_slot : Nat) (s : CallState) (held : Multiset EngineLock) :
    Follows (try_next new_index exact_ index_slot) (s.D.pools.try_next new_index.isSome exact_)
      (Trying new_index index_slot s held) fun r => (r.1.code, ⟨tried new_index index_slot s r.2, held⟩) := by
  rintro f index ⟨d, held'⟩ ⟨rfl, hdata, hheld⟩
  obtain rfl : held' = EngineLock.collector_lock ::ₘ held := hheld
  obtain rfl : d = tried new_index index_slot s f := hdata
  unfold try_next RawPools.try_next
  rw [run_view]
  dsimp only
  have hD : (tried new_index index_slot s f).D = s.D := store_D _ _ _
  rw [hD]
  split
  · rw [run_unlock]
    exact ⟨_, _, rfl, .inr rfl⟩
  · split
    · split
      · rw [run_unlock]
        exact ⟨_, _, rfl, .inr rfl⟩
      · -- the timer names a request that is gone
        rw [run_update]
        exact ⟨_, _, rfl, .inl ⟨rfl, store_set_position s hnew _ _ _ _, rfl⟩⟩
    · have hposition : ((tried new_index index_slot s f).handler.this_index index_slot).position = f.position :=
        position_of_store s hnew _ _ _
      rw [run_view]
      dsimp only
      rw [hposition]
      split
      · -- the position is behind the timers of that request
        rw [run_update]
        exact ⟨_, _, rfl, .inl ⟨rfl, store_set_position s hnew _ _ _ _, rfl⟩⟩
      · rw [run_update, run_update, run_unlock]
        have hcursor : (tried new_index index_slot s f).set_index index_slot
            (fun c => if !exact_ || new_index.isSome then { c with position := c.position.succ } else c) =
              (tried new_index index_slot s f).set_position index_slot
                (if !exact_ || new_index.isSome then f.position.succ else f.position) := by
          refine set_index_congr _ _ ?_
          rw [← hposition]
          split <;> rfl
        dsimp only
        rw [hcursor, tried, store_set_position s hnew, store_store]
        exact ⟨_, _, rfl, .inr rfl⟩

/-- The fetch under its lock is the fetch on the pools that the call finds there. -/
theorem timers_fetch_row_run (index : SizeT) {new_index : Option IndexField}
    (hnew : ∀ k, new_index ≠ some (.position k)) (exact_ : Bool) (t : Thread CallState EngineLock) :
    let s := t.data.wake
    let index_slot := if s.handler.active_index < 2 then s.handler.active_index else 0
    timers_fetch_row index new_index exact_ t =
      (s.D.pools.timers_fetch_row s.fuel index (s.handler.this_index index_slot).position
        new_index.isSome exact_).elim (.error .no_return) fun r =>
        .ok (r.1.code, ⟨tried new_index index_slot s r.2, t.held⟩) := by
  unfold timers_fetch_row RawPools.timers_fetch_row
  rw [run_lock, run_view, run_update]
  generalize t.data.wake = s
  dsimp only [id]
  set index_slot := if s.handler.active_index < 2 then s.handler.active_index else 0
  set start := index.getD s.D.pools.timer_pool.outPos
  set position := (s.handler.this_index index_slot).position
  have hstart : Trying new_index index_slot s t.held ⟨start, start, position⟩ start
      ⟨s.store new_index (some start), EngineLock.collector_lock ::ₘ t.held⟩ :=
    ⟨rfl, by rw [tried, set_position_self], rfl⟩
  exact loop_of_follows (try_next_follows hnew exact_ index_slot s t.held) s.fuel hstart

/-- A call in the loop `retry_next`, with the cursor that it keeps in `this_index[0]`. -/
structure Walking (s : CallState) (held : Multiset EngineLock) (c : RawCursor) (_ : Unit)
    (t : Thread CallState EngineLock) : Prop where
  data : t.data = s.set_cursor c
  held : t.held = EngineLock.collector_lock ::ₘ held

theorem retry_next_follows (s : CallState) (held : Multiset EngineLock) :
    Follows retry_next s.D.pools.retry_next (Walking s held) fun r => (r.1.code, ⟨s.set_cursor r.2, held⟩) := by
  rintro c b ⟨d, held'⟩ ⟨hdata, hheld⟩
  obtain rfl : held' = EngineLock.collector_lock ::ₘ held := hheld
  obtain rfl : d = s.set_cursor c := hdata
  unfold retry_next RawPools.retry_next
  rw [run_view, run_view, run_update]
  have hival : ((s.set_cursor c).handler.this_index 0).ival = c.ival := by
    simp [CallState.set_cursor, CallState.set_index]
  have hposition : ((s.set_cursor c).handler.this_index 0).position = c.position := by
    simp [CallState.set_cursor, CallState.set_index]
  have hD : (s.set_cursor c).D = s.D := rfl
  dsimp only
  have hstore (ival position : SizeT) : (s.set_cursor c).set_index 0
      ({ · with ival := ival, position := position }) = s.set_cursor ⟨ival, position⟩ :=
    set_cursor_set_cursor s c ⟨ival, position⟩
  rw [hival, hposition, hD, hstore]
  split
  · rw [run_unlock]
    exact ⟨_, _, rfl, .inr rfl⟩
  · split
    · next hle =>
      -- the timer has no such tag
      rw [run_update, List.getElem?_eq_none hle]
      exact ⟨_, _, rfl, .inl ⟨set_cursor_set_cursor s _ ⟨_, _⟩, rfl⟩⟩
    · next hlt =>
      rw [run_unlock, List.getElem?_eq_getElem (Nat.lt_of_not_le hlt)]
      exact ⟨_, _, rfl, .inr rfl⟩

/-- The fetch under its lock is the fetch on the pools that the call finds there. -/
theorem tag_values_fetch_next_run (t : Thread CallState EngineLock) :
    let s := t.data.wake
    tag_values_fetch_next t =
      (s.D.pools.tag_values_fetch_next s.fuel
        ⟨(s.handler.this_index 0).ival, (s.handler.this_index 0).position⟩).elim (.error .no_return) fun r =>
        .ok (r.1.code, ⟨s.set_cursor r.2, t.held⟩) := by
  unfold tag_values_fetch_next RawPools.tag_values_fetch_next
  rw [run_lock, run_view]
  generalize t.data.wake = s
  dsimp only [id]
  have hstart : Walking s t.held ⟨(s.handler.this_index 0).ival, (s.handler.this_index 0).position⟩ ()
      ⟨s, EngineLock.collector_lock ::ₘ t.held⟩ := ⟨(set_cursor_self s).symm, rfl⟩
  exact loop_of_follows (retry_next_follows s t.held) s.fuel hstart

end ha_pinba

end PinbaEngine
