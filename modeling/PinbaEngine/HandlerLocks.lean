import PinbaEngine.LockedFetch

/-! # The locks of a handler call

    The four functions of the handler that choose a fetch function by the type of the
    table. For the tag reports they take the lock of the registry themselves, around
    the call; where a report is missing two of them construct it under `collector_lock`.

    All their returns give back what they took, but one: `read_next_row` by key takes
    the registry lock of an indexed tag report and leaves from the middle when the report
    is not there.
-/

namespace PinbaEngine

namespace ha_pinba

open Locked (view update stop Balanced Moves EndsWith)

/-! ## Section 1: Constructors -/

/-- `pinba_dictionary_intern_rdlock`: the caller holds the lock, and holds it again afterwards. -/
def pinba_dictionary_intern_rdlock (text : Text) (budget : Budget) : HandlerProgram Unit := do
  let D ← view (·.D)
  match D.dictionary.intern_read text with
  | some (_, dictionary) => update fun s => { s with D.dictionary := dictionary }
  | none => do
    unlock .words_lock
    lock .words_lock
    let D ← view (·.D)
    if D.dictionary.map.lookup text.key = none ∧ D.dictionary.over_budget budget (word_charge text.copied) then do
      unlock .words_lock
      lock .words_lock
    else do
      let fresh ← malloc
      update fun s => { s with D.dictionary := (s.D.dictionary.intern_write text budget fresh).2 }
      unlock .words_lock
      lock .words_lock

/-- `pinba_dictionary_word_get_or_insert_rdlock`. -/
def pinba_dictionary_word_get_or_insert_rdlock (text : Text) : HandlerProgram Unit :=
  pinba_dictionary_intern_rdlock text ⟨0, 0⟩

/-- One turn of the loop of `pinba_parse_conditions`. -/
def parse_condition (cond : Bytes × Bytes) : HandlerProgram PUnit := do
  if cond.1 = ascii "min_time" ∨ cond.1 = ascii "max_time" ∨ cond.1 = ascii "histogram_max_time" then
    return ()
  else if 4 < cond.1.length ∧ cond.1.take 4 = ascii "tag." then do
    pinba_dictionary_word_get_or_insert_rdlock (text_of (cond.1.drop 4))
    pinba_dictionary_word_get_or_insert_rdlock (text_of cond.2)
  else return ()

/-- `pinba_parse_conditions`. -/
def pinba_parse_conditions : HandlerProgram Unit := do
  let s ← view id
  if s.handler.share.conds = [] then return ()
  else do
    lock .words_lock
    s.handler.share.conds.forM parse_condition
    unlock .words_lock

abbrev set_registry (f : RegistryMemory → RegistryMemory) : HandlerProgram Unit :=
  update fun s => { s with D.registry := f s.D.registry }

/-- `pinba_update_report_tables`. -/
def pinba_update_report_tables (p : Nat) (std : ReportIdentity) (index : Bytes) : HandlerProgram Bool := do
  lock .share_mutex
  let D ← view (·.D)
  match D.registry.reports_to_tables.lookup index with
  | none => do
    unlock .share_mutex
    return false
  | some _ => do
    set_registry fun m => (m.pinba_update_report_tables p std index).1
    unlock .share_mutex
    return true

/-- The end of the constructors: the new report is registered. -/
def construct (kind : ReportKind) (p : Nat) : HandlerProgram (Option Nat) := do
  let s ← view id
  let share := s.handler.share
  let std : ReportIdentity := ⟨kind, share.type, Registry.stored_index share, 0⟩
  update fun s => { s with D.reports := Function.update s.D.reports p ⟨∅, 0, share.params.length⟩ }
  set_registry fun m =>
    { m with
      heap := m.heap.insert p std
      maps := Function.update m.maps kind ((m.maps kind).insert share.index p) }
  let grown ← malloc
  set_registry fun m =>
    { m with arrays := Function.update m.arrays kind ((m.arrays kind).pinba_array_add p grown.isSome).1 }
  if grown = none then do
    set_registry (·.after_array_add kind share.index p)
    return none
  else do
    let updated ← pinba_update_report_tables p std share.index
    if updated then return some p
    else do
      set_registry (·.after_update_report_tables kind share.index p)
      return none

/-- Some allocations, up to the first that fails. -/
def mallocs : Nat → HandlerProgram Bool
  | 0 => return true
  | n + 1 => do
    match ← malloc with
    | none => return false
    | some _ => mallocs n

/-- The tags of the parameters are looked up, up to the first that is not known. -/
def find_params (find : Bytes → HandlerProgram Bool) : List Nat → HandlerProgram Bool
  | [] => return true
  | k :: ks => do
    let s ← view id
    match s.handler.share.params[k]? with
    | none => stop
    | some param => do
      let found ← find param
      if found then find_params find ks else return false

/-- `pinba_regenerate_*`: its kind, how it looks up which parameters, and how many allocations there
    are besides that of the report, before the lookups, behind that of the report, and behind the
    conditions. -/
def pinba_regenerate (kind : ReportKind) (find : Bytes → HandlerProgram Bool) (params : List Nat)
    (first second third : Nat) : HandlerProgram (Option Nat) := do
  match ← get_report kind with
  | some report => return some report
  | none => do
    let allocated ← mallocs first
    if !allocated then return none
    else do
      let found ← find_params find params
      if !found then return none
      else do
        match ← malloc with
        | none => return none
        | some p => do
          let allocated ← mallocs second
          if !allocated then return none
          else do
            pinba_parse_conditions
            let allocated ← mallocs third
            if !allocated then return none else construct kind p

/-- `pinba_regenerate_report_info` and `pinba_regenerate_report1` to `18`. -/
def pinba_regenerate_report : HandlerProgram (Option Nat) :=
  pinba_regenerate .base (fun _ => return true) [] 0 0 0

def find_tag (name : Bytes) : HandlerProgram Bool := do
  let tag ← pinba_tag_get_by_name (some name)
  return tag.isSome

/-- `pinba_dictionary_lookup`, without the reference that it counts. -/
def find_word (name : Bytes) : HandlerProgram Bool := do
  lock .words_lock
  let D ← view (·.D)
  unlock .words_lock
  return (D.dictionary.lookup (text_of name)).isSome

/-- `pinba_regenerate_tag*`. -/
def pinba_regenerate_tag : TagKind → HandlerProgram (Option Nat)
  | .tag_info | .tag_report | .tag_report2 => pinba_regenerate .tag find_tag [0] 0 1 0
  | .tag2_info | .tag2_report | .tag2_report2 => pinba_regenerate .tag find_tag [0, 1] 0 1 0
  | .tagN_info | .tagN_report | .tagN_report2 => do
    let s ← view id
    pinba_regenerate .tag find_tag (List.range s.handler.share.params.length) 1 0 2

/-- `pinba_regenerate_rtag*`. -/
def pinba_regenerate_rtag : RtagKind → HandlerProgram (Option Nat)
  | .rtag_info | .rtag_report => pinba_regenerate .rtag find_word [0] 0 1 0
  | .rtag2_info => pinba_regenerate .rtag find_word [0, 1] 0 1 0
  | .rtag2_report => do
    match ← get_report .rtag with
    | some report => return some report
    | none => do
      let s ← view id
      if s.handler.share.params.length < 2 then return none
      else pinba_regenerate .rtag find_word [0, 1] 0 1 0
  | .rtagN_info | .rtagN_report => do
    let s ← view id
    pinba_regenerate .rtag find_word (List.range s.handler.share.params.length) 1 1 1

section exits

open Locked

variable {held : Multiset EngineLock}

theorem moves_intern_rdlock (text : Text) (budget : Budget) :
    Moves (pinba_dictionary_intern_rdlock text budget) (.words_lock ::ₘ held) fun _ => .words_lock ::ₘ held := by
  refine moves_view fun D => ?_
  split
  · exact balanced_update _ _
  · refine moves_unlock (moves_lock (moves_view fun D => moves_ite (fun _ => ?_) fun _ => ?_))
    · exact moves_unlock (moves_lock_last rfl)
    · exact moves_call balanced_malloc fun fresh => moves_update (moves_unlock (moves_lock_last rfl))

theorem balanced_parse_conditions : Balanced pinba_parse_conditions := by
  refine fun held => moves_view fun s => moves_ite (fun _ => moves_pure rfl) fun _ => moves_lock ?_
  refine moves_bind (moves_forM fun cond _ => ?_) fun _ => moves_unlock_last rfl
  refine moves_ite (fun _ => moves_pure rfl) fun _ => moves_ite (fun _ => ?_) fun _ => moves_pure rfl
  exact moves_bind (moves_intern_rdlock _ _) fun _ => moves_intern_rdlock _ _

theorem balanced_update_report_tables (p : Nat) (std : ReportIdentity) (index : Bytes) :
    Balanced (pinba_update_report_tables p std index) := by
  refine fun held => moves_lock (moves_view fun D => ?_)
  split
  · exact moves_exit rfl
  · exact moves_update (moves_exit rfl)

theorem balanced_construct (kind : ReportKind) (p : Nat) : Balanced (construct kind p) := by
  refine fun held => moves_view fun s => moves_update (moves_update ?_)
  refine moves_call balanced_malloc fun grown => moves_update (moves_ite (fun _ => ?_) fun _ => ?_)
  · exact moves_update (moves_pure rfl)
  · refine moves_call (balanced_update_report_tables p _ _) fun updated => ?_
    exact moves_ite (fun _ => moves_pure rfl) fun _ => moves_update (moves_pure rfl)

theorem balanced_mallocs (n : Nat) : Balanced (mallocs n) := by
  induction n with
  | zero => exact balanced_pure true
  | succ n ih =>
    refine balanced_bind balanced_malloc fun p => ?_
    cases p with
    | none => exact balanced_pure false
    | some _ => exact ih

theorem balanced_find_params {find : Bytes → HandlerProgram Bool} (hfind : ∀ name, Balanced (find name))
    (ks : List Nat) : Balanced (find_params find ks) := by
  induction ks with
  | nil => exact balanced_pure true
  | cons k ks ih =>
    refine fun held => moves_view fun s => ?_
    split
    · exact moves_stop
    · exact moves_call (hfind _) fun found => moves_ite (fun _ => ih held) fun _ => moves_pure rfl

theorem balanced_regenerate {find : Bytes → HandlerProgram Bool} (hfind : ∀ name, Balanced (find name))
    (kind : ReportKind) (params : List Nat) (first second third : Nat) :
    Balanced (pinba_regenerate kind find params first second third) := by
  refine fun held => moves_view fun report => ?_
  cases report with
  | some report => exact moves_pure rfl
  | none =>
    -- what may be missing, in the order of the constructors
    refine moves_call (balanced_mallocs first) fun _ => moves_ite (fun _ => moves_pure rfl) fun _ => ?_
    refine moves_call (balanced_find_params hfind params) fun _ => moves_ite (fun _ => moves_pure rfl) fun _ => ?_
    refine moves_call balanced_malloc fun p => ?_
    cases p with
    | none => exact moves_pure rfl
    | some p =>
      refine moves_call (balanced_mallocs second) fun _ => moves_ite (fun _ => moves_pure rfl) fun _ => ?_
      refine moves_call balanced_parse_conditions fun _ => moves_call (balanced_mallocs third) fun _ => ?_
      exact moves_ite (fun _ => moves_pure rfl) fun _ => balanced_construct kind p held

theorem balanced_find_tag (name : Bytes) : Balanced (find_tag name) :=
  balanced_bind (balanced_tag_get_by_name (some name)) fun _ => balanced_pure _

theorem balanced_find_word (name : Bytes) : Balanced (find_word name) :=
  fun _ => moves_lock (moves_view fun _ => moves_exit rfl)

theorem balanced_regenerate_report : Balanced pinba_regenerate_report :=
  balanced_regenerate (fun _ => balanced_pure true) _ _ _ _ _

theorem balanced_regenerate_tag (k : TagKind) : Balanced (pinba_regenerate_tag k) := by
  have hregenerate := @balanced_regenerate find_tag balanced_find_tag .tag
  cases k with
  | tag_info | tag_report | tag_report2 => exact hregenerate _ _ _ _
  | tag2_info | tag2_report | tag2_report2 => exact hregenerate _ _ _ _
  | tagN_info | tagN_report | tagN_report2 => exact fun held => moves_view fun s => hregenerate _ _ _ _ held

theorem balanced_regenerate_rtag (k : RtagKind) : Balanced (pinba_regenerate_rtag k) := by
  have hregenerate := @balanced_regenerate find_word balanced_find_word .rtag
  cases k with
  | rtag_info | rtag_report | rtag2_info => exact hregenerate _ _ _ _
  | rtagN_info | rtagN_report => exact fun held => moves_view fun s => hregenerate _ _ _ _ held
  | rtag2_report =>
    refine fun held => moves_view fun report => ?_
    cases report with
    | some report => exact moves_pure rfl
    | none =>
      exact moves_view fun s => moves_ite (fun _ => moves_pure rfl) fun _ => hregenerate _ _ _ _ held

end exits

/-! ## Section 2: The functions of the handler -/

def PINBA_MAX_KEYS : Nat := 2

/-- The integer in a key, low byte first; its largest value is `(size_t)-1`. -/
def key_number (key : Block UInt8) (key_len : Nat) : SizeT :=
  let n := (key.take key_len).foldr (fun byte n => byte.toNat + 256 * n) 0 % 2 ^ 64
  if n = 2 ^ 64 - 1 then none else some n

/-- `netstr_to_key` on an entry whose `str` shares its bytes with a cleared `ival`. -/
def load_key (key : Block UInt8) : HandlerProgram Unit := do
  match netstr_to_key key with
  | none => stop
  | some index => set_index 0 ({ · with str := index.val.map (Block.string 0) })

/-- `*_fetch_row` of the indexed tag reports. -/
def fetch_tag_row : TagKind → HandlerProgram HandlerCode
  | .tagN_report | .tagN_report2 => tagN_report_fetch_row .tag (PINBA_SCRIPT_NAME_SIZE + 1)
  | _ => tag_report_fetch_row .tag (PINBA_SCRIPT_NAME_SIZE + 1)

/-- `*_fetch_row_by_script`. -/
def fetch_row_by_script : TagKind → HandlerProgram HandlerCode
  | .tagN_report | .tagN_report2 => tagN_report_fetch_row_by_key .tag
  | _ => tag_report_fetch_row_by_key .tag (PINBA_SCRIPT_NAME_SIZE + 1)

/-- `*_fetch_row` of the indexed request tag reports. -/
def fetch_rtag_row : RtagKind → HandlerProgram HandlerCode
  | .rtagN_report => tagN_report_fetch_row .rtag (PINBA_HOSTNAME_SIZE + 1)
  | _ => tag_report_fetch_row .rtag (PINBA_HOSTNAME_SIZE + 1)

/-- `*_fetch_row_by_host`. -/
def fetch_row_by_host : RtagKind → HandlerProgram HandlerCode
  | .rtagN_report => tagN_report_fetch_row_by_key .rtag
  | _ => tag_report_fetch_row_by_key .rtag (PINBA_HOSTNAME_SIZE + 1)

/-- The cases of `read_next_row` with a registry lock around one call. -/
def under_registry (registry_lock : EngineLock) (fetch_row : HandlerProgram HandlerCode) :
    HandlerProgram HandlerCode := do
  lock registry_lock
  let ret ← fetch_row
  unlock registry_lock
  return ret

/-- The cases of `read_next_row` for the indexed tag reports. -/
def next_report_row (registry_lock : EngineLock) (kind : ReportKind) (active_index : Nat) (by_key : Bool)
    (fetch_row_by_name fetch_row : HandlerProgram HandlerCode) : HandlerProgram HandlerCode := do
  lock registry_lock
  if by_key then do
    match ← get_report kind with
    -- DBUG_RETURN
    | none => return .end_of_file
    | some _ => do
      let ret ← fetch_row_by_name
      set_index active_index fun c => if ret ≠ .ok then { c with str := none } else c
      unlock registry_lock
      return ret
  else do
    let ret ← fetch_row
    unlock registry_lock
    return ret

/-- The step to the next name in the index of the table `tag`, in `read_next_row` and in
    `read_index_first`. -/
def next_tag_name (key : Option Bytes) : HandlerProgram HandlerCode := do
  lock .collector_lock
  let found ← pinba_tag_next_name key
  update (·.pin_tag_cursor (found.map Prod.snd))
  unlock .collector_lock
  match found with
  | none => return .end_of_file
  | some (name, _) => do
    set_index 1 ({ · with str := some name })
    tags_fetch_row_by_name (some name)

/-- The `switch` of `ha_pinba::read_next_row`, which has tested that the index is 0 or 1. -/
def next_row (active_index : Nat) (by_key : Bool) : HandlerProgram HandlerCode := do
  let s ← view id
  let c := s.handler.this_index active_index
  match s.handler.share.table_type with
  | .request =>
    if active_index > 0 then return .wrong_index
    else do
      let ret ← requests_fetch_row c.ival (some (.position 0)) false
      set_index 0 fun c => { c with ival := c.position }
      return ret
  | .timer =>
    if active_index = 0 then timers_fetch_row c.ival (some (.ival active_index)) false
    else timers_fetch_row_by_request_id c.ival (some (.ival active_index))
  | .tag =>
    if active_index = 0 then do
      let ret ← tags_fetch_row c.ival (some (.position 0)) false
      set_index 0 fun c => { c with ival := c.position }
      return ret
    else next_tag_name (some (snprintf_s PINBA_TAG_NAME_SIZE (c.str.getD [])))
  | .timertag => do
    let ret ← tag_values_fetch_next
    set_index 0 fun c => if by_key then c else { c with position := c.position.succ }
    return ret
  | .histogram_view =>
    if s.handler.share.hv_table_type = .base_report .report_info then histogram_fetch_row
    else if !by_key then return .end_of_file
    else if active_index = 0 then histogram_fetch_row_by_key
    else return .wrong_index
  | .status => status_fetch_row
  | .active_reports => active_reports_fetch_row
  | .base_report .report_info => info_fetch_row
  | .base_report _ => report_fetch_row
  | .tag_report .tag_info => under_registry .tag_reports_lock (tag_info_fetch_row .tag)
  | .tag_report .tag2_info => under_registry .tag_reports_lock (tag_info_fetch_row .tag)
  | .tag_report .tagN_info => under_registry .tag_reports_lock tagN_info_fetch_row
  | .tag_report k =>
    next_report_row .tag_reports_lock .tag active_index by_key (fetch_row_by_script k) (fetch_tag_row k)
  | .rtag_report .rtag_info => under_registry .rtag_reports_lock (tag_info_fetch_row .rtag)
  | .rtag_report .rtag2_info => under_registry .rtag_reports_lock (tag_info_fetch_row .rtag)
  | .rtag_report .rtagN_info => under_registry .rtag_reports_lock (tag_info_fetch_row .rtag)
  | .rtag_report k =>
    next_report_row .rtag_reports_lock .rtag active_index by_key (fetch_row_by_host k) (fetch_rtag_row k)
  | .unknown => return .internal_error

/-- `ha_pinba::read_next_row`. -/
def read_next_row (active_index : Nat) (by_key : Bool) : HandlerProgram HandlerCode := do
  if PINBA_MAX_KEYS ≤ active_index then return .wrong_index
  else do
    let ret ← next_row active_index by_key
    return if ret = .key_not_found then .end_of_file else ret

/-- The first row of a report that is there, in `read_index_first`. -/
def first_row_of (k : TagKind) (report : Nat) : HandlerProgram HandlerCode := do
  lock (.std_lock report)
  let r ← report_memory report
  match r.results.data_first with
  | none => do
    unlock (.std_lock report)
    return .end_of_file
  | some (name, _) => do
    set_index 0 ({ · with str := some (snprintf_s PINBA_MAX_LINE_LEN name) })
    let ret ← fetch_row_by_script k
    unlock (.std_lock report)
    return ret

/-- The report of the table, or a new one. -/
def get_or_regenerate (kind : ReportKind) (regenerate : HandlerProgram (Option Nat)) :
    HandlerProgram (Option Nat) := do
  match ← get_report kind with
  | some report => return some report
  | none => regenerate

/-- The cases of `read_index_first` for the indexed tag reports. -/
def first_report_row (k : TagKind) : HandlerProgram HandlerCode := do
  lock .collector_lock
  lock .tag_reports_lock
  let report ← get_or_regenerate .tag (pinba_regenerate_tag k)
  unlock .collector_lock
  set_index 0 ({ · with str := none, subindex := none })
  match report with
  | some report => do
    let ret ← first_row_of k report
    unlock .tag_reports_lock
    return ret
  | none => do
    unlock .tag_reports_lock
    return .end_of_file

/-- `ha_pinba::read_index_first`. -/
def read_index_first (active_index : Nat) : HandlerProgram HandlerCode := do
  if PINBA_MAX_KEYS ≤ active_index then return .wrong_index
  else do
    let s ← view id
    let p := s.D.pools
    match s.handler.share.table_type with
    | .request =>
      -- all indexes start at the oldest record
      if active_index > 0 then return .wrong_index
      else do
        set_index 0 ({ · with ival := p.request_pool.outPos, position := p.request_pool.outPos })
        let ret ← requests_fetch_row p.request_pool.outPos (some (.position 0)) true
        set_index 0 fun c => { c with ival := c.position }
        return ret
    | .timer =>
      if active_index = 0 then do
        set_index 0 ({ · with ival := p.timer_pool.outPos, position := some 0 })
        timers_fetch_row p.timer_pool.outPos (some (.ival 0)) true
      else do
        set_index 1 ({ · with ival := p.request_pool.outPos, position := some 0 })
        timers_fetch_row_by_request_id p.request_pool.outPos (some (.ival 1))
    | .tag =>
      if active_index = 0 then do
        set_index 0 ({ · with ival := some 0, position := some 0 })
        tags_fetch_row (some 0) (some (.ival 0)) false
      else do
        set_index 1 ({ · with str := none })
        next_tag_name none
    | .timertag =>
      if active_index = 0 then do
        set_index 0 ({ · with ival := p.timer_pool.outPos, position := some 0 })
        tag_values_fetch_by_timer_id
      else return .wrong_index
    | .tag_report .tag_info | .tag_report .tag2_info | .tag_report .tagN_info => return .internal_error
    | .tag_report k => if active_index = 0 then first_report_row k else return .wrong_index
    | .histogram_view =>
      if s.handler.share.hv_table_type = .base_report .report_info then histogram_fetch_row
      else return .end_of_file
    | _ => return .internal_error

/-- `ha_pinba::read_row_by_key`. -/
def read_row_by_key (active_index : Nat) (key : Block UInt8) (key_len : Nat) (exact_ : Bool) :
    HandlerProgram HandlerCode := do
  if PINBA_MAX_KEYS ≤ active_index then return .wrong_index
  else do
    let s ← view id
    let number := key_number key key_len
    match s.handler.share.table_type with
    | .request =>
      -- the exact row, or the first one that is not in front of it
      if active_index > 0 then return .wrong_index
      else do
        let first := s.D.pools.request_pool.outPos
        set_index 0 fun c => { c with ival := if exact_ then number else some (c.ival.getD first) }
        let c ← this_index 0
        let ret ← requests_fetch_row c.ival none exact_
        set_index 0 fun c => if exact_ then c else { c with ival := c.ival.succ }
        return ret
    | .timer => do
      set_index active_index ({ · with ival := number })
      if active_index = 0 then timers_fetch_row number none exact_
      else timers_fetch_row_by_request_id number none
    | .tag =>
      if active_index = 0 then do
        set_index 0 ({ · with ival := number })
        let ret ← tags_fetch_row number (some (.position 0)) exact_
        set_index 0 fun c => { c with ival := c.position }
        return ret
      else do
        set_index 1 fun _ => ⟨some 0, some 0, none, none⟩
        match netstr_to_key key with
        | none => stop
        | some index => do
          let ret ← tags_fetch_row_by_name (index.val.map (Block.string 0))
          set_index 1 ({ · with str := none })
          return ret
    | .timertag =>
      if active_index = 0 then do
        set_index 0 ({ · with ival := number })
        tag_values_fetch_by_timer_id
      else return .wrong_index
    | .histogram_view =>
      if s.handler.share.hv_table_type = .base_report .report_info then histogram_fetch_row
      else if active_index = 0 then do
        load_key key
        histogram_fetch_row_by_key
      else return .wrong_index
    | .tag_report .tag_info | .tag_report .tag2_info | .tag_report .tagN_info => return .internal_error
    | .tag_report k =>
      if active_index = 0 then do
        load_key key
        fetch_row_by_script k
      else return .wrong_index
    | _ => return .internal_error

abbrev set_records (n : Nat) : HandlerProgram Unit := update fun s => { s with handler.records := n }

/-- `stats.records` of a report that may not be there. -/
def report_records (report : Option Nat) : HandlerProgram Unit := do
  set_records 0
  match report with
  | none => return ()
  | some report => do
    lock (.std_lock report)
    let r ← report_memory report
    set_records r.results_cnt
    unlock (.std_lock report)

/-- The report of a table. If it is missing the registry lock, held for reading, is given up and taken again
    behind `collector_lock`. -/
def find_report (registry_lock : EngineLock) (kind : ReportKind) (regenerate : HandlerProgram (Option Nat)) :
    HandlerProgram (Option Nat) := do
  match ← get_report kind with
  | some report => return some report
  | none => do
    unlock registry_lock
    lock .collector_lock
    lock registry_lock
    let report ← regenerate
    unlock registry_lock
    unlock .collector_lock
    lock registry_lock
    return report

/-- `HANDLE_REPORT`, `HANDLE_TAG_REPORT` and `HANDLE_RTAG_REPORT`. -/
def handle_report (registry_lock : EngineLock) (kind : ReportKind)
    (regenerate : HandlerProgram (Option Nat)) : HandlerProgram Unit := do
  lock registry_lock
  let report ← find_report registry_lock kind regenerate
  report_records report
  unlock registry_lock

/-- The case `PINBA_TABLE_REPORT_INFO` of `ha_pinba::info`. -/
def handle_report_info : HandlerProgram Unit := do
  lock .base_reports_lock
  let report ← get_report .base
  unlock .base_reports_lock
  match report with
  | some _ => set_records 1
  | none => do
    lock .collector_lock
    lock .base_reports_lock
    let report ← pinba_regenerate_report
    unlock .base_reports_lock
    unlock .collector_lock
    set_records (if report = none then 0 else 1)

/-- The `switch` of `ha_pinba::info`, with the real type of a histogram view. -/
def info_records (type : TableType) : HandlerProgram Unit := do
  let s ← view id
  match type with
  | .request => do
    lock .collector_lock
    let D ← view (·.D)
    set_records D.pools.request_pool.count
    unlock .collector_lock
  | .timer => do
    lock .collector_lock
    let D ← view (·.D)
    set_records D.pools.timer_pool.count
    unlock .collector_lock
  | .tag => do
    lock .collector_lock
    lock .words_lock
    let D ← view (·.D)
    set_records (KeyedStore.entryCount D.tag.table)
    unlock .words_lock
    unlock .collector_lock
  | .timertag => do
    lock .collector_lock
    let D ← view (·.D)
    set_records D.timertags_cnt
    unlock .collector_lock
  | .histogram_view => set_records s.D.histogram_size
  | .base_report .report_info => handle_report_info
  | .base_report _ => handle_report .base_reports_lock .base pinba_regenerate_report
  | .tag_report k => handle_report .tag_reports_lock .tag (pinba_regenerate_tag k)
  | .rtag_report k => handle_report .rtag_reports_lock .rtag (pinba_regenerate_rtag k)
  | _ => set_records 2

/-- `ha_pinba::info`. -/
def info : HandlerProgram HandlerCode := do
  let s ← view id
  info_records s.handler.share.type
  update fun t =>
    if s.handler.share.table_type = .histogram_view then { t with handler.records := t.D.histogram_size } else t
  return .ok

section exits

open Locked

variable {held : Multiset EngineLock} {s : CallState}

theorem balanced_load_key (key : Block UInt8) : Balanced (load_key key) := by
  intro held
  unfold load_key
  split
  · exact moves_stop
  · exact balanced_update _ _

theorem balanced_fetch_tag_row (k : TagKind) : Balanced (fetch_tag_row k) := by
  unfold fetch_tag_row
  split
  · exact balanced_tagN_report_fetch_row _ _
  · exact balanced_tagN_report_fetch_row _ _
  · exact balanced_tag_report_fetch_row _ _

theorem balanced_fetch_row_by_script (k : TagKind) : Balanced (fetch_row_by_script k) := by
  unfold fetch_row_by_script
  split
  · exact balanced_tagN_report_fetch_row_by_key _
  · exact balanced_tagN_report_fetch_row_by_key _
  · exact balanced_tag_report_fetch_row_by_key _ _

theorem balanced_fetch_rtag_row (k : RtagKind) : Balanced (fetch_rtag_row k) := by
  unfold fetch_rtag_row
  split
  · exact balanced_tagN_report_fetch_row _ _
  · exact balanced_tag_report_fetch_row _ _

theorem balanced_fetch_row_by_host (k : RtagKind) : Balanced (fetch_row_by_host k) := by
  unfold fetch_row_by_host
  split
  · exact balanced_tagN_report_fetch_row_by_key _
  · exact balanced_tag_report_fetch_row_by_key _ _

theorem balanced_under_registry {fetch_row : HandlerProgram HandlerCode} (l : EngineLock)
    (hrow : Balanced fetch_row) : Balanced (under_registry l fetch_row) :=
  fun _ => moves_lock (moves_call hrow fun _ => moves_exit rfl)

theorem balanced_next_tag_name (key : Option Bytes) : Balanced (next_tag_name key) := by
  refine fun held => moves_lock (moves_call (balanced_tag_next_name key) fun found => ?_)
  refine moves_update (moves_unlock ?_)
  cases found with
  | none => exact moves_pure rfl
  | some _ => exact moves_update (balanced_tags_fetch_row_by_name _ held)

/-- The cases of the indexed tag reports keep the registry lock if and only if they read by key and
    the report is not there once the lock is granted. -/
theorem endsWith_next_report_row_iff {fetch_row_by_name fetch_row : HandlerProgram HandlerCode}
    (hname : Balanced fetch_row_by_name) (hrow : Balanced fetch_row) (l : EngineLock) (kind : ReportKind)
    (active_index : Nat) (by_key : Bool) :
    EndsWith (next_report_row l kind active_index by_key fetch_row_by_name fetch_row) ⟨s, held⟩
        (fun _ => held) ↔
      ¬ (by_key = true ∧ (s.wake.D.registry.maps kind).lookup s.handler.share.index = none) := by
  unfold next_report_row
  rw [endsWith_lock]
  cases by_key with
  | false =>
    have hreturn : Moves (do
        let ret ← fetch_row
        unlock l
        return ret) (l ::ₘ held) fun _ => held := moves_call hrow fun _ => moves_exit rfl
    exact iff_of_true (hreturn s.wake) (by simp)
  | true =>
    rw [if_pos rfl, endsWith_view]
    have hindex : s.wake.handler.share.index = s.handler.share.index := rfl
    rw [hindex]
    cases (s.wake.D.registry.maps kind).lookup s.handler.share.index with
    | none =>
      refine iff_of_false (fun h => ?_) (by simp)
      -- the lock is still there
      have hheld : l ::ₘ held = held := h
      exact (Multiset.lt_cons_self held l).ne' hheld
    | some report =>
      have hreturn : Moves (do
          let ret ← fetch_row_by_name
          set_index active_index fun c => if ret ≠ .ok then { c with str := none } else c
          unlock l
          return ret) (l ::ₘ held) fun _ => held :=
        moves_call hname fun _ => moves_update (moves_exit rfl)
      exact iff_of_true (hreturn s.wake) (by simp)

theorem balanced_first_report_row (k : TagKind) : Balanced (first_report_row k) := by
  refine fun held => moves_lock (moves_lock (moves_call ?_ fun report => ?_))
  · -- the report of the table, or a new one
    refine fun held => moves_view fun report => ?_
    cases report with
    | some report => exact moves_pure rfl
    | none => exact balanced_regenerate_tag k held
  · refine moves_unlock_below (moves_update ?_)
    cases report with
    | none => exact moves_exit rfl
    | some report =>
      refine moves_call (fun held => ?_) fun ret => moves_exit rfl
      refine moves_lock (moves_view fun r => ?_)
      split
      · exact moves_exit rfl
      · exact moves_update (moves_call (balanced_fetch_row_by_script k) fun ret => moves_exit rfl)

theorem balanced_report_records (report : Option Nat) : Balanced (report_records report) := by
  refine fun held => moves_update ?_
  cases report with
  | none => exact moves_pure rfl
  | some report => exact moves_lock (moves_view fun r => moves_update (moves_unlock_last rfl))

theorem balanced_handle_report {regenerate : HandlerProgram (Option Nat)} (hregenerate : Balanced regenerate)
    (l : EngineLock) (kind : ReportKind) : Balanced (handle_report l kind regenerate) := by
  refine fun held => moves_lock (@moves_bind _ _ _ _ _ _ _ _ (fun _ => l ::ₘ held) ?_ fun report => ?_)
  · refine moves_view fun report => ?_
    cases report with
    | some report => exact moves_pure rfl
    | none =>
      -- the registry lock is given up and taken again twice
      refine moves_unlock (moves_lock (moves_lock (moves_call hregenerate fun report => ?_)))
      exact moves_unlock (moves_unlock (moves_lock (moves_pure rfl)))
  · exact moves_call (balanced_report_records report) fun _ => moves_unlock_last rfl

theorem balanced_handle_report_info : Balanced handle_report_info := by
  refine fun held => moves_lock (moves_view fun report => moves_unlock ?_)
  cases report with
  | some _ => exact balanced_update _ held
  | none =>
    refine moves_lock (moves_lock (moves_call balanced_regenerate_report fun report => ?_))
    exact moves_unlock (moves_unlock (balanced_update _ held))

theorem balanced_info_records (type : TableType) : Balanced (info_records type) := by
  refine fun held => moves_view fun s => ?_
  cases type with
  | request | timer | timertag => exact moves_lock (moves_view fun D => moves_update (moves_unlock_last rfl))
  | tag =>
    refine moves_lock (moves_lock (moves_view fun D => moves_update ?_))
    exact moves_unlock (moves_unlock_last rfl)
  | histogram_view | unknown | status | active_reports => exact balanced_update _ held
  | base_report k =>
    cases k with
    | report_info => exact balanced_handle_report_info held
    | _ => exact balanced_handle_report balanced_regenerate_report _ _ held
  | tag_report k => exact balanced_handle_report (balanced_regenerate_tag k) _ _ held
  | rtag_report k => exact balanced_handle_report (balanced_regenerate_rtag k) _ _ held

theorem balanced_info : Balanced info :=
  fun _ => moves_view fun s => moves_call (balanced_info_records s.handler.share.type) fun _ =>
    moves_update (moves_pure rfl)

/-- The views of the report of all requests call the one function, the others end. -/
theorem endsWith_histogram_view {other : HandlerProgram HandlerCode} (hother : Balanced other) :
    EndsWith (if s.handler.share.hv_table_type = .base_report .report_info then histogram_fetch_row else other)
      ⟨s, held⟩ fun _ => held :=
  endsWith_ite (fun h => endsWith_histogram_fetch_row h) fun _ => hother held s

theorem balanced_read_index_first (active_index : Nat) : Balanced (read_index_first active_index) := by
  intro held s
  refine endsWith_ite (fun _ => rfl) fun _ => ?_
  rw [endsWith_view]
  dsimp only [id]
  cases s.handler.share.table_type with
  | request =>
    refine endsWith_ite (fun _ => rfl) fun _ => moves_update ?_ s
    exact balanced_then_update (balanced_requests_fetch_row _ _ _) held
  | timer =>
    refine endsWith_ite (fun _ => ?_) fun _ => ?_
    · exact moves_update (balanced_timers_fetch_row _ _ _ held) s
    · exact moves_update (balanced_timers_fetch_row_by_request_id _ _ held) s
  | tag =>
    refine endsWith_ite (fun _ => ?_) fun _ => ?_
    · exact moves_update (balanced_tags_fetch_row _ _ _ held) s
    · exact moves_update (balanced_next_tag_name _ held) s
  | timertag =>
    exact endsWith_ite (fun _ => moves_update (balanced_tag_values_fetch_by_timer_id held) s) fun _ => rfl
  | histogram_view => exact endsWith_histogram_view (balanced_pure _)
  | tag_report k =>
    cases k with
    | tag_info | tag2_info | tagN_info => rfl
    | _ => exact endsWith_ite (fun _ => balanced_first_report_row _ held s) fun _ => rfl
  | unknown | status | active_reports | base_report | rtag_report => rfl

theorem balanced_read_row_by_key (active_index : Nat) (key : Block UInt8) (key_len : Nat) (exact_ : Bool) :
    Balanced (read_row_by_key active_index key key_len exact_) := by
  intro held s
  refine endsWith_ite (fun _ => rfl) fun _ => ?_
  rw [endsWith_view]
  dsimp only [id]
  cases s.handler.share.table_type with
  | request =>
    refine endsWith_ite (fun _ => rfl) fun _ => moves_update (moves_view fun c => ?_) s
    exact balanced_then_update (balanced_requests_fetch_row c.ival none exact_) held
  | timer =>
    refine moves_update (moves_ite (fun _ => ?_) fun _ => ?_) s
    · exact balanced_timers_fetch_row _ _ _ held
    · exact balanced_timers_fetch_row_by_request_id _ _ held
  | tag =>
    refine endsWith_ite (fun _ => moves_update ?_ s) fun _ => moves_update ?_ s
    · exact balanced_then_update (balanced_tags_fetch_row _ _ _) held
    · split
      · exact moves_stop
      · exact balanced_then_update (balanced_tags_fetch_row_by_name _) held
  | timertag =>
    exact endsWith_ite (fun _ => moves_update (balanced_tag_values_fetch_by_timer_id held) s) fun _ => rfl
  | histogram_view =>
    refine endsWith_histogram_view fun held => moves_ite (fun _ => ?_) fun _ => moves_pure rfl
    exact moves_call (balanced_load_key key) fun _ => balanced_histogram_fetch_row_by_key held
  | tag_report k =>
    cases k with
    | tag_info | tag2_info | tagN_info => rfl
    | _ =>
      refine endsWith_ite (fun _ => moves_call (balanced_load_key key) (fun _ => ?_) s) fun _ => rfl
      exact balanced_fetch_row_by_script _ held
  | unknown | status | active_reports | base_report | rtag_report => rfl

end exits

/-! ## Section 3: What the calls give back -/

/-- The functions of the handler that read rows or count them, with their arguments. -/
inductive HandlerCall where
  | read_next_row (active_index : Nat) (by_key : Bool)
  | read_index_first (active_index : Nat)
  | read_row_by_key (active_index : Nat) (key : Block UInt8) (key_len : Nat) (exact_ : Bool)
  | info

def HandlerCall.program : HandlerCall → HandlerProgram HandlerCode
  | .read_next_row active_index by_key => ha_pinba.read_next_row active_index by_key
  | .read_index_first active_index => ha_pinba.read_index_first active_index
  | .read_row_by_key active_index key key_len exact_ => ha_pinba.read_row_by_key active_index key key_len exact_
  | .info => ha_pinba.info

/-- The call gives back no lock that is not held, and if it returns the thread holds the same
    locks as on entry. -/
def GivesBack (call : HandlerCall) (t : Thread CallState EngineLock) : Prop :=
  EndsWith call.program t fun _ => t.held

/-- The tables whose reports keep their rows per name, with the registry of these reports. -/
def indexed_kind : TableType → Option ReportKind
  | .tag_report k => if k.nested then some .tag else none
  | .rtag_report k => if k.nested then some .rtag else none
  | _ => none

/-- The table is one of these, and its report is not in the registry once the lock of the registry is
    granted. -/
def ReportMissing (s : CallState) : Prop :=
  ∃ kind, indexed_kind s.handler.share.table_type = some kind ∧
    (s.wake.D.registry.maps kind).lookup s.handler.share.index = none

/-- The next row of an indexed report is read by key, and the report is missing. -/
def LeavesEarly (s : CallState) : HandlerCall → Prop
  | .read_next_row active_index by_key => active_index < PINBA_MAX_KEYS ∧ by_key = true ∧ ReportMissing s
  | _ => False

section calls

open Locked

variable {s : CallState} {held : Multiset EngineLock}

/-- One case per type of table. -/
theorem endsWith_next_row_iff (active_index : Nat) (by_key : Bool) :
    EndsWith (next_row active_index by_key) ⟨s, held⟩ (fun _ => held) ↔
      ¬ (by_key = true ∧ ReportMissing s) := by
  -- only reports of the two registries can be missing
  have htag := fun k => @endsWith_next_report_row_iff held s _ _ (balanced_fetch_row_by_script k)
    (balanced_fetch_tag_row k) .tag_reports_lock .tag active_index by_key
  have hrtag := fun k => @endsWith_next_report_row_iff held s _ _ (balanced_fetch_row_by_host k)
    (balanced_fetch_rtag_row k) .rtag_reports_lock .rtag active_index by_key
  unfold next_row ReportMissing
  rw [endsWith_view]
  dsimp only [id]
  cases s.handler.share.table_type with
  | tag_report k =>
    cases k with
    | tag_info | tag2_info =>
      refine iff_of_true ?_ (by simp [indexed_kind])
      exact balanced_under_registry _ (balanced_tag_info_fetch_row .tag) held s
    | tagN_info =>
      refine iff_of_true ?_ (by simp [indexed_kind])
      exact balanced_under_registry _ balanced_tagN_info_fetch_row held s
    | _ => simpa [indexed_kind] using htag _
  | rtag_report k =>
    cases k with
    | rtag_info | rtag2_info | rtagN_info =>
      refine iff_of_true ?_ (by simp [indexed_kind])
      exact balanced_under_registry _ (balanced_tag_info_fetch_row .rtag) held s
    | _ => simpa [indexed_kind] using hrtag _
  | request =>
    refine iff_of_true (endsWith_ite (fun _ => rfl) fun _ => ?_) (by simp [indexed_kind])
    exact balanced_then_update (balanced_requests_fetch_row _ _ _) held s
  | timer =>
    refine iff_of_true (endsWith_ite (fun _ => ?_) fun _ => ?_) (by simp [indexed_kind])
    · exact balanced_timers_fetch_row _ _ _ held s
    · exact balanced_timers_fetch_row_by_request_id _ _ held s
  | tag =>
    refine iff_of_true (endsWith_ite (fun _ => ?_) fun _ => ?_) (by simp [indexed_kind])
    · exact balanced_then_update (balanced_tags_fetch_row _ _ _) held s
    · exact balanced_next_tag_name _ held s
  | timertag =>
    refine iff_of_true ?_ (by simp [indexed_kind])
    exact balanced_then_update balanced_tag_values_fetch_next held s
  | histogram_view =>
    refine iff_of_true (endsWith_histogram_view fun held => ?_) (by simp [indexed_kind])
    refine moves_ite (fun _ => moves_pure rfl) fun _ => moves_ite (fun _ => ?_) fun _ => moves_pure rfl
    exact balanced_histogram_fetch_row_by_key held
  | status => exact iff_of_true (balanced_status_fetch_row held s) (by simp [indexed_kind])
  | active_reports => exact iff_of_true (balanced_active_reports_fetch_row held s) (by simp [indexed_kind])
  | base_report k =>
    refine iff_of_true ?_ (by simp [indexed_kind])
    cases k with
    | report_info => exact balanced_info_fetch_row held s
    | _ => exact balanced_report_fetch_row held s
  | unknown => exact iff_of_true rfl (by simp [indexed_kind])

/-- For every call, whatever the data, the other threads and the locks held on entry. -/
theorem handler_gives_back_iff (call : HandlerCall) (t : Thread CallState EngineLock) :
    GivesBack call t ↔ ¬ LeavesEarly t.data call := by
  obtain ⟨s, held⟩ := t
  unfold GivesBack
  cases call with
  | read_index_first active_index => exact iff_of_true (balanced_read_index_first active_index held s) id
  | read_row_by_key active_index key key_len exact_ =>
    exact iff_of_true (balanced_read_row_by_key active_index key key_len exact_ held s) id
  | info => exact iff_of_true (balanced_info held s) id
  | read_next_row active_index by_key =>
    show EndsWith (read_next_row active_index by_key) ⟨s, held⟩ (fun _ => held) ↔ _
    unfold read_next_row LeavesEarly
    by_cases hindex : PINBA_MAX_KEYS ≤ active_index
    · rw [if_pos hindex]
      exact iff_of_true rfl fun h => absurd h.1 (by omega)
    · rw [if_neg hindex, endsWith_map_iff, endsWith_next_row_iff]
      simp only [not_le.mp hindex, true_and]

end calls

/-- A handler of a table `tag_report:t`, before the tag `t` was seen. -/
def no_report : CallState where
  D :=
    { pools := .init 2 2
      timertags_cnt := 0
      tag := .init
      settings := ⟨0, false⟩
      dictionary := .init
      registry := ⟨∅, fun _ => ∅, fun _ => ⟨none, 0⟩, ∅⟩
      reports := fun _ => ⟨∅, 0, 0⟩
      histogram_size := 512 }
  handler :=
    { share := ⟨.tag_report .tag_report, .unknown, .tag, [ascii "t"], [], [], ascii "30|t"⟩
      active_index := 0
      this_index := fun _ => ⟨some 0, some 0, none, none⟩
      tag_cursor := none
      read_set := [0]
      records := 0 }
  others := fun _ D => D
  memory := fun _ => none
  turn := 0
  fuel := 8

theorem missing_report_keeps_lock : ¬ GivesBack (.read_next_row 0 true) ⟨no_report, 0⟩ := by
  intro h
  have hheld : ({.tag_reports_lock} : Multiset EngineLock) = 0 := h
  exact Multiset.singleton_ne_zero _ hheld

end ha_pinba

end PinbaEngine
