import PinbaEngine.Lib.Calls
import PinbaEngine.RawTables

/-! # Scans of the raw tables

    What the server gets from the tables `request` and `timer` while the pools do not
    change: from a full scan, from `index_read` and `index_next` on the slot of a row,
    and from the same calls on the request of a timer.

    - Scans need little of the pools. The slots of the live records hold a time, and
      the live timers name the live records, in ring order and as often as the
      records have timers (`Live`). No event breaks that, not even a growth of the
      timer pool that misses a record.
    - `index_read` leaves the cursor at the row that it returns, and the next call
      returns that row once more.
    - Reads by request go through the positions that the records claim, so they agree
      with the full scan exactly as long as the records tile the timer pool.
-/

namespace PinbaEngine

open Circular

/-! ## Section 1: Live timers name live records -/

/-- The slots, each as often as its record has timers. -/
def names (slots : List Nat) (cnts : List Nat) : List Nat :=
  (slots.zip cnts).flatMap fun e => List.replicate e.2 e.1

namespace TimerState

variable {s : TimerState} {shares : List (List (List RequestTimer))} {realloc_ok : Bool}

/-- What the live timers name. -/
def named_slots (pool : CircularBuffer PoolTimer) : List Nat :=
  pool.live.map fun i => (pool.data i).request_id

/-- What they name if they belong to the live records in ring order. -/
def record_slots (entries : List (Nat × TimerOwner)) : List Nat :=
  entries.flatMap fun e => List.replicate e.2.timers_cnt e.1

def Numbered (s : TimerState) : Prop :=
  named_slots s.timer_pool = record_slots s.request_pool.contents

theorem length_record_slots (entries : List (Nat × TimerOwner)) :
    (record_slots entries).length = (entries.map fun e => e.2.timers_cnt).sum := by
  simp [record_slots, List.length_flatMap]

/-- Only the counts of the records matter. -/
theorem record_slots_repaired {records : Nat → TimerOwner} {entries : List (Nat × TimerOwner)}
    (h : ∀ e ∈ entries, (records e.1).timers_cnt = e.2.timers_cnt) :
    record_slots (repaired records entries) = record_slots entries := by
  unfold record_slots repaired
  rw [List.flatMap_map]
  apply List.flatMap_congr
  intro e he
  rw [h e he]

theorem record_slots_zip {slots : List Nat} {owners : List TimerOwner} :
    record_slots (slots.zip owners) = names slots (owners.map TimerOwner.timers_cnt) := by
  rw [record_slots, names, List.zip_map_right, List.flatMap_map]
  rfl

/-- What a share names. -/
theorem map_share_owned {slots : List Nat} {ts : List (List RequestTimer)} :
    (share_owned (slots.zip ts)).map PoolTimer.request_id =
      names slots (ts.map pinba_stored_timer_count) := by
  rw [share_owned, names, List.map_flatMap, List.zip_map_right, List.flatMap_map]
  apply List.flatMap_congr
  intro e _
  show (owned e.1 (stored_timers e.2)).map PoolTimer.request_id =
    List.replicate (pinba_stored_timer_count e.2) e.1
  rw [owned, List.map_map, ← length_stored_timers]
  exact List.map_const'

theorem numbered_admit_bare (h : shares.flatten.length ≤ s.request_pool.free) (hs : s.Numbered) :
    (s.admit_bare h).Numbered := by
  have hcontents : (s.admit_bare h).request_pool.contents = s.request_pool.contents ++
      (s.request_pool.ahead shares.flatten.length).zip
        (List.replicate shares.flatten.length ⟨0, 0⟩) := by
    rw [admit_bare, CircularBuffer.contents_append, List.length_replicate]
  have hnew : record_slots ((s.request_pool.ahead shares.flatten.length).zip
      (List.replicate shares.flatten.length (⟨0, 0⟩ : TimerOwner))) = [] := by
    rw [record_slots, List.flatMap_eq_nil_iff]
    intro e he
    rw [List.eq_of_mem_replicate (List.of_mem_zip he).2]
    rfl
  unfold Numbered record_slots
  rw [hcontents, List.flatMap_append]
  show named_slots s.timer_pool = record_slots s.request_pool.contents ++ record_slots _
  rw [hnew, List.append_nil, hs]

/-- Reserving timers moves the live ones at most, and the reserved ones come after them. -/
theorem timer_pool_add_base {pool pool' : CircularBuffer PoolTimer}
    {records records' : Nat → TimerOwner} {timers_cnt id : Nat}
    (h : timer_pool_add pool records timers_cnt realloc_ok = some (id, pool', records')) :
    ∃ base hroom, pool' = CircularBuffer.publish base timers_cnt hroom ∧ id = base.inPos ∧
      named_slots base = named_slots pool := by
  unfold timer_pool_add at h
  split at h
  · split at h
    · obtain ⟨rfl, rfl, rfl⟩ : _ ∧ _ ∧ _ := by simpa using h
      refine ⟨_, _, rfl, (CircularBuffer.inPos_grow _).symm, ?_⟩
      rw [named_slots, pool.live_grow, List.map_map]
      apply List.map_congr_left
      intro i hi
      rw [Function.comp_apply, pool.data_grow hi]
    · exact absurd h (by simp)
  · obtain ⟨rfl, rfl, rfl⟩ : _ ∧ _ ∧ _ := by simpa using h
    exact ⟨pool, _, rfl, rfl, rfl⟩

/-- Writing behind the live timers. -/
theorem named_slots_publish {base : CircularBuffer PoolTimer} {cnt : Nat} (hroom : cnt ≤ base.free)
    {timers : List PoolTimer} (hlen : timers.length = cnt) :
    named_slots ((base.publish cnt hroom).setData
      (writeFrom base.size base.inPos timers base.data)) =
      named_slots base ++ timers.map PoolTimer.request_id := by
  have hsize := base.count_add_free
  have hnew : (base.ahead cnt).map (writeFrom base.size base.inPos timers base.data) = timers := by
    rw [← hlen]
    exact map_writeFrom base.in_lt (by omega) base.data
  -- the live timers are not among the slots that are written
  have hold : ∀ i ∈ base.live, writeFrom base.size base.inPos timers base.data i = base.data i := by
    intro i hi
    apply writeFrom_of_notMem
    rw [hlen]
    exact (List.nodup_append'.mp (base.nodup_live_append_ahead hroom)).2.2 hi
  unfold named_slots
  rw [CircularBuffer.live_setData, base.live_publish hroom, CircularBuffer.data_setData,
    List.map_append]
  congr 1
  · apply List.map_congr_left
    intro i hi
    rw [hold i hi]
  · conv_rhs => rw [← hnew, List.map_map]
    rfl

theorem numbered_admit_timers (h : shares.flatten.length ≤ s.request_pool.free) {id : Nat}
    {pool : CircularBuffer PoolTimer} {records : Nat → TimerOwner}
    (hr : s.reserved shares realloc_ok = some (id, pool, records)) (hs : s.Numbered) :
    (s.admit_timers realloc_ok h hr).Numbered := by
  obtain ⟨-, hcnt⟩ := timer_pool_add_count hr
  obtain ⟨base, hroom, rfl, rfl, hbase⟩ := timer_pool_add_base hr
  have hsize := base.count_add_free
  have hsum := share_timers_placed h
  have hin := base.in_lt
  obtain ⟨-, hdata⟩ := merge_shares_spec
    (show 0 + base.inPos + share_timers (s.placed shares).flatten < 2 * base.size by omega)
    (show share_timers (s.placed shares).flatten ≤ base.size by omega) base.data
  rw [Nat.zero_add, Nat.mod_eq_of_lt hin] at hdata
  have hlen : (share_owned (s.placed shares).flatten).length = timers_added shares := by
    rw [length_share_owned, hsum]
  have hpool : (s.admit_timers realloc_ok h hr).timer_pool =
      (base.publish (timers_added shares) hroom).setData (writeFrom base.size base.inPos
        (share_owned (s.placed shares).flatten) base.data) :=
    congrArg (CircularBuffer.setData (base.publish (timers_added shares) hroom)) hdata
  -- the old records keep their counts, the new ones have those of the batch
  have hold : record_slots (repaired records s.request_pool.contents) =
      record_slots s.request_pool.contents := by
    apply record_slots_repaired
    intro e he
    rw [hcnt, copied_of_mem h he]
  unfold Numbered
  rw [hpool, named_slots_publish hroom hlen, hbase, hs, contents_admit_timers, s.flatten_placed h,
    map_share_owned, ← s.map_timers_cnt_merged h base.inPos
      (base.publish (timers_added shares) hroom), ← record_slots_zip, ← hold]
  exact (List.flatMap_append ..).symm

theorem numbered_ingest (h : shares.flatten.length ≤ s.request_pool.free) (hs : s.Numbered) :
    (s.ingest shares h realloc_ok).Numbered := by
  unfold ingest
  split
  · exact numbered_admit_bare h hs
  · split
    · exact numbered_admit_bare h hs
    · exact numbered_admit_timers h _ hs

/-- Clearing a timer leaves the slot that it names. -/
theorem request_id_clear (pool : CircularBuffer PoolTimer) (records : List TimerOwner) (i : Nat) :
    (clear_record_timers_func pool records i).request_id = (pool.data i).request_id := by
  -- one record after the other, and its timers one after the other
  have hinner : ∀ (record : TimerOwner) (js : List Nat) (data : Nat → PoolTimer),
      (js.foldl (fun data j =>
        let id := record_get_timer_id pool record j
        Function.update data id (data id).cleared) data i).request_id = (data i).request_id := by
    intro record js
    induction js with
    | nil => intro data; rfl
    | cons j js ih =>
      intro data
      rw [List.foldl_cons, ih]
      by_cases hi : i = record_get_timer_id pool record j
      · subst hi
        simp [PoolTimer.cleared]
      · simp [Function.update_of_ne hi]
  unfold clear_record_timers_func
  generalize pool.data = data
  induction records generalizing data with
  | nil => rfl
  | cons record records ih => rw [List.foldl_cons, ih, hinner record]

theorem numbered_expire {n : Nat} (h : n ≤ s.request_pool.count) (hs : s.Numbered) :
    (s.expire n h).Numbered := by
  have hfront : (record_slots (s.request_pool.contents.take n)).length = s.deleted_timer_cnt n := by
    rw [length_record_slots, deleted_timer_cnt, expired, List.map_map]
    rfl
  have hsplit : record_slots s.request_pool.contents =
      record_slots (s.request_pool.contents.take n) ++ record_slots (s.request_pool.contents.drop n) := by
    unfold record_slots
    rw [← List.flatMap_append, List.take_append_drop]
  have hpool : named_slots (s.expire n h).timer_pool =
      (named_slots s.timer_pool).drop (s.deleted_timer_cnt n) := by
    unfold named_slots
    rw [expire, CircularBuffer.live_dropFront, CircularBuffer.live_setData, ← List.map_drop]
    apply List.map_congr_left
    intro i _
    exact request_id_clear s.timer_pool (s.expired n) i
  unfold Numbered
  rw [hpool, hs, hsplit, List.drop_left' hfront, expire, CircularBuffer.contents_dropFront]

end TimerState

/-! ## Section 2: What scans rely on -/

namespace RawPools

variable {p : RawPools} {ok : RawPools → RawEvent → Prop} {i : Nat}

structure Live (p : RawPools) : Prop where
  kept : ∀ i ∈ p.request_pool.live, p.stamped i = true ∧ (p.slots i).active = true
  numbered : p.toTimerState.Numbered

theorem kept_ingest {now : Timeval} {shares : List (List RawRequest)} {realloc_ok : Bool}
    (h : (timers_of shares).flatten.length ≤ p.request_pool.free) (hnow : now.tv_sec ≠ 0)
    (hp : p.Live) (hi : i ∈ (p.ingest now shares h realloc_ok).request_pool.live) :
    (p.ingest now shares h realloc_ok).stamped i = true ∧
      ((p.ingest now shares h realloc_ok).slots i).active = true := by
  have hnodup := List.nodup_append'.mp (p.request_pool.nodup_live_append_ahead h)
  have hlive : (p.ingest now shares h realloc_ok).request_pool.live =
      p.request_pool.live ++ p.request_pool.ahead (timers_of shares).flatten.length :=
    TimerState.live_ingest _ h
  rw [hlive, List.mem_append] at hi
  rcases hi with hold | hnew
  · have hsame : (p.ingest now shares h realloc_ok).slots i = p.slots i :=
      stamped_ingest h (hnodup.2.2 hold)
    rw [stamped, hsame]
    exact hp.kept i hold
  -- a new slot holds one of the records of the batch
  · have hlen : (timers_of shares).flatten.length = shares.flatten.length := by
      rw [flatten_timers_of, List.length_map]
    have hfree := p.request_pool.count_add_free
    have hmem : (p.ingest now shares h realloc_ok).slots i ∈
        shares.flatten.map fun r => (⟨r.1, now, true⟩ : RawSlot) := by
      apply writeFrom_mem p.request_pool.in_lt
      · rw [List.length_map]
        omega
      · rw [List.length_map, ← hlen]
        exact hnew
    obtain ⟨r, -, hr⟩ := List.mem_map.mp hmem
    rw [stamped, ← hr]
    exact ⟨decide_eq_true hnow, rfl⟩

theorem kept_expire {n : Nat} (h : n ≤ p.request_pool.count) (hp : p.Live)
    (hi : i ∈ (p.expire n h).request_pool.live) :
    (p.expire n h).stamped i = true ∧ ((p.expire n h).slots i).active = true := by
  have hlive : (p.expire n h).request_pool.live = p.request_pool.live.drop n :=
    p.request_pool.live_dropFront h
  rw [hlive] at hi
  have hnodup := p.request_pool.nodup_live
  rw [← List.take_append_drop n p.request_pool.live, List.nodup_append'] at hnodup
  have hsame : (p.expire n h).slots i = p.slots i := if_neg fun htake => hnodup.2.2 htake hi
  rw [stamped, hsame]
  exact hp.kept i (List.mem_of_mem_drop hi)

/-- Nothing is left after a deletion. -/
theorem delete_all_rows_empty (p : RawPools) :
    p.delete_all_rows.request_pool.contents = [] ∧ p.delete_all_rows.timer_pool.live = [] := by
  refine ⟨CircularBuffer.contents_blank _ _, ?_⟩
  rw [← List.length_eq_zero_iff, CircularBuffer.length_live]
  show (p.timer_pool.dropFront p.timer_pool.count le_rfl).count = 0
  rw [CircularBuffer.count_dropFront, Nat.sub_self]

theorem live_of_empty (hring : p.request_pool.contents = []) (hpool : p.timer_pool.live = []) :
    p.Live := by
  constructor
  · intro i hi
    rw [← CircularBuffer.map_fst_contents, hring] at hi
    cases hi
  · unfold TimerState.Numbered TimerState.named_slots
    rw [hring, hpool]
    rfl

theorem live_of_run (hrun : Run ok p) : p.Live := by
  induction hrun with
  | start requests timers h =>
    apply live_of_empty
    · exact CircularBuffer.contents_blank _ _
    · rw [← CircularBuffer.map_fst_contents]
      exact congrArg (List.map Prod.fst) (CircularBuffer.contents_blank _ _)
  | ingest now shares h realloc_ok _ hnow _ ih =>
    exact ⟨fun i hi => kept_ingest h hnow ih hi, TimerState.numbered_ingest h ih.numbered⟩
  | @leftovers p records slots h hslots _ _ ih =>
    -- the live slots and their records are as they were
    constructor
    · intro i hi
      have hsame : (p.leftovers records slots h).slots i = p.slots i := hslots i hi
      rw [stamped, hsame]
      exact ih.kept i hi
    · have hnumbered := ih.numbered
      unfold TimerState.Numbered at hnumbered ⊢
      rw [← p.contents_of_live h] at hnumbered
      exact hnumbered
  | expire n h _ _ ih =>
    exact ⟨fun i hi => kept_expire h ih hi, TimerState.numbered_expire h ih.numbered⟩
  | @delete_all_rows p _ _ _ =>
    obtain ⟨hring, hpool⟩ := p.delete_all_rows_empty
    exact live_of_empty hring hpool

/-- A live timer names a live record with timers. -/
theorem Live.request_of_live (hp : p.Live) (hi : i ∈ p.timer_pool.live) :
    p.request_of i ∈ p.request_pool.live ∧ p.named_cnt i ≠ 0 := by
  have hmem : p.request_of i ∈ TimerState.named_slots p.timer_pool := List.mem_map_of_mem hi
  rw [hp.numbered, TimerState.record_slots, List.mem_flatMap] at hmem
  obtain ⟨e, he, hrep⟩ := hmem
  obtain ⟨hcnt, hslot⟩ := List.mem_replicate.mp hrep
  obtain ⟨slot, hslot', rfl⟩ := List.mem_map.mp he
  have hslot : p.request_of i = slot := hslot
  refine ⟨?_, ?_⟩
  · rwa [hslot]
  · rw [named_cnt, hslot]
    exact hcnt

theorem Live.timer (hp : p.Live) (hi : i ∈ p.timer_pool.live) :
    p.named i = true ∧ p.named_cnt i ≠ 0 := by
  obtain ⟨hlive, hcnt⟩ := hp.request_of_live hi
  exact ⟨(hp.kept _ hlive).1, hcnt⟩

end RawPools

/-! ## Section 3: Calls of a table -/

/-- A call that ends with this answer and leaves this cursor. -/
def Answering (call : Nat → RawCursor → Option (RawAnswer × RawCursor)) (c : RawCursor)
    (a : RawAnswer) (c' : RawCursor) : Prop := ∃ fuel, call fuel c = some (a, c')

/-- More turns do not change what a call has answered. -/
def Settled (call : Nat → RawCursor → Option (RawAnswer × RawCursor)) : Prop :=
  ∀ m n c r, m ≤ n → call m c = some r → call n c = some r

theorem deterministic_answering {call : Nat → RawCursor → Option (RawAnswer × RawCursor)}
    (h : Settled call) : Deterministic (Answering call) := by
  rintro c a t a' t' ⟨m, hm⟩ ⟨n, hn⟩
  have hr := h m (max m n) c _ (Nat.le_max_left m n) hm
  rw [h n (max m n) c _ (Nat.le_max_right m n) hn, Option.some.injEq, Prod.mk.injEq] at hr
  exact ⟨hr.1.symm, hr.2.symm⟩

/-- The two tables, read by slot. -/
inductive RawTable where
  | request
  | timer

def RawTable.key : RawTable → RawKey
  | .request => .request
  | .timer => .timer

namespace RawPools

variable (p : RawPools)

/-- The live slots of a table, oldest first. -/
def live : RawTable → List Nat
  | .request => p.request_pool.live
  | .timer => p.timer_pool.live

def row : RawTable → Nat → RawRow
  | .request => p.request_row
  | .timer => p.timer_row

/-- The slots of a table from `index` on. -/
def from_slot (table : RawTable) (index : SizeT) : List Nat :=
  match table with
  | .request => following p.request_pool (index.getD p.request_pool.outPos)
  | .timer => following p.timer_pool (index.getD p.timer_pool.outPos)

/-- What the cursor has still ahead is live. -/
def Ahead (table : RawTable) (slots : List Nat) (c : RawCursor) : Prop :=
  p.from_slot table c.ival = slots ∧ ∀ i ∈ slots, i ∈ p.live table

variable {p} {table : RawTable} {slots : List Nat} {c : RawCursor} {i k : Nat} {key : RawKey}
  {ok : RawPools → RawEvent → Prop}

theorem settled_read_next_row (key : RawKey) : Settled fun fuel => p.read_next_row fuel key := by
  intro m n c r hmn h
  cases key with
  | request =>
    obtain ⟨x, hx, rfl⟩ := Option.map_eq_some_iff.mp h
    exact Option.map_eq_some_iff.mpr ⟨x, turns_mono hmn hx, rfl⟩
  | timer =>
    obtain ⟨x, hx, rfl⟩ := Option.map_eq_some_iff.mp h
    exact Option.map_eq_some_iff.mpr ⟨x, turns_mono hmn hx, rfl⟩
  | timer_request_id => exact h

theorem settled_index_next (key : RawKey) : Settled fun fuel => p.index_next fuel key := by
  intro m n c r hmn h
  obtain ⟨x, hx, rfl⟩ := Option.map_eq_some_iff.mp h
  exact Option.map_eq_some_iff.mpr ⟨x, settled_read_next_row key m n c x hmn hx, rfl⟩

theorem settled_index_read (key : RawKey) (k : Nat) :
    Settled fun fuel => p.index_read fuel key k := by
  intro m n c r hmn h
  obtain ⟨x, hx, rfl⟩ := Option.map_eq_some_iff.mp h
  refine Option.map_eq_some_iff.mpr ⟨x, ?_, rfl⟩
  cases key with
  | request =>
    obtain ⟨y, hy, rfl⟩ := Option.map_eq_some_iff.mp hx
    exact Option.map_eq_some_iff.mpr ⟨y, turns_mono hmn hy, rfl⟩
  | timer =>
    obtain ⟨y, hy, rfl⟩ := Option.map_eq_some_iff.mp hx
    exact Option.map_eq_some_iff.mpr ⟨y, turns_mono hmn hy, rfl⟩
  | timer_request_id => exact hx

/-- At the end of the table. -/
theorem read_next_row_end (h : p.from_slot table c.ival = []) :
    ∃ c', Answering (fun fuel => p.read_next_row fuel table.key) c .end_of_file c' ∧
      p.from_slot table c'.ival = [] := by
  cases table with
  | request =>
    obtain ⟨g, ⟨fuel, hfuel⟩, hnil⟩ := retry_again_none (p := p)
      (f := ⟨c.ival.getD p.request_pool.outPos, c.ival.getD p.request_pool.outPos, c.position⟩)
      (by show List.dropWhile _ (p.from_slot .request c.ival) = []; rw [h]; rfl)
    exact ⟨_, ⟨fuel, Option.map_eq_some_iff.mpr ⟨_, hfuel, rfl⟩⟩, hnil⟩
  | timer =>
    obtain ⟨g, ⟨fuel, hfuel⟩, hnew⟩ := try_next_none true (p := p)
      (f := ⟨c.ival.getD p.timer_pool.outPos, c.ival.getD p.timer_pool.outPos, c.position⟩)
      (by show List.dropWhile _ (p.from_slot .timer c.ival) = []; rw [h]; rfl)
    refine ⟨_, ⟨fuel, Option.map_eq_some_iff.mpr ⟨_, hfuel, rfl⟩⟩, ?_⟩
    show following p.timer_pool g.new_index = []
    rw [hnew]
    exact h

/-- At a live slot. -/
theorem read_next_row_row (hp : p.Live) (h : p.Ahead table (i :: slots) c) :
    ∃ c', Answering (fun fuel => p.read_next_row fuel table.key) c (.row (p.row table i)) c' ∧
      p.Ahead table slots c' := by
  obtain ⟨hfrom, hlive⟩ := h
  have hrest : ∀ j ∈ slots, j ∈ p.live table := fun j hj => hlive j (List.mem_cons_of_mem _ hj)
  cases table with
  | request =>
    have hkeep : (p.from_slot .request c.ival).dropWhile (fun i => !p.stamped i) = i :: slots := by
      rw [hfrom]
      exact dropWhile_of_good fun j hj => (hp.kept j (hlive j hj)).1
    -- nothing is passed over: live slots hold records
    obtain ⟨g, ⟨fuel, hfuel⟩, hnew⟩ := retry_again_some (p := p)
      (f := ⟨c.ival.getD p.request_pool.outPos, c.ival.getD p.request_pool.outPos, c.position⟩) hkeep
    refine ⟨_, ⟨fuel, Option.map_eq_some_iff.mpr ⟨_, hfuel, rfl⟩⟩, ?_, hrest⟩
    show following p.request_pool g.new_index = slots
    rw [hnew]
    exact (following_eq_cons hfrom).2.2.2
  | timer =>
    have hkeep : (p.from_slot .timer c.ival).dropWhile (fun i => !p.named i) = i :: slots := by
      rw [hfrom]
      exact dropWhile_of_good fun j hj => (hp.timer (hlive j hj)).1
    obtain ⟨g, ⟨fuel, hfuel⟩, hnew⟩ := try_next_some true (p := p)
      (f := ⟨c.ival.getD p.timer_pool.outPos, c.ival.getD p.timer_pool.outPos, c.position⟩) hkeep
      (hp.timer (hlive i List.mem_cons_self)).2
    refine ⟨_, ⟨fuel, Option.map_eq_some_iff.mpr ⟨_, hfuel, rfl⟩⟩, ?_, hrest⟩
    show following p.timer_pool g.new_index = slots
    rw [hnew]
    exact (following_eq_cons hfrom).2.2.2

/-- The wrapper only counts. -/
theorem answering_index_next {a : RawAnswer} {c' : RawCursor}
    (h : Answering (fun fuel => p.read_next_row fuel key) c a c') :
    Answering (fun fuel => p.index_next fuel key) c a (a.count c') := by
  obtain ⟨fuel, hfuel⟩ := h
  exact ⟨fuel, Option.map_eq_some_iff.mpr ⟨_, hfuel, rfl⟩⟩

theorem ival_count (a : RawAnswer) (c : RawCursor) : (a.count c).ival = c.ival := by
  cases a <;> rfl

/-- The first answers of a scan of the slots. -/
def answers (p : RawPools) (table : RawTable) (slots : List Nat) (n : Nat) : List RawAnswer :=
  firstAnswers (fun i => .row (p.row table i)) .end_of_file slots n

theorem calls_index_next (hp : p.Live) (h : p.Ahead table slots c) (n : Nat) :
    Calls (Answering fun fuel => p.index_next fuel table.key)
      (Answering fun fuel => p.index_next fuel table.key) c (p.answers table slots n) := by
  apply calls_ahead (p.Ahead table) _ _ h
  · rintro c ⟨hfrom, -⟩
    obtain ⟨c', hanswer, hnil⟩ := read_next_row_end hfrom
    exact ⟨_, answering_index_next hanswer, hnil, fun i hi => absurd hi List.not_mem_nil⟩
  · intro i slots c hc
    obtain ⟨c', hanswer, hfrom, hlive⟩ := read_next_row_row hp hc
    exact ⟨_, answering_index_next hanswer, (congrArg (p.from_slot table) (ival_count _ c')).trans hfrom,
      hlive⟩

theorem calls_rnd_next (hp : p.Live) (h : p.Ahead table slots c) (n : Nat) :
    Calls (Answering fun fuel => p.rnd_next fuel table.key)
      (Answering fun fuel => p.rnd_next fuel table.key) c (p.answers table slots n) := by
  apply calls_ahead (p.Ahead table) _ _ h
  · rintro c ⟨hfrom, -⟩
    obtain ⟨c', hanswer, hnil⟩ := read_next_row_end hfrom
    exact ⟨c', hanswer, hnil, fun i hi => absurd hi List.not_mem_nil⟩
  · intro i slots c hc
    exact read_next_row_row hp hc

end RawPools

/-! ## Section 4: Reading on from a slot -/

namespace RawPools

variable {p : RawPools} {table : RawTable} {c : RawCursor} {k n : Nat}
  {ok : RawPools → RawEvent → Prop}

theorem live_slot {α : Type*} {r : CircularBuffer α} (hk : k ∈ r.live) :
    ¬ (k = r.inPos ∨ r.size ≤ k) := by
  have hlt := mem_walk_lt r.out_lt hk
  rw [r.mem_live] at hk
  split at hk <;> omega

/-- With `exact`, the first turn answers the row of a live slot. -/
theorem retry_again_exact_row (hp : p.Live) (hk : k ∈ p.request_pool.live) (position : SizeT) :
    p.retry_again true ⟨k, k, position⟩ = .inr (.row (p.request_row k), ⟨k, k + 1, position⟩) := by
  have hexact : wrapped p.request_pool.size true k = k := rfl
  unfold retry_again
  simp only [hexact]
  rw [if_neg (live_slot hk), (hp.kept k hk).1]
  rfl

theorem try_next_exact_row (hp : p.Live) (hk : k ∈ p.timer_pool.live) (position : SizeT) :
    p.try_next false true ⟨k, k, position⟩ = .inr (.row (p.timer_row k), ⟨k, k + 1, position⟩) := by
  have hexact : wrapped p.timer_pool.size true k = k := rfl
  have hnamed : p.stamped (p.request_of k) = true := (hp.timer hk).1
  unfold try_next
  simp only [hexact]
  rw [if_neg (live_slot hk), hnamed]
  rfl

/-- `index_read` returns the row of a live slot and leaves the cursor there. -/
theorem index_read_row (hp : p.Live) (hk : k ∈ p.live table) (c : RawCursor) :
    ∃ c', Answering (fun fuel => p.index_read fuel table.key k) c (.row (p.row table k)) c' ∧
      c'.ival = some k := by
  cases table with
  | request =>
    obtain ⟨fuel, hfuel⟩ := leaves_of_inr (retry_again_exact_row hp hk (some 0))
    exact ⟨_, ⟨fuel, Option.map_eq_some_iff.mpr
      ⟨_, Option.map_eq_some_iff.mpr ⟨_, hfuel, rfl⟩, rfl⟩⟩, rfl⟩
  | timer =>
    obtain ⟨fuel, hfuel⟩ := leaves_of_inr (try_next_exact_row hp hk (some 0))
    exact ⟨_, ⟨fuel, Option.map_eq_some_iff.mpr
      ⟨_, Option.map_eq_some_iff.mpr ⟨_, hfuel, rfl⟩, rfl⟩⟩, rfl⟩

/-- The slot `k` and the live slots after it. -/
theorem from_slot_live (hk : k ∈ p.live table) :
    ∃ slots, p.from_slot table (some k) = k :: slots ∧ k :: slots <:+ p.live table := by
  cases table with
  | request =>
    have hsuffix := p.request_pool.upto_suffix hk
    rw [← following_of_lt (mem_walk_lt p.request_pool.out_lt hk), following_of_live hk] at hsuffix
    exact ⟨_, following_of_live hk, hsuffix⟩
  | timer =>
    have hsuffix := p.timer_pool.upto_suffix hk
    rw [← following_of_lt (mem_walk_lt p.timer_pool.out_lt hk), following_of_live hk] at hsuffix
    exact ⟨_, following_of_live hk, hsuffix⟩

theorem nodup_live (p : RawPools) (table : RawTable) : (p.live table).Nodup := by
  cases table with
  | request => exact p.request_pool.nodup_live
  | timer => exact p.timer_pool.nodup_live

/-- The answers of `index_read` and `n` calls of `index_next`. -/
def RangeRead (p : RawPools) (table : RawTable) (k : Nat) (c : RawCursor)
    (answers : List RawAnswer) : Prop :=
  Calls (Answering fun fuel => p.index_next fuel table.key)
    (Answering fun fuel => p.index_read fuel table.key k) c answers

/-- What a read on from slot `k` has to answer: `k` and the live slots after it. -/
def range (p : RawPools) (table : RawTable) (k n : Nat) : List RawAnswer :=
  p.answers table (p.from_slot table (some k)) n

/-- The first row comes twice. -/
theorem rangeRead_twice (hp : p.Live) (hk : k ∈ p.live table) (c : RawCursor) (n : Nat) :
    p.RangeRead table k c (.row (p.row table k) :: p.range table k n) := by
  obtain ⟨c', hread, hival⟩ := index_read_row hp hk c
  obtain ⟨slots, hslots, hsuffix⟩ := from_slot_live hk
  refine .cons hread (calls_index_next hp ⟨?_, ?_⟩ n)
  · rw [hival]
  · rw [hslots]
    exact fun i hi => hsuffix.subset hi

theorem row_injective {i j : Nat} (h : p.row table i = p.row table j) : i = j := by
  cases table with
  | request => exact (RawRow.request.inj h).1
  | timer => exact (RawRow.timer.inj h).1

/-- So a read goes wrong with the first `index_next`. -/
theorem rangeRead_iff (hp : p.Live) (hk : k ∈ p.live table) (c : RawCursor) (n : Nat) :
    p.RangeRead table k c (p.range table k (n + 1)) ↔ n = 0 := by
  obtain ⟨slots, hslots, hsuffix⟩ := from_slot_live hk
  have hrange : p.range table k (n + 1) = .row (p.row table k) :: p.answers table slots n := by
    rw [range, hslots]
    rfl
  rw [hrange]
  have htwice := rangeRead_twice hp hk c n
  constructor
  · intro hread
    have heq := calls_unique (deterministic_answering (settled_index_next table.key))
      (deterministic_answering (settled_index_read table.key k)) hread htwice
      (by simp [answers, range])
    rw [List.cons.injEq] at heq
    cases n with
    | zero => rfl
    | succ n =>
      -- the second answer is not the row of slot `k`
      exfalso
      have hsecond := heq.2
      rw [range, hslots] at hsecond
      cases slots with
      | nil => exact RawAnswer.noConfusion (List.cons.inj hsecond).1
      | cons j slots =>
        have hrow := (RawAnswer.row.inj (List.cons.inj hsecond).1)
        obtain rfl := row_injective hrow
        have hnodup := (hsuffix.sublist).nodup (p.nodup_live table)
        simp at hnodup
  · rintro rfl
    cases slots <;> exact htwice

/-- A keyed read on is right up to the first `index_next`, which returns the first row again. -/
theorem range_read_iff (hrun : Run ok p) (hk : k ∈ p.live table) (c : RawCursor) (n : Nat) :
    (p.RangeRead table k c (p.range table k (n + 1)) ↔ n = 0) ∧
    p.RangeRead table k c (.row (p.row table k) :: p.range table k n) :=
  ⟨rangeRead_iff (live_of_run hrun) hk c n, rangeRead_twice (live_of_run hrun) hk c n⟩

/-- Two timers: the first one is read alone. -/
theorem range_read_two_timers :
    two_timers_live.RangeRead .timer 0 .rnd_init (two_timers_live.range .timer 0 1) := by
  have hstart : Run (fun _ _ => True) (init 9 2621439) := .start 9 2621439 (by decide)
  have hrun : Run (fun _ _ => True) two_timers_live := .ingest _ _ _ true hstart (by decide) trivial
  exact (@range_read_iff _ .timer 0 _ hrun (by decide) .rnd_init 0).1.mpr rfl

/-- Neither the second timer nor the end of the table `request` is reached. -/
theorem range_read_repeats : ∃ p, Run (fun _ _ => True) p ∧
    0 ∈ p.live .timer ∧ ¬ p.RangeRead .timer 0 .rnd_init (p.range .timer 0 2) ∧
    0 ∈ p.live .request ∧ ¬ p.RangeRead .request 0 .rnd_init (p.range .request 0 2) := by
  have hstart : Run (fun _ _ => True) (init 9 2621439) := .start 9 2621439 (by decide)
  have hrun : Run (fun _ _ => True) two_timers_live := .ingest _ _ _ true hstart (by decide) trivial
  have htimer : 0 ∈ two_timers_live.live .timer := by decide
  have hrequest : 0 ∈ two_timers_live.live .request := by decide
  refine ⟨two_timers_live, hrun, htimer, ?_, hrequest, ?_⟩
  · rw [rangeRead_iff (live_of_run hrun) htimer]
    decide
  · rw [rangeRead_iff (live_of_run hrun) hrequest]
    decide

end RawPools

/-! ## Section 5: Full scans, and reads by request -/

/-- The row of a timer that names this request. -/
def RawAnswer.names (r : Nat) : RawAnswer → Prop
  | .row (.timer _ request_id _ _) => request_id = r
  | _ => False

namespace RawPools

variable {p : RawPools} {r j : Nat} {c : RawCursor} {ok : RawPools → RawEvent → Prop}

/-- `rnd_init`, then `rnd_next` up to the end of file. -/
def Scan (p : RawPools) (table : RawTable) (rows : List RawRow) : Prop :=
  ReadsUntil (· = .end_of_file) (Answering fun fuel => p.rnd_next fuel table.key)
    (Answering fun fuel => p.rnd_next fuel table.key) .rnd_init (rows.map .row)

/-- `index_read` on a request, then `index_next` as long as the rows name it. -/
def RequestRead (p : RawPools) (r : Nat) (c : RawCursor) (rows : List RawRow) : Prop :=
  ReadsUntil (fun a => ¬ RawAnswer.names r a)
    (Answering fun fuel => p.index_next fuel .timer_request_id)
    (Answering fun fuel => p.index_read fuel .timer_request_id r) c (rows.map .row)

/-- The timers of a request in a full scan. -/
def timers_naming (p : RawPools) (r : Nat) : List Nat :=
  p.timer_pool.live.filter fun i => p.request_of i = r

/-- The scans of the two tables return the live rows, and the reads by request return parts
    of them. -/
structure Agree (p : RawPools) : Prop where
  requests : p.Scan .request (p.request_pool.live.map p.request_row)
  timers : p.Scan .timer (p.timer_pool.live.map p.timer_row)
  by_request : ∀ r ∈ p.request_pool.live, ∀ c,
    p.RequestRead r c ((p.timers_naming r).map p.timer_row)

/-- A full scan is right in every state. -/
theorem scan_live (hp : p.Live) (table : RawTable) :
    p.Scan table ((p.live table).map (p.row table)) := by
  have hahead : p.Ahead table (p.live table) .rnd_init := by
    cases table with
    | request => exact ⟨following_outPos, fun _ hi => hi⟩
    | timer => exact ⟨following_outPos, fun _ hi => hi⟩
  refine ⟨.end_of_file, rfl, ?_, ?_⟩
  · intro a ha hend
    obtain ⟨row, -, rfl⟩ := List.mem_map.mp ha
    cases hend
  · have hcalls := calls_rnd_next hp hahead ((p.live table).length + 1)
    rw [answers, firstAnswers_all] at hcalls
    rw [List.map_map]
    exact hcalls

/-- The row that a read by request returns for the timer `j` of a record. -/
def record_timer_row (p : RawPools) (r j : Nat) : RawRow :=
  let timer := record_get_timer p.timer_pool (p.request_pool.data r) j
  .timer (record_get_timer_id p.timer_pool (p.request_pool.data r) j) r timer.timer.hit_count
    timer.timer.value

/-- `timers_cnt` of a record. -/
def timers_cnt (p : RawPools) (r : Nat) : Nat := (p.request_pool.data r).timers_cnt

theorem fetch_by_request (hp : p.Live) (hr : r ∈ p.request_pool.live) (hj : j < p.timers_cnt r)
    (out : Bool) : p.timers_fetch_row_by_request_id (some r) (some j) out =
      (.row (p.record_timer_row r j),
        if out && j = p.timers_cnt r - 1 then (some (r + 1), none) else (some r, some j)) := by
  have hslot := live_slot hr
  have hempty : p.request_pool.inPos ≠ p.request_pool.outPos := by
    intro heq
    have hlen := List.length_pos_of_mem hr
    rw [CircularBuffer.length_live, CircularBuffer.count, occupancy, if_pos heq] at hlen
    omega
  have hreach : SizeT.reaches (some j) (p.request_pool.data r).timers_cnt = false := by
    have hlt : j < (p.request_pool.data r).timers_cnt := hj
    simpa [SizeT.reaches] using hlt
  unfold timers_fetch_row_by_request_id
  simp only
  rw [if_neg (by tauto), (hp.kept r hr).2, hreach, if_neg (by simp)]
  show (if out && decide (j = p.timers_cnt r - 1) then _ else _) = _
  split <;> rfl

/-- Behind the last timer. -/
theorem fetch_by_request_end (hj : p.timers_cnt r ≤ j) (out : Bool) :
    ¬ RawAnswer.names r (p.timers_fetch_row_by_request_id (some r) (some j) out).1.next := by
  have hreach : SizeT.reaches (some j) (p.request_pool.data r).timers_cnt = true := by
    have hle : (p.request_pool.data r).timers_cnt ≤ j := hj
    simpa [SizeT.reaches] using hle
  unfold timers_fetch_row_by_request_id
  simp only
  split
  · exact id
  · rw [hreach, Bool.or_true, if_pos rfl]
    exact id

/-- The rows of a request name it. -/
theorem fetch_by_request_names {position : SizeT} {out : Bool} {slot : Nat} (hne : slot ≠ r) :
    ¬ RawAnswer.names r (p.timers_fetch_row_by_request_id (some slot) position out).1.next := by
  unfold timers_fetch_row_by_request_id
  simp only
  split
  · exact id
  · split
    · exact id
    · split <;> exact hne

/-- What the cursor has still ahead of the timers of a record: it is at the next one, or, behind
    the last one, at the record in the next slot. -/
def AtTimer (p : RawPools) (r : Nat) (timers : List Nat) (c : RawCursor) : Prop :=
  (∃ j, c = ⟨some r, some j⟩ ∧ timers = List.range' j (p.timers_cnt r - j)) ∨
    (c = ⟨some (r + 1), some 0⟩ ∧ timers = [])

theorem index_next_end (h : p.AtTimer r [] c) : ∃ a c', ¬ RawAnswer.names r a ∧
    Answering (fun fuel => p.index_next fuel .timer_request_id) c a c' := by
  rcases h with ⟨j, rfl, hnil⟩ | ⟨rfl, -⟩
  · have hj : p.timers_cnt r ≤ j := by
      have := congrArg List.length hnil
      simp at this
      omega
    exact ⟨_, _, fetch_by_request_end hj true, 0, rfl⟩
  · exact ⟨_, _, fetch_by_request_names (by omega), 0, rfl⟩

theorem index_next_timer (hp : p.Live) (hr : r ∈ p.request_pool.live) {timers : List Nat}
    (h : p.AtTimer r (j :: timers) c) : ∃ c',
      Answering (fun fuel => p.index_next fuel .timer_request_id) c (.row (p.record_timer_row r j)) c' ∧
      p.AtTimer r timers c' := by
  rcases h with ⟨n, rfl, heq⟩ | ⟨-, hnil⟩
  · obtain ⟨k, hk⟩ : ∃ k, p.timers_cnt r - n = k + 1 := by
      cases hcnt : p.timers_cnt r - n with
      | zero =>
        rw [hcnt] at heq
        cases heq
      | succ k => exact ⟨k, rfl⟩
    rw [hk, List.range'_succ, List.cons.injEq] at heq
    obtain ⟨rfl, rfl⟩ := heq
    have hfetch := fetch_by_request hp hr (show j < p.timers_cnt r by omega) true
    have hnext : ∀ fuel, p.index_next fuel .timer_request_id ⟨some r, some j⟩ =
        some (.row (p.record_timer_row r j),
          if j = p.timers_cnt r - 1 then ⟨some (r + 1), some 0⟩ else ⟨some r, some (j + 1)⟩) := by
      intro fuel
      unfold index_next read_next_row
      simp only [hfetch, Bool.true_and, decide_eq_true_eq, Option.map_some]
      split <;> rfl
    refine ⟨_, ⟨0, hnext 0⟩, ?_⟩
    split
    · next hlast =>
      -- the cursor goes to the next slot, with the position back at the start
      right
      refine ⟨rfl, ?_⟩
      rw [show k = 0 by omega]
      rfl
    · left
      refine ⟨j + 1, rfl, ?_⟩
      rw [show p.timers_cnt r - (j + 1) = k by omega]
  · cases hnil

theorem calls_timers (hp : p.Live) (hr : r ∈ p.request_pool.live) {timers : List Nat}
    (h : p.AtTimer r timers c) : ∃ a, ¬ RawAnswer.names r a ∧
      Calls (Answering fun fuel => p.index_next fuel .timer_request_id)
        (Answering fun fuel => p.index_next fuel .timer_request_id) c
        ((timers.map (p.record_timer_row r)).map .row ++ [a]) := by
  induction timers generalizing c with
  | nil =>
    obtain ⟨a, c', hstop, hanswer⟩ := index_next_end h
    exact ⟨a, hstop, .cons hanswer .nil⟩
  | cons j timers ih =>
    obtain ⟨c', hanswer, hat⟩ := index_next_timer hp hr h
    obtain ⟨a, hstop, hcalls⟩ := ih hat
    exact ⟨a, hstop, .cons hanswer hcalls⟩

/-- A record without timers is not named by the first answer. -/
theorem index_read_no_timer (hcnt : p.timers_cnt r = 0) (c : RawCursor) : ∃ a c',
    Answering (fun fuel => p.index_read fuel .timer_request_id r) c a c' ∧ ¬ RawAnswer.names r a := by
  refine ⟨_, _, ⟨0, rfl⟩, ?_⟩
  have hend := fetch_by_request_end (p := p) (r := r) (j := 0) (by omega) false
  intro hname
  apply hend
  cases ha : (p.timers_fetch_row_by_request_id (some r) (some 0) false).1 with
  | row row =>
    simp only [ha] at hname
    exact hname
  | key_not_found =>
    simp only [ha] at hname
    exact hname
  | end_of_file =>
    simp only [ha] at hname
    exact hname

/-- Otherwise it is the first timer, and the cursor goes to the next one. -/
theorem index_read_timer (hp : p.Live) (hr : r ∈ p.request_pool.live) (hcnt : p.timers_cnt r ≠ 0)
    (c : RawCursor) : Answering (fun fuel => p.index_read fuel .timer_request_id r) c
      (.row (p.record_timer_row r 0)) ⟨some r, some 1⟩ := by
  have hfetch := fetch_by_request hp hr (Nat.pos_of_ne_zero hcnt) false
  refine ⟨0, ?_⟩
  unfold index_read read_row_by_key
  simp only [hfetch]
  rfl

/-- A read by request returns the timers that the record claims. -/
theorem requestRead_record (hp : p.Live) (hr : r ∈ p.request_pool.live) (c : RawCursor) :
    p.RequestRead r c ((List.range (p.timers_cnt r)).map (p.record_timer_row r)) := by
  have hnames : ∀ a ∈ ((List.range (p.timers_cnt r)).map (p.record_timer_row r)).map RawAnswer.row,
      ¬ ¬ RawAnswer.names r a := by
    intro a ha
    rw [List.map_map] at ha
    obtain ⟨j, -, rfl⟩ := List.mem_map.mp ha
    exact not_not.mpr rfl
  by_cases hcnt : p.timers_cnt r = 0
  · obtain ⟨a, c', hanswer, hstop⟩ := index_read_no_timer hcnt c
    refine ⟨a, hstop, hnames, ?_⟩
    rw [hcnt]
    exact .cons hanswer .nil
  · -- the first timer by `index_read`, the others by `index_next`
    have hat : p.AtTimer r (List.range' 1 (p.timers_cnt r - 1)) ⟨some r, some 1⟩ := .inl ⟨1, rfl, rfl⟩
    obtain ⟨a, hstop, hcalls⟩ := calls_timers hp hr hat
    have hrange : List.range (p.timers_cnt r) = 0 :: List.range' 1 (p.timers_cnt r - 1) := by
      obtain ⟨m, hm⟩ := Nat.exists_eq_succ_of_ne_zero hcnt
      rw [hm, List.range_eq_range', List.range'_succ]
      rfl
    refine ⟨a, hstop, hnames, ?_⟩
    rw [hrange]
    exact .cons (index_read_timer hp hr hcnt c) hcalls

/-- So it agrees with the full scan exactly if these are the timers that name the record. -/
theorem requestRead_iff (hp : p.Live) (hr : r ∈ p.request_pool.live) (c : RawCursor) :
    p.RequestRead r c ((p.timers_naming r).map p.timer_row) ↔
      (List.range (p.timers_cnt r)).map (p.record_timer_row r) = (p.timers_naming r).map p.timer_row := by
  have hrecord := requestRead_record hp hr c
  constructor
  · intro hread
    have heq := readsUntil_unique (deterministic_answering (settled_index_next .timer_request_id))
      (deterministic_answering (settled_index_read .timer_request_id r)) hrecord hread
    exact List.map_injective_iff.mpr (fun _ _ h => RawAnswer.row.inj h) heq
  · intro heq
    rwa [heq] at hrecord

end RawPools

/-! ## Section 6: The two ways to the timers of a request -/

/-- Elements that come group after group are named by the groups. -/
theorem name_of_groups {α : Type*} (f : α → Nat) {groups : List (Nat × Nat)} {xs : List α}
    (h : xs.map f = groups.flatMap fun g => List.replicate g.2 g.1) {x : α} (hx : x ∈ xs) :
    f x ∈ groups.map Prod.fst := by
  have hmem : f x ∈ xs.map f := List.mem_map_of_mem hx
  rw [h, List.mem_flatMap] at hmem
  obtain ⟨g, hg, hrep⟩ := hmem
  rw [List.eq_of_mem_replicate hrep]
  exact List.mem_map_of_mem hg

/-- They are found again by the name of their group. -/
theorem flatMap_filter_of_groups {α : Type*} (f : α → Nat) (groups : List (Nat × Nat)) (xs : List α)
    (hnodup : (groups.map Prod.fst).Nodup)
    (h : xs.map f = groups.flatMap fun g => List.replicate g.2 g.1) :
    (groups.flatMap fun g => xs.filter fun x => f x = g.1) = xs := by
  induction groups generalizing xs with
  | nil =>
    obtain rfl : xs = [] := by simpa using h
    rfl
  | cons g groups ih =>
    rw [List.map_cons, List.nodup_cons] at hnodup
    rw [List.flatMap_cons] at h
    obtain ⟨ys, zs, rfl, hys, hzs⟩ := List.map_eq_append_iff.mp h
    have hmine : ∀ y ∈ ys, f y = g.1 := by
      intro y hy
      have hmem : f y ∈ ys.map f := List.mem_map_of_mem hy
      rw [hys] at hmem
      exact List.eq_of_mem_replicate hmem
    -- the first group is at the front, and the other ones are behind it
    have hhead : (ys ++ zs).filter (fun x => f x = g.1) = ys := by
      rw [List.filter_append, List.filter_eq_self.mpr, List.filter_eq_nil_iff.mpr, List.append_nil]
      · intro z hz
        simp only [decide_eq_true_eq]
        intro heq
        exact hnodup.1 (heq ▸ name_of_groups f hzs hz)
      · intro y hy
        simpa using hmine y hy
    have htail : (groups.flatMap fun x => (ys ++ zs).filter fun y => f y = x.1) =
        groups.flatMap fun x => zs.filter fun y => f y = x.1 := by
      apply List.flatMap_congr
      intro x hx
      rw [List.filter_append, List.filter_eq_nil_iff.mpr, List.nil_append]
      intro y hy
      simp only [decide_eq_true_eq]
      intro heq
      exact hnodup.1 ((hmine y hy) ▸ heq ▸ List.mem_map_of_mem hx)
    rw [List.flatMap_cons, hhead, htail, ih zs hnodup.2 hzs]

/-- What a single element contributes. -/
theorem flatMap_ite_eq {α : Type*} (f : Nat → List α) {r : Nat} {xs : List Nat} (hnodup : xs.Nodup)
    (hr : r ∈ xs) : (xs.flatMap fun i => if i = r then f i else []) = f r := by
  obtain ⟨before, after, rfl⟩ := List.append_of_mem hr
  rw [List.nodup_append', List.nodup_cons] at hnodup
  have hnil : ∀ ys : List Nat, r ∉ ys → (ys.flatMap fun i => if i = r then f i else []) = [] := by
    intro ys hys
    rw [List.flatMap_eq_nil_iff]
    intro i hi
    rw [if_neg]
    rintro rfl
    exact hys hi
  rw [List.flatMap_append, List.flatMap_cons, if_pos rfl,
    hnil before fun hmem => hnodup.2.2 hmem List.mem_cons_self, hnil after hnodup.2.1.1,
    List.nil_append, List.append_nil]

namespace RawPools

variable {p : RawPools} {r : Nat} {c : RawCursor} {ok : RawPools → RawEvent → Prop}
  {stored : List (List TimerRecord)}

/-- The positions at which a record looks for its timers. -/
def timer_ids (p : RawPools) (r : Nat) : List Nat :=
  (List.range (p.timers_cnt r)).map (record_get_timer_id p.timer_pool (p.request_pool.data r))

theorem record_rows_iff : (List.range (p.timers_cnt r)).map (p.record_timer_row r) =
    (p.timers_naming r).map p.timer_row ↔ p.timer_ids r = p.timers_naming r := by
  have hrows : (List.range (p.timers_cnt r)).map (p.record_timer_row r) =
      (p.timer_ids r).map fun i =>
        .timer i r (p.timer_pool.data i).timer.hit_count (p.timer_pool.data i).timer.value := by
    rw [timer_ids, List.map_map]
    rfl
  rw [hrows]
  constructor
  · intro heq
    -- a row shows the position of its timer
    have hids := congrArg (List.map fun row : RawRow => match row with
      | .timer index _ _ _ => index
      | .request index _ _ _ => index) heq
    rw [List.map_map, List.map_map] at hids
    exact ((List.map_id _).symm.trans hids).trans (List.map_id _)
  · intro heq
    rw [heq]
    apply List.map_congr_left
    intro i hi
    have hname : p.request_of i = r := of_decide_eq_true (List.mem_filter.mp hi).2
    unfold timer_row
    rw [← hname]
    rfl

/-- If the records tile the pool, the timers of a record are those that name it. -/
theorem timer_ids_of_tiles (ht : p.Tiles stored) (hr : r ∈ p.request_pool.live) :
    p.timer_ids r = p.timers_naming r := by
  have he : (r, p.request_pool.data r) ∈ p.request_pool.contents := List.mem_map_of_mem hr
  have hids : p.timer_ids r = claimed p.timer_pool (p.request_pool.data r) := ht.timer_ids_eq he
  -- what a record claims names this record only
  have hmine : ∀ e ∈ p.request_pool.contents,
      (claimed p.timer_pool e.2).filter (fun i => p.request_of i = r) =
        if e.1 = r then claimed p.timer_pool e.2 else [] := by
    intro e hmem
    split
    · next heq =>
      rw [List.filter_eq_self]
      intro i hi
      have hname : p.request_of i = r := (ht.request_id hmem hi).trans heq
      exact decide_eq_true hname
    · next hne =>
      rw [List.filter_eq_nil_iff]
      intro i hi hname
      exact hne ((ht.request_id hmem hi).symm.trans (of_decide_eq_true hname))
  rw [hids, timers_naming, ← ht.tiles, List.filter_flatMap, List.flatMap_congr hmine,
    CircularBuffer.contents, List.flatMap_map]
  exact (flatMap_ite_eq (fun i => claimed p.timer_pool (p.request_pool.data i))
    p.request_pool.nodup_live hr).symm

/-- If the timers of every record are those that name it, the ranges of the records make up the
    live part of the pool. -/
theorem ranges_of_timer_ids (hp : p.Live) (h : ∀ r ∈ p.request_pool.live,
    p.timer_ids r = p.timers_naming r) :
    (p.request_pool.contents.flatMap fun e => TimerState.timer_range p.timer_pool e.2) =
      p.timer_pool.live := by
  have hids : ∀ r ∈ p.request_pool.live,
      TimerState.timer_range p.timer_pool (p.request_pool.data r) = p.timers_naming r := by
    intro r hr
    rw [← h r hr]
    apply List.map_congr_left
    intro i hi
    -- the position is live, so the wrap was taken at most once
    have hmem : record_get_timer_id p.timer_pool (p.request_pool.data r) i ∈ p.timers_naming r := by
      rw [← h r hr]
      exact List.mem_map_of_mem hi
    have hlt := mem_walk_lt p.timer_pool.out_lt (List.mem_filter.mp hmem).1
    unfold record_get_timer_id advance at hlt ⊢
    split at hlt
    · next hge => rw [if_pos hge, Nat.mod_eq_sub_mod hge, Nat.mod_eq_of_lt hlt]
    · next hge => rw [if_neg hge, Nat.mod_eq_of_lt hlt]
  have hnodup : ((p.request_pool.live.map fun r => (r, p.timers_cnt r)).map Prod.fst).Nodup := by
    rw [List.map_map]
    exact (List.map_id _).symm ▸ p.request_pool.nodup_live
  have hnumbered : p.timer_pool.live.map p.request_of =
      (p.request_pool.live.map fun r => (r, p.timers_cnt r)).flatMap fun g =>
        List.replicate g.2 g.1 := by
    have hnumbered := hp.numbered
    unfold TimerState.Numbered TimerState.record_slots at hnumbered
    rw [CircularBuffer.contents, List.flatMap_map] at hnumbered
    rw [List.flatMap_map]
    exact hnumbered
  have hgroups := flatMap_filter_of_groups p.request_of _ p.timer_pool.live hnodup hnumbered
  rw [List.flatMap_map] at hgroups
  rw [CircularBuffer.contents, List.flatMap_map, List.flatMap_congr hids]
  exact hgroups

/-! ### Runs -/

/-- No batch makes the timer pool grow past a record that the repair misses. -/
def SafeBatches (p : RawPools) : RawEvent → Prop
  | .ingest _ shares realloc_ok => p.toTimerState.SafeBatch (timers_of shares) realloc_ok
  | _ => True

/-- What is left in dead slots is not part of a tiling. -/
theorem tiles_leftovers {records : Nat → TimerOwner} {slots : Nat → RawSlot}
    (h : ∀ i ∈ p.request_pool.live, records i = p.request_pool.data i) (ht : p.Tiles stored) :
    (p.leftovers records slots h).Tiles stored := by
  unfold TimerState.Tiles at ht ⊢
  rw [← p.contents_of_live h] at ht
  exact ht

theorem tiles_delete_all_rows (p : RawPools) : p.delete_all_rows.Tiles [] := by
  obtain ⟨hring, hpool⟩ := p.delete_all_rows_empty
  exact ⟨by rw [hring, hpool]; rfl, by rw [hring]; rfl, by rw [hring, hpool]; rfl⟩

theorem tiles_of_run (hrun : Run SafeBatches p) : ∃ stored, p.Tiles stored := by
  induction hrun with
  | start requests timers h => exact ⟨[], TimerState.tiles_init requests timers⟩
  | ingest now shares h realloc_ok _ _ hok ih =>
    obtain ⟨stored, ht⟩ := ih
    exact ⟨_, TimerState.tiles_ingest h hok ht⟩
  | @leftovers p records slots h _ _ _ ih =>
    obtain ⟨stored, ht⟩ := ih
    exact ⟨stored, tiles_leftovers h ht⟩
  | expire n h _ _ ih =>
    obtain ⟨stored, ht⟩ := ih
    exact ⟨_, TimerState.tiles_expire h ht⟩
  | @delete_all_rows p _ _ _ => exact ⟨[], tiles_delete_all_rows p⟩

/-- In every run whose batches are safe, the two tables agree in every state. -/
theorem raw_tables_agree (hrun : Run SafeBatches p) : p.Agree := by
  have hp := live_of_run hrun
  obtain ⟨stored, ht⟩ := tiles_of_run hrun
  refine ⟨scan_live hp .request, scan_live hp .timer, ?_⟩
  intro r hr c
  rw [requestRead_iff hp hr, record_rows_iff]
  exact timer_ids_of_tiles ht hr

theorem raw_tables_agree_two_timers : two_timers_live.Agree := by
  have hstart : Run SafeBatches (init 9 2621439) := .start 9 2621439 (by decide)
  exact raw_tables_agree (.ingest _ _ _ true hstart (by decide) fun hg => absurd hg.1 (by decide))

/-- Every run of the two pools is one of the raw tables. -/
theorem run_of_timer_state {okBatch : TimerState → List (List (List RequestTimer)) → Bool → Prop}
    {s : TimerState} (h : TimerState.Run okBatch s stored) :
    ∃ p, Run (fun _ _ => True) p ∧ p.toTimerState = s := by
  induction h with
  | start requests timers h => exact ⟨init requests timers, .start requests timers h, rfl⟩
  | ingest shares h realloc_ok _ _ ih =>
    obtain ⟨p, hrun, rfl⟩ := ih
    -- any data will do
    obtain ⟨requests, rfl⟩ : ∃ requests, timers_of requests = shares := by
      refine ⟨shares.map fun share => share.map fun timers => (default, timers), ?_⟩
      unfold timers_of
      simp [Function.comp_def]
    exact ⟨_, .ingest ⟨1, 0⟩ requests h realloc_ok hrun (by decide) trivial, rfl⟩
  | expire n h _ ih =>
    obtain ⟨p, hrun, rfl⟩ := ih
    exact ⟨_, .expire n h hrun trivial, rfl⟩

/-- After a growth that misses a record, a read by request looks at the old positions. -/
theorem raw_tables_disagree : ∃ h₁ h₂ h₃ h₄ p, Run (fun _ _ => True) p ∧
    p.toTimerState = ((((TimerState.init 999 2621439).ingest [TimerState.full_share] h₁ true).expire
      640 h₂).ingest [[[TimerState.untagged_timer]]] h₃ true).ingest [TimerState.full_share] h₄ true ∧
    ¬ p.Agree := by
  obtain ⟨h₁, h₂, h₃, h₄, ⟨stored, hstate⟩, hranges⟩ := TimerState.untagged_growth_ranges
  obtain ⟨p, hrun, hp⟩ := run_of_timer_state hstate
  refine ⟨h₁, h₂, h₃, h₄, p, hrun, hp, ?_⟩
  intro hagree
  have hlive := live_of_run hrun
  apply hranges
  rw [← hp]
  apply ranges_of_timer_ids hlive
  intro r hr
  exact record_rows_iff.mp ((requestRead_iff hlive hr .rnd_init).mp
    (hagree.by_request r hr .rnd_init))

end RawPools

end PinbaEngine
