import PinbaEngine.Lib.Turns
import PinbaEngine.TimerTiling

/-! # The raw tables

    The tables `request` and `timer` show the request ring and the timer pool. Every
    call of the server takes `collector_lock`, so it meets the pools between two
    batches or expiry passes, and it is told where to go on by a cursor that it saved
    in the call before.

    The fetch functions skip slots that hold nothing, and go on with the first slot
    at the end of the array. The loop of `timers_fetch_row` has a second way to jump
    back: when the cursor has seen as many timers as the record has, it starts again
    with the same timer and a cleared count. Nothing keeps that turn from being made
    again if the record has no timers at all.
-/

namespace PinbaEngine

open Circular

/-! ## Section 1: Slots, rows and cursors -/

/-- The `data` part of a record with the two fields that only the table shows. -/
structure RawData extends RequestData where
  req_count : Nat
  mem_peak_usage : ℚ

instance : Inhabited RawData := ⟨⟨default, 0, 0⟩⟩

/-- A slot of the ring, without the fields that locate its timers. -/
structure RawSlot where
  data : RawData
  time : Timeval
  active : Bool

/-- Zeroed memory. -/
instance : Inhabited RawSlot := ⟨⟨default, ⟨0, 0⟩, false⟩⟩

/-- Both pools, with what the slots of the ring hold. -/
structure RawPools extends TimerState where
  slots : Nat → RawSlot

/-- A `size_t` of a cursor. `none` is `(size_t)-1`. -/
abbrev SizeT := Option Nat

/-- `++` wraps around. -/
def SizeT.succ : SizeT → SizeT
  | none => some 0
  | some n => some (n + 1)

/-- `position >= cnt`. -/
def SizeT.reaches (position : SizeT) (cnt : Nat) : Bool := position.all fun n => cnt ≤ n

/-- `ival` and `position` of `pinba_index_st`. A scan keeps the entry of `this_index` that it
    started with. -/
structure RawCursor where
  ival : SizeT
  position : SizeT

/-- A row of either table. -/
inductive RawRow where
  | request (index : Nat) (data : RawData) (timers_cnt : Nat) (timestamp : Int)
  | timer (index request_id hit_count : Nat) (value : Duration)

inductive RawAnswer where
  | row (row : RawRow)
  | key_not_found
  | end_of_file

/-- The locals of a fetch function: the index it looks at, what goes to `*new_index`, and
    the position of the cursor. -/
structure RawFetch where
  index : Nat
  new_index : Nat
  position : SizeT

/-! ## Section 2: Fetch functions -/

namespace RawPools

variable (p : RawPools)

/-- `record.time.tv_sec` is set. -/
def stamped (i : Nat) : Bool := (p.slots i).time.tv_sec ≠ 0

/-- `index` after the wrap at the start of both loops. -/
def wrapped (size : Nat) (exact_ : Bool) (index : Nat) : Nat :=
  if !exact_ && index = size then 0 else index

def request_row (i : Nat) : RawRow :=
  .request i (p.slots i).data (p.request_pool.data i).timers_cnt (p.slots i).time.tv_sec

def timer_row (i : Nat) : RawRow :=
  .timer i (p.timer_pool.data i).request_id (p.timer_pool.data i).timer.hit_count
    (p.timer_pool.data i).timer.value

/-- The loop `retry_again` of `ha_pinba::requests_fetch_row`. -/
def retry_again (exact_ : Bool) (f : RawFetch) : RawFetch ⊕ (RawAnswer × RawFetch) :=
  let index := wrapped p.request_pool.size exact_ f.index
  let f := { f with index := index, new_index := index }
  if index = p.request_pool.inPos ∨ p.request_pool.size ≤ index then .inr (.key_not_found, f)
  else if !p.stamped index then
    if exact_ then .inr (.key_not_found, f) else .inl { f with index := index + 1 }
  else .inr (.row (p.request_row index), { f with new_index := index + 1 })

/-- `ha_pinba::requests_fetch_row`. -/
def requests_fetch_row (fuel : Nat) (index position : SizeT) (exact_ : Bool) :
    Option (RawAnswer × RawFetch) :=
  let index := index.getD p.request_pool.outPos
  turns (p.retry_again exact_) fuel ⟨index, index, position⟩

/-- The slot of the request that a timer names. -/
def request_of (i : Nat) : Nat := (p.timer_pool.data i).request_id

/-- The loop `try_next` of `ha_pinba::timers_fetch_row`. `out` tells whether there is a
    `new_index`. -/
def try_next (out exact_ : Bool) (f : RawFetch) : RawFetch ⊕ (RawAnswer × RawFetch) :=
  let index := wrapped p.timer_pool.size exact_ f.index
  let f := { f with index := index }
  if index = p.timer_pool.inPos ∨ p.timer_pool.size ≤ index then .inr (.key_not_found, f)
  else if !p.stamped (p.request_of index) then
    if exact_ then .inr (.key_not_found, f)
    else .inl { f with index := index + 1, position := some 0 }
  else if !exact_ && f.position.reaches (p.request_pool.data (p.request_of index)).timers_cnt then
    .inl { f with position := some 0 }
  else
    let position := if !exact_ || out then f.position.succ else f.position
    .inr (.row (p.timer_row index), { f with new_index := index + 1, position := position })

/-- `ha_pinba::timers_fetch_row`. -/
def timers_fetch_row (fuel : Nat) (index position : SizeT) (out exact_ : Bool) :
    Option (RawAnswer × RawFetch) :=
  let index := index.getD p.timer_pool.outPos
  turns (p.try_next out exact_) fuel ⟨index, index, position⟩

/-- `ha_pinba::timers_fetch_row_by_request_id`. A cursor at `(size_t)-1` is behind every slot. -/
def timers_fetch_row_by_request_id (index position : SizeT) (out : Bool) :
    RawAnswer × SizeT × SizeT :=
  match index with
  | none => (.key_not_found, index, position)
  | some slot =>
    if slot = p.request_pool.inPos ∨ p.request_pool.size ≤ slot ∨
        p.request_pool.inPos = p.request_pool.outPos then
      (.key_not_found, index, position)
    else
      let record := p.request_pool.data slot
      if !(p.slots slot).active || position.reaches record.timers_cnt then
        (.end_of_file, index, position)
      else
        let n := position.getD 0
        let timer := record_get_timer p.timer_pool record n
        let row := .timer (record_get_timer_id p.timer_pool record n) slot timer.timer.hit_count
          timer.timer.value
        -- the last timer of the record: the next call starts with the next record
        if out && n = record.timers_cnt - 1 then (.row row, some (slot + 1), none)
        else (.row row, index, position)

end RawPools

/-! ## Section 3: Calls of the server -/

/-- The two tables, and the keys of the table `timer`. -/
inductive RawKey where
  | request
  | timer
  | timer_request_id
deriving DecidableEq

/-- `ha_pinba::rnd_init`. -/
def RawCursor.rnd_init : RawCursor := ⟨none, none⟩

/-- `read_next_row` answers the end of file for a key that was not found. -/
def RawAnswer.next : RawAnswer → RawAnswer
  | .key_not_found => .end_of_file
  | answer => answer

/-- A row is counted by the wrappers `index_read` and `index_next`. -/
def RawAnswer.count : RawAnswer → RawCursor → RawCursor
  | .row _, c => { c with position := c.position.succ }
  | _, c => c

namespace RawPools

variable (p : RawPools)

/-- `ha_pinba::read_next_row`. -/
def read_next_row (fuel : Nat) (key : RawKey) (c : RawCursor) : Option (RawAnswer × RawCursor) :=
  match key with
  | .request =>
    (p.requests_fetch_row fuel c.ival c.position false).map fun r =>
      (r.1.next, ⟨some r.2.new_index, some r.2.new_index⟩)
  | .timer =>
    (p.timers_fetch_row fuel c.ival c.position true false).map fun r =>
      (r.1.next, ⟨some r.2.new_index, r.2.position⟩)
  | .timer_request_id =>
    let r := p.timers_fetch_row_by_request_id c.ival c.position true
    some (r.1.next, ⟨r.2.1, r.2.2⟩)

/-- `ha_pinba::read_row_by_key` with `exact`: none of the fetch functions is given a
    `new_index`. -/
def read_row_by_key (fuel : Nat) (key : RawKey) (k : Nat) (c : RawCursor) :
    Option (RawAnswer × RawCursor) :=
  let c := { c with ival := some k }
  match key with
  | .request => (p.requests_fetch_row fuel c.ival c.position true).map fun r => (r.1, c)
  | .timer =>
    (p.timers_fetch_row fuel c.ival c.position false true).map fun r =>
      (r.1, { c with position := r.2.position })
  | .timer_request_id => some ((p.timers_fetch_row_by_request_id c.ival c.position false).1, c)

/-- `ha_pinba::rnd_next`. -/
def rnd_next (fuel : Nat) (key : RawKey) (c : RawCursor) : Option (RawAnswer × RawCursor) :=
  p.read_next_row fuel key c

/-- `ha_pinba::index_read`. -/
def index_read (fuel : Nat) (key : RawKey) (k : Nat) (c : RawCursor) :
    Option (RawAnswer × RawCursor) :=
  (p.read_row_by_key fuel key k { c with position := some 0 }).map fun r => (r.1, r.1.count r.2)

/-- `ha_pinba::index_next`. -/
def index_next (fuel : Nat) (key : RawKey) (c : RawCursor) : Option (RawAnswer × RawCursor) :=
  (p.read_next_row fuel key c).map fun r => (r.1, r.1.count r.2)

end RawPools

/-! ## Section 4: The pools between the calls -/

/-- A decoded request of a batch. -/
abbrev RawRequest := RawData × List RequestTimer

/-- The shares of a batch as the timer pool sees them. -/
def timers_of (shares : List (List RawRequest)) : List (List (List RequestTimer)) :=
  shares.map fun share => share.map Prod.snd

/-- What happens to the pools. The calls of the server change nothing. -/
inductive RawEvent where
  | ingest (now : Timeval) (shares : List (List RawRequest)) (realloc_ok : Bool)
  /-- What failed copies, and the swaps that close their holes, leave in slots that are not
      live. -/
  | leftovers (records : Nat → TimerOwner) (slots : Nat → RawSlot)
  | expire (n : Nat)
  | delete_all_rows

namespace RawPools

/-- Both pools after start-up. -/
def init (requests timers : Nat) : RawPools :=
  { TimerState.init requests timers with slots := fun _ => default }

variable (p : RawPools)

/-- A batch of `pinba_data_main`. -/
def ingest (now : Timeval) (shares : List (List RawRequest))
    (h : (timers_of shares).flatten.length ≤ p.request_pool.free) (realloc_ok : Bool) : RawPools :=
  { p.toTimerState.ingest (timers_of shares) h realloc_ok with
    slots := writeFrom p.request_pool.size p.request_pool.inPos
      (shares.flatten.map fun r => ⟨r.1, now, true⟩) p.slots }

theorem contents_of_live {records : Nat → TimerOwner}
    (h : ∀ i ∈ p.request_pool.live, records i = p.request_pool.data i) :
    (p.request_pool.setData records).contents = p.request_pool.contents := by
  rw [CircularBuffer.contents_setData, CircularBuffer.contents]
  apply List.map_congr_left
  intro i hi
  rw [h i hi]

def leftovers (records : Nat → TimerOwner) (slots : Nat → RawSlot)
    (h : ∀ i ∈ p.request_pool.live, records i = p.request_pool.data i) : RawPools where
  request_pool := p.request_pool.setData records
  timer_pool := p.timer_pool
  counted := by rw [p.contents_of_live h, p.counted]
  slots := slots

/-- An expiry pass of `pinba_stats_main`. -/
def expire (n : Nat) (h : n ≤ p.request_pool.count) : RawPools :=
  { p.toTimerState.expire n h with
    slots := fun i =>
      if i ∈ p.request_pool.live.take n then { p.slots i with active := false } else p.slots i }

/-- `ha_pinba::delete_all_rows`: the destructor of the ring gives up the timers of all live
    records and leaves them as they are. -/
def delete_all_rows : RawPools where
  request_pool := .blank (p.request_pool.size - 1) ⟨0, 0⟩
  timer_pool := p.timer_pool.dropFront p.timer_pool.count le_rfl
  counted := by simp [CircularBuffer.count_dropFront]
  slots := fun _ => default

/-- The states that batches, expiry passes and deletions lead to. Every event meets the
    condition `ok` in the state it meets. -/
inductive Run (ok : RawPools → RawEvent → Prop) : RawPools → Prop
  | start (requests timers : Nat) (h : PINBA_TIMER_POOL_GROW_SIZE ≤ timers + 1) :
    Run ok (init requests timers)
  | ingest {p : RawPools} (now : Timeval) (shares : List (List RawRequest))
    (h : (timers_of shares).flatten.length ≤ p.request_pool.free) (realloc_ok : Bool)
    (hp : Run ok p) (hnow : now.tv_sec ≠ 0) (hok : ok p (.ingest now shares realloc_ok)) :
    Run ok (p.ingest now shares h realloc_ok)
  | leftovers {p : RawPools} (records : Nat → TimerOwner) (slots : Nat → RawSlot)
    (h : ∀ i ∈ p.request_pool.live, records i = p.request_pool.data i)
    (hslots : ∀ i ∈ p.request_pool.live, slots i = p.slots i) (hp : Run ok p)
    (hok : ok p (.leftovers records slots)) : Run ok (p.leftovers records slots h)
  | expire {p : RawPools} (n : Nat) (h : n ≤ p.request_pool.count) (hp : Run ok p)
    (hok : ok p (.expire n)) : Run ok (p.expire n h)
  | delete_all_rows {p : RawPools} (hp : Run ok p) (hok : ok p .delete_all_rows) :
    Run ok p.delete_all_rows

end RawPools

/-! ## Section 5: What the loops look at -/

/-- The slots that a fetch function looks at from `index` on. -/
def following {α : Type*} (r : CircularBuffer α) (index : Nat) : List Nat :=
  if RawPools.wrapped r.size false index < r.size then r.upto (RawPools.wrapped r.size false index)
  else []

section following
variable {α : Type*} {r : CircularBuffer α} {index : Nat}

theorem following_outPos : following r r.outPos = r.live := by
  have hout := r.out_lt
  have hwrap : RawPools.wrapped r.size false r.outPos = r.outPos := by
    simp [RawPools.wrapped, hout.ne]
  rw [following, hwrap, if_pos hout, r.upto_outPos]

/-- The next index, before the wrap, leads to the next slot. -/
theorem following_succ {i : Nat} (hi : i < r.size) :
    following r (i + 1) = r.upto (succIndex r.size i) := by
  have hwrap : RawPools.wrapped r.size false (i + 1) = succIndex r.size i := by
    unfold RawPools.wrapped succIndex
    simp only [Bool.not_false, Bool.true_and, decide_eq_true_eq]
    split_ifs <;> omega
  rw [following, hwrap, if_pos (succIndex_lt hi)]

theorem following_of_lt {i : Nat} (hi : i < r.size) : following r i = r.upto i := by
  have hwrap : RawPools.wrapped r.size false i = i := by
    simp [RawPools.wrapped, hi.ne]
  rw [following, hwrap, if_pos hi]

/-- The test of both loops for the end. -/
theorem following_eq_nil_iff : following r index = [] ↔
    RawPools.wrapped r.size false index = r.inPos ∨ r.size ≤ RawPools.wrapped r.size false index := by
  unfold following
  split
  · next hlt =>
    by_cases hin : RawPools.wrapped r.size false index = r.inPos
    · simp [hin]
    · rw [r.upto_of_ne hlt hin]
      simp [hin, hlt]
  · next hge => simp [Nat.le_of_not_lt hge]

theorem following_eq_cons {i : Nat} {l : List Nat} (h : following r index = i :: l) :
    RawPools.wrapped r.size false index = i ∧ i < r.size ∧ i ≠ r.inPos ∧ following r (i + 1) = l := by
  have hend := mt following_eq_nil_iff.mpr (by rw [h]; exact List.cons_ne_nil _ _)
  rw [not_or, Nat.not_le] at hend
  obtain ⟨hin, hlt⟩ := hend
  rw [following, if_pos hlt, r.upto_of_ne hlt hin, List.cons.injEq] at h
  obtain ⟨rfl, rfl⟩ := h
  exact ⟨rfl, hlt, hin, following_succ hlt⟩

theorem following_of_live {i : Nat} (hi : i ∈ r.live) : following r i = i :: following r (i + 1) := by
  have hlt := mem_walk_lt r.out_lt hi
  have hne : i ≠ r.inPos := by
    rintro rfl
    rw [r.mem_live] at hi
    split at hi <;> omega
  rw [following_of_lt hlt, following_succ hlt, r.upto_of_ne hlt hne]

end following

namespace RawPools

variable {p : RawPools} {f : RawFetch} {out exact_ : Bool} {i : Nat} {l : List Nat}

/-- The number of timers of the record that a timer names. -/
def named_cnt (p : RawPools) (i : Nat) : Nat := (p.request_pool.data (p.request_of i)).timers_cnt

/-- The slot of a timer's request holds a record. -/
def named (p : RawPools) (i : Nat) : Bool := p.stamped (p.request_of i)

theorem retry_again_end (h : following p.request_pool f.index = []) :
    ∃ g, p.retry_again false f = .inr (.key_not_found, g) ∧
      following p.request_pool g.new_index = [] := by
  have hend := following_eq_nil_iff.mp h
  refine ⟨_, if_pos hend, ?_⟩
  rw [following_eq_nil_iff]
  show wrapped _ false (wrapped _ false f.index) = _ ∨ _ ≤ wrapped _ false (wrapped _ false f.index)
  have hidem : wrapped p.request_pool.size false (wrapped p.request_pool.size false f.index) =
      wrapped p.request_pool.size false f.index := by
    have hsize := p.request_pool.in_lt
    unfold wrapped
    simp only [Bool.not_false, Bool.true_and, decide_eq_true_eq]
    split_ifs <;> omega
  rwa [hidem]

theorem retry_again_skip (h : following p.request_pool f.index = i :: l)
    (hstamped : p.stamped i = false) :
    ∃ g, p.retry_again false f = .inl g ∧ following p.request_pool g.index = l := by
  obtain ⟨rfl, hlt, hin, htail⟩ := following_eq_cons h
  set index := wrapped p.request_pool.size false f.index with hindex
  refine ⟨⟨index + 1, index, f.position⟩, ?_, htail⟩
  unfold retry_again
  simp only [← hindex]
  rw [if_neg (by omega), hstamped]
  rfl

theorem retry_again_row (h : following p.request_pool f.index = i :: l) (hstamped : p.stamped i = true) :
    ∃ g, p.retry_again false f = .inr (.row (p.request_row i), g) ∧ g.new_index = i + 1 := by
  obtain ⟨rfl, hlt, hin, -⟩ := following_eq_cons h
  set index := wrapped p.request_pool.size false f.index with hindex
  refine ⟨⟨index, index + 1, f.position⟩, ?_, rfl⟩
  unfold retry_again
  simp only [← hindex]
  rw [if_neg (by omega), hstamped]
  rfl

theorem try_next_end (out : Bool) (h : following p.timer_pool f.index = []) :
    ∃ g, p.try_next out false f = .inr (.key_not_found, g) ∧ g.new_index = f.new_index :=
  ⟨_, if_pos (following_eq_nil_iff.mp h), rfl⟩

theorem try_next_skip (out : Bool) (h : following p.timer_pool f.index = i :: l) (hnamed : p.named i = false) :
    ∃ g, p.try_next out false f = .inl g ∧ following p.timer_pool g.index = l ∧
      g.new_index = f.new_index := by
  obtain ⟨rfl, hlt, hin, htail⟩ := following_eq_cons h
  unfold named at hnamed
  refine ⟨⟨wrapped p.timer_pool.size false f.index + 1, f.new_index, some 0⟩, ?_, htail, rfl⟩
  unfold try_next
  simp only
  rw [if_neg (by omega), hnamed]
  rfl

/-- The cursor has seen all timers of the record. -/
theorem try_next_again (out : Bool) (h : following p.timer_pool f.index = i :: l) (hnamed : p.named i = true)
    (hreach : f.position.reaches (p.named_cnt i) = true) :
    ∃ g, p.try_next out false f = .inl g ∧ following p.timer_pool g.index = i :: l ∧
      g.new_index = f.new_index ∧ g.position = some 0 := by
  obtain ⟨rfl, hlt, hin, htail⟩ := following_eq_cons h
  unfold named at hnamed
  unfold named_cnt at hreach
  refine ⟨⟨wrapped p.timer_pool.size false f.index, f.new_index, some 0⟩, ?_, ?_, rfl, rfl⟩
  · unfold try_next
    simp only
    rw [if_neg (by omega), hnamed, hreach]
    rfl
  · show following p.timer_pool (wrapped p.timer_pool.size false f.index) = _
    rw [following_of_lt hlt, p.timer_pool.upto_of_ne hlt hin, ← htail, following_succ hlt]

theorem try_next_row (out : Bool) (h : following p.timer_pool f.index = i :: l) (hnamed : p.named i = true)
    (hreach : f.position.reaches (p.named_cnt i) = false) :
    ∃ g, p.try_next out false f = .inr (.row (p.timer_row i), g) ∧ g.new_index = i + 1 := by
  obtain ⟨rfl, hlt, hin, -⟩ := following_eq_cons h
  unfold named at hnamed
  unfold named_cnt at hreach
  set index := wrapped p.timer_pool.size false f.index with hindex
  refine ⟨⟨index, index + 1, f.position.succ⟩, ?_, rfl⟩
  unfold try_next
  simp only [← hindex]
  rw [if_neg (by omega), hnamed, hreach]
  rfl

end RawPools

/-! ## Section 6: What the loops end with -/

namespace RawPools

variable {p : RawPools} {f : RawFetch} {out exact_ : Bool} {i : Nat} {l : List Nat}

/-- The loop passes over the slots without a record. -/
theorem retry_again_reaches (f : RawFetch) : ∃ g,
    following p.request_pool g.index =
      (following p.request_pool f.index).dropWhile (fun i => !p.stamped i) ∧
      ∀ r, Leaves (p.retry_again false) f r ↔ Leaves (p.retry_again false) g r := by
  have hstep : ∀ f i l, following p.request_pool f.index = i :: l → p.stamped i = false →
      ∃ g, p.retry_again false f = .inl g ∧ following p.request_pool g.index = l ∧ () = () := by
    intro f i l h hstamped
    obtain ⟨g, hbody, htail⟩ := retry_again_skip h hstamped
    exact ⟨g, hbody, htail, rfl⟩
  obtain ⟨g, hg, -, hleaves⟩ := leaves_skip (fun _ => ()) hstep f
  exact ⟨g, hg, hleaves⟩

/-- The loop passes over the timers whose slots hold no record. -/
theorem try_next_reaches (out : Bool) (f : RawFetch) : ∃ g,
    following p.timer_pool g.index = (following p.timer_pool f.index).dropWhile (fun i => !p.named i) ∧
      g.new_index = f.new_index ∧
      ∀ r, Leaves (p.try_next out false) f r ↔ Leaves (p.try_next out false) g r :=
  leaves_skip RawFetch.new_index (fun _ _ _ h hnamed => try_next_skip out h hnamed) f

theorem retry_again_none
    (h : (following p.request_pool f.index).dropWhile (fun i => !p.stamped i) = []) :
    ∃ g, Leaves (p.retry_again false) f (.key_not_found, g) ∧
      following p.request_pool g.new_index = [] := by
  obtain ⟨f', hf', hleaves⟩ := retry_again_reaches (p := p) f
  obtain ⟨g, hbody, hnil⟩ := retry_again_end (hf'.trans h)
  exact ⟨g, (hleaves _).mpr (leaves_of_inr hbody), hnil⟩

theorem retry_again_some
    (h : (following p.request_pool f.index).dropWhile (fun i => !p.stamped i) = i :: l) :
    ∃ g, Leaves (p.retry_again false) f (.row (p.request_row i), g) ∧ g.new_index = i + 1 := by
  have hstamped := good_of_dropWhile h
  obtain ⟨f', hf', hleaves⟩ := retry_again_reaches (p := p) f
  obtain ⟨g, hbody, hnew⟩ := retry_again_row (hf'.trans h) hstamped
  exact ⟨g, (hleaves _).mpr (leaves_of_inr hbody), hnew⟩

theorem try_next_none (out : Bool)
    (h : (following p.timer_pool f.index).dropWhile (fun i => !p.named i) = []) :
    ∃ g, Leaves (p.try_next out false) f (.key_not_found, g) ∧ g.new_index = f.new_index := by
  obtain ⟨f', hf', hnew', hleaves⟩ := try_next_reaches out f
  obtain ⟨g, hbody, hnew⟩ := try_next_end out (hf'.trans h)
  exact ⟨g, (hleaves _).mpr (leaves_of_inr hbody), hnew.trans hnew'⟩

theorem reaches_zero (cnt : Nat) : SizeT.reaches (some 0) cnt = decide (cnt = 0) := by
  simp [SizeT.reaches]

/-- Whatever the cursor has seen, a record with timers shows the timer. -/
theorem try_next_some (out : Bool)
    (h : (following p.timer_pool f.index).dropWhile (fun i => !p.named i) = i :: l)
    (hcnt : p.named_cnt i ≠ 0) :
    ∃ g, Leaves (p.try_next out false) f (.row (p.timer_row i), g) ∧ g.new_index = i + 1 := by
  have hnamed := good_of_dropWhile h
  obtain ⟨f', hf', -, hleaves⟩ := try_next_reaches out f
  cases hreach : f'.position.reaches (p.named_cnt i) with
  | false =>
    obtain ⟨g, hbody, hnew⟩ := try_next_row out (hf'.trans h) hnamed hreach
    exact ⟨g, (hleaves _).mpr (leaves_of_inr hbody), hnew⟩
  | true =>
    -- one more turn, with a cleared count
    obtain ⟨f'', hback, hf'', -, hzero⟩ := try_next_again out (hf'.trans h) hnamed hreach
    have hreach' : f''.position.reaches (p.named_cnt i) = false := by
      rw [hzero, reaches_zero]
      exact decide_eq_false hcnt
    obtain ⟨g, hbody, hnew⟩ := try_next_row out hf'' hnamed hreach'
    exact ⟨g, (hleaves _).mpr ((leaves_inl_iff hback).mpr (leaves_of_inr hbody)), hnew⟩

/-- A record without timers is never left. -/
theorem try_next_stuck
    (h : (following p.timer_pool f.index).dropWhile (fun i => !p.named i) = i :: l)
    (hcnt : p.named_cnt i = 0) (r : RawAnswer × RawFetch) : ¬ Leaves (p.try_next out false) f r := by
  have hnamed := good_of_dropWhile h
  obtain ⟨f', hf', -, hleaves⟩ := try_next_reaches out f
  rw [hleaves]
  refine not_leaves_of_trapped (fun g => following p.timer_pool g.index = i :: l) ?_ (hf'.trans h)
  intro g hg
  have hreach : g.position.reaches (p.named_cnt i) = true := by
    rw [hcnt]
    cases hpos : g.position <;> simp [SizeT.reaches]
  obtain ⟨g', hbody, hg', -, -⟩ := try_next_again out hg hnamed hreach
  exact ⟨g', hbody, hg'⟩

/-- With `exact` both loops are left in their first turn. -/
theorem retry_again_exact (f : RawFetch) : Ends (p.retry_again true) f := by
  obtain ⟨r, hr⟩ : ∃ r, p.retry_again true f = .inr r := by
    unfold retry_again
    simp only [if_true]
    split_ifs <;> exact ⟨_, rfl⟩
  exact ends_iff_leaves.mpr ⟨r, leaves_of_inr hr⟩

theorem try_next_exact (f : RawFetch) : Ends (p.try_next out true) f := by
  obtain ⟨r, hr⟩ : ∃ r, p.try_next out true f = .inr r := by
    unfold try_next
    simp only [if_true, Bool.not_true, Bool.false_and, Bool.false_eq_true, if_false]
    split_ifs <;> exact ⟨_, rfl⟩
  exact ends_iff_leaves.mpr ⟨r, leaves_of_inr hr⟩

/-- The first timer from `index` on whose slot holds a record. -/
def first_named (p : RawPools) (index : SizeT) : Option Nat :=
  (following p.timer_pool (index.getD p.timer_pool.outPos)).find? p.named

theorem try_next_ends_iff (f : RawFetch) : Ends (p.try_next out false) f ↔
    ∀ i ∈ (following p.timer_pool f.index).find? p.named, p.named_cnt i ≠ 0 := by
  rw [ends_iff_leaves, List.find?_eq_head?_dropWhile_not]
  cases h : (following p.timer_pool f.index).dropWhile (fun i => !p.named i) with
  | nil =>
    obtain ⟨g, hg, -⟩ := try_next_none out h
    exact ⟨fun _ i hi => by simp at hi, fun _ => ⟨_, hg⟩⟩
  | cons i l =>
    have hhead : (∀ j ∈ (i :: l).head?, p.named_cnt j ≠ 0) ↔ p.named_cnt i ≠ 0 := by simp
    rw [hhead]
    constructor
    · rintro ⟨r, hr⟩ hcnt
      exact try_next_stuck h hcnt r hr
    · intro hcnt
      obtain ⟨g, hg, -⟩ := try_next_some out h hcnt
      exact ⟨_, hg⟩

/-- The fetch function of the table `request` always ends. -/
theorem requests_fetch_row_ends (p : RawPools) (index position : SizeT) (exact_ : Bool) :
    ∃ fuel, (p.requests_fetch_row fuel index position exact_).isSome := by
  unfold requests_fetch_row
  cases exact_ with
  | true => exact retry_again_exact _
  | false =>
    apply ends_iff_leaves.mpr
    generalize hf : (⟨index.getD p.request_pool.outPos, index.getD p.request_pool.outPos,
      position⟩ : RawFetch) = f
    cases h : (following p.request_pool f.index).dropWhile (fun i => !p.stamped i) with
    | nil =>
      obtain ⟨g, hg, -⟩ := retry_again_none h
      exact ⟨_, hg⟩
    | cons i l =>
      obtain ⟨g, hg, -⟩ := retry_again_some h
      exact ⟨_, hg⟩

end RawPools

/-! ## Section 7: Runs without bare records -/

namespace TimerState

variable {s : TimerState} {shares : List (List (List RequestTimer))} {realloc_ok : Bool} {i : Nat}

theorem notMem_ahead_of_length {α : Type*} {xs : List α} (hlen : xs.length = shares.flatten.length)
    (hi : i ∉ s.request_pool.ahead shares.flatten.length) :
    i ∉ walk s.request_pool.size s.request_pool.inPos xs.length := by
  rwa [hlen]

/-- A batch changes the counts of the new records only. -/
theorem timers_cnt_ingest (h : shares.flatten.length ≤ s.request_pool.free)
    (hi : i ∉ s.request_pool.ahead shares.flatten.length) :
    ((s.ingest shares h realloc_ok).request_pool.data i).timers_cnt =
      (s.request_pool.data i).timers_cnt := by
  have hbare : ((s.admit_bare h).request_pool.data i).timers_cnt =
      (s.request_pool.data i).timers_cnt :=
    congrArg _ (writeFrom_of_notMem (notMem_ahead_of_length List.length_replicate hi))
  unfold ingest
  split
  · exact hbare
  · split
    · exact hbare
    · next r hr =>
      obtain ⟨id, pool, records⟩ := r
      obtain ⟨-, hcnt⟩ := timer_pool_add_count hr
      have hnew : (s.admit_timers realloc_ok h hr).request_pool.data i = records i :=
        writeFrom_of_notMem (notMem_ahead_of_length (s.length_merged h _ _) hi)
      have hold : (s.copied shares).data i = s.request_pool.data i :=
        writeFrom_of_notMem (notMem_ahead_of_length List.length_replicate hi)
      rw [hnew, hcnt i, hold]

/-- The new records have the timers that they store, if the pool takes them. -/
theorem timers_cnt_ingest_new (h : shares.flatten.length ≤ s.request_pool.free)
    (hkept : ¬ (timer_pool_full s.timer_pool (timers_added shares) ∧ realloc_ok = false))
    (hadded : timers_added shares ≠ 0) (hi : i ∈ s.request_pool.ahead shares.flatten.length) :
    ∃ timers ∈ shares.flatten,
      ((s.ingest shares h realloc_ok).request_pool.data i).timers_cnt =
        pinba_stored_timer_count timers := by
  have hfree := s.request_pool.count_add_free
  unfold ingest
  rw [if_neg hadded]
  split
  · next hnone =>
    -- only a full pool that cannot grow refuses the timers
    exfalso
    apply hkept
    unfold reserved timer_pool_add at hnone
    split at hnone
    · next hfull =>
      refine ⟨hfull, ?_⟩
      by_contra hok
      rw [if_pos (by simpa using hok)] at hnone
      cases hnone
    · cases hnone
  · next r hr =>
    obtain ⟨id, pool, records⟩ := r
    have hlen := s.length_merged h id pool
    have hmem : (s.admit_timers realloc_ok h hr).request_pool.data i ∈ (s.merged shares id pool).1 := by
      apply writeFrom_mem s.request_pool.in_lt
      · show _ ≤ s.request_pool.size
        omega
      · show i ∈ walk s.request_pool.size s.request_pool.inPos _
        rw [hlen]
        exact hi
    have hcnt := List.mem_map_of_mem (f := TimerOwner.timers_cnt) hmem
    rw [s.map_timers_cnt_merged h] at hcnt
    obtain ⟨timers, htimers, heq⟩ := List.mem_map.mp hcnt
    exact ⟨timers, htimers, heq.symm⟩

end TimerState

namespace RawPools

variable {p : RawPools} {i : Nat}

/-- Every record that the event leaves in a slot keeps a timer. -/
def Timed (p : RawPools) : RawEvent → Prop
  | .ingest _ shares realloc_ok =>
    (∀ r ∈ shares.flatten, pinba_stored_timer_count r.2 ≠ 0) ∧
    ¬ (timer_pool_full p.timer_pool (TimerState.timers_added (timers_of shares)) ∧
      realloc_ok = false)
  | .leftovers records slots => ∀ i, (slots i).time.tv_sec ≠ 0 → (records i).timers_cnt ≠ 0
  | _ => True

theorem flatten_timers_of (shares : List (List RawRequest)) :
    (timers_of shares).flatten = shares.flatten.map Prod.snd := List.map_flatten.symm

theorem stamped_ingest {now : Timeval} {shares : List (List RawRequest)} {realloc_ok : Bool}
    (h : (timers_of shares).flatten.length ≤ p.request_pool.free)
    (hi : i ∉ p.request_pool.ahead (timers_of shares).flatten.length) :
    (p.ingest now shares h realloc_ok).slots i = p.slots i := by
  apply writeFrom_of_notMem
  rw [List.length_map]
  rw [flatten_timers_of, List.length_map] at hi
  exact hi

theorem timed_ingest {now : Timeval} {shares : List (List RawRequest)} {realloc_ok : Bool}
    (h : (timers_of shares).flatten.length ≤ p.request_pool.free)
    (hok : p.Timed (.ingest now shares realloc_ok))
    (ih : ∀ i, p.stamped i = true → (p.request_pool.data i).timers_cnt ≠ 0)
    (hi : (p.ingest now shares h realloc_ok).stamped i = true) :
    ((p.ingest now shares h realloc_ok).request_pool.data i).timers_cnt ≠ 0 := by
  by_cases hahead : i ∈ p.request_pool.ahead (timers_of shares).flatten.length
  · have hstored : ∀ timers ∈ (timers_of shares).flatten, pinba_stored_timer_count timers ≠ 0 := by
      rw [flatten_timers_of]
      intro timers htimers
      obtain ⟨r, hr, rfl⟩ := List.mem_map.mp htimers
      exact hok.1 r hr
    have hadded : TimerState.timers_added (timers_of shares) ≠ 0 := by
      intro hzero
      -- a batch without timers has no records
      cases hshares : (timers_of shares).flatten with
      | nil => simp [hshares, CircularBuffer.ahead, walk] at hahead
      | cons timers rest =>
        rw [hshares] at hstored
        apply hstored timers List.mem_cons_self
        rw [TimerState.timers_added, hshares] at hzero
        simp only [List.map_cons, List.sum_cons] at hzero
        omega
    obtain ⟨timers, htimers, hcnt⟩ := TimerState.timers_cnt_ingest_new h hok.2 hadded hahead
    show ((p.toTimerState.ingest _ h realloc_ok).request_pool.data i).timers_cnt ≠ 0
    rw [hcnt]
    exact hstored timers htimers
  · show ((p.toTimerState.ingest _ h realloc_ok).request_pool.data i).timers_cnt ≠ 0
    rw [TimerState.timers_cnt_ingest h hahead]
    apply ih
    rwa [stamped, stamped_ingest h hahead] at hi

/-- In a run without bare records every slot that holds a record has timers. -/
theorem timed_of_run (hrun : Run Timed p) :
    ∀ i, p.stamped i = true → (p.request_pool.data i).timers_cnt ≠ 0 := by
  induction hrun with
  | start requests timers h =>
    intro i hi
    exact absurd hi (by simp [stamped, init]; rfl)
  | ingest now shares h realloc_ok hp hnow hok ih => exact fun i hi => timed_ingest h hok ih hi
  | leftovers records slots h hslots hp hok ih =>
    intro i hi
    exact hok i (of_decide_eq_true hi)
  | expire n h hp hok ih =>
    intro i hi
    apply ih
    unfold stamped expire at hi
    simp only at hi
    split at hi <;> exact hi
  | delete_all_rows hp hok ih =>
    intro i hi
    exact absurd hi (by simp [stamped, delete_all_rows]; rfl)

end RawPools

/-! ## Section 8: The fetch function of the table timer ends -/

namespace RawPools

/-- A call ends exactly if `exact` is set or the first timer that it does not pass over names a
    record with timers. Where every admitted record keeps a timer, every call ends. -/
theorem timers_fetch_row_ends (p : RawPools) (index position : SizeT) (out exact_ : Bool) :
    ((∃ fuel, (p.timers_fetch_row fuel index position out exact_).isSome) ↔
      exact_ = true ∨ ∀ i ∈ p.first_named index, p.named_cnt i ≠ 0) ∧
    (Run Timed p → ∃ fuel, (p.timers_fetch_row fuel index position out exact_).isSome) := by
  have hiff : (∃ fuel, (p.timers_fetch_row fuel index position out exact_).isSome) ↔
      exact_ = true ∨ ∀ i ∈ p.first_named index, p.named_cnt i ≠ 0 := by
    cases exact_ with
    | true => exact ⟨fun _ => .inl rfl, fun _ => try_next_exact _⟩
    | false =>
      rw [or_iff_right Bool.false_ne_true]
      exact try_next_ends_iff _
  refine ⟨hiff, ?_⟩
  intro hrun
  apply hiff.mpr
  right
  intro i hi
  have hnamed : p.named i = true := List.find?_some hi
  exact timed_of_run hrun (p.request_of i) hnamed

section stale

/-- A timer with one tag. -/
def one_timer : RequestTimer := ⟨1, 1, default, default, default, [(1, default)]⟩

/-- A record with two timers, and one without. -/
def with_timers : RawRequest := (default, [one_timer, one_timer])

def bare : RawRequest := (default, [])

/-- A ring of the smallest size with a record of two timers. -/
def two_timers_live : RawPools :=
  (init 9 2621439).ingest ⟨1, 0⟩ [[with_timers]] (by decide) true

/-- The scan of the table `timer` has seen the first of them. -/
theorem rnd_next_two_timers : two_timers_live.rnd_next 2 .timer .rnd_init =
    some (.row (.timer 0 0 1 default), ⟨some 1, some 1⟩) := by
  rfl

/-- The record expires, the ring comes around, and a record without timers takes its slot. -/
def slot_reused : RawPools :=
  (((two_timers_live.expire 1 (by decide)).ingest ⟨2, 0⟩ [List.replicate 9 bare] (by decide)
    true).expire 9 (by decide)).ingest ⟨3, 0⟩ [[bare]] (by decide) true

theorem run_slot_reused : Run (fun _ _ => True) slot_reused := by
  have hstart : Run (fun _ _ => True) (init 9 2621439) := .start 9 2621439 (by decide)
  have hfirst : Run (fun _ _ => True) two_timers_live :=
    .ingest _ _ _ true hstart (by decide) trivial
  exact .ingest _ _ _ true (.expire 9 _ (.ingest _ _ _ true (.expire 1 _ hfirst trivial)
    (by decide) trivial) trivial) (by decide) trivial

/-- The next call of that scan never returns. -/
theorem timers_fetch_row_hangs : Run (fun _ _ => True) two_timers_live ∧
    two_timers_live.rnd_next 2 .timer .rnd_init =
      some (.row (.timer 0 0 1 default), ⟨some 1, some 1⟩) ∧
    Run (fun _ _ => True) slot_reused ∧
    ∀ fuel, slot_reused.timers_fetch_row fuel (some 1) (some 1) true false = none := by
  have hstart : Run (fun _ _ => True) (init 9 2621439) := .start 9 2621439 (by decide)
  refine ⟨.ingest _ _ _ true hstart (by decide) trivial, rnd_next_two_timers, run_slot_reused, ?_⟩
  intro fuel
  have hfind : (following slot_reused.timer_pool 1).find? slot_reused.named = some 1 := rfl
  have hcnt : slot_reused.named_cnt 1 = 0 := rfl
  by_contra hsome
  -- the second timer still names the slot, which now holds the record without timers
  exact (try_next_ends_iff ⟨1, 1, some 1⟩).mp ⟨fuel, Option.isSome_iff_ne_none.mpr hsome⟩ 1 hfind hcnt

/-- In the state before, every call ends. -/
theorem timers_fetch_row_ends_two_timers : Run Timed two_timers_live ∧
    ∃ fuel, (two_timers_live.timers_fetch_row fuel (some 1) (some 1) true false).isSome := by
  have hstart : Run Timed (init 9 2621439) := .start 9 2621439 (by decide)
  have hrun : Run Timed two_timers_live :=
    .ingest _ _ _ true hstart (by decide) ⟨by decide, by decide⟩
  exact ⟨hrun, (timers_fetch_row_ends two_timers_live (some 1) (some 1) true false).2 hrun⟩

end stale

end RawPools

end PinbaEngine
