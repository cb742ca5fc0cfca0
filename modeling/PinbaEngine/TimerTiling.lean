import Mathlib.Algebra.Order.BigOperators.Group.List
import Mathlib.Algebra.Order.Group.Nat
import Mathlib.Data.List.Forall2
import PinbaEngine.TimerPool

/-! # Live records tile the timer pool

    The ranges that the live records claim in the timer pool, listed in ring
    order, are the live part of the pool, and every record reads back the
    timers that were stored for it.

    Appending and expiring keep this without conditions. Growing a wrapped pool
    does not: the records to be shifted are found through their moved timers, and
    timers without tags are passed over. The shift reaches every record exactly
    if every record whose timers start in the moved part has a moved timer with a
    tag (`GrowthSafe`).
-/

namespace PinbaEngine

open Circular

/-! ## Section 1: Tilings -/

/-- The positions that a record claims. -/
def claimed (pool : CircularBuffer PoolTimer) (record : TimerOwner) : List Nat :=
  walk pool.size record.timers_start record.timers_cnt

/-- The timers of a request as they are stored for the record in a slot. -/
def owned (request_id : Nat) (timers : List TimerRecord) : List PoolTimer :=
  timers.map (PoolTimer.mk request_id)

/-- The records `entries`, with their slots, tile the live part of the pool and
    hold the timers `stored`. -/
structure Tiling (pool : CircularBuffer PoolTimer) (entries : List (Nat × TimerOwner))
    (stored : List (List TimerRecord)) : Prop where
  tiles : entries.flatMap (fun e => claimed pool e.2) = pool.live
  lengths : entries.map (fun e => e.2.timers_cnt) = stored.map List.length
  held : pool.live.map pool.data = (entries.zip stored).flatMap fun p => owned p.1.1 p.2

section tilings
variable {pool : CircularBuffer PoolTimer} {entries : List (Nat × TimerOwner)}
  {stored : List (List TimerRecord)} {e : Nat × TimerOwner}

@[simp] theorem length_claimed (record : TimerOwner) :
    (claimed pool record).length = record.timers_cnt := length_walk

theorem length_flatMap_claimed :
    (entries.flatMap fun e => claimed pool e.2).length =
      (entries.map fun e => e.2.timers_cnt).sum := by
  simp [List.length_flatMap]

namespace Tiling

variable (h : Tiling pool entries stored)

include h

theorem claimed_live (he : e ∈ entries) {i : Nat} (hi : i ∈ claimed pool e.2) : i ∈ pool.live := by
  rw [← h.tiles]
  exact List.mem_flatMap.mpr ⟨e, he, hi⟩

theorem start_live (he : e ∈ entries) (hcnt : e.2.timers_cnt ≠ 0) :
    e.2.timers_start ∈ pool.live := by
  apply h.claimed_live he
  obtain ⟨n, hn⟩ := Nat.exists_eq_succ_of_ne_zero hcnt
  simp [claimed, hn, walk]

theorem start_lt (he : e ∈ entries) (hcnt : e.2.timers_cnt ≠ 0) : e.2.timers_start < pool.size :=
  mem_walk_lt pool.out_lt (h.start_live he hcnt)

theorem timers_cnt_le (he : e ∈ entries) : e.2.timers_cnt ≤ pool.count := by
  have hlen := congrArg List.length h.tiles
  rw [length_flatMap_claimed, CircularBuffer.length_live] at hlen
  rw [← hlen]
  exact List.le_sum_of_mem (List.mem_map_of_mem (f := fun e => e.2.timers_cnt) he)

/-- The timers of a record, in the order in which it reads them. -/
theorem timer_ids_eq (he : e ∈ entries) :
    (List.range e.2.timers_cnt).map (record_get_timer_id pool e.2) = claimed pool e.2 := by
  by_cases hcnt : e.2.timers_cnt = 0
  · simp [claimed, hcnt, walk]
  · have hle := h.timers_cnt_le he
    have hlt := pool.count_lt
    exact (walk_eq_map_advance (h.start_lt he hcnt) (by omega)).symm

/-- Every record claims the timers that were stored for it. -/
theorem per_record :
    List.Forall₂ (fun e timers => (claimed pool e.2).map pool.data = owned e.1 timers)
      entries stored := by
  have hflat : (entries.flatMap fun e => (claimed pool e.2).map pool.data) =
      (entries.zip stored).flatMap fun p => owned p.1.1 p.2 := by
    rw [← h.held, ← h.tiles, List.map_flatMap]
  have hlen := h.lengths
  clear h
  induction entries generalizing stored with
  | nil =>
    obtain rfl : stored = [] := by simpa using hlen.symm
    exact .nil
  | cons e entries ih =>
    obtain ⟨timers, stored, rfl⟩ : ∃ t r, stored = t :: r := by
      cases stored with
      | nil => simp at hlen
      | cons t r => exact ⟨t, r, rfl⟩
    rw [List.map_cons, List.map_cons, List.cons.injEq] at hlen
    rw [List.flatMap_cons, List.zip_cons_cons, List.flatMap_cons] at hflat
    obtain ⟨hhead, htail⟩ := List.append_inj hflat (by simp [owned, hlen.1])
    exact .cons hhead (ih htail hlen.2)

/-- The claimed timers name the slot of their record. -/
theorem request_id (he : e ∈ entries) {i : Nat} (hi : i ∈ claimed pool e.2) :
    (pool.data i).request_id = e.1 := by
  have hall := h.per_record
  clear h
  induction hall with
  | nil => exact absurd he List.not_mem_nil
  | @cons e' timers _ _ hrec _ ih =>
    rcases List.mem_cons.mp he with rfl | hmem
    · have hown : pool.data i ∈ owned e.1 timers := hrec ▸ List.mem_map_of_mem hi
      obtain ⟨t, -, ht⟩ := List.mem_map.mp hown
      rw [← ht]
    · exact ih hmem

end Tiling

end tilings

/-! ## Section 2: Storing the timers of a batch -/

section storing
variable {size request_id timers_start timers_offset : Nat}

theorem length_stored_timers (timers : List RequestTimer) :
    (stored_timers timers).length = pinba_stored_timer_count timers := by
  rw [stored_timers, List.length_map, pinba_stored_timer_count, List.countP_eq_length_filter]

theorem succIndex_advance {i n : Nat} (hi : i < size) (hn : n + 1 ≤ size) :
    succIndex size (advance size i n) = advance size i (n + 1) := by
  rw [succIndex_eq_mod (advance_lt hi (by omega)), advance_eq_mod hi (by omega),
    advance_eq_mod hi hn, Nat.mod_add_mod, Nat.add_assoc]

/-- `_add_timers` writes the stored timers one after the other. -/
theorem add_timers_data (hstart : timers_start < size) {timers : List RequestTimer}
    {timers_cnt : Nat} (hroom : timers_cnt + pinba_stored_timer_count timers ≤ size)
    (data : Nat → PoolTimer) :
    (add_timers size request_id timers_start timers timers_cnt data).2 =
      writeFrom size (advance size timers_start timers_cnt)
        (owned request_id (stored_timers timers)) data := by
  induction timers generalizing timers_cnt data with
  | nil => rfl
  | cons t timers ih =>
    rw [pinba_stored_timer_count, List.countP_cons, ← pinba_stored_timer_count] at hroom
    rw [add_timers]
    cases hskip : t.skipped with
    | true =>
      rw [hskip] at hroom
      have hstored : stored_timers (t :: timers) = stored_timers timers := by
        simp [stored_timers, hskip]
      rw [if_pos rfl, ih (by simpa using hroom), hstored]
    | false =>
      simp only [hskip, Bool.not_false, if_true] at hroom
      have hstored : stored_timers (t :: timers) = t.record :: stored_timers timers := by
        simp [stored_timers, hskip]
      rw [if_neg (by simp), ih (by omega), hstored, owned, owned, List.map_cons, writeFrom,
        succIndex_advance hstart (by omega)]

/-- The timers of a share with the slots of their records. -/
def share_owned (share : Share) : List PoolTimer :=
  share.flatMap fun e => owned e.1 (stored_timers e.2)

theorem length_share_owned (share : Share) : (share_owned share).length = share_timers share := by
  simp [share_owned, share_timers, owned, length_stored_timers, List.length_flatMap]

theorem share_timers_cons (e : Nat × List RequestTimer) (share : Share) :
    share_timers (e :: share) = pinba_stored_timer_count e.2 + share_timers share := by
  simp [share_timers]

/-- One thread stores the timers of its share in a row, and its records claim
    that row. -/
theorem merge_timers_spec {share : Share} {timers_cnt : Nat}
    (hpos : timers_offset + timers_cnt + share_timers share < 2 * size)
    (hroom : share_timers share ≤ size) (data : Nat → PoolTimer) :
    let merged := merge_timers_func size timers_offset share timers_cnt data
    let pos := (timers_offset + timers_cnt) % size
    (merged.1.flatMap fun o => walk size o.timers_start o.timers_cnt) =
      walk size pos (share_timers share) ∧
    merged.2 = writeFrom size pos (share_owned share) data := by
  have hsize : 0 < size := by omega
  induction share generalizing timers_cnt data with
  | nil => exact ⟨rfl, rfl⟩
  | cons e share ih =>
    obtain ⟨request_id, timers⟩ := e
    rw [share_timers_cons] at hpos hroom ⊢
    simp only at hpos hroom ⊢
    have howned : share_owned ((request_id, timers) :: share) =
        owned request_id (stored_timers timers) ++ share_owned share := rfl
    rw [merge_timers_func]
    by_cases hnil : timers = []
    · -- a record without timers claims nothing
      subst hnil
      obtain ⟨hwalk, hdata⟩ := @ih timers_cnt (by omega) (by omega) data
      simp only [if_true, List.flatMap_cons]
      refine ⟨?_, ?_⟩
      · rw [hwalk]
        simp [walk, pinba_stored_timer_count]
      · rw [hdata, howned]
        rfl
    · -- the start wraps at most once
      have hstart : (if size ≤ timers_offset + timers_cnt then timers_offset + timers_cnt - size
          else timers_offset + timers_cnt) = (timers_offset + timers_cnt) % size := by
        split
        · rw [Nat.mod_eq_sub_mod (by omega), Nat.mod_eq_of_lt (by omega)]
        · rw [Nat.mod_eq_of_lt (by omega)]
      have hlt : (timers_offset + timers_cnt) % size < size := Nat.mod_lt _ hsize
      simp only [if_neg hnil, hstart, add_timers_count, Nat.zero_add, List.flatMap_cons]
      obtain ⟨hwalk, hdata⟩ := @ih (timers_cnt + pinba_stored_timer_count timers)
        (by omega) (by omega)
        (add_timers size request_id ((timers_offset + timers_cnt) % size) timers 0 data).2
      have hnext : ((timers_offset + timers_cnt) % size + pinba_stored_timer_count timers) % size =
          (timers_offset + (timers_cnt + pinba_stored_timer_count timers)) % size := by
        rw [Nat.mod_add_mod, Nat.add_assoc]
      refine ⟨?_, ?_⟩
      · rw [hwalk, walk_add hlt, hnext]
      · have hzero : advance size ((timers_offset + timers_cnt) % size) 0 =
            (timers_offset + timers_cnt) % size := by
          rw [advance_eq_mod hlt (by omega), Nat.add_zero, Nat.mod_mod]
        rw [hdata, howned, writeFrom_append hlt, add_timers_data hlt (by omega), hzero, owned,
          List.length_map, length_stored_timers, hnext]

/-- So do all threads together. -/
theorem merge_shares_spec {shares : List Share} {timer_pool_in timers_added : Nat}
    (hpos : timers_added + timer_pool_in + share_timers shares.flatten < 2 * size)
    (hroom : share_timers shares.flatten ≤ size) (data : Nat → PoolTimer) :
    let merged := merge_shares size timer_pool_in shares timers_added data
    let pos := (timers_added + timer_pool_in) % size
    (merged.1.flatMap fun o => walk size o.timers_start o.timers_cnt) =
      walk size pos (share_timers shares.flatten) ∧
    merged.2 = writeFrom size pos (share_owned shares.flatten) data := by
  have hsize : 0 < size := by omega
  induction shares generalizing timers_added data with
  | nil => exact ⟨rfl, rfl⟩
  | cons share shares ih =>
    have hsum : share_timers (share :: shares).flatten =
        share_timers share + share_timers shares.flatten := by
      simp [share_timers]
    have howned : share_owned (share :: shares).flatten =
        share_owned share ++ share_owned shares.flatten := by
      simp [share_owned]
    rw [hsum] at hpos hroom ⊢
    have hlt : (timers_added + timer_pool_in) % size < size := Nat.mod_lt _ hsize
    obtain ⟨hwalk, hdata⟩ := merge_timers_spec
      (show timers_added + timer_pool_in + 0 + share_timers share < 2 * size by omega)
      (show share_timers share ≤ size by omega) data
    obtain ⟨hwalks, hdatas⟩ := @ih (timers_added + share_timers share)
      (by omega) (by omega) (merge_timers_func size (timers_added + timer_pool_in) share 0 data).2
    have hnext : ((timers_added + timer_pool_in) % size + share_timers share) % size =
        (timers_added + share_timers share + timer_pool_in) % size := by
      rw [Nat.mod_add_mod]
      congr 1
      omega
    simp only [merge_shares, List.flatMap_append]
    rw [Nat.add_zero] at hwalk hdata
    refine ⟨?_, ?_⟩
    · rw [hwalk, hwalks, walk_add hlt, hnext]
    · rw [hdatas, hdata, howned, writeFrom_append hlt, length_share_owned, hnext]

end storing

/-! ## Section 3: Appending and expiring -/

section window
variable {pool : CircularBuffer PoolTimer} {entries new : List (Nat × TimerOwner)}
  {stored newStored : List (List TimerRecord)}

namespace Tiling

theorem length_eq (h : Tiling pool entries stored) : entries.length = stored.length := by
  have hlen := congrArg List.length h.lengths
  rwa [List.length_map, List.length_map] at hlen

/-- Records without timers claim nothing. -/
theorem append_bare (h : Tiling pool entries stored) {slots : List Nat} {n : Nat}
    (hslots : slots.length = n) :
    Tiling pool (entries ++ slots.zip (List.replicate n ⟨0, 0⟩))
      (stored ++ List.replicate n []) := by
  have hclaim : (slots.zip (List.replicate n ⟨0, 0⟩)).flatMap (fun e => claimed pool e.2) = [] := by
    rw [List.flatMap_eq_nil_iff]
    intro e he
    rw [List.eq_of_mem_replicate (List.of_mem_zip he).2]
    rfl
  have hown : ((slots.zip (List.replicate n (⟨0, 0⟩ : TimerOwner))).zip
      (List.replicate n [])).flatMap (fun p => owned p.1.1 p.2) = [] := by
    rw [List.flatMap_eq_nil_iff]
    intro p hp
    rw [List.eq_of_mem_replicate (List.of_mem_zip hp).2]
    rfl
  refine ⟨?_, ?_, ?_⟩
  · rw [List.flatMap_append, h.tiles, hclaim, List.append_nil]
  · rw [List.map_append, List.map_append, h.lengths, List.map_replicate, List.append_cancel_left_eq]
    apply List.ext_getElem <;> simp [hslots]
  · rw [List.zip_append h.length_eq, List.flatMap_append, ← h.held, hown, List.append_nil]

/-- The number of timers that some records own. -/
theorem length_flatMap_owned (l : List ((Nat × TimerOwner) × List TimerRecord)) :
    (l.flatMap fun p => owned p.1.1 p.2).length = ((l.map Prod.snd).map List.length).sum := by
  simp [List.length_flatMap, owned, Function.comp_def]

/-- Storing timers behind the live ones extends the tiling. -/
theorem append (h : Tiling pool entries stored) {cnt : Nat} (hroom : cnt ≤ pool.free)
    (hwalk : new.flatMap (fun e => claimed pool e.2) = pool.ahead cnt)
    (hlen : new.map (fun e => e.2.timers_cnt) = newStored.map List.length) {data : Nat → PoolTimer}
    (hdata : data = writeFrom pool.size pool.inPos
      ((new.zip newStored).flatMap fun p => owned p.1.1 p.2) pool.data) :
    Tiling ((pool.publish cnt hroom).setData data) (entries ++ new) (stored ++ newStored) := by
  have hsize := pool.count_add_free
  have hcount : ((new.zip newStored).flatMap fun p => owned p.1.1 p.2).length = cnt := by
    have hz : (new.zip newStored).map Prod.snd = newStored := by
      apply List.map_snd_zip
      have := congrArg List.length hlen
      simp only [List.length_map] at this
      omega
    have hw := congrArg List.length hwalk
    rw [length_flatMap_claimed, CircularBuffer.length_ahead, hlen] at hw
    rw [length_flatMap_owned, hz, hw]
  -- the slots that are written are not live
  have hold : pool.live.map data = pool.live.map pool.data := by
    apply List.map_congr_left
    intro i hi
    rw [hdata]
    apply writeFrom_of_notMem
    rw [hcount]
    exact (List.nodup_append'.mp (pool.nodup_live_append_ahead hroom)).2.2 hi
  have hnew : (pool.ahead cnt).map data = (new.zip newStored).flatMap fun p => owned p.1.1 p.2 := by
    rw [hdata, ← hcount]
    exact map_writeFrom pool.in_lt (by omega) pool.data
  refine ⟨?_, ?_, ?_⟩
  · rw [List.flatMap_append, CircularBuffer.live_setData, pool.live_publish hroom, ← hwalk,
      ← h.tiles]
    rfl
  · rw [List.map_append, List.map_append, h.lengths, hlen]
  · rw [CircularBuffer.live_setData, pool.live_publish hroom, List.map_append,
      CircularBuffer.data_setData, hold, hnew, h.held, List.zip_append h.length_eq,
      List.flatMap_append]

theorem live_split (h : Tiling pool entries stored) (n : Nat) :
    pool.live = (entries.take n).flatMap (fun e => claimed pool e.2) ++
      (entries.drop n).flatMap (fun e => claimed pool e.2) := by
  rw [← List.flatMap_append, List.take_append_drop, h.tiles]

/-- The oldest records claim the front of the pool. -/
theorem flatMap_take (h : Tiling pool entries stored) (n : Nat) :
    (entries.take n).flatMap (fun e => claimed pool e.2) =
      pool.live.take ((entries.take n).map fun e => e.2.timers_cnt).sum := by
  rw [h.live_split n, List.take_left' length_flatMap_claimed]

/-- Giving up the timers of the oldest records shortens the tiling. -/
theorem expire (h : Tiling pool entries stored) {n cnt : Nat}
    (hcnt : ((entries.take n).map fun e => e.2.timers_cnt).sum = cnt) {data : Nat → PoolTimer}
    (hdata : ∀ i ∈ pool.live.drop cnt, data i = pool.data i)
    (hle : cnt ≤ (pool.setData data).count) :
    Tiling ((pool.setData data).dropFront cnt hle) (entries.drop n) (stored.drop n) := by
  have hlive : ((pool.setData data).dropFront cnt hle).live = pool.live.drop cnt :=
    (pool.setData data).live_dropFront hle
  have hzip : (entries.zip stored).flatMap (fun p => owned p.1.1 p.2) =
      ((entries.zip stored).take n).flatMap (fun p => owned p.1.1 p.2) ++
        ((entries.zip stored).drop n).flatMap (fun p => owned p.1.1 p.2) := by
    rw [← List.flatMap_append, List.take_append_drop]
  have hfront : (((entries.zip stored).take n).flatMap fun p => owned p.1.1 p.2).length = cnt := by
    have hlen := congrArg (fun l => (l.take n).sum) h.lengths
    simp only [← List.map_take] at hlen
    have hsnd : ((entries.zip stored).take n).map Prod.snd = stored.take n := by
      rw [List.map_take, List.map_snd_zip h.length_eq.ge]
    rw [length_flatMap_owned, hsnd, ← hlen, hcnt]
  refine ⟨?_, ?_, ?_⟩
  · rw [hlive, h.live_split n, List.drop_left' (length_flatMap_claimed.trans hcnt)]
    rfl
  · rw [List.map_drop, h.lengths, List.map_drop]
  · have hmap : (pool.live.drop cnt).map data = (pool.live.drop cnt).map pool.data :=
      List.map_congr_left hdata
    rw [hlive]
    show (pool.live.drop cnt).map data = _
    rw [hmap, List.map_drop, h.held, hzip, List.drop_left' hfront, List.zip_eq_zipWith,
      List.drop_zipWith]
    rfl

end Tiling

end window

/-! ## Section 4: Growing -/

section growing
variable {more : Nat} {records : Nat → TimerOwner} {prev : Option Nat}

/-- The timer is not passed over by the shift. -/
def PoolTimer.tagged (t : PoolTimer) : Bool := t.tag_num ≠ 0

/-- A record after the shift. -/
def TimerOwner.shifted (more : Nat) (record : TimerOwner) : TimerOwner :=
  { record with timers_start := record.timers_start + more }

/-- Further timers of the record that was shifted last are passed over. -/
theorem fold_shift_same {r : Nat} {timers : List PoolTimer}
    (hid : ∀ t ∈ timers, t.request_id = r) :
    timers.foldl (shift_record more) (records, some r) = (records, some r) := by
  induction timers with
  | nil => rfl
  | cons t timers ih =>
    have hstep : shift_record more (records, some r) t = (records, some r) := by
      unfold shift_record
      rw [hid t List.mem_cons_self]
      simp
    rw [List.foldl_cons, hstep]
    exact ih fun x hx => hid x (List.mem_cons_of_mem _ hx)

/-- The timers of one record shift it once if one of them has a tag. -/
theorem fold_shift_group {r : Nat} {timers : List PoolTimer}
    (hid : ∀ t ∈ timers, t.request_id = r) (hprev : prev ≠ some r)
    (hcnt : timers ≠ [] → (records r).timers_cnt ≠ 0) :
    timers.foldl (shift_record more) (records, prev) =
      if timers.any PoolTimer.tagged then
        (Function.update records r ((records r).shifted more), some r)
      else (records, prev) := by
  induction timers with
  | nil => rfl
  | cons t timers ih =>
    have hrest : ∀ t ∈ timers, t.request_id = r := fun x hx => hid x (List.mem_cons_of_mem _ hx)
    have ht := hid t List.mem_cons_self
    have hr := hcnt (List.cons_ne_nil _ _)
    rw [List.foldl_cons, List.any_cons]
    by_cases htag : t.tag_num = 0
    · -- a timer without tags is passed over
      have hstep : shift_record more (records, prev) t = (records, prev) := by
        unfold shift_record
        rw [if_pos htag]
      have htagged : t.tagged = false := by simp [PoolTimer.tagged, htag]
      rw [hstep, ih hrest (fun _ => hr), htagged, Bool.false_or]
    · have hstep : shift_record more (records, prev) t =
          (Function.update records r ((records r).shifted more), some r) := by
        unfold shift_record
        simp only [if_neg htag, ht, if_neg hr, if_neg (Ne.symm hprev)]
        rfl
      have htagged : t.tagged = true := by simp [PoolTimer.tagged, htag]
      rw [hstep, fold_shift_same hrest, htagged, Bool.true_or, if_pos rfl]

/-- The whole loop, over timers grouped by record. -/
theorem fold_shift_groups {groups : List (Nat × List PoolTimer)}
    (hnodup : (groups.map Prod.fst).Nodup)
    (hid : ∀ g ∈ groups, ∀ t ∈ g.2, t.request_id = g.1)
    (hcnt : ∀ g ∈ groups, g.2 ≠ [] → (records g.1).timers_cnt ≠ 0)
    (hprev : ∀ r ∈ groups.map Prod.fst, prev ≠ some r) (i : Nat) :
    ((groups.flatMap Prod.snd).foldl (shift_record more) (records, prev)).1 i =
      if groups.any fun g => g.1 = i && g.2.any PoolTimer.tagged then
        (records i).shifted more
      else records i := by
  induction groups generalizing records prev with
  | nil => rfl
  | cons g groups ih =>
    rw [List.map_cons, List.nodup_cons] at hnodup
    rw [List.flatMap_cons, List.foldl_append,
      fold_shift_group (hid g List.mem_cons_self) (hprev g.1 List.mem_cons_self)
        (hcnt g List.mem_cons_self), List.any_cons]
    -- no other group belongs to the same record
    have hidr : ∀ g ∈ groups, ∀ t ∈ g.2, t.request_id = g.1 :=
      fun x hx => hid x (List.mem_cons_of_mem _ hx)
    have hne : ∀ x ∈ groups, x.1 ≠ g.1 := by
      rintro x hx heq
      exact hnodup.1 (heq ▸ List.mem_map_of_mem hx)
    by_cases hany : g.2.any PoolTimer.tagged = true
    · -- the record of the group is shifted, and it occurs in no other group
      rw [if_pos hany]
      have hcntr : ∀ x ∈ groups, x.2 ≠ [] →
          (Function.update records g.1 ((records g.1).shifted more) x.1).timers_cnt ≠ 0 := by
        intro x hx
        rw [Function.update_of_ne (hne x hx)]
        exact hcnt x (List.mem_cons_of_mem _ hx)
      rw [ih hnodup.2 hidr hcntr]
      · by_cases hi : g.1 = i
        · subst hi
          have hnone : (groups.any fun x => x.1 = g.1 && x.2.any PoolTimer.tagged) = false := by
            rw [List.any_eq_false]
            intro x hx
            simp [hne x hx]
          simp only [hnone, hany, Function.update_self]
          simp
        · simp only [decide_eq_false hi, Bool.false_and, Bool.false_or,
            Function.update_of_ne (Ne.symm hi)]
      · intro r hr heq
        exact hnodup.1 (Option.some.inj heq ▸ hr)
    · rw [if_neg hany, ih hnodup.2 hidr (fun x hx => hcnt x (List.mem_cons_of_mem _ hx))
        (fun r hr => hprev r (List.mem_cons_of_mem _ hr))]
      simp only [Bool.eq_false_iff.mpr hany, Bool.and_false, Bool.false_or]

variable {pool : CircularBuffer PoolTimer} {entries : List (Nat × TimerOwner)}
  {stored : List (List TimerRecord)} {e : Nat × TimerOwner}

/-- The record has a timer with a tag among the moved ones. -/
def has_moved_tag (pool : CircularBuffer PoolTimer) (record : TimerOwner) : Bool :=
  (((claimed pool record).filter fun i => pool.outPos ≤ i).map pool.data).any PoolTimer.tagged

/-- The moved timers are those of the live records, in ring order. -/
theorem moved_timers (h : Tiling pool entries stored) (hw : pool.inPos < pool.outPos) :
    ((List.range' (pool.grow more .zero).outPos
      ((pool.grow more .zero).size - (pool.grow more .zero).outPos)).map (pool.grow more .zero).data) =
    (entries.map fun e =>
      (e.1, ((claimed pool e.2).filter fun i => pool.outPos ≤ i).map pool.data)).flatMap Prod.snd := by
  -- of the two runs of a wrapped ring, the one from the out position on moves
  have hfilter : pool.live.filter (fun i => pool.outPos ≤ i) =
      List.range' pool.outPos (pool.size - pool.outPos) := by
    rw [pool.live_of_wrapped hw, List.filter_append, List.filter_eq_self.mpr, List.filter_eq_nil_iff.mpr,
      List.append_nil]
    · intro i hi
      have := List.mem_range'_1.mp hi
      simp only [decide_eq_true_eq]
      omega
    · intro i hi
      have := List.mem_range'_1.mp hi
      simp only [decide_eq_true_eq]
      omega
  have hout : (pool.grow more .zero).outPos = pool.outPos + more := by
    rw [pool.outPos_grow]
    exact if_pos ⟨hw, le_refl _⟩
  have hsize : (pool.grow more .zero).size - (pool.outPos + more) = pool.size - pool.outPos := by
    rw [pool.size_grow]
    omega
  rw [hout, hsize, Nat.add_comm, ← List.map_add_range', List.map_map]
  calc _ = (List.range' pool.outPos (pool.size - pool.outPos)).map pool.data := by
        apply List.map_congr_left
        intro i hi
        rw [← hfilter, List.mem_filter] at hi
        have hrel : pool.relocate more i = more + i := by
          rw [CircularBuffer.relocate, if_pos ⟨hw, of_decide_eq_true hi.2⟩, Nat.add_comm]
        rw [Function.comp_apply, ← hrel, pool.data_grow hi.1]
    _ = _ := by
        rw [← hfilter, ← h.tiles, List.filter_flatMap, List.map_flatMap, List.flatMap_map]

/-- What the repair does to the record of an entry. -/
theorem shift_records_of_mem (h : Tiling pool entries stored) (hw : pool.inPos < pool.outPos)
    (hslots : (entries.map Prod.fst).Nodup) (hrec : ∀ e ∈ entries, records e.1 = e.2)
    (he : e ∈ entries) :
    shift_records more (pool.grow more .zero) records e.1 =
      if has_moved_tag pool e.2 then e.2.shifted more else e.2 := by
  unfold shift_records
  rw [moved_timers h hw, fold_shift_groups]
  · rw [hrec e he]
    have hany : ((entries.map fun e =>
        (e.1, ((claimed pool e.2).filter fun i => pool.outPos ≤ i).map pool.data)).any fun g =>
          g.1 = e.1 && g.2.any PoolTimer.tagged) = has_moved_tag pool e.2 := by
      rw [Bool.eq_iff_iff, List.any_map, List.any_eq_true]
      constructor
      · rintro ⟨x, hx, hxe⟩
        rw [Function.comp_apply, Bool.and_eq_true, decide_eq_true_eq] at hxe
        obtain rfl : x = e := List.inj_on_of_nodup_map hslots hx he hxe.1
        exact hxe.2
      · intro htag
        refine ⟨e, he, ?_⟩
        rw [Function.comp_apply, Bool.and_eq_true]
        exact ⟨decide_eq_true rfl, htag⟩
    rw [hany]
  · simpa [Function.comp_def] using hslots
  · intro g hg t ht
    obtain ⟨x, hx, rfl⟩ := List.mem_map.mp hg
    obtain ⟨i, hi, rfl⟩ := List.mem_map.mp ht
    exact h.request_id hx (List.mem_filter.mp hi).1
  · intro g hg hne
    obtain ⟨x, hx, rfl⟩ := List.mem_map.mp hg
    rw [hrec x hx]
    intro h0
    apply hne
    simp [claimed, h0, walk]
  · intro r _ hno
    cases hno

/-- The record of an entry after growing. -/
theorem timer_pool_grow_of_mem (h : Tiling pool entries stored)
    (hslots : (entries.map Prod.fst).Nodup) (hrec : ∀ e ∈ entries, records e.1 = e.2)
    (he : e ∈ entries) :
    (timer_pool_grow more pool records).2 e.1 =
      if pool.inPos < pool.outPos ∧ has_moved_tag pool e.2 then e.2.shifted more else e.2 := by
  unfold timer_pool_grow
  simp only [pool.inPos_grow, pool.outPos_grow]
  by_cases hw : pool.inPos < pool.outPos
  · have hw' : pool.inPos < pool.relocate more pool.outPos := by
      rw [CircularBuffer.relocate, if_pos ⟨hw, le_refl _⟩]
      omega
    rw [if_pos hw', shift_records_of_mem h hw hslots hrec he]
    simp only [hw, true_and]
  · have hw' : ¬ pool.inPos < pool.relocate more pool.outPos := by
      rwa [CircularBuffer.relocate, if_neg fun hc => hw hc.1]
    rw [if_neg hw', if_neg fun hc => hw hc.1, hrec e he]

/-- The repair finds every record that growing moves. -/
def GrowthSafe (pool : CircularBuffer PoolTimer) (entries : List (Nat × TimerOwner)) : Prop :=
  pool.inPos < pool.outPos → ∀ e ∈ entries, e.2.timers_cnt ≠ 0 → pool.outPos ≤ e.2.timers_start →
    has_moved_tag pool e.2 = true

/-- Only records that start in the moved part have moved timers. -/
theorem start_of_moved (h : Tiling pool entries stored) (hw : pool.inPos < pool.outPos)
    (he : e ∈ entries) {i : Nat} (hi : i ∈ claimed pool e.2) (hmoved : pool.outPos ≤ i) :
    pool.outPos ≤ e.2.timers_start := by
  have hcnt : e.2.timers_cnt ≠ 0 := by
    intro h0
    simp [claimed, h0, walk] at hi
  have hlive := h.start_live he hcnt
  rw [pool.mem_live, if_pos hw] at hlive
  rcases hlive with hlt | hge
  · have := pool.walk_lt_inPos hw hlt (fun k hk => h.claimed_live he hk) i hi
    omega
  · exact hge.1

/-- After the repair a record claims its moved timers exactly if it did not
    have to be shifted or the repair found it. -/
theorem claimed_grow_iff (h : Tiling pool entries stored) (hslots : (entries.map Prod.fst).Nodup)
    (hrec : ∀ e ∈ entries, records e.1 = e.2) (hmore : 0 < more) (he : e ∈ entries) :
    claimed (pool.grow more .zero) ((timer_pool_grow more pool records).2 e.1) =
      (claimed pool e.2).map (pool.relocate more) ↔
    (pool.inPos < pool.outPos → e.2.timers_cnt ≠ 0 → pool.outPos ≤ e.2.timers_start →
      has_moved_tag pool e.2 = true) := by
  have hwalk : (claimed pool e.2).map (pool.relocate more) =
      walk (pool.size + more) (pool.relocate more e.2.timers_start) e.2.timers_cnt :=
    (pool.walk_relocate fun k hk => h.claimed_live he hk).symm
  have hclaim : ∀ record : TimerOwner, claimed (pool.grow more .zero) record =
      walk (pool.size + more) record.timers_start record.timers_cnt := by
    intro record
    rw [claimed, pool.size_grow]
  rw [hwalk, hclaim]
  by_cases hcnt : e.2.timers_cnt = 0
  · -- nothing claimed, nothing to find
    have hzero := timer_pool_grow_timers_cnt more pool records e.1
    rw [hrec e he, hcnt] at hzero
    simp [hzero, hcnt, walk]
  rw [timer_pool_grow_of_mem h hslots hrec he]
  by_cases hw : pool.inPos < pool.outPos
  · by_cases htag : has_moved_tag pool e.2 = true
    · -- the repair shifts it, and rightly so
      obtain ⟨i, hi, hmoved, -⟩ : ∃ i ∈ claimed pool e.2, pool.outPos ≤ i ∧
          (pool.data i).tagged = true := by
        simpa [has_moved_tag] using htag
      have hstart := start_of_moved h hw he hi hmoved
      rw [if_pos ⟨hw, htag⟩, CircularBuffer.relocate, if_pos ⟨hw, hstart⟩]
      exact ⟨fun _ _ _ _ => htag, fun _ => rfl⟩
    · rw [if_neg fun hc => htag hc.2]
      by_cases hstart : pool.outPos ≤ e.2.timers_start
      · -- it should have been shifted
        rw [CircularBuffer.relocate, if_pos ⟨hw, hstart⟩]
        constructor
        · intro heq
          obtain ⟨n, hn⟩ := Nat.exists_eq_succ_of_ne_zero hcnt
          rw [hn, walk, walk, List.cons.injEq] at heq
          omega
        · intro hall
          exact absurd (hall hw hcnt hstart) htag
      · rw [CircularBuffer.relocate, if_neg fun hc => hstart hc.2]
        exact ⟨fun _ _ _ hge => absurd hge hstart, fun _ => rfl⟩
  · rw [if_neg fun hc => hw hc.1, CircularBuffer.relocate, if_neg fun hc => hw hc.1]
    exact ⟨fun _ hc => absurd hc hw, fun _ => rfl⟩

/-- Equal concatenations of lists of equal lengths are equal part by part. -/
theorem eq_of_flatMap_eq {α β : Type*} {f g : α → List β} {l : List α}
    (hlen : ∀ a ∈ l, (f a).length = (g a).length) (h : l.flatMap f = l.flatMap g) :
    ∀ a ∈ l, f a = g a := by
  induction l with
  | nil => intro a ha; exact absurd ha List.not_mem_nil
  | cons b l ih =>
    rw [List.flatMap_cons, List.flatMap_cons] at h
    obtain ⟨hhead, htail⟩ := List.append_inj h (hlen b List.mem_cons_self)
    intro a ha
    rcases List.mem_cons.mp ha with rfl | ha
    · exact hhead
    · exact ih (fun x hx => hlen x (List.mem_cons_of_mem _ hx)) htail a ha

/-- The entries after the repair. -/
def repaired (records : Nat → TimerOwner) (entries : List (Nat × TimerOwner)) :
    List (Nat × TimerOwner) := entries.map fun e => (e.1, records e.1)

/-- Growing keeps the tiling exactly if the repair finds every moved record. -/
theorem tiles_grow_iff (h : Tiling pool entries stored) (hslots : (entries.map Prod.fst).Nodup)
    (hrec : ∀ e ∈ entries, records e.1 = e.2) (hmore : 0 < more) :
    ((repaired (timer_pool_grow more pool records).2 entries).flatMap
      fun e => claimed (pool.grow more .zero) e.2) = (pool.grow more .zero).live ↔
    GrowthSafe pool entries := by
  have hlive : (pool.grow more .zero).live =
      entries.flatMap fun e => (claimed pool e.2).map (pool.relocate more) := by
    rw [pool.live_grow, ← h.tiles, List.map_flatMap]
  rw [hlive, repaired, List.flatMap_map]
  have hlen : ∀ e ∈ entries,
      (claimed (pool.grow more .zero) ((timer_pool_grow more pool records).2 e.1)).length =
        ((claimed pool e.2).map (pool.relocate more)).length := by
    intro e he
    rw [length_claimed, List.length_map, length_claimed, timer_pool_grow_timers_cnt, hrec e he]
  constructor
  · intro heq hw e he
    exact (claimed_grow_iff h hslots hrec hmore he).mp (eq_of_flatMap_eq hlen heq e he) hw
  · intro hsafe
    apply List.flatMap_congr
    intro e he
    exact (claimed_grow_iff h hslots hrec hmore he).mpr fun hw => hsafe hw e he

/-- Growing keeps the stored timers where the records look for them. -/
theorem Tiling.grow (h : Tiling pool entries stored) (hslots : (entries.map Prod.fst).Nodup)
    (hrec : ∀ e ∈ entries, records e.1 = e.2) (hmore : 0 < more) (hsafe : GrowthSafe pool entries) :
    Tiling (pool.grow more .zero) (repaired (timer_pool_grow more pool records).2 entries) stored := by
  refine ⟨(tiles_grow_iff h hslots hrec hmore).mpr hsafe, ?_, ?_⟩
  · rw [← h.lengths, repaired, List.map_map]
    apply List.map_congr_left
    intro e he
    rw [Function.comp_apply, timer_pool_grow_timers_cnt, hrec e he]
  · have hdata : (pool.grow more .zero).live.map (pool.grow more .zero).data =
        pool.live.map pool.data := by
      rw [pool.live_grow, List.map_map]
      apply List.map_congr_left
      intro i hi
      exact pool.data_grow hi
    rw [hdata, h.held, repaired, List.zip_map_left, List.flatMap_map]
    rfl

end growing

/-! ## Section 5: Steps and runs -/

namespace TimerState

variable {s : TimerState} {shares : List (List (List RequestTimer))} {stored : List (List TimerRecord)}
  {realloc_ok : Bool}

/-- The timers of a batch, record by record. -/
def batch_timers (shares : List (List (List RequestTimer))) : List (List TimerRecord) :=
  shares.flatten.map stored_timers

/-- The pool tiled by the records of the ring. -/
abbrev Tiles (s : TimerState) (stored : List (List TimerRecord)) : Prop :=
  Tiling s.timer_pool s.request_pool.contents stored

theorem nodup_slots (s : TimerState) : (s.request_pool.contents.map Prod.fst).Nodup := by
  rw [CircularBuffer.map_fst_contents]
  exact s.request_pool.nodup_live

theorem share_timers_placed (h : shares.flatten.length ≤ s.request_pool.free) :
    share_timers (s.placed shares).flatten = timers_added shares := by
  rw [share_timers, s.flatten_placed h, timers_added]
  have hsnd : ((s.request_pool.ahead shares.flatten.length).zip shares.flatten).map Prod.snd =
      shares.flatten := List.map_snd_zip (by rw [CircularBuffer.length_ahead])
  conv_rhs => rw [← hsnd]
  rw [List.map_map]
  rfl

/-- Timers are stored under the slot of their record, whatever the record is. -/
theorem flatMap_owned_zip {slots : List Nat} {owners : List TimerOwner} {ts : List (List RequestTimer)}
    (howners : owners.length = ts.length) (hslots : slots.length = ts.length) :
    (slots.zip ts).flatMap (fun e => owned e.1 (stored_timers e.2)) =
      ((slots.zip owners).zip (ts.map stored_timers)).flatMap fun p => owned p.1.1 p.2 := by
  induction ts generalizing slots owners with
  | nil => simp
  | cons t ts ih =>
    obtain ⟨slot, slots, rfl⟩ := List.exists_cons_of_length_eq_add_one hslots
    obtain ⟨owner, owners, rfl⟩ := List.exists_cons_of_length_eq_add_one howners
    simp only [List.length_cons, Nat.add_right_cancel_iff] at howners hslots
    simp [ih howners hslots]

/-- Storing the timers of a batch in a reserved part of a tiled pool. -/
theorem tiling_merged (h : shares.flatten.length ≤ s.request_pool.free)
    {pool : CircularBuffer PoolTimer} {entries : List (Nat × TimerOwner)}
    (ht : Tiling pool entries stored) (hroom : timers_added shares ≤ pool.free) :
    let merged := s.merged shares pool.inPos (pool.publish (timers_added shares) hroom)
    Tiling ((pool.publish (timers_added shares) hroom).setData merged.2)
      (entries ++ (s.request_pool.ahead shares.flatten.length).zip merged.1)
      (stored ++ batch_timers shares) := by
  have hsize := pool.count_add_free
  have hin := pool.in_lt
  have hsum := share_timers_placed h
  obtain ⟨hwalk, hdata⟩ := merge_shares_spec
    (show 0 + pool.inPos + share_timers (s.placed shares).flatten < 2 * pool.size by omega)
    (show share_timers (s.placed shares).flatten ≤ pool.size by omega) pool.data
  rw [Nat.zero_add, Nat.mod_eq_of_lt hin, hsum] at hwalk
  rw [Nat.zero_add, Nat.mod_eq_of_lt hin] at hdata
  intro merged
  have hlen : merged.1.length = shares.flatten.length := s.length_merged h _ _
  have hsnd : ((s.request_pool.ahead shares.flatten.length).zip merged.1).map Prod.snd = merged.1 := by
    apply List.map_snd_zip
    rw [CircularBuffer.length_ahead, hlen]
  apply ht.append hroom
  · calc _ = (((s.request_pool.ahead shares.flatten.length).zip merged.1).map Prod.snd).flatMap
          (fun o => walk pool.size o.timers_start o.timers_cnt) := by
          rw [List.flatMap_map]
          rfl
      _ = pool.ahead (timers_added shares) := by
          rw [hsnd]
          exact hwalk
  · calc _ = (((s.request_pool.ahead shares.flatten.length).zip merged.1).map Prod.snd).map
          TimerOwner.timers_cnt := by
          rw [List.map_map]
          rfl
      _ = (batch_timers shares).map List.length := by
          rw [hsnd, s.map_timers_cnt_merged h, batch_timers, List.map_map]
          exact List.map_congr_left fun ts _ => (length_stored_timers ts).symm
  · refine hdata.trans ?_
    congr 1
    rw [share_owned, s.flatten_placed h, batch_timers]
    exact flatMap_owned_zip hlen (CircularBuffer.length_ahead _ _)

/-- The timers that stay with the new records: all of them, unless the pool is
    full and cannot be enlarged. -/
def kept_timers (s : TimerState) (shares : List (List (List RequestTimer))) (realloc_ok : Bool) :
    List (List TimerRecord) :=
  if timer_pool_full s.timer_pool (timers_added shares) ∧ realloc_ok = false then
    List.replicate shares.flatten.length []
  else batch_timers shares

/-- The batch makes the pool grow. -/
def grows (s : TimerState) (shares : List (List (List RequestTimer))) (realloc_ok : Bool) : Prop :=
  timer_pool_full s.timer_pool (timers_added shares) ∧ realloc_ok = true

/-- A batch that does not make the pool grow past a record the repair misses. -/
def SafeBatch (s : TimerState) (shares : List (List (List RequestTimer))) (realloc_ok : Bool) : Prop :=
  s.grows shares realloc_ok → GrowthSafe s.timer_pool s.request_pool.contents

theorem not_full_zero : ¬ timer_pool_full s.timer_pool 0 := by
  have := s.timer_pool.count_lt
  unfold timer_pool_full
  omega

theorem batch_timers_of_none (h : timers_added shares = 0) :
    batch_timers shares = List.replicate shares.flatten.length [] := by
  rw [List.eq_replicate_iff]
  refine ⟨List.length_map _, ?_⟩
  intro ts hts
  obtain ⟨timers, hmem, rfl⟩ := List.mem_map.mp hts
  have hle : pinba_stored_timer_count timers ≤ 0 := by
    rw [← h, timers_added]
    exact List.le_sum_of_mem (List.mem_map_of_mem hmem)
  rw [← List.length_eq_zero_iff, length_stored_timers]
  omega

theorem tiles_admit_bare (h : shares.flatten.length ≤ s.request_pool.free) (hs : s.Tiles stored) :
    (s.admit_bare h).Tiles (stored ++ List.replicate shares.flatten.length []) := by
  have hcontents : (s.admit_bare h).request_pool.contents = s.request_pool.contents ++
      (s.request_pool.ahead shares.flatten.length).zip
        (List.replicate shares.flatten.length ⟨0, 0⟩) := by
    rw [admit_bare, CircularBuffer.contents_append, List.length_replicate]
  unfold Tiles
  rw [hcontents]
  exact hs.append_bare (CircularBuffer.length_ahead _ _)

/-- The ring after the new records were published. -/
theorem contents_admit_timers (h : shares.flatten.length ≤ s.request_pool.free) {id : Nat}
    {pool : CircularBuffer PoolTimer} {records : Nat → TimerOwner}
    (hr : s.reserved shares realloc_ok = some (id, pool, records)) :
    (s.admit_timers realloc_ok h hr).request_pool.contents =
      repaired records s.request_pool.contents ++
        (s.request_pool.ahead shares.flatten.length).zip (s.merged shares id pool).1 := by
  rw [admit_timers, CircularBuffer.contents_append, s.length_merged h,
    CircularBuffer.contents_setData, repaired, CircularBuffer.contents, List.map_map]
  rfl

theorem copied_of_mem (h : shares.flatten.length ≤ s.request_pool.free) {e : Nat × TimerOwner}
    (he : e ∈ s.request_pool.contents) : (s.copied shares).data e.1 = e.2 := by
  obtain ⟨i, hi, rfl⟩ := List.mem_map.mp he
  exact s.data_copied h hi

theorem repaired_copied (h : shares.flatten.length ≤ s.request_pool.free) :
    repaired (s.copied shares).data s.request_pool.contents = s.request_pool.contents := by
  unfold repaired
  conv_rhs => rw [← List.map_id s.request_pool.contents]
  apply List.map_congr_left
  intro e he
  rw [copied_of_mem h he]
  rfl

theorem tiles_admit_timers (h : shares.flatten.length ≤ s.request_pool.free) {id : Nat}
    {pool : CircularBuffer PoolTimer} {records : Nat → TimerOwner}
    (hr : s.reserved shares realloc_ok = some (id, pool, records))
    (hsafe : s.SafeBatch shares realloc_ok) (hs : s.Tiles stored) :
    (s.admit_timers realloc_ok h hr).Tiles (stored ++ batch_timers shares) := by
  unfold Tiles
  rw [contents_admit_timers]
  have hr' := hr
  unfold reserved timer_pool_add at hr'
  split at hr'
  · next hfull =>
    split at hr'
    · next hok =>
      simp only [Option.some.injEq, Prod.mk.injEq] at hr'
      obtain ⟨rfl, rfl, rfl⟩ := hr'
      have hmore : 0 < grow_amount (timers_added shares) := by
        unfold grow_amount PINBA_TIMER_POOL_GROW_SIZE
        split <;> omega
      exact tiling_merged h (hs.grow s.nodup_slots (fun e he => copied_of_mem h he) hmore
        (hsafe ⟨hfull, hok⟩)) _
    · exact absurd hr' (by simp)
  · obtain ⟨rfl, rfl, rfl⟩ : _ ∧ _ ∧ _ := by simpa using hr'
    rw [repaired_copied h]
    exact tiling_merged h hs _

theorem reserved_isSome_iff : (s.reserved shares realloc_ok).isSome ↔
    ¬ (timer_pool_full s.timer_pool (timers_added shares) ∧ realloc_ok = false) := by
  unfold reserved timer_pool_add
  by_cases hfull : timer_pool_full s.timer_pool (timers_added shares)
  · cases realloc_ok <;> simp [hfull]
  · simp [hfull]

theorem kept_timers_eq : s.kept_timers shares realloc_ok =
    if s.stores shares realloc_ok then batch_timers shares
    else List.replicate shares.flatten.length [] := by
  unfold kept_timers
  by_cases h0 : timers_added shares = 0
  · have hnot : ¬ s.stores shares realloc_ok := fun hc => hc.1 h0
    rw [if_neg (fun hc => not_full_zero (h0 ▸ hc.1)), if_neg hnot, batch_timers_of_none h0]
  · by_cases hfail : timer_pool_full s.timer_pool (timers_added shares) ∧ realloc_ok = false
    · have hnot : ¬ s.stores shares realloc_ok := fun hc => reserved_isSome_iff.mp hc.2 hfail
      rw [if_pos hfail, if_neg hnot]
    · have hstores : s.stores shares realloc_ok := ⟨h0, reserved_isSome_iff.mpr hfail⟩
      rw [if_neg hfail, if_pos hstores]

/-- A safe batch keeps the tiling and adds its timers. -/
theorem tiles_ingest (h : shares.flatten.length ≤ s.request_pool.free)
    (hsafe : s.SafeBatch shares realloc_ok) (hs : s.Tiles stored) :
    (s.ingest shares h realloc_ok).Tiles (stored ++ s.kept_timers shares realloc_ok) := by
  rw [kept_timers_eq]
  by_cases hstores : s.stores shares realloc_ok
  · obtain ⟨⟨id, pool, records⟩, hr⟩ := Option.isSome_iff_exists.mp hstores.2
    rw [if_pos hstores, s.ingest_of_stores h hstores.1 hr]
    exact tiles_admit_timers h hr hsafe hs
  · rw [if_neg hstores, s.ingest_of_not_stores h hstores]
    exact tiles_admit_bare h hs

theorem clear_record_timers_of_notMem {pool : CircularBuffer PoolTimer} {records : List TimerOwner}
    {i : Nat} (hi : ∀ record ∈ records,
      i ∉ (List.range record.timers_cnt).map (record_get_timer_id pool record)) :
    clear_record_timers_func pool records i = pool.data i := by
  have hinner : ∀ (record : TimerOwner) (js : List Nat) (data : Nat → PoolTimer),
      i ∉ js.map (record_get_timer_id pool record) →
      js.foldl (fun data j =>
        let id := record_get_timer_id pool record j
        Function.update data id (data id).cleared) data i = data i := by
    intro record js
    induction js with
    | nil => intro data _; rfl
    | cons j js ih =>
      intro data hj
      rw [List.map_cons, List.mem_cons, not_or] at hj
      rw [List.foldl_cons, ih _ hj.2, Function.update_of_ne hj.1]
  unfold clear_record_timers_func
  generalize pool.data = data
  induction records generalizing data with
  | nil => rfl
  | cons record records ih =>
    rw [List.foldl_cons, ih (fun x hx => hi x (List.mem_cons_of_mem _ hx)),
      hinner record _ data (hi record List.mem_cons_self)]

/-- An expiry pass keeps the tiling and drops the timers of its records. -/
theorem tiles_expire {n : Nat} (h : n ≤ s.request_pool.count) (hs : s.Tiles stored) :
    (s.expire n h).Tiles (stored.drop n) := by
  have hcnt : ((s.request_pool.contents.take n).map fun e => e.2.timers_cnt).sum =
      s.deleted_timer_cnt n := by
    unfold deleted_timer_cnt expired
    rw [List.map_map]
    rfl
  have hle : s.deleted_timer_cnt n ≤ s.timer_pool.count := by
    have := s.deleted_timer_cnt_add n
    omega
  have hdata : ∀ i ∈ s.timer_pool.live.drop (s.deleted_timer_cnt n),
      clear_record_timers_func s.timer_pool (s.expired n) i = s.timer_pool.data i := by
    intro i hi
    apply clear_record_timers_of_notMem
    intro record hrecord hmem
    obtain ⟨e, he, rfl⟩ := List.mem_map.mp hrecord
    rw [hs.timer_ids_eq (List.mem_of_mem_take he)] at hmem
    have htake : i ∈ s.timer_pool.live.take (s.deleted_timer_cnt n) := by
      rw [← hcnt, ← hs.flatMap_take]
      exact List.mem_flatMap.mpr ⟨e, he, hmem⟩
    have hnodup := s.timer_pool.nodup_live
    rw [← List.take_append_drop (s.deleted_timer_cnt n) s.timer_pool.live] at hnodup
    exact (List.nodup_append'.mp hnodup).2.2 htake hi
  unfold Tiles
  rw [expire, CircularBuffer.contents_dropFront]
  exact hs.expire hcnt hdata hle

/-- The positions of a record's timers in the pool. -/
def timer_range (pool : CircularBuffer PoolTimer) (record : TimerOwner) : List Nat :=
  (List.range record.timers_cnt).map fun i => (record.timers_start + i) % pool.size

/-- The ranges of the live records, in ring order, are pairwise disjoint and
    make up the live part of the pool, and every record reads the timers that
    were stored for it. -/
structure Tiled (s : TimerState) (stored : List (List TimerRecord)) : Prop where
  ranges : (s.request_pool.contents.flatMap fun e => timer_range s.timer_pool e.2) =
    s.timer_pool.live
  disjoint : (s.request_pool.contents.map fun e => timer_range s.timer_pool e.2).Pairwise
    List.Disjoint
  reads : (s.request_pool.contents.map fun e =>
    (List.range e.2.timers_cnt).map fun i => (record_get_timer s.timer_pool e.2 i).timer) = stored

theorem timer_range_eq {pool : CircularBuffer PoolTimer} {record : TimerOwner}
    (h : record.timers_cnt ≠ 0 → record.timers_start < pool.size) :
    timer_range pool record = claimed pool record := by
  by_cases hcnt : record.timers_cnt = 0
  · simp [timer_range, claimed, hcnt, walk]
  · exact (walk_eq_map (h hcnt)).symm

theorem tiled_of_tiles (hs : s.Tiles stored) : s.Tiled stored := by
  have hrange : ∀ e ∈ s.request_pool.contents,
      timer_range s.timer_pool e.2 = claimed s.timer_pool e.2 :=
    fun e he => timer_range_eq (hs.start_lt he)
  have hranges : (s.request_pool.contents.flatMap fun e => timer_range s.timer_pool e.2) =
      s.timer_pool.live := by
    rw [← hs.tiles]
    exact List.flatMap_congr hrange
  refine ⟨hranges, ?_, ?_⟩
  · have hnodup := s.timer_pool.nodup_live
    rw [← hranges, List.nodup_flatMap] at hnodup
    exact List.pairwise_map.mpr hnodup.2
  · have hread : ∀ e ∈ s.request_pool.contents,
        (List.range e.2.timers_cnt).map (fun i => (record_get_timer s.timer_pool e.2 i).timer) =
          ((claimed s.timer_pool e.2).map s.timer_pool.data).map PoolTimer.timer := by
      intro e he
      rw [← hs.timer_ids_eq he, List.map_map, List.map_map]
      rfl
    rw [List.map_congr_left hread]
    have hall := hs.per_record
    clear hread hranges hrange hs
    generalize s.request_pool.contents = entries at hall ⊢
    induction hall with
    | nil => rfl
    | cons hrec _ ih =>
      rw [List.map_cons, ih, hrec, owned, List.map_map]
      simp [Function.comp_def]

/-! ### Growing past a record that the repair misses -/

theorem reserved_of_grows (hg : s.grows shares realloc_ok) :
    ∃ hroom, s.reserved shares realloc_ok = some (s.timer_pool.inPos,
      (s.timer_pool.grow (grow_amount (timers_added shares)) .zero).publish (timers_added shares)
        hroom,
      (timer_pool_grow (grow_amount (timers_added shares)) s.timer_pool (s.copied shares).data).2) := by
  have hle := le_grow_amount (timers_added shares)
  refine ⟨by rw [CircularBuffer.free_grow]; omega, ?_⟩
  unfold reserved timer_pool_add
  rw [dif_pos hg.1, if_pos hg.2]
  simp

/-- If a batch that makes the pool grow keeps the ranges tiled, it was safe. -/
theorem safe_of_ranges (h : shares.flatten.length ≤ s.request_pool.free) (hs : s.Tiles stored)
    (hranges : ((s.ingest shares h realloc_ok).request_pool.contents.flatMap fun e =>
      timer_range (s.ingest shares h realloc_ok).timer_pool e.2) =
      (s.ingest shares h realloc_ok).timer_pool.live) :
    s.SafeBatch shares realloc_ok := by
  intro hg
  have hadded : timers_added shares ≠ 0 := fun h0 => not_full_zero (h0 ▸ hg.1)
  obtain ⟨hroom, hr⟩ := reserved_of_grows hg
  set more := grow_amount (timers_added shares) with hmoredef
  have hmore : 0 < more := by
    rw [hmoredef]
    unfold grow_amount PINBA_TIMER_POOL_GROW_SIZE
    split <;> omega
  rw [s.ingest_of_stores h hadded hr, contents_admit_timers, List.flatMap_append] at hranges
  have hlive : (s.admit_timers realloc_ok h hr).timer_pool.live =
      (s.timer_pool.grow more .zero).live ++ (s.timer_pool.grow more .zero).ahead (timers_added shares) :=
    (s.timer_pool.grow more .zero).live_publish hroom
  rw [hlive] at hranges
  rw [← tiles_grow_iff hs s.nodup_slots (fun e he => copied_of_mem h he) hmore]
  -- the old records come first, and they claim as many positions as before
  have hrange : ∀ e ∈ repaired (timer_pool_grow more s.timer_pool (s.copied shares).data).2
      s.request_pool.contents,
      timer_range (s.admit_timers realloc_ok h hr).timer_pool e.2 =
        claimed (s.timer_pool.grow more .zero) e.2 := by
    intro e he
    obtain ⟨x, hx, rfl⟩ := List.mem_map.mp he
    have hclaimed : claimed (s.admit_timers realloc_ok h hr).timer_pool =
        claimed (s.timer_pool.grow more .zero) := rfl
    rw [← hclaimed]
    apply timer_range_eq
    intro hcnt
    have hx0 : x.2.timers_cnt ≠ 0 := by
      rwa [timer_pool_grow_timers_cnt, copied_of_mem h hx] at hcnt
    have hlt := hs.start_lt hx hx0
    have hsize : (s.admit_timers realloc_ok h hr).timer_pool.size = s.timer_pool.size + more :=
      s.timer_pool.size_grow
    rw [hsize]
    show ((timer_pool_grow more s.timer_pool (s.copied shares).data).2 x.1).timers_start < _
    rw [timer_pool_grow_of_mem hs s.nodup_slots (fun e he => copied_of_mem h he) hx]
    split
    · show x.2.timers_start + more < _
      omega
    · omega
  have hlen : ((repaired (timer_pool_grow more s.timer_pool (s.copied shares).data).2
      s.request_pool.contents).flatMap fun e => claimed (s.timer_pool.grow more .zero) e.2).length =
      (s.timer_pool.grow more .zero).live.length := by
    rw [length_flatMap_claimed, CircularBuffer.length_live, CircularBuffer.count_grow, ← s.counted,
      repaired, List.map_map]
    congr 1
    apply List.map_congr_left
    intro e he
    rw [Function.comp_apply, timer_pool_grow_timers_cnt, copied_of_mem h he]
  rw [List.flatMap_congr hrange] at hranges
  exact (List.append_inj hranges hlen).1

/-! ### Runs -/

/-- The states that batches and expiry passes lead to, with the timers that
    were stored for the live records. Every batch meets the condition `ok`. -/
inductive Run (ok : TimerState → List (List (List RequestTimer)) → Bool → Prop) :
    TimerState → List (List TimerRecord) → Prop
  | start (requests timers : Nat) (h : PINBA_TIMER_POOL_GROW_SIZE ≤ timers + 1) :
    Run ok (init requests timers) []
  | ingest {s : TimerState} {stored : List (List TimerRecord)}
    (shares : List (List (List RequestTimer))) (h : shares.flatten.length ≤ s.request_pool.free)
    (realloc_ok : Bool) (hs : Run ok s stored) (hok : ok s shares realloc_ok) :
    Run ok (s.ingest shares h realloc_ok) (stored ++ s.kept_timers shares realloc_ok)
  | expire {s : TimerState} {stored : List (List TimerRecord)} (n : Nat)
    (h : n ≤ s.request_pool.count) (hs : Run ok s stored) :
    Run ok (s.expire n h) (stored.drop n)

theorem Run.mono {ok ok' : TimerState → List (List (List RequestTimer)) → Bool → Prop}
    (h : Run ok s stored) (hok : ∀ s shares realloc_ok, ok s shares realloc_ok → ok' s shares realloc_ok) :
    Run ok' s stored := by
  induction h with
  | start requests timers h => exact .start requests timers h
  | ingest shares h realloc_ok _ hsafe ih => exact .ingest shares h realloc_ok ih (hok _ _ _ hsafe)
  | expire n h _ ih => exact .expire n h ih

theorem tiles_init (requests timers : Nat) : (init requests timers).Tiles [] := by
  have hring : (init requests timers).request_pool.contents = [] := CircularBuffer.contents_blank _ _
  have hpool : (init requests timers).timer_pool.live = [] := by
    rw [← List.length_eq_zero_iff, CircularBuffer.length_live]
    exact CircularBuffer.count_blank _ _
  refine ⟨?_, ?_, ?_⟩
  · rw [hring, hpool]
    rfl
  · rw [hring]
    rfl
  · rw [hring, hpool]
    rfl

theorem tiles_of_run (h : Run SafeBatch s stored) : s.Tiles stored := by
  induction h with
  | start requests timers _ => exact tiles_init requests timers
  | ingest shares h realloc_ok _ hok ih => exact tiles_ingest h hok ih
  | expire n h _ ih => exact tiles_expire h ih

/-! ### Runs through the end of the array -/

section runs

/-- A timer whose tags are stored. -/
def tagged_timer : RequestTimer :=
  ⟨1, 1, default, default, default, [(1, default)]⟩

/-- A timer whose tag arrays could not be allocated. -/
def untagged_timer : RequestTimer := ⟨1, 1, default, default, default, []⟩

/-- Records that fill an empty pool of the smallest size but for one timer. -/
def full_share : List (List RequestTimer) :=
  List.replicate 639 (List.replicate 4096 tagged_timer) ++ [List.replicate 4095 tagged_timer]

theorem timers_added_full : timers_added [full_share] = 2621439 := by
  have hcount : ∀ n, pinba_stored_timer_count (List.replicate n tagged_timer) = n := by
    intro n
    rw [pinba_stored_timer_count, List.countP_replicate]
    exact if_pos rfl
  rw [timers_added, full_share, List.flatten_cons, List.flatten_nil, List.append_nil, List.map_append,
    List.map_replicate, List.map_singleton, hcount, hcount, List.sum_append, List.sum_replicate,
    List.sum_singleton]
  rfl

theorem length_full : [full_share].flatten.length = 640 := by
  rw [full_share, List.flatten_cons, List.flatten_nil, List.append_nil, List.length_append,
    List.length_replicate]
  rfl

/-- A tiled state of the smallest pool under a ring of 1000 slots, with the
    positions of the pool. -/
structure SmallPool (s : TimerState) (stored : List (List TimerRecord)) (inPos outPos : Nat) :
    Prop where
  tiles : s.Tiles stored
  ring : s.request_pool.size = 1000
  size : s.timer_pool.size = 2621440
  inPos_eq : s.timer_pool.inPos = inPos
  outPos_eq : s.timer_pool.outPos = outPos

namespace SmallPool

variable {inPos outPos : Nat}

theorem start : SmallPool (init 999 2621439) [] 0 0 := ⟨tiles_init _ _, rfl, rfl, rfl, rfl⟩

theorem free (hp : SmallPool s stored inPos outPos) :
    s.request_pool.free = 999 - stored.length := by
  have hlen := hp.tiles.length_eq
  rw [CircularBuffer.length_contents] at hlen
  rw [CircularBuffer.free, hp.ring, hlen]
  omega

theorem count (hp : SmallPool s stored inPos outPos) :
    s.timer_pool.count = occupancy 2621440 inPos outPos := by
  rw [CircularBuffer.count, hp.size, hp.inPos_eq, hp.outPos_eq]

/-- A batch that fits. -/
theorem ingest (hp : SmallPool s stored inPos outPos)
    (h : shares.flatten.length ≤ s.request_pool.free) {added : Nat}
    (hadded : timers_added shares = added) (hpos : 0 < added)
    (hfit : occupancy 2621440 inPos outPos + added < 2621440) :
    SmallPool (s.ingest shares h true) (stored ++ batch_timers shares)
      (advance 2621440 inPos added) outPos := by
  have hnot : ¬ timer_pool_full s.timer_pool (timers_added shares) := by
    rw [timer_pool_full, hp.size, hp.count, hadded]
    omega
  have hkept : s.kept_timers shares true = batch_timers shares := if_neg fun hc => hnot hc.1
  have hsafe : s.SafeBatch shares true := fun hg => absurd hg.1 hnot
  have htiles := tiles_ingest h hsafe hp.tiles
  rw [hkept] at htiles
  have hroom : timers_added shares ≤ s.timer_pool.free := by
    have := s.timer_pool.count_add_free
    unfold timer_pool_full at hnot
    omega
  have hr : s.reserved shares true = some (s.timer_pool.inPos,
      s.timer_pool.publish (timers_added shares) hroom, (s.copied shares).data) := dif_neg hnot
  rw [s.ingest_of_stores h (by omega) hr] at htiles ⊢
  refine ⟨htiles, hp.ring, hp.size, ?_, hp.outPos_eq⟩
  rw [← hadded, ← hp.size, ← hp.inPos_eq]
  rfl

/-- Expiring every record. -/
theorem expire (hp : SmallPool s stored inPos outPos) {n : Nat} (h : n ≤ s.request_pool.count)
    (hn : stored.length = n) : SmallPool (s.expire n h) [] inPos inPos := by
  have htiles := tiles_expire h hp.tiles
  rw [List.drop_of_length_le hn.le] at htiles
  refine ⟨htiles, hp.ring, hp.size, hp.inPos_eq, ?_⟩
  -- an empty ring claims nothing, so both positions meet
  have hempty : (s.expire n h).timer_pool.count = 0 := by
    rw [← (s.expire n h).counted, List.eq_nil_of_length_eq_zero htiles.length_eq]
    rfl
  have hmeet := (s.expire n h).timer_pool.in_eq
  rw [hempty, Nat.add_zero, Nat.mod_eq_of_lt (s.expire n h).timer_pool.out_lt] at hmeet
  rw [← hmeet, ← hp.inPos_eq]
  rfl

end SmallPool

/-- Fill the pool but for one timer, and let all of it expire: both positions are at the end of the
    array. -/
theorem exists_at_end : ∃ h₁ h₂,
    Run SafeBatch (((init 999 2621439).ingest [full_share] h₁ true).expire 640 h₂) [] ∧
      SmallPool (((init 999 2621439).ingest [full_share] h₁ true).expire 640 h₂) []
        2621439 2621439 := by
  have h₁ : [full_share].flatten.length ≤ (init 999 2621439).request_pool.free := by
    rw [SmallPool.start.free, length_full]
    decide
  have hnot : ¬ timer_pool_full (init 999 2621439).timer_pool (timers_added [full_share]) := by
    rw [timers_added_full]
    decide
  have hp₁ := SmallPool.start.ingest h₁ timers_added_full (by decide) (by decide)
  have hlen : ([] ++ batch_timers [full_share]).length = 640 := by
    rw [List.nil_append, batch_timers, List.length_map, length_full]
  have h₂ : 640 ≤ ((init 999 2621439).ingest [full_share] h₁ true).request_pool.count := by
    rw [← CircularBuffer.length_contents, hp₁.tiles.length_eq, hlen]
  have hrun : Run SafeBatch (((init 999 2621439).ingest [full_share] h₁ true).expire 640 h₂)
      (([] ++ (init 999 2621439).kept_timers [full_share] true).drop 640) :=
    .expire 640 h₂ (.ingest _ h₁ true (.start 999 2621439 (by decide)) fun hg => absurd hg.1 hnot)
  have hkept : (init 999 2621439).kept_timers [full_share] true = batch_timers [full_share] :=
    if_neg fun hc => hnot hc.1
  rw [hkept, List.drop_of_length_le hlen.le] at hrun
  exact ⟨h₁, h₂, hrun, hp₁.expire h₂ hlen⟩

/-- In every run whose batches are safe, the live records tile the timer pool
    and read back their own timers. -/
theorem timer_pool_tiled (h : Run SafeBatch s stored) : s.Tiled stored :=
  tiled_of_tiles (tiles_of_run h)

/-- Two records, of which the first one goes over the end of the array. -/
theorem timer_pool_tiled_straddling : ∃ h₁ h₂ h₃,
    let s := (((init 999 2621439).ingest [full_share] h₁ true).expire 640 h₂).ingest
      [[[tagged_timer, untagged_timer], [untagged_timer, tagged_timer]]] h₃ true
    s.Tiled [[tagged_timer.record, untagged_timer.record],
      [untagged_timer.record, tagged_timer.record]] ∧ s.timer_pool.live = [2621439, 0, 1, 2] := by
  obtain ⟨h₁, h₂, hrun, hp⟩ := exists_at_end
  have hadded : timers_added [[[tagged_timer, untagged_timer], [untagged_timer, tagged_timer]]] = 4 := by
    decide
  have h₃ : [[[tagged_timer, untagged_timer], [untagged_timer, tagged_timer]]].flatten.length ≤
      (((init 999 2621439).ingest [full_share] h₁ true).expire 640 h₂).request_pool.free := by
    rw [hp.free]
    decide
  have hnot : ¬ timer_pool_full (((init 999 2621439).ingest [full_share] h₁ true).expire
      640 h₂).timer_pool
      (timers_added [[[tagged_timer, untagged_timer], [untagged_timer, tagged_timer]]]) := by
    rw [timer_pool_full, hp.size, hp.count, hadded]
    decide
  have htiled := timer_pool_tiled (.ingest _ h₃ true hrun fun hg => absurd hg.1 hnot)
  have hkept : (((init 999 2621439).ingest [full_share] h₁ true).expire 640 h₂).kept_timers
      [[[tagged_timer, untagged_timer], [untagged_timer, tagged_timer]]] true =
      [[tagged_timer.record, untagged_timer.record], [untagged_timer.record, tagged_timer.record]] :=
    if_neg fun hc => hnot hc.1
  rw [hkept] at htiled
  refine ⟨h₁, h₂, h₃, htiled, ?_⟩
  have hafter := hp.ingest h₃ hadded (by decide) (by decide)
  rw [CircularBuffer.live, hafter.size, hafter.outPos_eq, hafter.count]
  decide

/-! ### A run that loses a record -/

/-- A wrapped pool whose only timer, at the end of the array, has no tags. -/
theorem untagged_record (hp : SmallPool s [[untagged_timer.record]] 0 2621439) :
    ∃ e, s.request_pool.contents = [e] ∧ e.2 = ⟨2621439, 1⟩ ∧
      has_moved_tag s.timer_pool e.2 = false := by
  have hs := hp.tiles
  have hout := hp.outPos_eq
  have hlive : s.timer_pool.live = [2621439] := by
    rw [CircularBuffer.live, hp.count, hout]
    rfl
  obtain ⟨e, hentries⟩ : ∃ e, s.request_pool.contents = [e] := by
    apply List.length_eq_one_iff.mp
    rw [hs.length_eq]
    rfl
  have he : e ∈ s.request_pool.contents := by rw [hentries]; exact List.mem_singleton.mpr rfl
  have hcnt : e.2.timers_cnt = 1 := by
    have hlen := hs.lengths
    rw [hentries] at hlen
    simpa using hlen
  have hstart : e.2.timers_start = 2621439 := by
    have hmem := hs.start_live he (by omega)
    rw [hlive] at hmem
    exact List.mem_singleton.mp hmem
  have hdata : (s.timer_pool.data 2621439).tagged = false := by
    have hheld := hs.held
    rw [hlive, hentries] at hheld
    have : s.timer_pool.data 2621439 = ⟨e.1, untagged_timer.record⟩ := by simpa [owned] using hheld
    rw [this]
    rfl
  have hclaimed : claimed s.timer_pool e.2 = [2621439] := by
    rw [claimed, hcnt, hstart]
    rfl
  refine ⟨e, hentries, ?_, ?_⟩
  · rw [← hstart, ← hcnt]
  · simp [has_moved_tag, hclaimed, hout, hdata]

/-- A batch that makes such a pool grow is not safe. -/
theorem not_safe_of_untagged (hp : SmallPool s [[untagged_timer.record]] 0 2621439)
    (hfull : timer_pool_full s.timer_pool (timers_added shares)) : ¬ s.SafeBatch shares true := by
  obtain ⟨e, hentries, howner, hmoved⟩ := untagged_record hp
  have hin := hp.inPos_eq
  have hout := hp.outPos_eq
  intro hsafe
  have hfound := hsafe ⟨hfull, rfl⟩ (by omega) e (by rw [hentries]; exact List.mem_singleton.mpr rfl)
    (by rw [howner]; decide) (by rw [howner, hout])
  rw [hmoved] at hfound
  exact absurd hfound (by decide)

/-- The pool wraps around at a record whose only timer has no tags, and the next
    batch makes the pool grow: the ranges do not cover the live timers. -/
theorem untagged_growth_ranges : ∃ h₁ h₂ h₃ h₄,
    let s := ((((init 999 2621439).ingest [full_share] h₁ true).expire 640 h₂).ingest
      [[[untagged_timer]]] h₃ true).ingest [full_share] h₄ true
    (∃ stored, Run (fun _ _ _ => True) s stored) ∧
      (s.request_pool.contents.flatMap fun e => timer_range s.timer_pool e.2) ≠ s.timer_pool.live := by
  obtain ⟨h₁, h₂, hrun, hp₂⟩ := exists_at_end
  -- one record at the very end of the array
  have h₃ : [[[untagged_timer]]].flatten.length ≤
      (((init 999 2621439).ingest [full_share] h₁ true).expire 640 h₂).request_pool.free := by
    rw [hp₂.free]
    decide
  have hp₃ : SmallPool _ [[untagged_timer.record]] 0 2621439 :=
    hp₂.ingest h₃ (show timers_added [[[untagged_timer]]] = 1 by decide) (by decide) (by decide)
  -- and a batch that makes the pool grow
  have h₄ : [full_share].flatten.length ≤ ((((init 999 2621439).ingest [full_share] h₁ true).expire
      640 h₂).ingest [[[untagged_timer]]] h₃ true).request_pool.free := by
    rw [hp₃.free, length_full]
    decide
  refine ⟨h₁, h₂, h₃, h₄,
    ⟨_, .ingest _ h₄ true (.ingest _ h₃ true (hrun.mono fun _ _ _ _ => trivial) trivial) trivial⟩, ?_⟩
  intro hranges
  refine not_safe_of_untagged hp₃ ?_ (safe_of_ranges h₄ hp₃.tiles hranges)
  rw [timer_pool_full, timers_added_full, hp₃.size, hp₃.count]
  decide

/-- The pool wraps around at a record whose only timer has no tags. The next
    batch makes the pool grow, and the record is left behind. -/
theorem growth_misses_untagged_record : ∃ h₁ h₂ h₃ h₄,
    let s := ((((init 999 2621439).ingest [full_share] h₁ true).expire 640 h₂).ingest
      [[[untagged_timer]]] h₃ true).ingest [full_share] h₄ true
    ∃ stored, Run (fun _ _ _ => True) s stored ∧ ¬ s.Tiled stored := by
  obtain ⟨h₁, h₂, h₃, h₄, ⟨stored, hrun⟩, hranges⟩ := untagged_growth_ranges
  exact ⟨h₁, h₂, h₃, h₄, stored, hrun, fun htiled => hranges htiled.ranges⟩

end runs

end TimerState

end PinbaEngine
