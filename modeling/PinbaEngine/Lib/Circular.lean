import Mathlib.Data.List.Nodup
import Mathlib.Data.Nat.ModEq
import Mathlib.Logic.Function.Basic

/-! # Circular buffers

    A bounded FIFO stored in a fixed array: a read position, a write
    position, and indices that wrap with a compare instead of a division.
    One slot always stays free, so `inPos = outPos` means empty.

    The development has two halves.

    - Index arithmetic. The one-wrap idioms `succIndex` and `advance` are
      shown to be `+ 1` and `+ n` modulo the size, and a walk of `n` slots is
      the image of `range n`. Everything later is stated with `walk`.
    - The buffer itself. `contents` lists the live slots with their values,
      oldest first; `append` extends it at the back and `dropFront` removes a
      prefix, which is the whole FIFO specification. `grow` enlarges the array
      in place; it may move slots, and `relocate` says which ones go where.
-/

namespace Circular

/-! ## Section 1: One-wrap index arithmetic -/

/-- The slot after `i`. -/
def succIndex (size i : Nat) : Nat :=
  if i = size - 1 then 0 else i + 1

/-- The slot `n` places after `i`, for at most one wrap. -/
def advance (size i n : Nat) : Nat :=
  if size ≤ i + n then i + n - size else i + n

/-- The number of live slots between a read and a write position. -/
def occupancy (size inPos outPos : Nat) : Nat :=
  if inPos = outPos then 0
  else if outPos < inPos then inPos - outPos
  else size - (outPos - inPos)

/-- The `n` slots met when walking forward from `i`. -/
def walk (size : Nat) : Nat → Nat → List Nat
  | _, 0 => []
  | i, n + 1 => i :: walk size (succIndex size i) n

variable {size i n m : Nat}

theorem succIndex_eq_mod (hi : i < size) : succIndex size i = (i + 1) % size := by
  unfold succIndex
  by_cases h : i = size - 1
  · have hs : i + 1 = size := by omega
    rw [if_pos h, hs, Nat.mod_self]
  · rw [if_neg h, Nat.mod_eq_of_lt (by omega)]

theorem succIndex_lt (hi : i < size) : succIndex size i < size := by
  rw [succIndex_eq_mod hi]
  exact Nat.mod_lt _ (by omega)

theorem advance_eq_mod (hi : i < size) (hn : n ≤ size) :
    advance size i n = (i + n) % size := by
  unfold advance
  by_cases h : size ≤ i + n
  · rw [if_pos h, Nat.mod_eq_sub_mod h, Nat.mod_eq_of_lt (by omega)]
  · rw [if_neg h, Nat.mod_eq_of_lt (by omega)]

theorem advance_lt (hi : i < size) (hn : n ≤ size) : advance size i n < size := by
  rw [advance_eq_mod hi hn]
  exact Nat.mod_lt _ (by omega)

/-- A walk visits `i, i + 1, …` modulo the size. -/
theorem walk_eq_map (hi : i < size) :
    walk size i n = (List.range n).map (fun k => (i + k) % size) := by
  induction n generalizing i with
  | zero => rfl
  | succ n ih =>
    rw [walk, ih (succIndex_lt hi), List.range_succ_eq_map, List.map_cons, List.map_map]
    congr 1
    · rw [Nat.add_zero, Nat.mod_eq_of_lt hi]
    · apply List.map_congr_left
      intro k _
      simp only [Function.comp_apply, succIndex_eq_mod hi, Nat.mod_add_mod]
      congr 1
      omega

@[simp] theorem length_walk : (walk size i n).length = n := by
  induction n generalizing i with
  | zero => rfl
  | succ n ih => simp [walk, ih]

theorem mem_walk_lt (hi : i < size) {k : Nat} (hk : k ∈ walk size i n) : k < size := by
  rw [walk_eq_map hi, List.mem_map] at hk
  obtain ⟨j, _, rfl⟩ := hk
  exact Nat.mod_lt _ (by omega)

theorem walk_add (hi : i < size) :
    walk size i (m + n) = walk size i m ++ walk size ((i + m) % size) n := by
  have hm : (i + m) % size < size := Nat.mod_lt _ (by omega)
  rw [walk_eq_map hi, walk_eq_map hi, walk_eq_map hm, List.range_add, List.map_append,
    List.map_map]
  congr 1
  apply List.map_congr_left
  intro k _
  simp [Nat.mod_add_mod, Nat.add_assoc]

/-- Walking at most once around the buffer meets no slot twice. -/
theorem nodup_walk (hi : i < size) (hn : n ≤ size) : (walk size i n).Nodup := by
  rw [walk_eq_map hi]
  refine List.Nodup.map_on ?_ List.nodup_range
  intro a ha b hb hab
  have ha' : a < size := by have := List.mem_range.mp ha; omega
  have hb' : b < size := by have := List.mem_range.mp hb; omega
  have hmod : a % size = b % size := Nat.ModEq.add_left_cancel' i hab
  rwa [Nat.mod_eq_of_lt ha', Nat.mod_eq_of_lt hb'] at hmod

theorem drop_walk (hi : i < size) (h : m ≤ n) :
    (walk size i n).drop m = walk size ((i + m) % size) (n - m) := by
  obtain ⟨k, rfl⟩ : ∃ k, n = m + k := ⟨n - m, by omega⟩
  rw [walk_add hi, List.drop_left' length_walk, Nat.add_sub_cancel_left]

/-- A walk that does not reach the end of the array is an interval. -/
theorem walk_eq_range' (h : i + n ≤ size) : walk size i n = List.range' i n := by
  induction n generalizing i with
  | zero => rfl
  | succ n ih =>
    rw [walk, List.range'_succ]
    by_cases hi : i = size - 1
    · obtain rfl : n = 0 := by omega
      rfl
    · rw [succIndex, if_neg hi, ih (by omega)]

/-- The slots of a walk as single jumps from its start. -/
theorem walk_eq_map_advance (hi : i < size) (hn : n ≤ size) :
    walk size i n = (List.range n).map (advance size i) := by
  rw [walk_eq_map hi]
  apply List.map_congr_left
  intro k hk
  have := List.mem_range.mp hk
  rw [advance_eq_mod hi (by omega)]

/-- A loop of `n` turns over the slots from `i` on. -/
def forEach {σ : Type*} (size : Nat) (f : σ → Nat → σ) : Nat → Nat → σ → σ
  | 0, _, s => s
  | n + 1, i, s => forEach size f n (succIndex size i) (f s i)

theorem forEach_eq {σ : Type*} (f : σ → Nat → σ) (n i : Nat) (s : σ) :
    forEach size f n i s = (walk size i n).foldl f s := by
  induction n generalizing i s with
  | zero => rfl
  | succ n ih => rw [forEach, ih, walk, List.foldl_cons]

/-- A loop that visits no slot twice finds each as it was, whatever it does to the ones that it has
    visited. -/
theorem foldl_update_slots {α β : Type*} (g : β → α → β) (u : α → α) {ids : List Nat}
    (hnodup : ids.Nodup) (acc : β) (data : Nat → α) :
    ids.foldl (fun (s : β × (Nat → α)) i => (g s.1 (s.2 i), Function.update s.2 i (u (s.2 i))))
        (acc, data) =
      (ids.foldl (fun acc i => g acc (data i)) acc,
        fun i => if i ∈ ids then u (data i) else data i) := by
  induction ids generalizing acc data with
  | nil => simp
  | cons id ids ih =>
    rw [List.nodup_cons] at hnodup
    rw [List.foldl_cons, ih hnodup.2, List.foldl_cons]
    refine Prod.ext ?_ ?_
    · -- the slots that follow are not the updated one
      apply List.foldl_ext
      intro acc j hj
      have hne : j ≠ id := fun heq => hnodup.1 (heq ▸ hj)
      rw [Function.update_of_ne hne]
    · funext i
      by_cases hi : i = id
      · subst hi
        simp [hnodup.1]
      · simp [hi]

/-! ## Section 2: Occupancy -/

variable {inPos outPos : Nat}

theorem occupancy_lt (hin : inPos < size) (hout : outPos < size) :
    occupancy size inPos outPos < size := by
  unfold occupancy
  split
  · omega
  · split <;> omega

/-- Walking over the live slots leads from the read to the write position. -/
theorem out_add_occupancy (hin : inPos < size) (hout : outPos < size) :
    (outPos + occupancy size inPos outPos) % size = inPos := by
  unfold occupancy
  split
  · next h => rw [Nat.add_zero, Nat.mod_eq_of_lt hout, h]
  · split
    · rw [Nat.mod_eq_of_lt (by omega)]
      omega
    · have h : outPos + (size - (outPos - inPos)) = inPos + size := by omega
      rw [h, Nat.add_mod_right, Nat.mod_eq_of_lt hin]

/-- The occupancy is the only length below `size` that leads from `outPos` to the write position. -/
theorem occupancy_of_mod (hout : outPos < size) (hn : n < size) :
    occupancy size ((outPos + n) % size) outPos = n := by
  unfold occupancy
  by_cases h : outPos + n < size
  · rw [Nat.mod_eq_of_lt h]
    split
    · omega
    · split <;> omega
  · have hm : (outPos + n) % size = outPos + n - size := by
      rw [Nat.mod_eq_sub_mod (by omega), Nat.mod_eq_of_lt (by omega)]
    rw [hm]
    split
    · omega
    · split <;> omega

/-! ## Section 3: Writing a run of slots -/

variable {α : Type*}

/-- Store `xs` in consecutive slots from `i`. -/
def writeFrom (size : Nat) : Nat → List α → (Nat → α) → Nat → α
  | _, [], d => d
  | i, x :: xs, d => writeFrom size (succIndex size i) xs (Function.update d i x)

theorem writeFrom_of_notMem {xs : List α} {d : Nat → α} {k : Nat}
    (hk : k ∉ walk size i xs.length) : writeFrom size i xs d k = d k := by
  induction xs generalizing i d with
  | nil => rfl
  | cons x xs ih =>
    simp only [List.length_cons, walk, List.mem_cons, not_or] at hk
    rw [writeFrom, ih hk.2, Function.update_of_ne hk.1]

theorem writeFrom_append (hi : i < size) (xs ys : List α) (d : Nat → α) :
    writeFrom size i (xs ++ ys) d =
      writeFrom size ((i + xs.length) % size) ys (writeFrom size i xs d) := by
  induction xs generalizing i d with
  | nil => rw [List.nil_append, List.length_nil, Nat.add_zero, Nat.mod_eq_of_lt hi, writeFrom]
  | cons x xs ih =>
    rw [List.cons_append, writeFrom, writeFrom, ih (succIndex_lt hi), succIndex_eq_mod hi,
      Nat.mod_add_mod, List.length_cons, Nat.add_assoc, Nat.add_comm 1]

/-- Reading the written slots back gives the stored values. -/
theorem map_writeFrom (hi : i < size) {xs : List α} (hxs : xs.length ≤ size) (d : Nat → α) :
    (walk size i xs.length).map (writeFrom size i xs d) = xs := by
  induction xs generalizing i d with
  | nil => rfl
  | cons x xs ih =>
    have hnd : (walk size i (xs.length + 1)).Nodup := nodup_walk hi hxs
    rw [walk, List.nodup_cons] at hnd
    simp only [List.length_cons, walk, List.map_cons, writeFrom, List.cons.injEq]
    refine ⟨?_, ih (succIndex_lt hi) (Nat.le_of_succ_le hxs) _⟩
    rw [writeFrom_of_notMem hnd.1, Function.update_self]

/-- A slot that is written holds one of the stored values. -/
theorem writeFrom_mem (hi : i < size) {xs : List α} (hxs : xs.length ≤ size) (d : Nat → α) {k : Nat}
    (hk : k ∈ walk size i xs.length) : writeFrom size i xs d k ∈ xs := by
  have hmem := List.mem_map_of_mem (f := writeFrom size i xs d) hk
  rwa [map_writeFrom hi hxs d] at hmem

theorem zip_map_writeFrom (hi : i < size) {xs : List α} (hxs : xs.length ≤ size) (d : Nat → α) :
    (walk size i xs.length).map (fun k => (k, writeFrom size i xs d k)) =
      (walk size i xs.length).zip xs := by
  have h : ((walk size i xs.length).map id).zip
      ((walk size i xs.length).map (writeFrom size i xs d)) = _ := List.zip_map'
  rw [map_writeFrom hi hxs d, List.map_id] at h
  exact h.symm

/-- What a slot holds after a run of writes depends on its old content only if the run misses it. -/
theorem writeFrom_congr {xs : List α} {d d' : Nat → α} {k : Nat}
    (h : k ∉ walk size i xs.length → d k = d' k) :
    writeFrom size i xs d k = writeFrom size i xs d' k := by
  induction xs generalizing i d d' with
  | nil => exact h List.not_mem_nil
  | cons x xs ih =>
    rw [writeFrom, writeFrom]
    apply ih
    intro hk
    by_cases hi : k = i
    · rw [hi, Function.update_self, Function.update_self]
    · rw [Function.update_of_ne hi, Function.update_of_ne hi]
      apply h
      rw [List.length_cons, walk, List.mem_cons, not_or]
      exact ⟨hi, hk⟩

/-- Storing values and reading a slot through a function. -/
theorem apply_writeFrom {β : Type*} (f : α → β) (xs : List α) (d : Nat → α) (k : Nat) :
    f (writeFrom size i xs d k) = writeFrom size i (xs.map f) (fun j => f (d j)) k := by
  induction xs generalizing i d with
  | nil => rfl
  | cons x xs ih =>
    have hupdate : (fun j => f (Function.update d i x j)) =
        Function.update (fun j => f (d j)) i (f x) := by
      funext j
      exact Function.apply_update (fun _ => f) d i x j
    rw [writeFrom, ih, hupdate, List.map_cons, writeFrom]

end Circular

/-! ## Section 4: The buffer -/

/-- A circular buffer with both positions inside the array. -/
structure CircularBuffer (α : Type*) where
  /-- Number of slots. -/
  size : Nat
  /-- The next slot to be written. -/
  inPos : Nat
  /-- The oldest live slot. -/
  outPos : Nat
  /-- What every slot holds, live or not. -/
  data : Nat → α
  in_lt : inPos < size
  out_lt : outPos < size

namespace CircularBuffer

open Circular

variable {α : Type*} (r : CircularBuffer α)

/-- An empty buffer of `n + 1` slots that all hold `a`. -/
def blank (n : Nat) (a : α) : CircularBuffer α :=
  ⟨n + 1, 0, 0, fun _ => a, n.succ_pos, n.succ_pos⟩

/-- Number of live slots. -/
def count : Nat := occupancy r.size r.inPos r.outPos

/-- Number of slots that may still be filled; one slot is never used. -/
def free : Nat := r.size - r.count - 1

/-- The live slots, oldest first. -/
def live : List Nat := walk r.size r.outPos r.count

/-- The live slots with what they hold, oldest first. -/
def contents : List (Nat × α) := r.live.map fun i => (i, r.data i)

/-- The slots that the next `n` values will occupy. -/
def ahead (n : Nat) : List Nat := walk r.size r.inPos n

/-- The same positions over slots of another kind. -/
def withData {β : Type*} (d : Nat → β) : CircularBuffer β := { r with data := d }

/-- Exchange what the slots hold. -/
def setData (d : Nat → α) : CircularBuffer α := { r with data := d }

/-- Store values at the write position without making them live yet. -/
def write (xs : List α) : CircularBuffer α := r.setData (writeFrom r.size r.inPos xs r.data)

/-- Make the next `n` slots live. -/
def publish (n : Nat) (h : n ≤ r.free) : CircularBuffer α :=
  { r with
    inPos := advance r.size r.inPos n
    in_lt := advance_lt r.in_lt (by unfold free at h; omega) }

/-- Store values and make their slots live. -/
def append (xs : List α) (h : xs.length ≤ r.free) : CircularBuffer α :=
  (r.write xs).publish xs.length h

/-- Give up the oldest `n` slots. -/
def dropFront (n : Nat) (h : n ≤ r.count) : CircularBuffer α :=
  { r with
    outPos := advance r.size r.outPos n
    out_lt := advance_lt r.out_lt (by have := occupancy_lt r.in_lt r.out_lt; unfold count at h; omega) }

theorem count_lt : r.count < r.size := occupancy_lt r.in_lt r.out_lt

theorem count_add_free : r.count + r.free + 1 = r.size := by
  have := r.count_lt
  unfold free
  omega

@[simp] theorem length_live : r.live.length = r.count := length_walk

@[simp] theorem length_contents : r.contents.length = r.count := by simp [contents]

@[simp] theorem length_ahead (n : Nat) : (r.ahead n).length = n := length_walk

@[simp] theorem map_fst_contents : r.contents.map Prod.fst = r.live := by
  simp [contents, Function.comp_def]

@[simp] theorem count_blank (n : Nat) (a : α) : (blank n a).count = 0 := by
  simp [count, blank, occupancy]

@[simp] theorem contents_blank (n : Nat) (a : α) : (blank n a).contents = [] :=
  List.eq_nil_of_length_eq_zero (by simp)

theorem in_eq : r.inPos = (r.outPos + r.count) % r.size :=
  (out_add_occupancy r.in_lt r.out_lt).symm

/-- Live slots and the slots ahead of the write position form one walk. -/
theorem live_append_ahead (n : Nat) :
    r.live ++ r.ahead n = walk r.size r.outPos (r.count + n) := by
  rw [walk_add r.out_lt, ← r.in_eq]
  rfl

theorem nodup_live_append_ahead {n : Nat} (h : n ≤ r.free) : (r.live ++ r.ahead n).Nodup := by
  rw [r.live_append_ahead]
  exact nodup_walk r.out_lt (by have := r.count_add_free; omega)

theorem nodup_live : r.live.Nodup := nodup_walk r.out_lt r.count_lt.le

@[simp] theorem count_setData (d : Nat → α) : (r.setData d).count = r.count := rfl

@[simp] theorem free_setData (d : Nat → α) : (r.setData d).free = r.free := rfl

@[simp] theorem live_setData (d : Nat → α) : (r.setData d).live = r.live := rfl

@[simp] theorem ahead_setData (d : Nat → α) (n : Nat) : (r.setData d).ahead n = r.ahead n := rfl

@[simp] theorem data_setData (d : Nat → α) : (r.setData d).data = d := rfl

theorem contents_setData (d : Nat → α) : (r.setData d).contents = r.live.map fun i => (i, d i) := rfl

section withData
variable {β : Type*} (d : Nat → β)

@[simp] theorem count_withData : (r.withData d).count = r.count := rfl

@[simp] theorem free_withData : (r.withData d).free = r.free := rfl

@[simp] theorem live_withData : (r.withData d).live = r.live := rfl

end withData

@[simp] theorem count_write (xs : List α) : (r.write xs).count = r.count := rfl

@[simp] theorem free_write (xs : List α) : (r.write xs).free = r.free := rfl

@[simp] theorem ahead_write (xs : List α) (n : Nat) : (r.write xs).ahead n = r.ahead n := rfl

/-- Writing ahead of the live slots does not disturb them. -/
theorem contents_write {xs : List α} (h : xs.length ≤ r.free) :
    (r.write xs).contents = r.contents := by
  have hd := (List.nodup_append'.mp (r.nodup_live_append_ahead h)).2.2
  unfold contents
  apply List.map_congr_left
  intro i hi
  exact congrArg (i, ·) (writeFrom_of_notMem fun hmem => hd hi hmem)

theorem map_ahead_write {xs : List α} (h : xs.length ≤ r.free) :
    (r.ahead xs.length).map (fun i => (i, (r.write xs).data i)) =
      (r.ahead xs.length).zip xs :=
  zip_map_writeFrom r.in_lt (by have := r.count_add_free; omega) r.data

/-- The first value written is the one at the write position. -/
theorem data_write_inPos {x : α} {xs : List α} (h : (x :: xs).length ≤ r.free) :
    (r.write (x :: xs)).data r.inPos = x := by
  have hmap := r.map_ahead_write h
  rw [ahead, List.length_cons, walk, List.map_cons, List.zip_cons_cons, List.cons.injEq] at hmap
  exact congrArg Prod.snd hmap.1

theorem count_publish {n : Nat} (h : n ≤ r.free) : (r.publish n h).count = r.count + n := by
  have hs := r.count_add_free
  have hn : n ≤ r.size := by omega
  show occupancy r.size (advance r.size r.inPos n) r.outPos = r.count + n
  rw [advance_eq_mod r.in_lt hn, r.in_eq, Nat.mod_add_mod, Nat.add_assoc]
  exact occupancy_of_mod r.out_lt (by omega)

theorem live_publish {n : Nat} (h : n ≤ r.free) :
    (r.publish n h).live = r.live ++ r.ahead n := by
  rw [r.live_append_ahead, ← r.count_publish h]
  rfl

theorem live_append {xs : List α} {n : Nat} (hn : xs.length = n) (h : xs.length ≤ r.free) :
    (r.append xs h).live = r.live ++ r.ahead n := by
  subst hn
  exact (r.write xs).live_publish h

/-- Appending extends the contents at the back. -/
theorem contents_append {xs : List α} (h : xs.length ≤ r.free) :
    (r.append xs h).contents = r.contents ++ (r.ahead xs.length).zip xs := by
  have hl : (r.append xs h).live = r.live ++ r.ahead xs.length := (r.write xs).live_publish h
  calc (r.append xs h).contents
      = (r.live ++ r.ahead xs.length).map (fun i => (i, (r.write xs).data i)) := by
        rw [← hl]; rfl
    _ = (r.write xs).contents ++ (r.ahead xs.length).zip xs := by
        rw [List.map_append, r.map_ahead_write h]; rfl
    _ = r.contents ++ (r.ahead xs.length).zip xs := by rw [r.contents_write h]

theorem count_dropFront {n : Nat} (h : n ≤ r.count) :
    (r.dropFront n h).count = r.count - n := by
  have hc := r.count_lt
  have hin : r.inPos = (advance r.size r.outPos n + (r.count - n)) % r.size := by
    rw [advance_eq_mod r.out_lt (by omega), Nat.mod_add_mod, Nat.add_assoc,
      Nat.add_sub_cancel' h]
    exact r.in_eq
  have hlt : advance r.size r.outPos n < r.size := advance_lt r.out_lt (by omega)
  show occupancy r.size r.inPos (advance r.size r.outPos n) = r.count - n
  rw [hin]
  exact occupancy_of_mod hlt (by omega)

theorem live_dropFront {n : Nat} (h : n ≤ r.count) :
    (r.dropFront n h).live = r.live.drop n := by
  have hc := r.count_lt
  unfold live
  have hn : n ≤ r.size := by omega
  rw [drop_walk r.out_lt h, r.count_dropFront h, ← advance_eq_mod r.out_lt hn]
  rfl

/-- Giving up slots removes a prefix of the contents. -/
theorem contents_dropFront {n : Nat} (h : n ≤ r.count) :
    (r.dropFront n h).contents = r.contents.drop n := by
  unfold contents
  rw [r.live_dropFront h, List.map_drop]
  rfl

/-- Changing only slots that are given up does not show in what remains. -/
theorem contents_setData_dropFront {n : Nat} {d : Nat → α} (h : n ≤ (r.setData d).count)
    (hd : ∀ i ∈ r.live.drop n, d i = r.data i) :
    ((r.setData d).dropFront n h).contents = r.contents.drop n := by
  rw [contents_dropFront, contents_setData, contents, ← List.map_drop, ← List.map_drop]
  apply List.map_congr_left
  intro i hi
  rw [hd i hi]

/-! ### From a slot to the write position -/

/-- The slots from `i` up to the write position, live or not. -/
def upto (i : Nat) : List Nat := walk r.size i (occupancy r.size r.inPos i)

theorem upto_outPos : r.upto r.outPos = r.live := rfl

@[simp] theorem upto_inPos : r.upto r.inPos = [] := by
  rw [upto, occupancy, if_pos rfl, walk]

theorem upto_of_ne {i : Nat} (hi : i < r.size) (hne : i ≠ r.inPos) :
    r.upto i = i :: r.upto (succIndex r.size i) := by
  have hin := r.in_lt
  have hcount : occupancy r.size r.inPos i =
      occupancy r.size r.inPos (succIndex r.size i) + 1 := by
    unfold occupancy succIndex
    split_ifs <;> omega
  rw [upto, hcount, walk]
  rfl

theorem live_eq_nil_iff : r.live = [] ↔ r.outPos = r.inPos := by
  rw [← upto_outPos]
  by_cases h : r.outPos = r.inPos
  · simp [h]
  · simp [h, r.upto_of_ne r.out_lt h]

/-- The oldest slot is live, if any is. -/
theorem outPos_mem_live (h : r.live ≠ []) : r.outPos ∈ r.live := by
  have hne := mt r.live_eq_nil_iff.mpr h
  rw [← upto_outPos, r.upto_of_ne r.out_lt hne]
  exact List.mem_cons_self

/-- From a live slot on there are only live slots. -/
theorem upto_suffix {i : Nat} (hi : i ∈ r.live) : r.upto i <:+ r.live := by
  have hcount := r.count_lt
  rw [live, walk_eq_map r.out_lt, List.mem_map] at hi
  obtain ⟨j, hj, rfl⟩ := hi
  have hj := List.mem_range.mp hj
  have hlt : (r.outPos + j) % r.size < r.size := Nat.mod_lt _ (by have := r.out_lt; omega)
  have hin : r.inPos = ((r.outPos + j) % r.size + (r.count - j)) % r.size := by
    rw [Nat.mod_add_mod, Nat.add_assoc, Nat.add_sub_cancel' hj.le]
    exact r.in_eq
  have hocc : occupancy r.size r.inPos ((r.outPos + j) % r.size) = r.count - j := by
    rw [hin]
    exact occupancy_of_mod hlt (by omega)
  rw [upto, hocc, ← drop_walk r.out_lt hj.le]
  exact List.drop_suffix j r.live

/-! ## Section 5: Growing -/

/-- Where growing by `more` moves a slot: when the live slots wrap, their part
    at the end of the array moves to the new end. -/
def relocate (more i : Nat) : Nat :=
  if r.inPos < r.outPos ∧ r.outPos ≤ i then i + more else i

/-- Enlarge the array by `more` slots that hold `a`. -/
def grow (more : Nat) (a : α) : CircularBuffer α :=
  if r.inPos < r.outPos then
    { size := r.size + more
      inPos := r.inPos
      outPos := r.outPos + more
      data := fun i =>
        if i < r.outPos then r.data i else if i < r.outPos + more then a else r.data (i - more)
      in_lt := by have := r.in_lt; omega
      out_lt := by have := r.out_lt; omega }
  else
    { size := r.size + more
      inPos := r.inPos
      outPos := r.outPos
      data := fun i => if i < r.size then r.data i else a
      in_lt := by have := r.in_lt; omega
      out_lt := by have := r.out_lt; omega }

variable {more : Nat} {a : α}

@[simp] theorem size_grow : (r.grow more a).size = r.size + more := by
  unfold grow
  split <;> rfl

@[simp] theorem inPos_grow : (r.grow more a).inPos = r.inPos := by
  unfold grow
  split <;> rfl

theorem outPos_grow : (r.grow more a).outPos = r.relocate more r.outPos := by
  unfold grow relocate
  by_cases h : r.inPos < r.outPos
  · rw [if_pos h, if_pos ⟨h, le_refl _⟩]
  · rw [if_neg h, if_neg fun hc => h hc.1]

@[simp] theorem count_grow : (r.grow more a).count = r.count := by
  have hin := r.in_lt
  have hout := r.out_lt
  show occupancy (r.grow more a).size (r.grow more a).inPos (r.grow more a).outPos =
    occupancy r.size r.inPos r.outPos
  rw [size_grow, inPos_grow, outPos_grow]
  unfold occupancy relocate
  split_ifs <;> omega

theorem free_grow : (r.grow more a).free = r.free + more := by
  have h := r.count_add_free
  have hg := (r.grow more a).count_add_free
  rw [count_grow, size_grow] at hg
  omega

/-- The live slots, without the wrap-around. -/
theorem mem_live {i : Nat} : i ∈ r.live ↔
    if r.inPos < r.outPos then i < r.inPos ∨ (r.outPos ≤ i ∧ i < r.size)
    else r.outPos ≤ i ∧ i < r.inPos := by
  have hin := r.in_lt
  have hout := r.out_lt
  have hcount : r.count = if r.inPos < r.outPos then r.size - r.outPos + r.inPos
      else r.inPos - r.outPos := by
    unfold count occupancy
    split_ifs <;> omega
  rw [live, walk_eq_map r.out_lt, List.mem_map]
  constructor
  · rintro ⟨j, hj, rfl⟩
    rw [List.mem_range, hcount] at hj
    by_cases hlt : r.outPos + j < r.size
    · rw [Nat.mod_eq_of_lt hlt]
      split_ifs at hj ⊢ <;> omega
    · rw [Nat.mod_eq_sub_mod (by omega), Nat.mod_eq_of_lt (by split_ifs at hj <;> omega)]
      split_ifs at hj ⊢ <;> omega
  · intro hi
    by_cases hlt : r.outPos ≤ i
    · refine ⟨i - r.outPos, ?_, ?_⟩
      · rw [List.mem_range, hcount]
        split_ifs at hi ⊢ <;> omega
      · rw [Nat.add_sub_cancel' hlt, Nat.mod_eq_of_lt]
        split_ifs at hi <;> omega
    · refine ⟨i + r.size - r.outPos, ?_, ?_⟩
      · rw [List.mem_range, hcount]
        split_ifs at hi ⊢ <;> omega
      · have h : r.outPos + (i + r.size - r.outPos) = i + r.size := by omega
        rw [h, Nat.add_mod_right, Nat.mod_eq_of_lt]
        split_ifs at hi <;> omega

/-- The live slots of a wrapped buffer: the end of the array, then its front. -/
theorem live_of_wrapped (h : r.inPos < r.outPos) :
    r.live = List.range' r.outPos (r.size - r.outPos) ++ List.range' 0 r.inPos := by
  have hin := r.in_lt
  have hout := r.out_lt
  have hcount : r.count = r.size - r.outPos + r.inPos := by
    unfold count occupancy
    split_ifs <;> omega
  have hend : (r.outPos + (r.size - r.outPos)) % r.size = 0 := by
    rw [Nat.add_sub_cancel' hout.le, Nat.mod_self]
  rw [live, hcount, walk_add hout, hend, walk_eq_range' (by omega), walk_eq_range' (by omega)]

/-- A walk over live slots that starts in the front of a wrapped buffer stays
    there. -/
theorem walk_lt_inPos {i n : Nat} (hw : r.inPos < r.outPos) (hi : i < r.inPos)
    (h : ∀ k ∈ walk r.size i n, k ∈ r.live) : ∀ k ∈ walk r.size i n, k < r.inPos := by
  induction n generalizing i with
  | zero => intro k hk; exact absurd hk List.not_mem_nil
  | succ n ih =>
    intro k hk
    simp only [walk, List.mem_cons, forall_eq_or_imp] at h hk
    rcases hk with rfl | hk
    · exact hi
    · have hin := r.in_lt
      have hsucc : succIndex r.size i = i + 1 := if_neg (by omega)
      -- the next slot is live, and the write position is not
      have hnext : i + 1 < r.inPos := by
        cases n with
        | zero => exact absurd hk List.not_mem_nil
        | succ n =>
          have hlive := h.2 (i + 1) (by simp [walk, hsucc])
          rw [mem_live, if_pos hw] at hlive
          omega
      rw [hsucc] at hk h
      exact ih hnext h.2 k hk

/-- Growing moves the live slots and keeps what they hold. -/
theorem data_grow {i : Nat} (hi : i ∈ r.live) :
    (r.grow more a).data (r.relocate more i) = r.data i := by
  have hin := r.in_lt
  rw [mem_live] at hi
  unfold grow
  by_cases h : r.inPos < r.outPos
  · rw [if_pos h] at hi ⊢
    by_cases hlt : r.outPos ≤ i
    · have hrel : r.relocate more i = i + more := if_pos ⟨h, hlt⟩
      have h1 : ¬ i + more < r.outPos := by omega
      have h2 : ¬ i + more < r.outPos + more := by omega
      simp only [hrel, if_neg h1, if_neg h2, Nat.add_sub_cancel]
    · have hrel : r.relocate more i = i := if_neg fun hc => hlt hc.2
      simp only [hrel, if_pos (Nat.lt_of_not_le hlt)]
  · rw [if_neg h] at hi ⊢
    have hrel : r.relocate more i = i := if_neg fun hc => h hc.1
    have hsize : i < r.size := by omega
    simp only [hrel, if_pos hsize]

/-- The step from a live slot to the next one commutes with moving the slots. -/
theorem succIndex_relocate {i : Nat} (hi : i ∈ r.live) :
    succIndex (r.size + more) (r.relocate more i) = r.relocate more (succIndex r.size i) := by
  rw [mem_live] at hi
  have hin := r.in_lt
  unfold succIndex relocate
  split_ifs at hi ⊢ <;> omega

/-- A walk over live slots is moved slot by slot. -/
theorem walk_relocate {i n : Nat} (h : ∀ k ∈ walk r.size i n, k ∈ r.live) :
    walk (r.size + more) (r.relocate more i) n = (walk r.size i n).map (r.relocate more) := by
  induction n generalizing i with
  | zero => rfl
  | succ n ih =>
    simp only [walk, List.mem_cons, forall_eq_or_imp] at h
    rw [walk, walk, List.map_cons, r.succIndex_relocate h.1, ih h.2]

theorem live_grow : (r.grow more a).live = r.live.map (r.relocate more) := by
  show walk (r.grow more a).size (r.grow more a).outPos (r.grow more a).count = _
  rw [size_grow, outPos_grow, count_grow]
  exact r.walk_relocate fun k hk => hk

end CircularBuffer
