import Mathlib.Data.List.GetD
import PinbaEngine.Lib.Block

/-! # Blocks of the heap

    What C does with a block that `realloc` returned: `memset`, `memmove`, stores
    and reads, all of them without a result outside of the block, and `realloc`
    itself, after which new cells hold anything.

    Section 2 is about arrays in a block. An element is a read of its width, so an
    array that is longer than its block lacks its last element.
-/

namespace PinbaEngine

namespace Block

variable {α : Type*} {block after : Block α} {pos p n k m w : Nat} {src : List α}

/-! ## Section 1: Reads -/

/-- The `len` cells from `pos` on. -/
def fetch (block : Block α) (pos len : Nat) : Option (List α) :=
  if pos + len ≤ block.length then some ((block.drop pos).take len) else none

/-- `memset`. -/
def fill (block : Block α) (pos : Nat) (a : α) (len : Nat) : Option (Block α) :=
  block.store pos (List.replicate len a)

/-- `memmove`. -/
def move (block : Block α) (dest src len : Nat) : Option (Block α) :=
  (block.fetch src len).bind (block.store dest)

/-- The block that `realloc` returns. It keeps what fits; the other cells are never written. -/
def resize (block : Block α) (junk : Nat → α) (size : Nat) : Block α :=
  (List.range size).map fun i => block.getD i (junk i)

theorem le_of_fetch {cells : List α} (h : block.fetch pos n = some cells) :
    pos + n ≤ block.length := by
  unfold fetch at h
  split at h
  · assumption
  · cases h

/-- Two blocks with the same cells in a range are read alike there. -/
theorem fetch_congr (hpos : pos + n ≤ block.length) (hafter : pos + n ≤ after.length)
    (h : ∀ i < n, after[pos + i]? = block[pos + i]?) : after.fetch pos n = block.fetch pos n := by
  unfold fetch
  rw [if_pos hpos, if_pos hafter]
  congr 1
  apply List.ext_getElem?
  intro i
  rw [List.getElem?_take, List.getElem?_take]
  split
  · rw [List.getElem?_drop, List.getElem?_drop]
    exact h i ‹_›
  · rfl

theorem getElem?_store (h : block.store pos src = some after) (i : Nat) :
    after[i]? = if i < pos then block[i]? else if i < pos + src.length then src[i - pos]? else block[i]? := by
  have hfits : pos + src.length ≤ block.length := store_isSome.mp (by rw [h]; rfl)
  unfold store at h
  rw [if_pos hfits] at h
  cases h
  have htake : (block.take pos).length = pos := by
    rw [List.length_take]
    omega
  rw [List.append_assoc]
  split
  · rw [List.getElem?_append_left (by omega), List.getElem?_take_of_lt ‹_›]
  · rw [List.getElem?_append_right (by omega), htake]
    split
    · rw [List.getElem?_append_left (by omega)]
    · rw [List.getElem?_append_right (by omega), List.getElem?_drop]
      congr 1
      omega

theorem fetch_store (h : block.store pos src = some after) :
    after.fetch pos src.length = some src := by
  have hfits : pos + src.length ≤ after.length := by
    rw [length_store h]
    exact store_isSome.mp (by rw [h]; rfl)
  unfold fetch
  rw [if_pos hfits]
  congr 1
  apply List.ext_getElem?
  intro i
  rw [List.getElem?_take]
  split
  · rw [List.getElem?_drop, getElem?_store h, if_neg (by omega), if_pos (by omega)]
    congr 1
    omega
  · rw [List.getElem?_eq_none (by omega)]

/-- A store elsewhere. -/
theorem fetch_store_of_disjoint (h : block.store pos src = some after)
    (hdisj : p + n ≤ pos ∨ pos + src.length ≤ p) : after.fetch p n = block.fetch p n := by
  by_cases hfits : p + n ≤ block.length
  · refine fetch_congr hfits (by rwa [length_store h]) fun i hi => ?_
    rw [getElem?_store h]
    obtain hlow | hhigh := hdisj
    · rw [if_pos (by omega)]
    · rw [if_neg (by omega), if_neg (by omega)]
  · unfold fetch
    rw [length_store h, if_neg hfits, if_neg hfits]

theorem length_fill {a : α} (h : block.fill pos a n = some after) : after.length = block.length :=
  length_store h

theorem fill_isSome {a : α} : (block.fill pos a n).isSome = true ↔ pos + n ≤ block.length := by
  rw [fill, store_isSome, List.length_replicate]

theorem fetch_fill {a : α} (h : block.fill pos a n = some after) (hlow : pos ≤ p)
    (hhigh : p + m ≤ pos + n) : after.fetch p m = some (List.replicate m a) := by
  have hfits : pos + n ≤ after.length := by
    rw [length_fill h]
    exact fill_isSome.mp (by rw [h]; rfl)
  unfold fetch
  rw [if_pos (by omega)]
  congr 1
  apply List.ext_getElem?
  intro i
  rw [List.getElem?_take, List.getElem?_replicate]
  split
  · rw [List.getElem?_drop, getElem?_store h, List.length_replicate, if_neg (by omega),
      if_pos (by omega), List.getElem?_replicate, if_pos (by omega)]
  · rfl

@[simp] theorem length_resize (junk : Nat → α) : (block.resize junk n).length = n := by
  simp [resize]

/-- A cell that fits both sizes is kept. -/
theorem getElem?_resize (junk : Nat → α) {i : Nat} (hi : i < n) (hlen : i < block.length) :
    (block.resize junk n)[i]? = block[i]? := by
  unfold resize
  rw [List.getElem?_map, List.getElem?_range hi, Option.map_some, List.getD_eq_getElem _ _ hlen,
    List.getElem?_eq_getElem hlen]

theorem fetch_resize (junk : Nat → α) (hlen : p + m ≤ block.length) (hsize : p + m ≤ n) :
    (block.resize junk n).fetch p m = block.fetch p m := by
  refine fetch_congr hlen (by rwa [length_resize]) fun i hi => ?_
  exact getElem?_resize junk (by omega) (by omega)

/-! ## Section 2: Arrays -/

/-- Element `k` of an array of elements of width `w`. -/
def slot (block : Block α) (w k : Nat) : Option (List α) := block.fetch (k * w) w

/-- An element ends where or before the next ones start. -/
theorem slot_end_le (h : k < m) (w : Nat) : k * w + w ≤ m * w := by
  rw [← Nat.succ_mul]
  exact Nat.mul_le_mul_right w h

/-- An array has all its elements only in a block that is large enough. -/
theorem le_of_slot {cells : List α} (hn : 0 < n) (h : block.slot w (n - 1) = some cells) :
    n * w ≤ block.length := by
  have hend := le_of_fetch h
  rwa [← Nat.succ_mul, Nat.succ_eq_add_one, Nat.sub_add_cancel hn] at hend

theorem slot_store (h : block.store (k * src.length) src = some after) :
    after.slot src.length k = some src :=
  fetch_store h

theorem slot_store_of_ne (h : block.store (m * src.length) src = some after) (hne : k ≠ m) :
    after.slot src.length k = block.slot src.length k := by
  apply fetch_store_of_disjoint h
  obtain hlt | hgt := Nat.lt_or_gt_of_ne hne
  · exact Or.inl (slot_end_le hlt _)
  · exact Or.inr (slot_end_le hgt _)

theorem slot_resize (junk : Nat → α) (hlen : m * w ≤ block.length) (hsize : m * w ≤ n) (hk : k < m) :
    (block.resize junk n).slot w k = block.slot w k :=
  fetch_resize junk ((slot_end_le hk w).trans hlen) ((slot_end_le hk w).trans hsize)

/-- Zeroing the elements from `m` to `n` leaves the others alone. -/
theorem slot_fill_of_lt {a : α} (h : block.fill (m * w) a n = some after) (hk : k < m) :
    after.slot w k = block.slot w k :=
  fetch_store_of_disjoint h (Or.inl (slot_end_le hk w))

theorem slot_fill {a : α} (h : block.fill (m * w) a ((n - m) * w) = some after) (hmk : m ≤ k)
    (hkn : k < n) : after.slot w k = some (List.replicate w a) := by
  apply fetch_fill h (Nat.mul_le_mul_right w hmk)
  rw [← Nat.add_mul, Nat.add_sub_cancel' (hmk.trans hkn.le)]
  exact slot_end_le hkn w

/-- Cells that stand elsewhere in the other block are read alike there. -/
theorem fetch_shift (hpos : pos + n ≤ block.length) (hp : p + n ≤ after.length)
    (h : ∀ i < n, after[p + i]? = block[pos + i]?) : after.fetch p n = block.fetch pos n := by
  unfold fetch
  rw [if_pos hpos, if_pos hp]
  congr 1
  apply List.ext_getElem?
  intro i
  rw [List.getElem?_take, List.getElem?_take]
  split
  · rw [List.getElem?_drop, List.getElem?_drop]
    exact h i ‹_›
  · rfl

theorem move_isSome {dest src len : Nat} (hsrc : src + len ≤ block.length)
    (hdest : dest + len ≤ block.length) : (block.move dest src len).isSome = true := by
  unfold move fetch
  rw [if_pos hsrc, Option.bind_some, store_isSome, List.length_take, List.length_drop]
  omega

theorem length_move {dest src len : Nat} (h : block.move dest src len = some after) :
    after.length = block.length := by
  obtain ⟨cells, -, hstore⟩ := Option.bind_eq_some_iff.mp h
  exact length_store hstore

theorem getElem?_move {dest src len : Nat} (h : block.move dest src len = some after) (i : Nat) :
    after[i]? = if dest ≤ i ∧ i < dest + len then block[src + (i - dest)]? else block[i]? := by
  obtain ⟨cells, hcells, hstore⟩ := Option.bind_eq_some_iff.mp h
  have hfits := le_of_fetch hcells
  unfold fetch at hcells
  rw [if_pos hfits] at hcells
  obtain rfl := Option.some.inj hcells
  have hlen : ((block.drop src).take len).length = len := by
    rw [List.length_take, List.length_drop]
    omega
  rw [getElem?_store hstore, hlen]
  by_cases hlow : i < dest
  · rw [if_pos hlow, if_neg (by omega)]
  · rw [if_neg hlow]
    by_cases hhigh : i < dest + len
    · rw [if_pos hhigh, if_pos ⟨by omega, hhigh⟩, List.getElem?_take_of_lt (by omega),
        List.getElem?_drop]
    · rw [if_neg hhigh, if_neg (by omega)]

/-- `memmove` of the elements from `s` on to those from `d` on, which may overlap them. -/
theorem slot_move {d s c : Nat} (h : block.move (d * w) (s * w) (c * w) = some after)
    (hk : k < c) : after.slot w (d + k) = block.slot w (s + k) := by
  have hsrc : s * w + c * w ≤ block.length := by
    obtain ⟨cells, hcells, -⟩ := Option.bind_eq_some_iff.mp h
    exact le_of_fetch hcells
  have hdest : d * w + c * w ≤ after.length := by
    obtain ⟨cells, hcells, hstore⟩ := Option.bind_eq_some_iff.mp h
    have hcells' := le_of_fetch hcells
    have hlen := store_isSome.mp (by rw [hstore]; rfl)
    unfold fetch at hcells
    rw [if_pos hcells'] at hcells
    rw [← Option.some.inj hcells, List.length_take, List.length_drop] at hlen
    rw [length_store hstore]
    omega
  have hend := slot_end_le hk w
  unfold slot
  rw [Nat.add_mul, Nat.add_mul]
  refine fetch_shift (by omega) (by omega) fun i hi => ?_
  rw [getElem?_move h, if_pos (by omega)]
  congr 1
  omega

/-- The elements below are left alone. -/
theorem slot_move_of_lt {d s c : Nat} (h : block.move (d * w) (s * w) (c * w) = some after)
    (hk : k < d) : after.slot w k = block.slot w k := by
  have hend := slot_end_le hk w
  by_cases hfits : k * w + w ≤ block.length
  · refine fetch_shift hfits (by rwa [length_move h]) fun i hi => ?_
    rw [getElem?_move h, if_neg (by omega)]
  · unfold slot fetch
    rw [length_move h, if_neg hfits, if_neg hfits]

/-- An array gets longer: the elements it has are kept, and the rest of the new block is filled. -/
theorem exists_extended (junk : Nat → α) (a : α) (hlen : block.length = m * w) (hmn : m ≤ n) :
    ∃ after, (block.resize junk (n * w)).fill (m * w) a ((n - m) * w) = some after ∧
      after.length = n * w ∧ (∀ k < m, after.slot w k = block.slot w k) ∧
      ∀ k, m ≤ k → k < n → after.slot w k = some (List.replicate w a) := by
  have hroom : ((block.resize junk (n * w)).fill (m * w) a ((n - m) * w)).isSome = true := by
    rw [fill_isSome, length_resize, ← Nat.add_mul, Nat.add_sub_cancel' hmn]
  obtain ⟨after, hafter⟩ := Option.isSome_iff_exists.mp hroom
  refine ⟨after, hafter, ?_, fun k hk => ?_, fun k => slot_fill hafter⟩
  · rw [length_fill hafter, length_resize]
  · rw [slot_fill_of_lt hafter hk, slot_resize junk hlen.ge (Nat.mul_le_mul_right w hmn) hk]

end Block

end PinbaEngine
