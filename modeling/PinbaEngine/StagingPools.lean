import PinbaEngine.Lib.HeapBlock
import PinbaEngine.Pipeline
import PinbaEngine.TableComment

/-! # The staging pools

    Every worker has two pools of decoded datagrams and one of staged records. They
    are arrays on the heap that only grow: `pinba_pool_push` and the worker itself
    call `pinba_pool_grow` when the last slot is taken, and a batch empties them by
    setting `in` back. Two metrics follow the sizes of all pools whose name starts
    with `per_thread_`.

    Sizes are `size_t` here, and a pool is a block of bytes: the number of slots that
    a pool believes to have and the bytes behind it are different things. They are
    the same as long as no growth asks for `2 ^ 64` bytes or more.

    What destructors do with the elements of a pool is left out.
-/

namespace PinbaEngine

namespace Staging

/-! ## Section 1: Pools -/

def PINBA_POOL_NAME_SIZE : Nat := 256

/-- A pointer to the heap. -/
inductive Pointer where
  | null
  /-- The block behind it was freed. -/
  | freed
  | block (bytes : Block UInt8)

/-- The bytes behind a pointer. -/
def Pointer.bytes : Pointer → Block UInt8
  | .block bytes => bytes
  | _ => []

/-- `pinba_pool`. -/
structure PinbaPool where
  size : UInt64
  /-- Zero means no limit. -/
  limit_size : UInt64
  grow_size : UInt64
  element_size : UInt64
  /-- `in`. -/
  inPos : UInt64
  /-- `out`. -/
  outPos : UInt64
  /-- Without the terminator. -/
  name : Bytes
  data : Pointer

/-- The metrics that follow the pools. -/
structure StagingMetrics where
  staging_slots : UInt64
  staging_bytes : UInt64

/-- What a call leaves, and whether it returned `P_SUCCESS`. -/
structure Outcome where
  pool : PinbaPool
  metrics : StagingMetrics
  success : Bool

namespace PinbaPool

/-- Memory from `calloc`, or after `memset`. -/
def zero : PinbaPool := ⟨0, 0, 0, 0, 0, 0, [], .null⟩

/-- `strncmp(p->name, "per_thread_", 11) == 0`. -/
def per_thread (p : PinbaPool) : Bool := p.name.take 11 = ascii "per_thread_"

/-- Element `k`. -/
def slot (p : PinbaPool) (k : Nat) : Option Bytes := p.data.bytes.slot p.element_size.toNat k

/-- A store to the data of the pool. -/
def store (p : PinbaPool) (pos : Nat) (src : Bytes) : Option PinbaPool :=
  match p.data with
  | .block bytes => (bytes.store pos src).map fun bytes => { p with data := .block bytes }
  | _ => none

end PinbaPool

/-- How `realloc` ends. -/
inductive Realloc where
  /-- It returns null and leaves the block alone. -/
  | fails
  /-- It returns null and has freed the block. It may do so when asked for no bytes. -/
  | frees
  /-- It returns a block. New bytes hold `junk`. -/
  | returns (junk : Nat → UInt8)

/-- `pinba_realloc_array_or_log`: what the old pointer still points to, and the block that was
    returned. The size is a product of two `size_t`. -/
def pinba_realloc_array_or_log (memory : Realloc) (ptr : Pointer) (count elem_size : UInt64) :
    Option (Pointer × Option (Block UInt8)) :=
  match ptr, memory with
  -- a stale pointer must not be passed on
  | .freed, _ => none
  | ptr, .fails => some (ptr, none)
  | _, .frees => some (.freed, none)
  | ptr, .returns junk => some (.freed, some (ptr.bytes.resize junk (count * elem_size).toNat))

/-! ## Section 2: Growing -/

/-- `pinba_pool_new_size`. -/
def pinba_pool_new_size (p : PinbaPool) (grow_size : UInt64) : UInt64 :=
  let new_size := if grow_size ≠ 0 then p.size + grow_size else p.size + p.grow_size
  if 0 < p.limit_size ∧ p.limit_size < new_size then p.limit_size else new_size

/-- The metrics after `pinba_pool_grow` has added `more` slots. -/
def StagingMetrics.grow (m : StagingMetrics) (p : PinbaPool) (more : UInt64) : StagingMetrics :=
  if p.per_thread then
    { staging_slots := m.staging_slots + more
      staging_bytes := m.staging_bytes + more * p.element_size }
  else m

/-- The end of `pinba_pool_grow`: the new slots are zeroed, in the middle if the pool is a ring
    that wraps around. `p` has its new size already, and `bytes` is its new block. -/
def zero_new_slots (p : PinbaPool) (old_size more : UInt64) (bytes : Block UInt8) :
    Option PinbaPool :=
  -- there was no old slot
  if p.size = more then do
    let bytes ← bytes.fill 0 0 (p.size * p.element_size).toNat
    return { p with data := .block bytes }
  else if p.inPos < p.outPos then do
    let bytes ← bytes.move ((p.outPos + more) * p.element_size).toNat
      (p.outPos * p.element_size).toNat ((old_size - p.outPos) * p.element_size).toNat
    let bytes ← bytes.fill (p.outPos * p.element_size).toNat 0 (more * p.element_size).toNat
    return { p with data := .block bytes, outPos := p.outPos + more }
  else do
    let bytes ← bytes.fill (old_size * p.element_size).toNat 0 (more * p.element_size).toNat
    return { p with data := .block bytes }

/-- `pinba_pool_grow`. There is no result if it leaves the block. -/
def pinba_pool_grow (memory : Realloc) (m : StagingMetrics) (p : PinbaPool) (more : UInt64) :
    Option Outcome := do
  let old_size := p.size
  let new_size := pinba_pool_new_size p more
  let more := new_size - old_size
  -- at its limit, or a wrong grow size
  if old_size = new_size then return ⟨p, m, false⟩
  else if new_size ≤ 0 ∨ new_size < old_size then return ⟨p, m, false⟩
  else
    -- the warning about the limit is left out
    let (ptr, new_data) ← pinba_realloc_array_or_log memory p.data new_size p.element_size
    match new_data with
    | none => return ⟨{ p with data := ptr }, m, false⟩
    | some bytes =>
      let grown ← zero_new_slots { p with size := new_size } old_size more bytes
      return ⟨grown, m.grow p more, true⟩

/-! ## Section 3: Operations -/

/-- `pinba_pool_init` before it grows the pool. -/
def new_pool (size element_size limit_size grow_size : UInt64) (pool_name : Bytes) : PinbaPool :=
  { PinbaPool.zero with
    element_size := element_size
    limit_size := limit_size
    grow_size := if grow_size ≠ 0 then grow_size else size
    name := pool_name.take (PINBA_POOL_NAME_SIZE - 1) }

/-- `pinba_pool_init`. -/
def pinba_pool_init (memory : Realloc) (m : StagingMetrics)
    (size element_size limit_size grow_size : UInt64) (pool_name : Bytes) : Option Outcome :=
  let p := new_pool size element_size limit_size grow_size pool_name
  if 0 < limit_size ∧ limit_size < size then some ⟨p, m, false⟩
  else pinba_pool_grow memory m p size

/-- A full pool has to grow before anything is stored in it. -/
def make_room (memory : Realloc) (m : StagingMetrics) (p : PinbaPool) (grow_size : UInt64) :
    Option Outcome :=
  if p.inPos = p.size then pinba_pool_grow memory m p grow_size else some ⟨p, m, true⟩

/-- Write an element to the slot at `in`, and move on if it is `kept`. -/
def put_element (memory : Realloc) (m : StagingMetrics) (p : PinbaPool) (grow_size : UInt64)
    (element : Bytes) (kept : Bool) : Option Outcome := do
  let room ← make_room memory m p grow_size
  if room.success then
    let p ← room.pool.store (room.pool.inPos.toNat * element.length) element
    return ⟨if kept then { p with inPos := p.inPos + 1 } else p, room.metrics, true⟩
  else return room

/-- `pinba_pool_push`. The element is a pointer, that is eight bytes. -/
def pinba_pool_push (memory : Realloc) (m : StagingMetrics) (p : PinbaPool) (grow_size : UInt64)
    (data : Fin 8 → UInt8) : Option Outcome :=
  put_element memory m p grow_size (List.ofFn data) true

/-- The lambda `stage` of `data_job_func`, for a valid request. `record` is what the slot holds
    after `request_to_record`, and `staged` says if that succeeded. -/
def stage (memory : Realloc) (m : StagingMetrics) (p : PinbaPool) (record : Bytes)
    (staged : Bool) : Option Outcome :=
  put_element memory m p 0 record staged

/-- At the label `sleep` of `pinba_data_main`. -/
def reset (p : PinbaPool) : PinbaPool := { p with inPos := 0, outPos := 0 }

/-- `pinba_pool_destroy`. -/
def pinba_pool_destroy (m : StagingMetrics) (p : PinbaPool) : Option Outcome :=
  match p.data with
  | .null => some ⟨p, m, true⟩
  | .freed => none
  | .block _ =>
    let m := if p.per_thread then
        { staging_slots := m.staging_slots - p.size
          staging_bytes := m.staging_bytes - p.size * p.element_size }
      else m
    some ⟨{ p with data := .null }, m, true⟩

/-! ## Section 4: Growing a linear pool -/

theorem word_ne_zero_iff {a : UInt64} : a ≠ 0 ↔ 0 < a.toNat := by
  rw [Nat.pos_iff_ne_zero, ne_eq, ne_eq, ← UInt64.toNat_inj]
  rfl

theorem toNat_mul_of_lt {a b : UInt64} (h : a.toNat * b.toNat < 2 ^ 64) :
    (a * b).toNat = a.toNat * b.toNat := by
  rw [UInt64.toNat_mul, Nat.mod_eq_of_lt h]

namespace PinbaPool

/-- Before `pinba_pool_destroy`. -/
def Usable (p : PinbaPool) : Prop := p.data = .null → p.size = 0

/-- The size that a growth is after, without a limit. -/
def wanted (p : PinbaPool) (more : UInt64) : Nat :=
  p.size.toNat + (if more ≠ 0 then more else p.grow_size).toNat

/-- The part of it that the limit lets through. -/
def cut (p : PinbaPool) (n : Nat) : Nat := if p.limit_size = 0 then n else min n p.limit_size.toNat

/-- The growth, if `realloc` lets it happen, stays below `2 ^ 64` bytes. A growth to `2 ^ 64`
    slots or more is refused by the code. -/
def GrowthFits (p : PinbaPool) (memory : Realloc) (more : UInt64) : Prop :=
  memory = .fails ∨ 2 ^ 64 ≤ p.wanted more ∨
    p.cut (p.wanted more) * p.element_size.toNat < 2 ^ 64

structure Bounded (p : PinbaPool) : Prop where
  in_le : p.inPos ≤ p.size
  size_le : p.limit_size ≠ 0 → p.size ≤ p.limit_size

/-- What every call keeps. -/
structure Sound (p : PinbaPool) : Prop extends p.Bounded where
  out_eq : p.outPos = 0
  not_freed : p.data ≠ .freed
  block_size : ∀ bytes, p.data = .block bytes → bytes.length = p.size.toNat * p.element_size.toNat
  bytes_lt : p.size.toNat * p.element_size.toNat < 2 ^ 64
  element_pos : p.data ≠ .null → p.element_size ≠ 0

variable {p q : PinbaPool} {more : UInt64}

/-- The size is cut down from the sum, and the sum can wrap around. -/
theorem new_size_eq (p : PinbaPool) (more : UInt64) :
    ∃ sum : UInt64, sum.toNat = p.wanted more % 2 ^ 64 ∧
      pinba_pool_new_size p more =
        if 0 < p.limit_size ∧ p.limit_size < sum then p.limit_size else sum := by
  refine ⟨if more ≠ 0 then p.size + more else p.size + p.grow_size, ?_, rfl⟩
  unfold wanted
  split
  · rw [UInt64.toNat_add]
  · rw [UInt64.toNat_add]

theorem new_size_le_limit (hlimit : p.limit_size ≠ 0) : pinba_pool_new_size p more ≤ p.limit_size := by
  obtain ⟨sum, -, hsize⟩ := new_size_eq p more
  rw [hsize]
  have hpos : 0 < p.limit_size := UInt64.lt_iff_toNat_lt.mpr (word_ne_zero_iff.mp hlimit)
  split <;> rename_i h
  · exact UInt64.le_refl _
  · exact UInt64.not_lt.mp fun hlt => h ⟨hpos, hlt⟩

/-- Below `2 ^ 64` slots the size is the one that the caller is after. -/
theorem toNat_new_size (h : p.wanted more < 2 ^ 64) :
    (pinba_pool_new_size p more).toNat = p.cut (p.wanted more) := by
  obtain ⟨sum, hsum, hsize⟩ := new_size_eq p more
  rw [Nat.mod_eq_of_lt h] at hsum
  rw [hsize, ← hsum, cut]
  by_cases hlimit : p.limit_size = 0
  · rw [if_pos hlimit, if_neg fun hcut => by simp [hlimit] at hcut]
  · have hpos : 0 < p.limit_size := UInt64.lt_iff_toNat_lt.mpr (word_ne_zero_iff.mp hlimit)
    rw [if_neg hlimit]
    split <;> rename_i hcut
    · have hlt := UInt64.lt_iff_toNat_lt.mp hcut.2
      omega
    · have hle := UInt64.le_iff_toNat_le.mp (UInt64.not_lt.mp fun hlt => hcut ⟨hpos, hlt⟩)
      omega

/-- A sum that wraps around is smaller than the size it started from. -/
theorem new_size_lt (h : 2 ^ 64 ≤ p.wanted more) : pinba_pool_new_size p more < p.size := by
  obtain ⟨sum, hsum, hsize⟩ := new_size_eq p more
  have hlt : sum < p.size := by
    have hmore := (if more ≠ 0 then more else p.grow_size).toNat_lt
    have hold := p.size.toNat_lt
    unfold wanted at h hsum
    rw [UInt64.lt_iff_toNat_lt]
    omega
  rw [hsize]
  split <;> rename_i hcut
  · exact UInt64.lt_trans hcut.2 hlt
  · exact hlt

end PinbaPool

section grow
variable {p q : PinbaPool} {m : StagingMetrics} {more old : UInt64} {memory : Realloc}
  {junk : Nat → UInt8} {bytes : Block UInt8}

/-- `out` stays at the start, so the new slots of a pool are all at its end. -/
theorem zero_new_slots_linear (hout : p.outPos = 0) (hmore : more = p.size - old) :
    zero_new_slots p old more bytes =
      (bytes.fill (old * p.element_size).toNat 0 (more * p.element_size).toNat).map
        fun bytes => { p with data := .block bytes } := by
  have hring : ¬ p.inPos < p.outPos := by
    rw [hout]
    exact UInt64.not_lt_zero
  unfold zero_new_slots
  rw [if_neg hring]
  split <;> rename_i hfirst
  · -- the first block: there are no old slots
    have hold : old = 0 := by
      rw [hmore, eq_comm, sub_eq_self] at hfirst
      exact hfirst
    rw [hold, UInt64.zero_mul, UInt64.toNat_zero, hfirst]
    cases bytes.fill 0 0 (more * p.element_size).toNat <;> rfl
  · cases bytes.fill (old * p.element_size).toNat 0 (more * p.element_size).toNat <;> rfl

theorem realloc_fails {ptr : Pointer} {count elem_size : UInt64} (hfreed : ptr ≠ .freed) :
    pinba_realloc_array_or_log .fails ptr count elem_size = some (ptr, none) := by
  cases ptr with
  | freed => exact absurd rfl hfreed
  | null => rfl
  | block bytes => rfl

theorem realloc_frees {ptr : Pointer} {count elem_size : UInt64} (hfreed : ptr ≠ .freed) :
    pinba_realloc_array_or_log .frees ptr count elem_size = some (.freed, none) := by
  cases ptr with
  | freed => exact absurd rfl hfreed
  | null => rfl
  | block bytes => rfl

theorem realloc_returns {ptr : Pointer} {count elem_size : UInt64} (hfreed : ptr ≠ .freed) :
    pinba_realloc_array_or_log (.returns junk) ptr count elem_size =
      some (.freed, some (ptr.bytes.resize junk (count * elem_size).toNat)) := by
  cases ptr with
  | freed => exact absurd rfl hfreed
  | null => rfl
  | block bytes => rfl

/-- Nothing happens to a pool that cannot get larger. -/
theorem grow_of_le (h : pinba_pool_new_size p more ≤ p.size) :
    pinba_pool_grow memory m p more = some ⟨p, m, false⟩ := by
  unfold pinba_pool_grow
  by_cases heq : p.size = pinba_pool_new_size p more
  · simp only [if_pos heq]
    rfl
  · have hlt : pinba_pool_new_size p more < p.size := UInt64.lt_of_le_of_ne h (Ne.symm heq)
    simp only [if_neg heq, if_pos (Or.inr hlt : pinba_pool_new_size p more ≤ 0 ∨ _)]
    rfl

/-- A pool that can get larger calls `realloc`. -/
theorem grow_of_lt (h : p.size < pinba_pool_new_size p more) :
    pinba_pool_grow memory m p more =
      (pinba_realloc_array_or_log memory p.data (pinba_pool_new_size p more) p.element_size).bind
        fun r => match r.2 with
          | none => some ⟨{ p with data := r.1 }, m, false⟩
          | some bytes =>
            (zero_new_slots { p with size := pinba_pool_new_size p more } p.size
              (pinba_pool_new_size p more - p.size) bytes).map
              fun grown => ⟨grown, m.grow p (pinba_pool_new_size p more - p.size), true⟩ := by
  have hne : p.size ≠ pinba_pool_new_size p more := UInt64.ne_of_lt h
  -- none of the two refusals
  have hpos : ¬ (pinba_pool_new_size p more ≤ 0 ∨ pinba_pool_new_size p more < p.size) := by
    rintro (hzero | hlt)
    · exact UInt64.not_lt_zero (UInt64.lt_of_lt_of_le h hzero)
    · exact UInt64.lt_irrefl _ (UInt64.lt_trans h hlt)
  unfold pinba_pool_grow
  simp only [if_neg hne, if_neg hpos]
  congr 1
  funext r
  obtain ⟨ptr, _ | bytes⟩ := r
  · rfl
  · dsimp only
    cases zero_new_slots { p with size := pinba_pool_new_size p more } p.size
      (pinba_pool_new_size p more - p.size) bytes <;> rfl

/-- A failed reallocation changes nothing. -/
theorem grow_fails (hfreed : p.data ≠ .freed) :
    pinba_pool_grow .fails m p more = some ⟨p, m, false⟩ := by
  rcases UInt64.lt_or_le p.size (pinba_pool_new_size p more) with hlt | hle
  · rw [grow_of_lt hlt, realloc_fails hfreed]
    rfl
  · exact grow_of_le hle

theorem grow_frees (hfreed : p.data ≠ .freed) (h : p.size < pinba_pool_new_size p more) :
    pinba_pool_grow .frees m p more = some ⟨{ p with data := .freed }, m, false⟩ := by
  rw [grow_of_lt h, realloc_frees hfreed]
  rfl

/-- The block has as many bytes as the product of two `size_t` says. -/
theorem grow_returns (hfreed : p.data ≠ .freed) (hout : p.outPos = 0)
    (h : p.size < pinba_pool_new_size p more) :
    pinba_pool_grow (.returns junk) m p more =
      ((p.data.bytes.resize junk (pinba_pool_new_size p more * p.element_size).toNat).fill
        (p.size * p.element_size).toNat 0
        ((pinba_pool_new_size p more - p.size) * p.element_size).toNat).map fun bytes =>
        ⟨{ p with size := pinba_pool_new_size p more, data := .block bytes },
          m.grow p (pinba_pool_new_size p more - p.size), true⟩ := by
  rw [grow_of_lt h, realloc_returns hfreed, Option.bind_some]
  dsimp only
  rw [zero_new_slots_linear (p := { p with size := pinba_pool_new_size p more }) hout rfl,
    Option.map_map]
  rfl

/-- `q` is a live pool that has all that `p` has. -/
structure Extends (p q : PinbaPool) : Prop where
  frame : q = { p with size := q.size, data := q.data }
  sound : q.Sound
  live : q.data ≠ .null
  kept : ∀ k < p.size.toNat, q.slot k = p.slot k

/-- `q` is `p` after a growth. -/
structure Grown (p q : PinbaPool) : Prop extends Extends p q where
  lt : p.size < q.size
  zeroed : ∀ k, p.size.toNat ≤ k → k < q.size.toNat →
    q.slot k = some (List.replicate p.element_size.toNat 0)

theorem PinbaPool.Sound.length_bytes (hp : p.Sound) (huse : p.Usable) :
    p.data.bytes.length = p.size.toNat * p.element_size.toNat := by
  cases hdata : p.data with
  | null =>
    rw [huse hdata, UInt64.toNat_zero, Nat.zero_mul]
    rfl
  | freed => exact absurd hdata hp.not_freed
  | block bytes => exact hp.block_size bytes hdata

theorem Grown.bytes_lt (hq : Grown p q) : q.size.toNat * p.element_size.toNat < 2 ^ 64 := by
  have helem : q.element_size = p.element_size := by rw [hq.frame]
  rw [← helem]
  exact hq.sound.bytes_lt

/-- A growth below `2 ^ 64` bytes that gets its block. -/
theorem grow_spec (junk : Nat → UInt8) (hp : p.Sound) (huse : p.Usable) (helem : p.element_size ≠ 0)
    (hlt : p.size < pinba_pool_new_size p more)
    (hfits : (pinba_pool_new_size p more).toNat * p.element_size.toNat < 2 ^ 64) :
    ∃ q, pinba_pool_grow (.returns junk) m p more = some ⟨q, m.grow p (q.size - p.size), true⟩ ∧
      q.size = pinba_pool_new_size p more ∧ Grown p q := by
  obtain ⟨n, hn⟩ : ∃ n, n = pinba_pool_new_size p more := ⟨_, rfl⟩
  rw [← hn] at hlt hfits
  have hlt' : p.size.toNat < n.toNat := UInt64.lt_iff_toNat_lt.mp hlt
  -- no product wraps around
  have hnew := toNat_mul_of_lt hfits
  have hold : (p.size * p.element_size).toNat = p.size.toNat * p.element_size.toNat :=
    toNat_mul_of_lt ((Nat.mul_le_mul_right _ hlt'.le).trans_lt hfits)
  have hsub : (n - p.size).toNat = n.toNat - p.size.toNat :=
    UInt64.toNat_sub_of_le _ _ (UInt64.le_of_lt hlt)
  have hmore : ((n - p.size) * p.element_size).toNat =
      (n.toNat - p.size.toNat) * p.element_size.toNat := by
    rw [toNat_mul_of_lt, hsub]
    rw [hsub]
    exact (Nat.mul_le_mul_right _ (Nat.sub_le _ _)).trans_lt hfits
  -- so the new slots are the rest of the block
  obtain ⟨bytes, hbytes, hlength, hkept, hzeroed⟩ :=
    Block.exists_extended junk 0 (hp.length_bytes huse) hlt'.le
  refine ⟨{ p with size := n, data := .block bytes }, ?_, hn, ⟨rfl, ?_, Pointer.noConfusion, hkept⟩,
    hlt, hzeroed⟩
  · rw [grow_returns hp.not_freed hp.out_eq (hn ▸ hlt), ← hn, hold, hmore, hnew, hbytes]
    rfl
  · refine ⟨⟨UInt64.le_trans hp.in_le (UInt64.le_of_lt hlt), fun hlimit => ?_⟩, hp.out_eq,
      Pointer.noConfusion, fun b hb => ?_, hfits, fun _ => helem⟩
    · exact hn ▸ PinbaPool.new_size_le_limit hlimit
    · cases hb
      exact hlength

/-- A growth that fits and reaches `realloc` asks for less than `2 ^ 64` bytes. -/
theorem new_bytes_lt (hlt : p.size < pinba_pool_new_size p more) (hmemory : memory ≠ .fails)
    (hfits : p.GrowthFits memory more) :
    (pinba_pool_new_size p more).toNat * p.element_size.toNat < 2 ^ 64 := by
  -- the sum does not wrap around, or the pool would not get larger
  have hwanted : p.wanted more < 2 ^ 64 := by
    by_contra hge
    exact UInt64.lt_irrefl _ (UInt64.lt_trans hlt (PinbaPool.new_size_lt (Nat.not_lt.mp hge)))
  rw [PinbaPool.toNat_new_size hwanted]
  obtain hfails | hwrap | hfits := hfits
  · exact absurd hfails hmemory
  · omega
  · exact hfits

/-- What is known of `realloc` when a pool grows next to `others` bytes of other pools. -/
structure Granted (memory : Realloc) (p : PinbaPool) (more : UInt64) (others : Nat) : Prop where
  fits : p.GrowthFits memory more
  frees : memory = .frees → pinba_pool_new_size p more * p.element_size = 0
  returns : ∀ junk, memory = .returns junk →
    (pinba_pool_new_size p more * p.element_size).toNat + others < 2 ^ 64

/-- No bytes are asked for only if there are no slots. -/
theorem Granted.ne_frees {others : Nat} (h : Granted memory p more others)
    (helem : p.element_size ≠ 0) (hlt : p.size < pinba_pool_new_size p more) :
    memory ≠ .frees := by
  rintro rfl
  have hzero := congrArg UInt64.toNat (h.frees rfl)
  rw [toNat_mul_of_lt (new_bytes_lt hlt Realloc.noConfusion h.fits), UInt64.toNat_zero,
    Nat.mul_eq_zero] at hzero
  have hpos := word_ne_zero_iff.mp helem
  have hsize := UInt64.lt_iff_toNat_lt.mp hlt
  omega

/-- How `pinba_pool_grow` ends if the growth fits. -/
theorem grow_cases {others : Nat} (hp : p.Sound) (huse : p.Usable) (helem : p.element_size ≠ 0)
    (h : Granted memory p more others) :
    pinba_pool_grow memory m p more = some ⟨p, m, false⟩ ∨
      ∃ q, Grown p q ∧ q.size.toNat * p.element_size.toNat + others < 2 ^ 64 ∧
        pinba_pool_grow memory m p more = some ⟨q, m.grow p (q.size - p.size), true⟩ := by
  rcases UInt64.lt_or_le p.size (pinba_pool_new_size p more) with hlt | hle
  swap
  · exact Or.inl (grow_of_le hle)
  cases memory with
  | fails => exact Or.inl (grow_fails hp.not_freed)
  | frees => exact absurd rfl (h.ne_frees helem hlt)
  | returns junk =>
    obtain ⟨q, hgrow, hsize, hq⟩ := grow_spec junk hp huse helem hlt
      (new_bytes_lt hlt Realloc.noConfusion h.fits)
    have hroom := h.returns junk rfl
    rw [← hsize, toNat_mul_of_lt hq.bytes_lt] at hroom
    exact Or.inr ⟨q, hq, hroom, hgrow⟩

end grow

/-! ## Section 5: Storing elements -/

section put
variable {p q r : PinbaPool} {m : StagingMetrics} {memory : Realloc} {more : UInt64}
  {element : Bytes} {k : Nat}

theorem exists_slot (hp : p.Sound) (huse : p.Usable) (hk : k < p.size.toNat) :
    ∃ old, p.slot k = some old := by
  refine ⟨_, if_pos ?_⟩
  rw [hp.length_bytes huse]
  exact Block.slot_end_le hk _

/-- Writing one element of a live pool. -/
theorem store_slot (hp : p.Sound) (hlive : p.data ≠ .null) (hk : k < p.size.toNat)
    (helem : p.element_size.toNat = element.length) :
    ∃ cells, p.store (k * element.length) element = some { p with data := .block cells } ∧
      PinbaPool.Sound { p with data := .block cells } ∧
      cells.slot p.element_size.toNat k = some element ∧
      ∀ j ≠ k, cells.slot p.element_size.toNat j = p.slot j := by
  cases hdata : p.data with
  | null => exact absurd hdata hlive
  | freed => exact absurd hdata hp.not_freed
  | block block =>
    have hlen := hp.block_size block hdata
    -- the slot ends inside of the block
    have hroom : (block.store (k * element.length) element).isSome = true := by
      rw [Block.store_isSome, hlen, helem]
      exact Block.slot_end_le hk _
    obtain ⟨cells, hcells⟩ := Option.isSome_iff_exists.mp hroom
    refine ⟨cells, ?_, ?_, ?_, fun j hj => ?_⟩
    · unfold PinbaPool.store
      rw [hdata]
      dsimp only
      rw [hcells]
      rfl
    · refine ⟨⟨hp.in_le, hp.size_le⟩, hp.out_eq, Pointer.noConfusion, fun b hb => ?_,
        hp.bytes_lt, fun _ => hp.element_pos hlive⟩
      cases hb
      rw [Block.length_store hcells, hlen]
    · rw [helem]
      exact Block.slot_store hcells
    · unfold PinbaPool.slot
      rw [hdata, helem]
      exact Block.slot_store_of_ne hcells hj

theorem Extends.refl (hp : p.Sound) (hlive : p.data ≠ .null) : Extends p p :=
  ⟨rfl, hp, hlive, fun _ _ => rfl⟩

theorem live_of_lt (huse : p.Usable) (hlt : p.inPos < p.size) : p.data ≠ .null := by
  intro hnull
  rw [huse hnull] at hlt
  exact UInt64.not_lt_zero hlt

/-- The element is in the slot at `in`, `in` has moved on to `n`, and the elements in front of it
    are still there. -/
def Puts (p q : PinbaPool) (element : Bytes) (n : Nat) : Prop :=
  q.slot p.inPos.toNat = some element ∧ q.inPos.toNat = n ∧
    ∀ k < p.inPos.toNat, ∃ old, p.slot k = some old ∧ q.slot k = some old

/-- The element is put into the slot at `in`, and nothing else changes. -/
theorem put_element_of_room {m' : StagingMetrics} (kept : Bool) (hp : p.Sound) (huse : p.Usable)
    (hwidth : p.element_size.toNat = element.length)
    (hroom : make_room memory m p more = some ⟨r, m', true⟩) (hr : Extends p r)
    (hlt : p.inPos < r.size) :
    ∃ q, put_element memory m p more element kept = some ⟨q, m', true⟩ ∧
      q = { r with inPos := q.inPos, data := q.data } ∧ q.Sound ∧ q.data ≠ .null ∧
      Puts p q element (p.inPos.toNat + if kept then 1 else 0) := by
  have hin : r.inPos = p.inPos := by rw [hr.frame]
  have hsize : r.element_size = p.element_size := by rw [hr.frame]
  rw [← hin] at hlt
  rw [← hsize] at hwidth
  obtain ⟨cells, hstore, hsound, hslot, hother⟩ :=
    store_slot hr.sound hr.live (UInt64.lt_iff_toNat_lt.mp hlt) hwidth
  -- elements in front of `in` survive the growth and the store
  have hbefore : ∀ j < p.inPos.toNat, ∃ old, p.slot j = some old ∧
      cells.slot r.element_size.toNat j = some old := by
    intro j hj
    have hjp : j < p.size.toNat := hj.trans_le (UInt64.le_iff_toNat_le.mp hp.in_le)
    obtain ⟨old, hold⟩ := exists_slot hp huse hjp
    refine ⟨old, hold, ?_⟩
    rw [hother j (by rw [hin]; omega), hr.kept j hjp, hold]
  -- `in` is below a `size_t`, so the next position does not wrap around
  have hnext : (r.inPos + 1).toNat = r.inPos.toNat + 1 := by
    have hroom := UInt64.lt_iff_toNat_lt.mp hlt
    have hmax := r.size.toNat_lt
    rw [UInt64.toNat_add, UInt64.toNat_one, Nat.mod_eq_of_lt (by omega)]
  unfold put_element
  rw [hroom]
  refine ⟨_, by rw [Option.bind_eq_bind, Option.bind_some, if_pos rfl, hstore]; rfl, ?_⟩
  cases kept with
  | false =>
    refine ⟨rfl, hsound, Pointer.noConfusion, hin ▸ hslot, ?_, hbefore⟩
    rw [← hin]
    rfl
  | true =>
    refine ⟨rfl, ⟨⟨?_, hsound.size_le⟩, hsound.out_eq, hsound.not_freed, hsound.block_size,
      hsound.bytes_lt, hsound.element_pos⟩, Pointer.noConfusion, hin ▸ hslot, ?_, hbefore⟩
    · rw [if_pos rfl, UInt64.le_iff_toNat_le]
      show (r.inPos + 1).toNat ≤ r.size.toNat
      rw [hnext]
      exact UInt64.lt_iff_toNat_lt.mp hlt
    · rw [← hin]
      exact hnext

end put

/-! ## Section 6: The pools of the pipeline -/

section view
variable {p q r : PinbaPool} {m : StagingMetrics} {memory : Realloc} {element : Bytes} {others : Nat}

/-- A pool as the list of its elements. -/
def PinbaPool.view (p : PinbaPool) : Pool Bytes where
  size := p.size.toNat
  grow_size := p.grow_size.toNat
  limit_size := p.limit_size.toNat
  data := (List.range p.inPos.toNat).map fun k => (p.slot k).getD []

/-- Whether the reallocation succeeds. -/
def Realloc.succeeds : Realloc → Bool
  | .returns _ => true
  | _ => false

theorem view_new_size (p : PinbaPool) : p.view.new_size = p.cut (p.wanted 0) := by
  unfold Pool.new_size PinbaPool.view PinbaPool.cut PinbaPool.wanted
  dsimp only
  rw [if_neg (by decide : ¬ (0 : UInt64) ≠ 0)]
  by_cases hlimit : p.limit_size = 0
  · rw [if_pos hlimit, if_neg]
    simp [hlimit]
  · have hpos := word_ne_zero_iff.mp hlimit
    rw [if_neg hlimit]
    split <;> omega

theorem length_view_data (p : PinbaPool) : p.view.data.length = p.inPos.toNat := by
  simp [PinbaPool.view]

theorem view_reset (p : PinbaPool) : (reset p).view = p.view.clear := rfl

/-- The growth of the pipeline is that of the code as long as nothing wraps around. -/
theorem view_make_room (hp : p.Sound) (huse : p.Usable) (helem : p.element_size ≠ 0)
    (hgranted : p.inPos = p.size → Granted memory p 0 others) (hwanted : p.wanted 0 < 2 ^ 64) :
    make_room memory m p 0 = some ⟨p, m, false⟩ ∧ p.view.make_room memory.succeeds = none ∨
      ∃ r m', make_room memory m p 0 = some ⟨r, m', true⟩ ∧ Extends p r ∧ p.inPos < r.size ∧
        p.view.make_room memory.succeeds = some { p.view with size := r.size.toNat } := by
  have hsize : p.view.new_size = (pinba_pool_new_size p 0).toNat := by
    rw [view_new_size, PinbaPool.toNat_new_size hwanted]
  have hold : p.view.size = p.size.toNat := rfl
  unfold make_room Pool.make_room Pool.grow
  rw [length_view_data, hsize, hold]
  by_cases hfull : p.inPos = p.size
  · rw [if_pos hfull, if_pos (congrArg UInt64.toNat hfull)]
    -- both sides refuse a size that is not larger
    rcases UInt64.lt_or_le p.size (pinba_pool_new_size p 0) with hlt | hle
    swap
    · left
      have hle' := UInt64.le_iff_toNat_le.mp hle
      rw [if_pos (by omega)]
      exact ⟨grow_of_le hle, rfl⟩
    have hlt' := UInt64.lt_iff_toNat_lt.mp hlt
    rw [if_neg (by omega)]
    cases memory with
    | fails => exact Or.inl ⟨grow_fails hp.not_freed, rfl⟩
    | frees => exact absurd rfl ((hgranted hfull).ne_frees helem hlt)
    | returns junk =>
      obtain ⟨q, hgrow, hq, hgrown⟩ := grow_spec (m := m) junk hp huse helem hlt
        (new_bytes_lt hlt Realloc.noConfusion (hgranted hfull).fits)
      exact Or.inr ⟨q, _, hgrow, hgrown.toExtends, hfull ▸ hgrown.lt, hq ▸ rfl⟩
  · have hlt : p.inPos < p.size := UInt64.lt_of_le_of_ne hp.in_le hfull
    rw [if_neg hfull, if_neg fun heq => hfull (UInt64.toNat_inj.mp heq)]
    exact Or.inr ⟨p, m, rfl, Extends.refl hp (live_of_lt huse hlt), hlt, rfl⟩

theorem view_put_element (kept : Bool) (hp : p.Sound) (huse : p.Usable)
    (helem : p.element_size ≠ 0) (hwidth : p.element_size.toNat = element.length)
    (hgranted : p.inPos = p.size → Granted memory p 0 others) (hwanted : p.wanted 0 < 2 ^ 64) :
    ∃ after, put_element memory m p 0 element kept = some after ∧
      ((p.view.make_room memory.succeeds).map fun v =>
          if kept then { v with data := v.data ++ [element] } else v) =
        if after.success then some after.pool.view else none := by
  obtain ⟨hroom, hview⟩ | ⟨r, m', hroom, hr, hlt, hview⟩ :=
    view_make_room (m := m) hp huse helem hgranted hwanted
  · refine ⟨⟨p, m, false⟩, ?_, by rw [hview]; rfl⟩
    unfold put_element
    rw [hroom]
    rfl
  · obtain ⟨q, hput, hframe, -, -, hslot, hin, hold⟩ :=
      put_element_of_room kept hp huse hwidth hroom hr hlt
    refine ⟨⟨q, m', true⟩, hput, ?_⟩
    -- the elements in front are the same ones
    have hbefore : (List.range p.inPos.toNat).map (fun k => (q.slot k).getD []) = p.view.data := by
      apply List.map_congr_left
      intro k hk
      obtain ⟨old, hp, hq⟩ := hold k (List.mem_range.mp hk)
      rw [hp, hq]
    -- only the size and the data differ from the pool before
    have hq : q.view = ⟨r.size.toNat, p.view.grow_size, p.view.limit_size, q.view.data⟩ := by
      have hsize : q.size = r.size := by rw [hframe]
      have hgrow : q.grow_size = p.grow_size := by rw [hframe, hr.frame]
      have hlimit : q.limit_size = p.limit_size := by rw [hframe, hr.frame]
      rw [PinbaPool.view, hsize, hgrow, hlimit]
      rfl
    rw [hview, Option.map_some, if_pos rfl, hq]
    congr 1
    cases kept with
    | false =>
      have hdata : q.view.data = p.view.data := by
        rw [← hbefore, PinbaPool.view, hin]
        rfl
      rw [hdata]
      rfl
    | true =>
      have hdata : q.view.data = p.view.data ++ [element] := by
        rw [← hbefore, PinbaPool.view, hin, if_pos rfl, List.range_succ, List.map_append,
          List.map_singleton, hslot]
        rfl
      rw [hdata]
      rfl

theorem view_push {data : Fin 8 → UInt8} (hp : p.Sound) (huse : p.Usable)
    (helem : p.element_size = 8) (hgranted : p.inPos = p.size → Granted memory p 0 others)
    (hwanted : p.wanted 0 < 2 ^ 64) :
    ∃ after, pinba_pool_push memory m p 0 data = some after ∧
      p.view.push (List.ofFn data) memory.succeeds =
        if after.success then some after.pool.view else none := by
  have hwidth : p.element_size.toNat = (List.ofFn data).length := by
    rw [helem, List.length_ofFn]
    rfl
  exact view_put_element true hp huse (helem ▸ by decide) hwidth hgranted hwanted

end view

end Staging

end PinbaEngine
