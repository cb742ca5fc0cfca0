import PinbaEngine.Lib.Circular
import PinbaEngine.StagingPools

/-! # Growth of a ring in memory

    The timer pool is a ring, and `pinba_pool_grow` enlarges it while it is in use. If
    its live slots wrap around, the ones at the end of the old array are moved to the
    end of the new one, over a distance that may be smaller than what is moved.

    The model of the reports works with `CircularBuffer.grow`. Here the code of
    `pinba_pool_grow` on bytes is compared with it.
-/

namespace PinbaEngine

namespace Staging

variable {α : Type*}

/-- The pool in memory is the ring, where `encode` is how an element lies in memory. -/
structure PinbaPool.IsRing (p : PinbaPool) (r : CircularBuffer α) (encode : α → Bytes) : Prop where
  size : p.size.toNat = r.size
  inPos : p.inPos.toNat = r.inPos
  outPos : p.outPos.toNat = r.outPos
  block : ∃ bytes, p.data = .block bytes ∧ bytes.length = p.size.toNat * p.element_size.toNat
  slots : ∀ k < r.size, p.slot k = some (encode (r.data k))

variable {p : PinbaPool} {r : CircularBuffer α} {encode : α → Bytes} {zero : α} {m : StagingMetrics}
  {more n : UInt64} {memory : Realloc} {junk : Nat → UInt8} {bytes : Block UInt8}

/-- The new end of a ring that does not wrap. -/
theorem zero_new_slots_end (hp : ¬ p.inPos < p.outPos) (hne : p.size ≠ more) (old : UInt64) :
    zero_new_slots p old more bytes =
      (bytes.fill (old * p.element_size).toNat 0 (more * p.element_size).toNat).map
        fun bytes => { p with data := .block bytes } := by
  unfold zero_new_slots
  rw [if_neg hne, if_neg hp]
  cases bytes.fill (old * p.element_size).toNat 0 (more * p.element_size).toNat <;> rfl

/-- The slots of a wrapped ring after `memmove` and `memset`, all counted in elements. -/
theorem exists_moved {w new : Nat} (old out : Nat) (hout : out ≤ old) (hnew : old ≤ new)
    (hlen : bytes.length = new * w) : ∃ moved after,
      bytes.move ((out + (new - old)) * w) (out * w) ((old - out) * w) = some moved ∧
        moved.fill (out * w) 0 ((new - old) * w) = some after ∧ after.length = new * w ∧
        (∀ k < out, after.slot w k = bytes.slot w k) ∧
        (∀ k, out ≤ k → k < out + (new - old) → after.slot w k = some (List.replicate w 0)) ∧
        ∀ k < old - out, after.slot w (out + (new - old) + k) = bytes.slot w (out + k) := by
  have hsrc : out * w + (old - out) * w ≤ bytes.length := by
    rw [← Nat.add_mul, hlen]
    exact Nat.mul_le_mul_right w (by omega)
  have hdest : (out + (new - old)) * w + (old - out) * w ≤ bytes.length := by
    rw [← Nat.add_mul, hlen]
    exact Nat.mul_le_mul_right w (by omega)
  obtain ⟨moved, hmoved⟩ := Option.isSome_iff_exists.mp (Block.move_isSome hsrc hdest)
  have hroom : (moved.fill (out * w) (0 : UInt8) ((new - old) * w)).isSome = true := by
    rw [Block.fill_isSome, Block.length_move hmoved, hlen, ← Nat.add_mul]
    exact Nat.mul_le_mul_right w (by omega)
  obtain ⟨after, hafter⟩ := Option.isSome_iff_exists.mp hroom
  refine ⟨moved, after, hmoved, hafter, ?_, fun k hk => ?_, fun k hlow hhigh => ?_, fun k hk => ?_⟩
  · rw [Block.length_fill hafter, Block.length_move hmoved, hlen]
  · rw [Block.slot_fill_of_lt hafter hk, Block.slot_move_of_lt hmoved (by omega)]
  · have hfill : moved.fill (out * w) 0 ((out + (new - old) - out) * w) = some after := by
      rwa [Nat.add_sub_cancel_left]
    exact Block.slot_fill hfill hlow hhigh
  · -- behind the new slots `memset` changes nothing
    rw [← Block.slot_move hmoved hk]
    refine Block.fetch_store_of_disjoint hafter (.inr ?_)
    rw [List.length_replicate, ← Nat.add_mul]
    exact Nat.mul_le_mul_right w (by omega)

section grow
variable (hp : p.IsRing r encode) (hzero : encode zero = List.replicate p.element_size.toNat 0)
  (hlt : p.size < n) (hfits : n.toNat * p.element_size.toNat < 2 ^ 64)
  (hresized : bytes = p.data.bytes.resize junk (n * p.element_size).toNat)

include hfits in
/-- No product of the growth wraps around. -/
theorem toNat_mul_element {a : UInt64} (ha : a.toNat ≤ n.toNat) :
    (a * p.element_size).toNat = a.toNat * p.element_size.toNat :=
  toNat_mul_of_lt ((Nat.mul_le_mul_right _ ha).trans_lt hfits)

include hlt in
theorem toNat_more : p.size.toNat < n.toNat ∧ (n - p.size).toNat = n.toNat - p.size.toNat :=
  ⟨UInt64.lt_iff_toNat_lt.mp hlt, UInt64.toNat_sub_of_le _ _ (UInt64.le_of_lt hlt)⟩

include hfits hresized in
theorem length_resized : bytes.length = n.toNat * p.element_size.toNat := by
  rw [hresized, Block.length_resize, toNat_mul_element hfits le_rfl]

include hp hlt hfits hresized in
/-- The new block starts with the old ring. -/
theorem slot_resized {k : Nat} (hk : k < r.size) :
    bytes.slot p.element_size.toNat k = some (encode (r.data k)) := by
  obtain ⟨old, hdata, hlen⟩ := hp.block
  rw [← hp.slots k hk, hresized, toNat_mul_element hfits le_rfl]
  refine Block.slot_resize junk ?_ (Nat.mul_le_mul_right _ (toNat_more hlt).1.le) (hp.size ▸ hk)
  rw [hdata]
  exact hlen.ge

include hp hlt in
/-- There was an old slot. -/
theorem size_ne_more : n ≠ n - p.size := by
  intro heq
  have hnat := congrArg UInt64.toNat heq
  obtain ⟨hlt', hsub⟩ := toNat_more hlt
  have hin := r.in_lt
  have hsize := hp.size
  omega

include hp hzero hlt hfits hresized

/-- The live slots at the end move to the new end. -/
theorem zero_new_slots_wrapped (hwrap : p.inPos < p.outPos) :
    ∃ q, zero_new_slots { p with size := n } p.size (n - p.size) bytes = some q ∧
      (q.element_size, q.limit_size) = (p.element_size, p.limit_size) ∧
      q.IsRing (r.grow (n.toNat - p.size.toNat) zero) encode := by
  obtain ⟨hlt', hsub⟩ := toNat_more hlt
  have hin := r.in_lt
  have hout := r.out_lt
  have hsize := hp.size
  have houtPos := hp.outPos
  have hwrap' : r.inPos < r.outPos := by
    rw [← hp.inPos, ← hp.outPos]
    exact UInt64.lt_iff_toNat_lt.mp hwrap
  have hshift : (p.outPos + (n - p.size)).toNat = p.outPos.toNat + (n.toNat - p.size.toNat) := by
    rw [UInt64.toNat_add, hsub, Nat.mod_eq_of_lt]
    have hn := n.toNat_lt
    omega
  have hrest : (p.size - p.outPos).toNat = p.size.toNat - p.outPos.toNat :=
    UInt64.toNat_sub_of_le _ _ (UInt64.le_iff_toNat_le.mpr (by omega))
  obtain ⟨moved, after, hmoved, hafter, hlength, hlow, hnew, hhigh⟩ :=
    exists_moved p.size.toNat p.outPos.toNat (by omega) hlt'.le
      (length_resized hfits hresized)
  have hmul : ∀ a : UInt64, a.toNat ≤ n.toNat →
      (a * p.element_size).toNat = a.toNat * p.element_size.toNat := fun a ha =>
    toNat_mul_element hfits ha
  refine ⟨{ p with size := n, data := .block after, outPos := p.outPos + (n - p.size) }, ?_, rfl, ?_⟩
  · unfold zero_new_slots
    rw [if_neg (size_ne_more hp hlt), if_pos hwrap]
    show (bytes.move ((p.outPos + (n - p.size)) * p.element_size).toNat
      (p.outPos * p.element_size).toNat ((p.size - p.outPos) * p.element_size).toNat).bind _ = _
    rw [hmul _ (by omega), hmul _ (by omega), hmul _ (by omega), hshift, hrest, hmoved]
    show (moved.fill (p.outPos.toNat * p.element_size.toNat) 0
      ((n - p.size) * p.element_size).toNat).bind _ = _
    rw [hmul _ (by omega), hsub, hafter]
    rfl
  · unfold CircularBuffer.grow
    rw [if_pos hwrap']
    refine ⟨?_, hp.inPos, hshift.trans (by rw [houtPos]), ⟨after, rfl, hlength⟩, fun k hk => ?_⟩
    · show n.toNat = r.size + (n.toNat - p.size.toNat)
      omega
    · have hk : k < r.size + (n.toNat - p.size.toNat) := hk
      show after.slot p.element_size.toNat k = _
      dsimp only
      split
      · rw [hlow k (by omega), slot_resized hp hlt hfits hresized (by omega)]
      · split
        · rw [hnew k (by omega) (by omega), hzero]
        · obtain ⟨i, rfl⟩ : ∃ i, k = p.outPos.toNat + (n.toNat - p.size.toNat) + i :=
            Nat.exists_eq_add_of_le (by omega)
          rw [hhigh i (by omega), slot_resized hp hlt hfits hresized (by omega)]
          congr 3
          omega

/-- The new slots are all at the end. -/
theorem zero_new_slots_straight (hwrap : ¬ p.inPos < p.outPos) :
    ∃ q, zero_new_slots { p with size := n } p.size (n - p.size) bytes = some q ∧
      (q.element_size, q.limit_size) = (p.element_size, p.limit_size) ∧
      q.IsRing (r.grow (n.toNat - p.size.toNat) zero) encode := by
  obtain ⟨hlt', hsub⟩ := toNat_more hlt
  have hsize := hp.size
  have hwrap' : ¬ r.inPos < r.outPos := by
    rw [← hp.inPos, ← hp.outPos, not_lt]
    exact UInt64.le_iff_toNat_le.mp (UInt64.not_lt.mp hwrap)
  have hlen := length_resized hfits hresized
  have hroom : (bytes.fill (p.size.toNat * p.element_size.toNat) (0 : UInt8)
      ((n.toNat - p.size.toNat) * p.element_size.toNat)).isSome = true := by
    rw [Block.fill_isSome, hlen, ← Nat.add_mul]
    exact Nat.mul_le_mul_right _ (by omega)
  obtain ⟨after, hafter⟩ := Option.isSome_iff_exists.mp hroom
  refine ⟨{ p with size := n, data := .block after }, ?_, rfl, ?_⟩
  · rw [zero_new_slots_end (p := { p with size := n }) hwrap (size_ne_more hp hlt)]
    dsimp only
    rw [toNat_mul_element hfits hlt'.le, toNat_mul_element hfits (by omega), hsub, hafter]
    rfl
  · unfold CircularBuffer.grow
    rw [if_neg hwrap']
    refine ⟨?_, hp.inPos, hp.outPos, ⟨after, rfl, (Block.length_fill hafter).trans hlen⟩,
      fun k hk => ?_⟩
    · show n.toNat = r.size + (n.toNat - p.size.toNat)
      omega
    · have hk : k < r.size + (n.toNat - p.size.toNat) := hk
      show after.slot p.element_size.toNat k = _
      dsimp only
      split
      · rw [Block.slot_fill_of_lt hafter (by omega), slot_resized hp hlt hfits hresized (by omega)]
      · rw [Block.slot_fill hafter (by omega) (by omega), hzero]

end grow

/-- `pinba_pool_grow` on bytes is the growth of the ring, wherever it starts and however far
    its live slots wrap around; all writes are inside the new block. If there is no larger
    block, or the pool may not grow, the ring stays as it is. -/
theorem grow_isRing (m : StagingMetrics) (hp : p.IsRing r encode)
    (hzero : encode zero = List.replicate p.element_size.toNat 0) (hfrees : memory ≠ .frees)
    (hfits : (pinba_pool_new_size p more).toNat * p.element_size.toNat < 2 ^ 64) :
    ∃ q m' success, pinba_pool_grow memory m p more = some ⟨q, m', success⟩ ∧
      (q.element_size, q.limit_size) = (p.element_size, p.limit_size) ∧
      (success = true → q.size = pinba_pool_new_size p more ∧ p.size < q.size ∧
        q.IsRing (r.grow (q.size.toNat - p.size.toNat) zero) encode) ∧
      (success = false → q = p ∧ m' = m) := by
  obtain ⟨block, hdata, -⟩ := hp.block
  have hfreed : p.data ≠ .freed := by rw [hdata]; exact Pointer.noConfusion
  rcases UInt64.lt_or_le p.size (pinba_pool_new_size p more) with hlt | hle
  · cases memory with
    | fails => exact ⟨p, m, false, grow_fails hfreed, rfl, Bool.noConfusion, fun _ => ⟨rfl, rfl⟩⟩
    | frees => exact absurd rfl hfrees
    | returns junk =>
      have hsome : ∃ q, zero_new_slots { p with size := pinba_pool_new_size p more } p.size
          (pinba_pool_new_size p more - p.size)
          (p.data.bytes.resize junk (pinba_pool_new_size p more * p.element_size).toNat) = some q ∧
          (q.element_size, q.limit_size) = (p.element_size, p.limit_size) ∧
          q.IsRing (r.grow ((pinba_pool_new_size p more).toNat - p.size.toNat) zero) encode := by
        by_cases hwrap : p.inPos < p.outPos
        · exact zero_new_slots_wrapped hp hzero hlt hfits rfl hwrap
        · exact zero_new_slots_straight hp hzero hlt hfits rfl hwrap
      obtain ⟨q, hq, helem, hring⟩ := hsome
      have hqsize : q.size = pinba_pool_new_size p more := by
        have hnat := hring.size
        rw [CircularBuffer.size_grow, ← hp.size] at hnat
        have hlt' := UInt64.lt_iff_toNat_lt.mp hlt
        exact UInt64.toNat_inj.mp (by omega)
      refine ⟨q, m.grow p (pinba_pool_new_size p more - p.size), true, ?_, helem,
        fun _ => ⟨hqsize, hqsize ▸ hlt, hqsize ▸ hring⟩, Bool.noConfusion⟩
      rw [grow_of_lt hlt, realloc_returns hfreed, Option.bind_some]
      dsimp only
      rw [hq]
      rfl
  · exact ⟨p, m, false, grow_of_le hle, rfl, Bool.noConfusion, fun _ => ⟨rfl, rfl⟩⟩

/-! ## Section 2: Runs of a ring -/

/-- How `timer_pool_add` moves `in`, and the expiry pass `out`. -/
def advance_position (size position n : UInt64) : UInt64 :=
  if size ≤ position + n then position + n - size else position + n

/-- What the threads do with a ring. -/
inductive RingCall (α : Type*) where
  /-- Store an element in a slot. -/
  | write (k : Nat) (a : α)
  | take_in (n : UInt64)
  | take_out (n : UInt64)
  | grow (more : UInt64) (memory : Realloc)

/-- The call on bytes. -/
def RingCall.run (encode : α → Bytes) (m : StagingMetrics) (p : PinbaPool) :
    RingCall α → Option Outcome
  | .write k a => (p.store (k * p.element_size.toNat) (encode a)).map fun p => ⟨p, m, true⟩
  | .take_in n => some ⟨{ p with inPos := advance_position p.size p.inPos n }, m, true⟩
  | .take_out n => some ⟨{ p with outPos := advance_position p.size p.outPos n }, m, true⟩
  | .grow more memory => pinba_pool_grow memory m p more

/-- The call on the ring. Growing may fail, and then nothing happens. -/
def RingCall.after (zero : α) (r : CircularBuffer α) (success : Bool) :
    RingCall α → CircularBuffer α
  | .write k a => r.setData (Function.update r.data k a)
  | .take_in n => if h : n.toNat ≤ r.free then r.publish n.toNat h else r
  | .take_out n => if h : n.toNat ≤ r.count then r.dropFront n.toNat h else r
  | .grow more _ => if success then r.grow more.toNat zero else r

/-- The callers write to slots, take what is free or live, and ask for more slots that
    memory can hold. `realloc` does not free a block when it is asked for bytes. -/
def RingCall.Allowed (width : Nat) (r : CircularBuffer α) : RingCall α → Prop
  | .write k _ => k < r.size
  | .take_in n => n.toNat ≤ r.free
  | .take_out n => n.toNat ≤ r.count
  | .grow more memory => more ≠ 0 ∧ memory ≠ .frees ∧ (r.size + more.toNat) * width < 2 ^ 64

/-- A ring without a limit, as the pools of requests and timers are. -/
structure PinbaPool.IsRingPool (p : PinbaPool) (r : CircularBuffer α) (encode : α → Bytes)
    (width : Nat) : Prop extends p.IsRing r encode where
  limit : p.limit_size = 0
  element : p.element_size.toNat = width
  fits : r.size * width < 2 ^ 64

section runs
variable {q : PinbaPool} {width : Nat} {k : UInt64} {c : RingCall α} {p₀ : PinbaPool}
  {r₀ : CircularBuffer α}

theorem advance_position_eq {size : UInt64} (position k : UInt64) (hsize : 2 * size.toNat < 2 ^ 64)
    (hposition : position.toNat < size.toNat) (hk : k.toNat ≤ size.toNat) :
    (advance_position size position k).toNat =
      Circular.advance size.toNat position.toNat k.toNat := by
  have hsum : (position + k).toNat = position.toNat + k.toNat := by
    rw [UInt64.toNat_add, Nat.mod_eq_of_lt]
    omega
  unfold advance_position Circular.advance
  by_cases hle : size ≤ position + k
  · have hnat := UInt64.le_iff_toNat_le.mp hle
    rw [if_pos hle, UInt64.toNat_sub_of_le _ _ hle, hsum]
    rw [hsum] at hnat
    split <;> omega
  · have hnat := UInt64.lt_iff_toNat_lt.mp (UInt64.not_le.mp hle)
    rw [if_neg hle, hsum]
    rw [hsum] at hnat
    split <;> omega

section calls
variable (hwidth : 2 ≤ width) (hencode : ∀ a, (encode a).length = width)
  (hzero : encode zero = List.replicate width 0) (hp : p.IsRingPool r encode width)
include hp

include hencode in
theorem ringPool_write {k : Nat} (hk : k < r.size) (a : α) : ∃ q,
    p.store (k * p.element_size.toNat) (encode a) = some q ∧
      q.IsRingPool (r.setData (Function.update r.data k a)) encode width := by
  obtain ⟨old, hdata, hlen⟩ := hp.block
  have hsize := hp.size
  have hstore : (old.store (k * (encode a).length) (encode a)).isSome = true := by
    rw [Block.store_isSome, hlen, hencode, hp.element, hsize]
    exact Block.slot_end_le hk width
  obtain ⟨new, hnew⟩ := Option.isSome_iff_exists.mp hstore
  refine ⟨{ p with data := .block new }, ?_, ⟨⟨hsize, hp.inPos, hp.outPos, ⟨new, rfl, ?_⟩, ?_⟩,
    hp.limit, hp.element, hp.fits⟩⟩
  · unfold PinbaPool.store
    rw [hdata, hp.element, ← hencode a]
    show (old.store (k * (encode a).length) (encode a)).map _ = _
    rw [hnew]
    rfl
  · rw [Block.length_store hnew, hlen]
  · intro i hi
    show new.slot p.element_size.toNat i = some (encode (Function.update r.data k a i))
    rw [hp.element, ← hencode a]
    by_cases heq : i = k
    · subst heq
      rw [Function.update_self]
      exact Block.slot_store hnew
    · rw [Function.update_of_ne heq, Block.slot_store_of_ne hnew heq, hencode, ← hp.slots i hi,
        ← hp.element]
      unfold PinbaPool.slot
      rw [hdata]
      rfl

include hwidth in
/-- Two positions may be added. -/
theorem twice_size_lt : 2 * p.size.toNat < 2 ^ 64 := by
  rw [hp.size, Nat.mul_comm]
  exact (Nat.mul_le_mul_left r.size hwidth).trans_lt hp.fits

include hwidth in
theorem ringPool_take_in (h : k.toNat ≤ r.free) :
    { p with inPos := advance_position p.size p.inPos k }.IsRingPool (r.publish k.toNat h) encode
      width := by
  have hsize := hp.size
  have hin := r.in_lt
  have hle : k.toNat ≤ p.size.toNat := by
    unfold CircularBuffer.free at h
    omega
  have hadvance := advance_position_eq p.inPos k (twice_size_lt hwidth hp)
    (by rw [hp.inPos, hsize]; exact hin) hle
  rw [hsize, hp.inPos] at hadvance
  exact ⟨⟨hsize, hadvance, hp.outPos, hp.block, hp.slots⟩, hp.limit, hp.element, hp.fits⟩

include hwidth in
theorem ringPool_take_out (h : k.toNat ≤ r.count) :
    { p with outPos := advance_position p.size p.outPos k }.IsRingPool (r.dropFront k.toNat h) encode
      width := by
  have hsize := hp.size
  have hcount := r.count_lt
  have hadvance := advance_position_eq p.outPos k (twice_size_lt hwidth hp)
    (by rw [hp.outPos, hsize]; exact r.out_lt) (by omega)
  rw [hsize, hp.outPos] at hadvance
  exact ⟨⟨hsize, hp.inPos, hadvance, hp.block, hp.slots⟩, hp.limit, hp.element, hp.fits⟩

include hzero in
theorem ringPool_grow (hmore : more ≠ 0) (hfrees : memory ≠ .frees)
    (hfits : (r.size + more.toNat) * width < 2 ^ 64) (hwidth : 0 < width) :
    ∃ q m' success, pinba_pool_grow memory m p more = some ⟨q, m', success⟩ ∧
      q.IsRingPool (if success then r.grow more.toNat zero else r) encode width := by
  have hsize := hp.size
  have hwanted : p.wanted more = r.size + more.toNat := by
    unfold PinbaPool.wanted
    rw [if_pos hmore, hsize]
  have hlt : r.size + more.toNat < 2 ^ 64 :=
    (Nat.le_mul_of_pos_right _ hwidth).trans_lt hfits
  have hnew : (pinba_pool_new_size p more).toNat = r.size + more.toNat := by
    rw [PinbaPool.toNat_new_size (by rw [hwanted]; exact hlt), PinbaPool.cut, if_pos hp.limit, hwanted]
  obtain ⟨q, m', success, hgrow, hframe, hyes, hno⟩ := grow_isRing m hp.toIsRing
    (by rw [hp.element]; exact hzero) hfrees (by rw [hnew, hp.element]; exact hfits)
  refine ⟨q, m', success, hgrow, ?_⟩
  cases success with
  | false =>
    obtain ⟨rfl, -⟩ := hno rfl
    exact hp
  | true =>
    obtain ⟨hqsize, -, hring⟩ := hyes rfl
    have hmoresize : q.size.toNat - p.size.toNat = more.toNat := by
      rw [hqsize, hnew, hsize]
      omega
    rw [hmoresize] at hring
    refine ⟨hring, (congrArg Prod.snd hframe).trans hp.limit, ?_, ?_⟩
    · rw [show q.element_size = p.element_size from congrArg Prod.fst hframe]
      exact hp.element
    · rw [if_pos rfl, CircularBuffer.size_grow]
      exact hfits

include hwidth hencode hzero in
/-- An allowed call has a result, and that is the ring after the call. -/
theorem ringPool_call (m : StagingMetrics) (hc : c.Allowed width r) :
    ∃ q m' success, c.run encode m p = some ⟨q, m', success⟩ ∧
      q.IsRingPool (c.after zero r success) encode width := by
  cases c with
  | write k a =>
    obtain ⟨q, hq, hring⟩ := ringPool_write hencode hp hc a
    refine ⟨q, m, true, ?_, hring⟩
    show (p.store (k * p.element_size.toNat) (encode a)).map _ = _
    rw [hq]
    rfl
  | take_in n =>
    refine ⟨_, m, true, rfl, ?_⟩
    show PinbaPool.IsRingPool _ (if h : n.toNat ≤ r.free then r.publish n.toNat h else r) _ _
    have hc : n.toNat ≤ r.free := hc
    rw [dif_pos hc]
    exact ringPool_take_in hwidth hp hc
  | take_out n =>
    refine ⟨_, m, true, rfl, ?_⟩
    show PinbaPool.IsRingPool _ (if h : n.toNat ≤ r.count then r.dropFront n.toNat h else r) _ _
    have hc : n.toNat ≤ r.count := hc
    rw [dif_pos hc]
    exact ringPool_take_out hwidth hp hc
  | grow more memory =>
    obtain ⟨hmore, hfrees, hfits⟩ := hc
    exact ringPool_grow hzero hp hmore hfrees hfits (by omega)

end calls

/-- The states of a pool in memory and of the ring after some allowed calls. -/
inductive RingRun (encode : α → Bytes) (zero : α) (width : Nat) (p₀ : PinbaPool)
    (r₀ : CircularBuffer α) : PinbaPool → CircularBuffer α → Prop
  | start : RingRun encode zero width p₀ r₀ p₀ r₀
  | call {p q : PinbaPool} {r : CircularBuffer α} {m m' : StagingMetrics} {success : Bool}
    (c : RingCall α) (h : RingRun encode zero width p₀ r₀ p r) (hc : c.Allowed width r)
    (hrun : c.run encode m p = some ⟨q, m', success⟩) :
    RingRun encode zero width p₀ r₀ q (c.after zero r success)

/-- In every run of stores, moves of `in` and `out` and growths, whether `realloc` finds
    memory or not, the bytes of the pool are the ring that the model works with. No call
    leaves the block, also not the ones that move the slots of a ring that wraps around. -/
theorem ring_of_run (hwidth : 2 ≤ width) (hencode : ∀ a, (encode a).length = width)
    (hzero : encode zero = List.replicate width 0) (h₀ : p₀.IsRingPool r₀ encode width)
    (h : RingRun encode zero width p₀ r₀ p r) :
    p.IsRingPool r encode width ∧
      ∀ (m : StagingMetrics) (c : RingCall α), c.Allowed width r → (c.run encode m p).isSome := by
  have hring : p.IsRingPool r encode width := by
    induction h with
    | start => exact h₀
    | @call p q r m m' success c _ hc hrun ih =>
      obtain ⟨q', m'', success', hrun', hq⟩ := ringPool_call hwidth hencode hzero ih m hc
      obtain ⟨rfl, rfl, rfl⟩ : q = q' ∧ m' = m'' ∧ success = success' := by
        simpa using hrun.symm.trans hrun'
      exact hq
  refine ⟨hring, fun m c hc => ?_⟩
  obtain ⟨q, m', success, hrun, -⟩ := ringPool_call hwidth hencode hzero hring m hc
  rw [hrun]
  rfl

/-- Five slots of two bytes; the last two and the first one are live. -/
def wrapped_pool : PinbaPool :=
  ⟨5, 0, 5, 2, 1, 3, ascii "timer pool", .block [7, 7, 0, 0, 0, 0, 8, 8, 9, 9]⟩

def wrapped_ring : CircularBuffer UInt8 :=
  ⟨5, 1, 3, fun k => [7, 0, 0, 8, 9].getD k 0, by decide, by decide⟩

/-- A growth by one slot moves two elements over one another. -/
theorem ring_of_run_wrapped :
    ∃ q, pinba_pool_grow (.returns fun _ => 255) ⟨0, 0⟩ wrapped_pool 1 = some ⟨q, ⟨0, 0⟩, true⟩ ∧
      q.data = .block [7, 7, 0, 0, 0, 0, 0, 0, 8, 8, 9, 9] ∧
      q.IsRingPool (wrapped_ring.grow 1 0) (fun a => [a, a]) 2 := by
  have h₀ : wrapped_pool.IsRingPool wrapped_ring (fun a => [a, a]) 2 := by
    refine ⟨⟨rfl, rfl, rfl, ⟨_, rfl, rfl⟩, ?_⟩, rfl, rfl, by decide⟩
    decide
  refine ⟨⟨6, 0, 5, 2, 1, 4, ascii "timer pool",
    .block [7, 7, 0, 0, 0, 0, 0, 0, 8, 8, 9, 9]⟩, by rfl, rfl, ?_⟩
  have hrun : RingRun (fun a => [a, a]) (0 : UInt8) 2 wrapped_pool wrapped_ring
      ⟨6, 0, 5, 2, 1, 4, ascii "timer pool", .block [7, 7, 0, 0, 0, 0, 0, 0, 8, 8, 9, 9]⟩
      (wrapped_ring.grow 1 0) :=
    .call (.grow 1 (.returns fun _ => 255)) .start ⟨by decide, Realloc.noConfusion, by decide⟩
      (show RingCall.run (fun a : UInt8 => [a, a]) ⟨0, 0⟩ wrapped_pool
        (.grow 1 (.returns fun _ => 255)) = some ⟨_, ⟨0, 0⟩, true⟩ by rfl)
  exact (ring_of_run (show 2 ≤ 2 from le_rfl) (fun _ => rfl) rfl h₀ hrun).1

end runs

end Staging

end PinbaEngine
