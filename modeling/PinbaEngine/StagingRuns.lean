import PinbaEngine.StagingPools

/-! # Runs of the staging pools

    Any number of pools and the two metrics that belong to all of them. Callers
    initialize pools, push and stage elements, grow, reset and destroy them, and every
    reallocation succeeds or fails as it likes.

    A metric is the share of one pool and the shares of all others (`Share`), and a call
    moves the share of its own pool only. So what a call does is shown for one pool,
    next to any numbers for the rest (`run_spec`).

    As long as no growth asks for `2 ^ 64` bytes, all calls do what they should. The
    first one that does not fit either has its block freed under it or is left with
    fewer bytes than its slots need (`fits_of_effect`).
-/

namespace PinbaEngine

namespace Staging

/-! ## Section 1: Runs -/

inductive Operation where
  | init (size element_size limit_size grow_size : UInt64) (pool_name : Bytes)
  | push (grow_size : UInt64) (data : Fin 8 → UInt8)
  | grow (more : UInt64)
  | stage (record : Bytes) (staged : Bool)
  | reset
  | destroy

namespace Operation

def run (memory : Realloc) (m : StagingMetrics) (p : PinbaPool) : Operation → Option Outcome
  | .init size element_size limit_size grow_size pool_name =>
    pinba_pool_init memory m size element_size limit_size grow_size pool_name
  | .push grow_size data => pinba_pool_push memory m p grow_size data
  | .grow more => pinba_pool_grow memory m p more
  | .stage record staged => Staging.stage memory m p record staged
  | .reset => some ⟨Staging.reset p, m, true⟩
  | .destroy => pinba_pool_destroy m p

/-- The arguments of `pinba_pool_grow`, if the operation calls it. -/
def growth (p : PinbaPool) : Operation → Option (PinbaPool × UInt64)
  | .init size element_size limit_size grow_size pool_name =>
    if 0 < limit_size ∧ limit_size < size then none
    else some (new_pool size element_size limit_size grow_size pool_name, size)
  | .push grow_size _ => if p.inPos = p.size then some (p, grow_size) else none
  | .grow more => some (p, more)
  | .stage _ _ => if p.inPos = p.size then some (p, 0) else none
  | .reset => none
  | .destroy => none

end Operation

structure StagingState (ι : Type*) where
  pools : ι → PinbaPool
  metrics : StagingMetrics

/-- An operation on one of the pools. -/
structure Call (ι : Type*) where
  pool : ι
  op : Operation
  memory : Realloc

section runs
variable {ι : Type*}

def StagingState.initial : StagingState ι := ⟨fun _ => .zero, ⟨0, 0⟩⟩

variable [DecidableEq ι]

/-- One pool and the metrics change. -/
def StagingState.set (s : StagingState ι) (i : ι) (p : PinbaPool) (m : StagingMetrics) :
    StagingState ι := ⟨Function.update s.pools i p, m⟩

@[simp] theorem StagingState.set_self (s : StagingState ι) (i : ι) (p : PinbaPool)
    (m : StagingMetrics) : (s.set i p m).pools i = p := Function.update_self ..

theorem StagingState.set_ne (s : StagingState ι) {i j : ι} (p : PinbaPool) (m : StagingMetrics)
    (h : j ≠ i) : (s.set i p m).pools j = s.pools j := Function.update_of_ne h ..

def step (s : StagingState ι) (c : Call ι) : Option (StagingState ι × Bool) :=
  (c.op.run c.memory s.metrics (s.pools c.pool)).map fun after =>
    (s.set c.pool after.pool after.metrics, after.success)

end runs

namespace PinbaPool

/-- The slots of a live per-thread pool. -/
def live_slots (p : PinbaPool) : Nat :=
  match p.data with
  | .null => 0
  | _ => if p.per_thread then p.size.toNat else 0

def live_bytes (p : PinbaPool) : Nat :=
  match p.data with
  | .null => 0
  | _ => if p.per_thread then p.size.toNat * p.element_size.toNat else 0

end PinbaPool

namespace Operation

/-- A pool is used between its initialization and its destruction only, and always for elements
    of its element size. -/
def Proper (p : PinbaPool) : Operation → Prop
  | .init _ element_size _ _ _ => p.data = .null ∧ element_size ≠ 0
  | .push _ _ => p.Usable ∧ p.element_size = 8
  | .grow _ => p.Usable ∧ p.element_size ≠ 0
  | .stage record _ => p.Usable ∧ p.element_size.toNat = record.length ∧ p.element_size ≠ 0
  | .reset => True
  | .destroy => True

/-- No growth asks for too much. -/
def Fits (memory : Realloc) (p : PinbaPool) (op : Operation) : Prop :=
  ∀ g more, op.growth p = some (g, more) → g.GrowthFits memory more

/-- What the caller of an operation relies on. -/
def Effect (p q : PinbaPool) (success : Bool) : Operation → Prop
  | .push _ data =>
    if success then Puts p q (List.ofFn data) (p.inPos.toNat + 1) else q = p
  | .stage record staged =>
    if success then Puts p q record (p.inPos.toNat + if staged then 1 else 0) else q = p
  | .grow _ =>
    if success then q.inPos = p.inPos ∧ ∀ k < p.inPos.toNat, ∃ old, p.slot k = some old ∧ q.slot k = some old
    else q = p
  | _ => True

/-- New slots are zeroed. -/
def Zeroes (memory : Realloc) (m : StagingMetrics) (p : PinbaPool) (op : Operation) : Prop :=
  ∀ g more, op.growth p = some (g, more) → ∀ after, pinba_pool_grow memory m g more = some after →
    after.success = true → ∀ k, g.size.toNat ≤ k → k < after.pool.size.toNat →
      after.pool.slot k = some (List.replicate g.element_size.toNat 0)

end Operation

section runs
variable {ι : Type*} [Fintype ι] [DecidableEq ι]

/-- The metrics are the sums over the live per-thread pools. -/
structure Metered (s : StagingState ι) : Prop where
  slots : s.metrics.staging_slots.toNat = ∑ i, (s.pools i).live_slots
  bytes : s.metrics.staging_bytes.toNat = ∑ i, (s.pools i).live_bytes

/-- What `realloc` promises. It frees a block only if asked for no bytes, and the blocks that
    it has given out fit into the address space side by side. -/
def Answers (s : StagingState ι) (c : Call ι) : Prop :=
  ∀ g more, c.op.growth (s.pools c.pool) = some (g, more) →
    match c.memory with
    | .fails => True
    | .frees => g.data ≠ .null ∧ pinba_pool_new_size g more * g.element_size = 0
    | .returns _ => (pinba_pool_new_size g more * g.element_size).toNat +
        ∑ i ∈ Finset.univ.erase c.pool, (s.pools i).data.bytes.length < 2 ^ 64

structure Allowed (s : StagingState ι) (c : Call ι) : Prop where
  proper : c.op.Proper (s.pools c.pool)
  answers : Answers s c

def Call.Fits (c : Call ι) (s : StagingState ι) : Prop := c.op.Fits c.memory (s.pools c.pool)

/-- The call comes to an end inside of the blocks, and does what its caller relies on. -/
def Correct (s : StagingState ι) (c : Call ι) : Prop :=
  ∃ s' success, step s c = some (s', success) ∧
    (∀ i, (s'.pools i).Bounded) ∧ Metered s' ∧
    c.op.Effect (s.pools c.pool) (s'.pools c.pool) success ∧
    c.op.Zeroes c.memory s.metrics (s.pools c.pool)

/-- Any calls whose growths fit, from the start of the daemon on. -/
inductive Run : StagingState ι → Prop
  | start : Run .initial
  | call {s s' : StagingState ι} {c : Call ι} {success : Bool} (h : Run s) (hc : Allowed s c)
      (hfits : c.Fits s) (hstep : step s c = some (s', success)) : Run s'

end runs

/-! ## Section 2: The metrics -/

section share
variable {p q : PinbaPool} {m : StagingMetrics} {slots bytes : Nat}

/-- The metrics are made up of the share of one pool and that of the others. -/
structure Share (m : StagingMetrics) (p : PinbaPool) (slots bytes : Nat) : Prop where
  slots_eq : m.staging_slots.toNat = p.live_slots + slots
  bytes_eq : m.staging_bytes.toNat = p.live_bytes + bytes

namespace PinbaPool

theorem live_slots_eq (h : p.Usable) : p.live_slots = if p.per_thread then p.size.toNat else 0 := by
  unfold live_slots
  split
  · rw [h ‹_›]
    split <;> rfl
  · rfl

theorem live_bytes_eq (h : p.Usable) :
    p.live_bytes = if p.per_thread then p.size.toNat * p.element_size.toNat else 0 := by
  unfold live_bytes
  split
  · rw [h ‹_›, UInt64.toNat_zero, Nat.zero_mul]
    split <;> rfl
  · rfl

theorem usable_of_live (h : p.data ≠ .null) : p.Usable := fun hnull => absurd hnull h

theorem live_slots_null (h : p.data = .null) : p.live_slots = 0 := by
  unfold live_slots
  rw [h]

theorem live_bytes_null (h : p.data = .null) : p.live_bytes = 0 := by
  unfold live_bytes
  rw [h]

/-- A slot has at least one byte. -/
theorem Sound.live_slots_le (h : p.Sound) : p.live_slots ≤ p.live_bytes := by
  by_cases hnull : p.data = .null
  · rw [live_slots_null hnull]
    exact Nat.zero_le _
  · rw [live_slots_eq (usable_of_live hnull), live_bytes_eq (usable_of_live hnull)]
    split
    · exact Nat.le_mul_of_pos_right _ (word_ne_zero_iff.mp (h.element_pos hnull))
    · exact le_rfl

theorem Sound.live_bytes_le (h : p.Sound) : p.live_bytes ≤ p.data.bytes.length := by
  by_cases hnull : p.data = .null
  · rw [live_bytes_null hnull]
    exact Nat.zero_le _
  · rw [live_bytes_eq (usable_of_live hnull), h.length_bytes (usable_of_live hnull)]
    split
    · exact le_rfl
    · exact Nat.zero_le _

end PinbaPool

/-- Nothing that a metric counts has changed. -/
theorem Share.congr (h : Share m p slots bytes) (hslots : q.live_slots = p.live_slots)
    (hbytes : q.live_bytes = p.live_bytes) : Share m q slots bytes :=
  ⟨hslots ▸ h.slots_eq, hbytes ▸ h.bytes_eq⟩

theorem toNat_add_of_eq {a more : UInt64} {old total : Nat} (ha : a.toNat = old)
    (htotal : old + more.toNat = total) (hlt : total < 2 ^ 64) : (a + more).toNat = total := by
  rw [UInt64.toNat_add, ha, htotal, Nat.mod_eq_of_lt hlt]

/-- The share of a pool grows with the pool. -/
theorem Share.grow (h : Share m p slots bytes) (huse : p.Usable) (hq : Grown p q)
    (hle : slots ≤ bytes) (hroom : q.size.toNat * p.element_size.toNat + bytes < 2 ^ 64) :
    Share (m.grow p (q.size - p.size)) q slots bytes := by
  have hname : q.per_thread = p.per_thread := by rw [hq.frame]; rfl
  have helem : q.element_size = p.element_size := by rw [hq.frame]
  have hsub : (q.size - p.size).toNat = q.size.toNat - p.size.toNat :=
    UInt64.toNat_sub_of_le _ _ (UInt64.le_of_lt hq.lt)
  have hlt := UInt64.lt_iff_toNat_lt.mp hq.lt
  have hslots := h.slots_eq
  have hbytes := h.bytes_eq
  rw [PinbaPool.live_slots_eq huse] at hslots
  rw [PinbaPool.live_bytes_eq huse] at hbytes
  unfold StagingMetrics.grow
  -- a pool of another name is in neither sum
  refine ⟨?_, ?_⟩
  · rw [PinbaPool.live_slots_eq (PinbaPool.usable_of_live hq.live), hname]
    split <;> rename_i hthread
    · rw [if_pos hthread] at hslots
      apply toNat_add_of_eq hslots
      · rw [hsub]
        omega
      -- a slot has a byte or more, so there are fewer slots than bytes
      · have hpos := word_ne_zero_iff.mp (hq.sound.element_pos hq.live)
        rw [helem] at hpos
        have hone := Nat.le_mul_of_pos_right q.size.toNat hpos
        omega
    · rwa [if_neg hthread] at hslots
  · rw [PinbaPool.live_bytes_eq (PinbaPool.usable_of_live hq.live), hname, helem]
    split <;> rename_i hthread
    · rw [if_pos hthread] at hbytes
      apply toNat_add_of_eq hbytes _ hroom
      have hmul : (q.size.toNat - p.size.toNat) * p.element_size.toNat < 2 ^ 64 :=
        (Nat.mul_le_mul_right _ (Nat.sub_le _ _)).trans_lt hq.bytes_lt
      rw [← hsub] at hmul
      rw [toNat_mul_of_lt hmul, hsub, Nat.sub_mul]
      have hmono := Nat.mul_le_mul_right p.element_size.toNat hlt.le
      omega
    · rwa [if_neg hthread] at hbytes

/-- A destroyed pool takes its share along. -/
theorem Share.destroy (h : Share m p slots bytes) {block : Block UInt8}
    (hdata : p.data = .block block) :
    ∃ m', pinba_pool_destroy m p = some ⟨{ p with data := .null }, m', true⟩ ∧
      Share m' { p with data := .null } slots bytes := by
  have hlive : p.data ≠ .null := by simp [hdata]
  have hslots := h.slots_eq
  have hbytes := h.bytes_eq
  rw [PinbaPool.live_slots_eq (PinbaPool.usable_of_live hlive)] at hslots
  rw [PinbaPool.live_bytes_eq (PinbaPool.usable_of_live hlive)] at hbytes
  unfold pinba_pool_destroy
  rw [hdata]
  refine ⟨_, rfl, ?_, ?_⟩
  · rw [PinbaPool.live_slots_null rfl, Nat.zero_add]
    split <;> rename_i hthread
    · rw [if_pos hthread] at hslots
      rw [UInt64.toNat_sub_of_le _ _ (UInt64.le_iff_toNat_le.mpr (by omega))]
      omega
    · rwa [if_neg hthread, Nat.zero_add] at hslots
  · rw [PinbaPool.live_bytes_null rfl, Nat.zero_add]
    split <;> rename_i hthread
    · rw [if_pos hthread] at hbytes
      have hmul : p.size.toNat * p.element_size.toNat < 2 ^ 64 := by
        have hlt := m.staging_bytes.toNat_lt
        omega
      have hsize := toNat_mul_of_lt hmul
      rw [UInt64.toNat_sub_of_le _ _ (UInt64.le_iff_toNat_le.mpr (by omega)), hsize]
      omega
    · rwa [if_neg hthread, Nat.zero_add] at hbytes

variable {ι : Type*} [Fintype ι] [DecidableEq ι]

/-- The metrics are right if they are the share of any one pool and those of the others. -/
theorem metered_set_iff {s : StagingState ι} {i : ι} :
    Metered (s.set i q m) ↔
      Share m q (∑ j ∈ Finset.univ.erase i, (s.pools j).live_slots)
        (∑ j ∈ Finset.univ.erase i, (s.pools j).live_bytes) := by
  -- a sum over all pools, split at the pool that changes
  have hsum : ∀ f : PinbaPool → Nat, ∑ j, f ((s.set i q m).pools j) =
      f q + ∑ j ∈ Finset.univ.erase i, f (s.pools j) := by
    intro f
    rw [← Finset.add_sum_erase _ _ (Finset.mem_univ i), s.set_self]
    congr 1
    apply Finset.sum_congr rfl
    intro j hj
    rw [s.set_ne q m (Finset.ne_of_mem_erase hj)]
  constructor
  · intro h
    exact ⟨hsum PinbaPool.live_slots ▸ h.slots, hsum PinbaPool.live_bytes ▸ h.bytes⟩
  · intro h
    exact ⟨(hsum PinbaPool.live_slots).symm ▸ h.slots_eq, (hsum PinbaPool.live_bytes).symm ▸ h.bytes_eq⟩

theorem Metered.share {s : StagingState ι} (h : Metered s) (i : ι) :
    Share s.metrics (s.pools i) (∑ j ∈ Finset.univ.erase i, (s.pools j).live_slots)
      (∑ j ∈ Finset.univ.erase i, (s.pools j).live_bytes) := by
  have hset : s.set i (s.pools i) s.metrics = s := by
    unfold StagingState.set
    rw [Function.update_eq_self]
  rw [← metered_set_iff, hset]
  exact h

end share

/-! ## Section 3: Storing next to other pools -/

section put
variable {p : PinbaPool} {m : StagingMetrics} {memory : Realloc} {more : UInt64}
  {element : Bytes} {slots bytes : Nat}

/-- What a caller has who wants to store an element: no room, and everything as before, or a
    free slot at `in`. -/
theorem room_cases (hp : p.Sound) (huse : p.Usable) (helem : p.element_size ≠ 0)
    (hshare : Share m p slots bytes) (hle : slots ≤ bytes)
    (hgranted : p.inPos = p.size → Granted memory p more bytes) :
    make_room memory m p more = some ⟨p, m, false⟩ ∨
      ∃ r m', make_room memory m p more = some ⟨r, m', true⟩ ∧
        Extends p r ∧ p.inPos < r.size ∧ Share m' r slots bytes := by
  unfold make_room
  split <;> rename_i hfull
  · obtain hfail | ⟨r, hr, hroom, hgrow⟩ := grow_cases (m := m) hp huse helem (hgranted hfull)
    · exact Or.inl hfail
    · exact Or.inr ⟨r, _, hgrow, hr.toExtends, hfull ▸ hr.lt, hshare.grow huse hr hle hroom⟩
  · have hlt : p.inPos < p.size := UInt64.lt_of_le_of_ne hp.in_le hfull
    exact Or.inr ⟨p, m, rfl, Extends.refl hp (live_of_lt huse hlt), hlt, hshare⟩

theorem put_element_spec (kept : Bool) (hp : p.Sound) (huse : p.Usable)
    (helem : p.element_size ≠ 0) (hwidth : p.element_size.toNat = element.length)
    (hshare : Share m p slots bytes) (hle : slots ≤ bytes)
    (hgranted : p.inPos = p.size → Granted memory p more bytes) :
    put_element memory m p more element kept = some ⟨p, m, false⟩ ∨
      ∃ q m', put_element memory m p more element kept = some ⟨q, m', true⟩ ∧ q.Sound ∧
        Puts p q element (p.inPos.toNat + if kept then 1 else 0) ∧
        Share m' q slots bytes := by
  obtain hfail | ⟨r, m', hroom, hr, hlt, hshare⟩ :=
    room_cases hp huse helem hshare hle hgranted
  · left
    unfold put_element
    rw [hfail]
    rfl
  · right
    obtain ⟨q, hput, hframe, hsound, hlive, hputs⟩ :=
      put_element_of_room kept hp huse hwidth hroom hr hlt
    refine ⟨q, m', hput, hsound, hputs, hshare.congr ?_ ?_⟩
    · rw [PinbaPool.live_slots_eq (PinbaPool.usable_of_live hlive),
        PinbaPool.live_slots_eq (PinbaPool.usable_of_live hr.live), hframe]
      rfl
    · rw [PinbaPool.live_bytes_eq (PinbaPool.usable_of_live hlive),
        PinbaPool.live_bytes_eq (PinbaPool.usable_of_live hr.live), hframe]
      rfl

end put

/-! ## Section 4: All operations -/

section operations
variable {p g : PinbaPool} {m : StagingMetrics} {op : Operation} {memory : Realloc} {more : UInt64}
  {slots bytes : Nat}

theorem new_pool_sound (size element_size limit_size grow_size : UInt64) (pool_name : Bytes) :
    (new_pool size element_size limit_size grow_size pool_name).Sound :=
  ⟨⟨UInt64.le_refl _, fun _ => UInt64.zero_le⟩, rfl, Pointer.noConfusion, fun _ h => (by cases h),
    by simp [new_pool, PinbaPool.zero], fun h => absurd rfl h⟩

/-- Pools are grown only while they are in use. -/
theorem growth_usable (hp : p.Sound) (hproper : op.Proper p) (h : op.growth p = some (g, more)) :
    g.Sound ∧ g.Usable ∧ g.element_size ≠ 0 := by
  cases op with
  | init size element_size limit_size grow_size pool_name =>
    simp only [Operation.growth] at h
    split at h
    · cases h
    · cases h
      exact ⟨new_pool_sound _ _ _ _ _, fun _ => rfl, hproper.2⟩
  | push grow_size data =>
    simp only [Operation.growth] at h
    split at h
    · cases h
      exact ⟨hp, hproper.1, hproper.2 ▸ by decide⟩
    · cases h
  | grow more =>
    cases h
    exact ⟨hp, hproper⟩
  | stage record staged =>
    simp only [Operation.growth] at h
    split at h
    · cases h
      exact ⟨hp, hproper.1, hproper.2.2⟩
    · cases h
  | reset => cases h
  | destroy => cases h

theorem pinba_pool_init_spec {size element_size limit_size grow_size : UInt64} {pool_name : Bytes}
    (helem : element_size ≠ 0)
    (hgranted : ¬ (0 < limit_size ∧ limit_size < size) →
      Granted memory (new_pool size element_size limit_size grow_size pool_name) size bytes)
    (hshare : Share m (new_pool size element_size limit_size grow_size pool_name) slots bytes)
    (hle : slots ≤ bytes) :
    ∃ q m' success,
      pinba_pool_init memory m size element_size limit_size grow_size pool_name =
        some ⟨q, m', success⟩ ∧ q.Sound ∧ Share m' q slots bytes := by
  have hsound := new_pool_sound size element_size limit_size grow_size pool_name
  have huse : (new_pool size element_size limit_size grow_size pool_name).Usable := fun _ => rfl
  unfold pinba_pool_init
  dsimp only
  split <;> rename_i hlimit
  · exact ⟨_, m, false, rfl, hsound, hshare⟩
  · obtain hfail | ⟨q, hq, hroom, hgrow⟩ := grow_cases (m := m) hsound huse helem (hgranted hlimit)
    · exact ⟨_, m, false, hfail, hsound, hshare⟩
    · exact ⟨q, _, true, hgrow, hq.sound, hshare.grow huse hq hle hroom⟩

/-- One call on a pool, seen from this pool. -/
theorem run_spec (hp : p.Sound) (hproper : op.Proper p)
    (hgranted : ∀ g more, op.growth p = some (g, more) → Granted memory g more bytes)
    (hshare : Share m p slots bytes) (hle : slots ≤ bytes) :
    ∃ q m' success, op.run memory m p = some ⟨q, m', success⟩ ∧ q.Sound ∧
      op.Effect p q success ∧ Share m' q slots bytes := by
  cases op with
  | init size element_size limit_size grow_size pool_name =>
    -- before and after, the pool has no share
    obtain ⟨hnull, helem⟩ := hproper
    have hfresh : Share m (new_pool size element_size limit_size grow_size pool_name) slots bytes := by
      apply hshare.congr
      · rw [PinbaPool.live_slots_null hnull, PinbaPool.live_slots_null rfl]
      · rw [PinbaPool.live_bytes_null hnull, PinbaPool.live_bytes_null rfl]
    obtain ⟨q, m', success, hinit, hq, hshare⟩ :=
      pinba_pool_init_spec helem (fun hlimit => hgranted _ _ (if_neg hlimit)) hfresh hle
    exact ⟨q, m', success, hinit, hq, trivial, hshare⟩
  | push grow_size data =>
    -- a push grows the pool only if it is full
    have hgrowth : p.inPos = p.size →
        Operation.growth p (.push grow_size data) = some (p, grow_size) := fun hfull => if_pos hfull
    have hwidth : p.element_size.toNat = (List.ofFn data).length := by
      rw [hproper.2, List.length_ofFn]
      rfl
    obtain hfail | ⟨q, m', hput, hq, hputs, hshare⟩ :=
      put_element_spec true hp hproper.1 (hproper.2 ▸ by decide) hwidth hshare hle
        fun hfull => hgranted _ _ (hgrowth hfull)
    · exact ⟨p, m, false, hfail, hp, rfl, hshare⟩
    · exact ⟨q, m', true, hput, hq, hputs, hshare⟩
  | grow more =>
    obtain hfail | ⟨q, hq, hroom, hgrow⟩ :=
      grow_cases (m := m) hp hproper.1 hproper.2 (hgranted _ _ rfl)
    · exact ⟨p, m, false, hfail, hp, rfl, hshare⟩
    · refine ⟨q, _, true, hgrow, hq.sound, ⟨by rw [hq.frame], fun k hk => ?_⟩,
        hshare.grow hproper.1 hq hle hroom⟩
      have hsize := hk.trans_le (UInt64.le_iff_toNat_le.mp hp.in_le)
      obtain ⟨old, hold⟩ := exists_slot hp hproper.1 hsize
      exact ⟨old, hold, (hq.kept k hsize).trans hold⟩
  | stage record staged =>
    have hgrowth : p.inPos = p.size → Operation.growth p (.stage record staged) = some (p, 0) :=
      fun hfull => if_pos hfull
    obtain hfail | ⟨q, m', hput, hq, hputs, hshare⟩ :=
      put_element_spec staged hp hproper.1 hproper.2.2 hproper.2.1 hshare hle
        fun hfull => hgranted _ _ (hgrowth hfull)
    · exact ⟨p, m, false, hfail, hp, rfl, hshare⟩
    · exact ⟨q, m', true, hput, hq, hputs, hshare⟩
  | reset =>
    refine ⟨_, m, true, rfl, ⟨⟨UInt64.zero_le, hp.size_le⟩, rfl, hp.not_freed, hp.block_size,
      hp.bytes_lt, hp.element_pos⟩, trivial, hshare.congr rfl rfl⟩
  | destroy =>
    cases hdata : p.data with
    | null =>
      refine ⟨p, m, true, ?_, hp, trivial, hshare⟩
      unfold Operation.run pinba_pool_destroy
      rw [hdata]
    | freed => exact absurd hdata hp.not_freed
    | block block =>
      obtain ⟨m', hrun, hshare⟩ := hshare.destroy hdata
      exact ⟨_, m', true, hrun, ⟨⟨hp.in_le, hp.size_le⟩, hp.out_eq, Pointer.noConfusion,
        fun _ h => (by cases h), hp.bytes_lt, fun h => absurd rfl h⟩, trivial, hshare⟩

/-- New slots are zeroed if the growth fits. -/
theorem zeroes_of_granted (hp : p.Sound) (hproper : op.Proper p)
    (hgranted : ∀ g more, op.growth p = some (g, more) → Granted memory g more bytes) :
    op.Zeroes memory m p := by
  intro g more hgrowth after hafter hsuccess k hlow hhigh
  obtain ⟨hg, huse, helem⟩ := growth_usable hp hproper hgrowth
  obtain hfail | ⟨q, hq, -, hgrow⟩ := grow_cases (m := m) hg huse helem (hgranted g more hgrowth)
  · rw [hfail] at hafter
    cases hafter
    cases hsuccess
  · rw [hgrow] at hafter
    cases hafter
    exact hq.zeroed k hlow hhigh

/-- An operation that grows a pool ends only if the growth does, and fails with it. -/
theorem grow_of_run {after : Outcome} (hgrowth : op.growth p = some (g, more))
    (hrun : op.run memory m p = some after) :
    ∃ grown, pinba_pool_grow memory m g more = some grown ∧
      (grown.success = false → after = grown) := by
  -- both ways of storing an element
  have hput : ∀ {element : Bytes} {kept : Bool}, p.inPos = p.size →
      put_element memory m p more element kept = some after →
      ∃ grown, pinba_pool_grow memory m p more = some grown ∧
        (grown.success = false → after = grown) := by
    intro element kept hfull hafter
    unfold put_element make_room at hafter
    rw [if_pos hfull] at hafter
    obtain ⟨grown, hgrown, hafter⟩ := Option.bind_eq_some_iff.mp hafter
    refine ⟨grown, hgrown, fun hfail => ?_⟩
    rw [hfail] at hafter
    cases hafter
    rfl
  cases op with
  | init size element_size limit_size grow_size pool_name =>
    simp only [Operation.growth] at hgrowth
    split at hgrowth <;> rename_i hlimit
    · cases hgrowth
    · cases hgrowth
      refine ⟨after, ?_, fun _ => rfl⟩
      rw [← hrun]
      exact (if_neg hlimit).symm
  | push grow_size data =>
    simp only [Operation.growth] at hgrowth
    split at hgrowth <;> rename_i hfull
    · cases hgrowth
      exact hput hfull hrun
    · cases hgrowth
  | grow more =>
    cases hgrowth
    exact ⟨after, hrun, fun _ => rfl⟩
  | stage record staged =>
    simp only [Operation.growth] at hgrowth
    split at hgrowth <;> rename_i hfull
    · cases hgrowth
      exact hput hfull hrun
    · cases hgrowth
  | reset => cases hgrowth
  | destroy => cases hgrowth

/-- A growth that does not fit either ends with a freed block or lacks its last slot. -/
theorem fits_of_effect {after : Outcome} (hp : p.Sound) (hproper : op.Proper p)
    (hlive : ∀ g more, op.growth p = some (g, more) → memory = .frees → g.data ≠ .null)
    (hrun : op.run memory m p = some after) (heffect : op.Effect p after.pool after.success)
    (hzeroes : op.Zeroes memory m p) : op.Fits memory p := by
  intro g more hgrowth
  by_contra hunfit
  unfold PinbaPool.GrowthFits at hunfit
  rw [not_or, not_or, Nat.not_le, Nat.not_lt] at hunfit
  obtain ⟨hmemory, hwanted, hlarge⟩ := hunfit
  obtain ⟨hg, huse, helem⟩ := growth_usable hp hproper hgrowth
  -- a pool in use is smaller than what does not fit
  rw [← PinbaPool.toNat_new_size hwanted] at hlarge
  have hlt : g.size.toNat < (pinba_pool_new_size g more).toNat := by
    by_contra hge
    have hbytes := hg.bytes_lt
    have hmono := Nat.mul_le_mul_right g.element_size.toNat (Nat.not_lt.mp hge)
    omega
  obtain ⟨grown, hgrow, hfail⟩ := grow_of_run hgrowth hrun
  cases memory with
  | fails => exact hmemory rfl
  | frees =>
    -- the caller is told that nothing happened, but the block is gone
    rw [grow_frees hg.not_freed (UInt64.lt_iff_toNat_lt.mpr hlt)] at hgrow
    cases hgrow
    rw [hfail rfl] at heffect
    have hlive := hlive g more hgrowth rfl
    cases op with
    | init size element_size limit_size grow_size pool_name =>
      -- there is no block to be freed yet
      simp only [Operation.growth] at hgrowth
      split at hgrowth
      · cases hgrowth
      · cases hgrowth
        exact hlive rfl
    | push grow_size data => exact hp.not_freed (congrArg PinbaPool.data heffect).symm
    | grow more => exact hp.not_freed (congrArg PinbaPool.data heffect).symm
    | stage record staged => exact hp.not_freed (congrArg PinbaPool.data heffect).symm
    | reset => cases hgrowth
    | destroy => cases hgrowth
  | returns junk =>
    -- the last slot would have to be there, and zero
    have hnew := hzeroes g more hgrowth grown hgrow
    rw [grow_returns hg.not_freed hg.out_eq (UInt64.lt_iff_toNat_lt.mpr hlt)] at hgrow
    obtain ⟨bytes, hbytes, rfl⟩ := Option.map_eq_some_iff.mp hgrow
    have hlast : (pinba_pool_new_size g more).toNat * g.element_size.toNat ≤ bytes.length :=
      Block.le_of_slot (Nat.zero_lt_of_lt hlt) (hnew rfl _ (Nat.le_sub_one_of_lt hlt)
        (Nat.sub_lt (Nat.zero_lt_of_lt hlt) Nat.one_pos))
    -- the block has what is left of the product
    have hlength : bytes.length = (pinba_pool_new_size g more * g.element_size).toNat := by
      rw [Block.length_fill hbytes, Block.length_resize]
    have hword := (pinba_pool_new_size g more * g.element_size).toNat_lt
    omega

end operations

/-! ## Section 5: All pools -/

section pools
variable {ι : Type*} [Fintype ι] [DecidableEq ι] {s s' : StagingState ι} {c : Call ι}

/-- The invariant of a run. -/
structure Steady (s : StagingState ι) : Prop where
  sound : ∀ i, (s.pools i).Sound
  metered : Metered s

omit [DecidableEq ι] in
theorem steady_initial : Steady (StagingState.initial : StagingState ι) := by
  refine ⟨fun _ => new_pool_sound 0 0 0 0 [], ?_, ?_⟩
  · rw [Finset.sum_eq_zero fun i _ => PinbaPool.live_slots_null rfl]
    rfl
  · rw [Finset.sum_eq_zero fun i _ => PinbaPool.live_bytes_null rfl]
    rfl

/-- The metric of the other pools is at most what they have allocated. -/
theorem granted_of_allowed (hs : Steady s) (hc : Allowed s c) (hfits : c.Fits s) {g : PinbaPool}
    {more : UInt64} (hgrowth : c.op.growth (s.pools c.pool) = some (g, more)) :
    Granted c.memory g more (∑ i ∈ Finset.univ.erase c.pool, (s.pools i).live_bytes) := by
  have hanswer := hc.answers g more hgrowth
  refine ⟨hfits g more hgrowth, fun hmemory => ?_, fun junk hmemory => ?_⟩
  · rw [hmemory] at hanswer
    exact hanswer.2
  · rw [hmemory] at hanswer
    have hle : ∑ i ∈ Finset.univ.erase c.pool, (s.pools i).live_bytes ≤
        ∑ i ∈ Finset.univ.erase c.pool, (s.pools i).data.bytes.length :=
      Finset.sum_le_sum fun i _ => (hs.sound i).live_bytes_le
    exact (Nat.add_le_add_left hle _).trans_lt hanswer

/-- A call whose growth fits. -/
theorem step_spec (hs : Steady s) (hc : Allowed s c) (hfits : c.Fits s) :
    ∃ s' success, step s c = some (s', success) ∧ Steady s' ∧
      c.op.Effect (s.pools c.pool) (s'.pools c.pool) success := by
  have hle : ∑ i ∈ Finset.univ.erase c.pool, (s.pools i).live_slots ≤
      ∑ i ∈ Finset.univ.erase c.pool, (s.pools i).live_bytes :=
    Finset.sum_le_sum fun i _ => (hs.sound i).live_slots_le
  obtain ⟨q, m', success, hrun, hq, heffect, hshare⟩ :=
    run_spec (hs.sound c.pool) hc.proper (fun _ _ => granted_of_allowed hs hc hfits)
      (hs.metered.share c.pool) hle
  refine ⟨s.set c.pool q m', success, ?_, ⟨fun i => ?_, metered_set_iff.mpr hshare⟩, ?_⟩
  · unfold step
    rw [hrun]
    rfl
  · by_cases hi : i = c.pool
    · subst hi
      rwa [s.set_self]
    · rw [s.set_ne q m' hi]
      exact hs.sound i
  · rwa [s.set_self]

theorem steady_of_run (h : Run s) : Steady s := by
  induction h with
  | start => exact steady_initial
  | call h hc hfits hstep ih =>
    obtain ⟨s', success, hstep', hs', -⟩ := step_spec ih hc hfits
    rw [hstep] at hstep'
    cases hstep'
    exact hs'

theorem correct_iff_fits (hs : Steady s) (hc : Allowed s c) : Correct s c ↔ c.Fits s := by
  constructor
  · rintro ⟨s', success, hstep, -, -, heffect, hzeroes⟩
    -- from the state back to the one pool
    obtain ⟨after, hrun, hafter⟩ := Option.map_eq_some_iff.mp hstep
    cases hafter
    refine fits_of_effect (hs.sound c.pool) hc.proper (fun g more hgrowth hmemory => ?_) hrun ?_ hzeroes
    · have hanswer := hc.answers g more hgrowth
      rw [hmemory] at hanswer
      exact hanswer.1
    · rwa [s.set_self] at heffect
  · intro hfits
    obtain ⟨s', success, hstep, hs', heffect⟩ := step_spec hs hc hfits
    exact ⟨s', success, hstep, fun i => (hs'.sound i).toBounded, hs'.metered, heffect,
      zeroes_of_granted (hs.sound c.pool) hc.proper fun _ _ => granted_of_allowed hs hc hfits⟩

/-- In every run the pools stay inside of their sizes and limits and the metrics are their sums,
    and the next call is correct if and only if its growth stays below `2 ^ 64` bytes. -/
theorem staging_pools_of_run (h : Run s) :
    (∀ i, (s.pools i).Bounded) ∧ Metered s ∧ ∀ c, Allowed s c → (Correct s c ↔ c.Fits s) :=
  have hs := steady_of_run h
  ⟨fun i => (hs.sound i).toBounded, hs.metered, fun _ hc => correct_iff_fits hs hc⟩

end pools

/-- A pool of one slot, and that is taken. -/
def full_pool : PinbaPool :=
  { size := 1, limit_size := 0, grow_size := 1, element_size := 8, inPos := 1, outPos := 0
    name := ascii "per_thread_request_pool[0][0]"
    data := .block (List.replicate 8 0) }

def full_state : StagingState Unit := StagingState.initial.set () full_pool ⟨1, 8⟩

def push_call (grow_size : UInt64) : Call Unit := ⟨(), .push grow_size fun _ => 0, .returns fun _ => 0⟩

theorem run_full_state : Run full_state := by
  have hinit : Run (StagingState.initial.set () { full_pool with inPos := 0 } ⟨1, 8⟩) := by
    have hcall : Allowed StagingState.initial (⟨(), .init 1 8 0 0 full_pool.name,
        .returns fun _ => 0⟩ : Call Unit) := by
      refine ⟨⟨rfl, by decide⟩, fun g more hgrowth => ?_⟩
      cases hgrowth
      show 8 + ∑ i ∈ Finset.univ.erase (), (StagingState.initial.pools i).data.bytes.length < 2 ^ 64
      decide
    refine Run.call .start hcall (fun g more hgrowth => ?_) rfl
    cases hgrowth
    exact Or.inr (Or.inr (by decide))
  have hcall : Allowed (StagingState.initial.set () { full_pool with inPos := 0 } ⟨1, 8⟩)
      (push_call 0) := by
    refine ⟨⟨Pointer.noConfusion, rfl⟩, fun g more hgrowth => ?_⟩
    cases hgrowth
  refine Run.call hinit hcall (fun g more hgrowth => ?_) rfl
  cases hgrowth

theorem staging_pools_of_run_full :
    Metered full_state ∧ Correct full_state (push_call 1) := by
  obtain ⟨-, hmetered, hcorrect⟩ := staging_pools_of_run run_full_state
  have hcall : Allowed full_state (push_call 1) := by
    refine ⟨⟨Pointer.noConfusion, rfl⟩, fun g more hgrowth => ?_⟩
    cases hgrowth
    show 16 + ∑ i ∈ Finset.univ.erase (), (full_state.pools i).data.bytes.length < 2 ^ 64
    decide
  refine ⟨hmetered, (hcorrect _ hcall).mpr fun g more hgrowth => ?_⟩
  cases hgrowth
  exact Or.inr (Or.inr (by decide))

/-- A growth by `2 ^ 61` slots of eight bytes asks for the eight bytes that are there already.
    The pool believes to have grown, and the push writes behind its block. -/
theorem push_leaves_block :
    Run full_state ∧ Allowed full_state (push_call 0x2000000000000000) ∧
      ¬ Correct full_state (push_call 0x2000000000000000) := by
  refine ⟨run_full_state, ⟨⟨Pointer.noConfusion, rfl⟩, fun g more hgrowth => ?_⟩, ?_⟩
  · cases hgrowth
    show 8 + ∑ i ∈ Finset.univ.erase (), (full_state.pools i).data.bytes.length < 2 ^ 64
    decide
  · rintro ⟨s', success, hstep, -⟩
    have hnone : step full_state (push_call 0x2000000000000000) = none := rfl
    rw [hnone] at hstep
    cases hstep

end Staging

end PinbaEngine
