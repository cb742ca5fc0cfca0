import Mathlib.Tactic.Linarith
import PinbaEngine.Lib.Accumulator
import PinbaEngine.Lib.KeyedStore

/-! # Grouped summaries of a sliding window

    A table groups the samples of a window of entries by key and keeps one
    row per key. Entries enter at the back and leave at the front.

    - `CountRow` is for entries that contribute at most one sample: the row
      counts its samples.
    - `SlotRow` is for entries that contribute several samples. The row counts
      distinct entries, not samples, and recognises an entry by the slot number
      it occupies: the number is compared with the slot that was counted last,
      once for arrivals and once for departures.

    Slot numbers are reused as the window moves, so a single remembered number
    cannot identify an entry by itself. What makes it work is the order: the
    last arrival counted in a row is always the row's youngest holder, and the
    last departure counted is never its oldest one. `RowFor` states exactly
    that, and the step lemmas show that both survive every sample.
-/

variable {K X A S : Type*}

/-! ## Section 1: Rows that count samples -/

/-- A row that counts its samples. -/
structure CountRow (A : Type*) where
  members : Int
  acc : A

namespace CountRow

variable (acc : Accumulator X A)

/-- Account for one more sample; a missing row starts from zero. -/
def insert (x : X) (o : Option (CountRow A)) : CountRow A :=
  let d := o.getD ⟨0, acc.zero⟩
  { members := d.members + 1, acc := acc.add x d.acc }

/-- Take one sample out; the row goes with its last sample. -/
def remove (x : X) (d : CountRow A) : Option (CountRow A) :=
  if d.members - 1 = 0 then none
  else some { members := d.members - 1, acc := acc.sub x d.acc }

/-- The row of a group with samples `m`: absent exactly when there are none. -/
def RowFor (o : Option (CountRow A)) (m : Multiset X) : Prop :=
  match o with
  | none => m = 0
  | some d => m ≠ 0 ∧ d.members = m.card ∧ acc.Rep d.acc m

variable {acc} {x : X} {o : Option (CountRow A)} {m : Multiset X}

theorem rowFor_insert (h : RowFor acc o m) : RowFor acc (some (insert acc x o)) (x ::ₘ m) := by
  refine ⟨Multiset.cons_ne_zero, ?_, ?_⟩
  · cases o with
    | none => simp [insert, show m = 0 from h]
    | some d => simp [insert, h.2.1]
  · cases o with
    | none =>
      rw [show m = 0 from h]
      exact acc.rep_add x acc.zero 0 acc.rep_zero
    | some d => exact acc.rep_add x d.acc m h.2.2

theorem rowFor_remove {d : CountRow A} (h : RowFor acc (some d) (x ::ₘ m)) :
    RowFor acc (remove acc x d) m := by
  obtain ⟨_, hc, hr⟩ := h
  rw [Multiset.card_cons] at hc
  unfold remove
  by_cases h1 : d.members - 1 = 0
  · rw [if_pos h1]
    show m = 0
    exact Multiset.card_eq_zero.mp (by omega)
  · rw [if_neg h1]
    refine ⟨?_, ?_, acc.rep_sub x d.acc m hr⟩
    · rintro rfl
      simp only [Multiset.card_zero] at hc
      omega
    · show d.members - 1 = m.card
      omega

end CountRow

/-! ## Section 2: Rows that count slots -/

/-- A row that counts the distinct slots it has samples from. -/
structure SlotRow (A : Type*) where
  members : Int
  /-- The slot counted by the last arrival. -/
  lastAdd : Int
  /-- The slot counted by the last departure, `-1` if there was none. -/
  lastDel : Int
  acc : A

namespace SlotRow

variable (acc : Accumulator X A)

/-- Account for one more sample of the entry in `slot`. -/
def insert (slot : Int) (x : X) (o : Option (SlotRow A)) : SlotRow A :=
  let d := match o with
    | none => { members := 1, lastAdd := slot, lastDel := -1, acc := acc.single x }
    | some d => { d with acc := acc.add x d.acc }
  if slot ≠ d.lastAdd then { d with members := d.members + 1, lastAdd := slot } else d

/-- Take out one sample of the entry in `slot`. -/
def remove (slot : Int) (x : X) (d : SlotRow A) : Option (SlotRow A) :=
  let d := if slot ≠ d.lastDel then { d with members := d.members - 1, lastDel := slot } else d
  if d.members = 0 then none else some { d with acc := acc.sub x d.acc }

/-- The row of a group that is held by the slots `hs`, oldest first, with
    samples `m`. -/
def RowFor (o : Option (SlotRow A)) (hs : List Nat) (m : Multiset X) : Prop :=
  match o with
  | none => hs = []
  | some d =>
    hs ≠ [] ∧ d.members = hs.length ∧ acc.Rep d.acc m ∧
    hs.getLast?.map Int.ofNat = some d.lastAdd ∧
    hs.head?.map Int.ofNat ≠ some d.lastDel

variable {acc} {x : X} {s : Nat} {o : Option (SlotRow A)} {hs : List Nat} {m : Multiset X}

/-- A row that survives has lost the sample. -/
theorem acc_of_remove {slot : Int} {d d' : SlotRow A} (h : remove acc slot x d = some d') :
    d'.acc = acc.sub x d.acc := by
  unfold remove at h
  split at h
  all_goals
    simp only at h
    split at h
    · exact absurd h (by simp)
    · rw [← Option.some.inj h]

/-- First sample of a new entry in this row. -/
theorem rowFor_insert_new (hs0 : hs = [] → m = 0) (hfresh : s ∉ hs) (h : RowFor acc o hs m) :
    RowFor acc (some (insert acc s x o)) (hs ++ [s]) (x ::ₘ m) := by
  cases o with
  | none =>
    obtain rfl : hs = [] := h
    rw [hs0 rfl]
    refine ⟨by simp, by simp [insert], ?_, by simp [insert], by simp [insert]⟩
    simpa [insert] using acc.rep_single x
  | some d =>
    obtain ⟨hne, hc, hr, hl, hd⟩ := h
    -- the youngest holder is another entry, so the slot comparison succeeds
    have hslot : (s : Int) ≠ d.lastAdd := by
      intro heq
      obtain ⟨t, ht, htd⟩ := Option.map_eq_some_iff.mp hl
      have : t = s := Int.ofNat.inj (htd.trans heq.symm)
      exact hfresh (this ▸ List.mem_of_getLast? ht)
    have hrow : insert acc s x (some d) =
        { d with members := d.members + 1, lastAdd := s, acc := acc.add x d.acc } := by
      simp [insert, hslot]
    rw [hrow]
    refine ⟨by simp, ?_, acc.rep_add x d.acc m hr, ?_, ?_⟩
    · simp [hc]
    · simp
    · rwa [List.head?_append_of_ne_nil _ hne]

/-- A further sample of the entry that arrived last. -/
theorem rowFor_insert_again (h : RowFor acc o (hs ++ [s]) m) :
    RowFor acc (some (insert acc s x o)) (hs ++ [s]) (x ::ₘ m) := by
  cases o with
  | none => exact absurd h (by simp [RowFor])
  | some d =>
    obtain ⟨hne, hc, hr, hl, hd⟩ := h
    have hslot : (s : Int) = d.lastAdd := by simpa using hl
    have hrow : insert acc s x (some d) = { d with acc := acc.add x d.acc } := by
      simp [insert, hslot]
    rw [hrow]
    exact ⟨hne, hc, acc.rep_add x d.acc m hr, hl, hd⟩

/-- A row while the samples of its oldest entry, in slot `s`, are being taken
    out one by one: `s` has been counted as gone already, `hs` are the
    remaining holders and `m` the remaining samples, those of `s` included. -/
def RowLeaving (acc : Accumulator X A) (s : Nat) (o : Option (SlotRow A)) (hs : List Nat)
    (m : Multiset X) : Prop :=
  match o with
  | none => hs = []
  | some d =>
    hs ≠ [] ∧ d.members = hs.length ∧ acc.Rep d.acc m ∧
    hs.getLast?.map Int.ofNat = some d.lastAdd ∧ d.lastDel = s

/-- The first sample of the oldest entry that leaves. -/
theorem rowLeaving_of_rowFor {d : SlotRow A} (h : RowFor acc (some d) (s :: hs) (x ::ₘ m)) :
    RowLeaving acc s (remove acc s x d) hs m := by
  obtain ⟨_, hc, hr, hl, hd⟩ := h
  have hslot : (s : Int) ≠ d.lastDel := by simpa using hd
  rw [List.length_cons] at hc
  unfold remove
  simp only [ne_eq, hslot, not_false_eq_true, if_true]
  by_cases h0 : d.members - 1 = 0
  · rw [if_pos h0]
    show hs = []
    exact List.eq_nil_of_length_eq_zero (by omega)
  · rw [if_neg h0]
    have hne : hs ≠ [] := by
      rintro rfl
      simp only [List.length_nil] at hc
      omega
    refine ⟨hne, ?_, acc.rep_sub x d.acc m hr, ?_, rfl⟩
    · show d.members - 1 = hs.length
      omega
    · rwa [List.getLast?_cons_of_ne_nil hne] at hl

/-- A further sample of the entry that is leaving. -/
theorem rowLeaving_remove {d : SlotRow A} (h : RowLeaving acc s (some d) hs (x ::ₘ m)) :
    RowLeaving acc s (remove acc s x d) hs m := by
  obtain ⟨hne, hc, hr, hl, hd⟩ := h
  have hpos := List.length_pos_of_ne_nil hne
  have h0 : d.members ≠ 0 := by omega
  unfold remove
  simp only [ne_eq, hd, not_true_eq_false, if_false, h0]
  exact ⟨hne, hc, acc.rep_sub x d.acc m hr, hl, rfl⟩

/-- Once all its samples are gone, the row describes the other entries. -/
theorem rowFor_of_rowLeaving (hfresh : s ∉ hs) (h : RowLeaving acc s o hs m) :
    RowFor acc o hs m := by
  cases o with
  | none => exact h
  | some d =>
    obtain ⟨hne, hc, hr, hl, hd⟩ := h
    refine ⟨hne, hc, hr, hl, ?_⟩
    rw [hd]
    intro heq
    obtain ⟨t, ht, hts⟩ := Option.map_eq_some_iff.mp heq
    have : t = s := Int.ofNat.inj hts
    exact hfresh (this ▸ List.mem_of_head? ht)

end SlotRow

/-! ## Section 3: Tables

    A table is a store of rows together with a running count of its rows. -/

/-- Rows by key and their number, as the operations keep it. -/
structure Table (S : Type*) where
  rows : S
  rowCount : Int

namespace Table

section slots
variable (st : KeyedStore K (SlotRow A) S) (acc : Accumulator X A)

/-- Insert one keyed sample of the entry in `slot`. -/
def insertSample (slot : Nat) (t : Table S) (e : K × X) : Table S :=
  let o := st.get t.rows e.1
  { rows := st.set t.rows e.1 (SlotRow.insert acc slot e.2 o)
    rowCount := if o.isNone then t.rowCount + 1 else t.rowCount }

/-- Remove one keyed sample of the entry in `slot`; a missing row is skipped. -/
def removeSample (slot : Nat) (t : Table S) (e : K × X) : Table S :=
  match st.get t.rows e.1 with
  | none => t
  | some d =>
    match SlotRow.remove acc slot e.2 d with
    | none => { rows := st.del t.rows e.1, rowCount := t.rowCount - 1 }
    | some d' => { t with rows := st.set t.rows e.1 d' }

/-! ### What one operation changes -/

variable {st acc} {slot : Nat} {t : Table S} {e : K × X} {k : K}

theorem get_insertSample_self :
    st.get (insertSample st acc slot t e).rows e.1 =
      some (SlotRow.insert acc slot e.2 (st.get t.rows e.1)) :=
  st.get_set_self _ _ _

theorem get_insertSample_ne (h : k ≠ e.1) :
    st.get (insertSample st acc slot t e).rows k = st.get t.rows k :=
  st.get_set_ne _ _ _ _ h

theorem rowCount_insertSample (h : t.rowCount = st.size t.rows) :
    (insertSample st acc slot t e).rowCount = st.size (insertSample st acc slot t e).rows := by
  unfold insertSample
  cases ho : st.get t.rows e.1 with
  | none => simp [st.size_set_new _ _ _ ho, h]
  | some d => simp [st.size_set_old _ _ _ _ ho, h]

theorem get_removeSample_self :
    st.get (removeSample st acc slot t e).rows e.1 =
      (st.get t.rows e.1).bind (SlotRow.remove acc slot e.2) := by
  unfold removeSample
  cases ho : st.get t.rows e.1 with
  | none => simp [ho]
  | some d =>
    cases hr : SlotRow.remove acc slot e.2 d with
    | none => simp [hr, st.get_del_self]
    | some d' => simp [hr, st.get_set_self]

theorem get_removeSample_ne (h : k ≠ e.1) :
    st.get (removeSample st acc slot t e).rows k = st.get t.rows k := by
  unfold removeSample
  split
  · rfl
  · split
    · exact st.get_del_ne _ _ _ h
    · exact st.get_set_ne _ _ _ _ h

theorem rowCount_removeSample (h : t.rowCount = st.size t.rows) :
    (removeSample st acc slot t e).rowCount = st.size (removeSample st acc slot t e).rows := by
  unfold removeSample
  split
  · exact h
  · next d hd =>
    split
    · have hs := st.size_del _ _ _ hd
      simp only
      omega
    · simp [st.size_set_old _ _ _ _ hd, h]

/-! ### Samples and holders of a window -/

variable [DecidableEq K] {p q : List (K × X)} {w v : List (Nat × List (K × X))}

/-- The samples with key `k` among keyed samples. -/
def samplesOf (k : K) (p : List (K × X)) : Multiset X :=
  ↑((p.filter fun e => e.1 = k).map Prod.snd)

/-- The slots of a window that hold a sample with key `k`, oldest first. -/
def holders (k : K) (w : List (Nat × List (K × X))) : List Nat :=
  (w.filter fun e => k ∈ e.2.map Prod.fst).map Prod.fst

/-- All samples of a window with key `k`. -/
def windowSamples (k : K) (w : List (Nat × List (K × X))) : Multiset X :=
  samplesOf k (w.flatMap Prod.snd)

/-- The table is the exact grouped summary of the window `w`. -/
structure Summarises (st : KeyedStore K (SlotRow A) S) (acc : Accumulator X A) (t : Table S) (w : List (Nat × List (K × X))) : Prop where
  row : ∀ k, SlotRow.RowFor acc (st.get t.rows k) (holders k w) (windowSamples k w)
  count : t.rowCount = st.size t.rows

@[simp] theorem samplesOf_nil : samplesOf k ([] : List (K × X)) = 0 := rfl

@[simp] theorem samplesOf_append : samplesOf k (p ++ q) = samplesOf k p + samplesOf k q := by
  simp [samplesOf]

theorem samplesOf_cons_self : samplesOf e.1 (e :: p) = e.2 ::ₘ samplesOf e.1 p := by
  simp [samplesOf]

theorem samplesOf_cons_ne (h : k ≠ e.1) : samplesOf k (e :: p) = samplesOf k p := by
  simp [samplesOf, List.filter_cons_of_neg, Ne.symm h]

theorem samplesOf_eq_zero : samplesOf k p = 0 ↔ k ∉ p.map Prod.fst := by
  simp only [samplesOf, Multiset.coe_eq_zero, List.map_eq_nil_iff, List.filter_eq_nil_iff,
    List.mem_map, decide_eq_true_eq]
  exact ⟨fun h ⟨a, ha, hk⟩ => h a ha hk, fun h a ha hk => h ⟨a, ha, hk⟩⟩

@[simp] theorem windowSamples_append :
    windowSamples k (w ++ v) = windowSamples k w + windowSamples k v := by
  simp [windowSamples]

@[simp] theorem windowSamples_cons :
    windowSamples k ((slot, p) :: w) = samplesOf k p + windowSamples k w := by
  simp [windowSamples]

@[simp] theorem windowSamples_nil : windowSamples k ([] : List (Nat × List (K × X))) = 0 := rfl

@[simp] theorem holders_nil : holders k ([] : List (Nat × List (K × X))) = [] := rfl

@[simp] theorem holders_append : holders k (w ++ v) = holders k w ++ holders k v := by
  simp [holders]

theorem holders_cons_of_mem (h : k ∈ p.map Prod.fst) :
    holders k ((slot, p) :: w) = slot :: holders k w := by
  unfold holders
  rw [List.filter_cons_of_pos (by simpa using h), List.map_cons]

theorem holders_cons_of_notMem (h : k ∉ p.map Prod.fst) :
    holders k ((slot, p) :: w) = holders k w := by
  unfold holders
  rw [List.filter_cons_of_neg (by simpa using h)]

theorem notMem_holders (h : slot ∉ w.map Prod.fst) : slot ∉ holders k w := by
  intro hmem
  obtain ⟨e, he, rfl⟩ := List.mem_map.mp hmem
  exact h (List.mem_map_of_mem (List.mem_of_mem_filter he))

theorem windowSamples_eq_zero (h : holders k w = []) : windowSamples k w = 0 := by
  induction w with
  | nil => rfl
  | cons e w ih =>
    obtain ⟨slot, p⟩ := e
    by_cases hk : k ∈ p.map Prod.fst
    · rw [holders_cons_of_mem hk] at h
      exact absurd h (List.cons_ne_nil _ _)
    · rw [holders_cons_of_notMem hk] at h
      rw [windowSamples_cons, samplesOf_eq_zero.mpr hk, ih h, add_zero]

/-! ### Arrivals -/

/-- An entry without samples does not show in the table. -/
theorem summarises_idle :
    Summarises st acc t (w ++ (slot, []) :: v) ↔ Summarises st acc t (w ++ v) := by
  have hholders : ∀ k, holders k (w ++ (slot, ([] : List (K × X))) :: v) = holders k (w ++ v) := by
    intro k
    rw [holders_append, holders_append, holders_cons_of_notMem (by simp)]
  have hsamples : ∀ k, windowSamples k (w ++ (slot, ([] : List (K × X))) :: v) =
      windowSamples k (w ++ v) := by
    simp
  constructor
  · intro h
    refine ⟨fun k => ?_, h.count⟩
    rw [← hholders, ← hsamples]
    exact h.row k
  · intro h
    refine ⟨fun k => ?_, h.count⟩
    rw [hholders, hsamples]
    exact h.row k

theorem summarises_insertSample (hfresh : slot ∉ w.map Prod.fst)
    (h : Summarises st acc t (w ++ [(slot, p)])) :
    Summarises st acc (insertSample st acc slot t e) (w ++ [(slot, p ++ [e])]) := by
  refine ⟨fun k => ?_, rowCount_insertSample h.count⟩
  have hk := h.row k
  by_cases hke : k = e.1
  · subst hke
    have hmem : e.1 ∈ (p ++ [e]).map Prod.fst := by simp
    rw [get_insertSample_self]
    simp only [holders_append, windowSamples_append, windowSamples_cons, windowSamples_nil,
      holders_cons_of_mem hmem, holders_nil, samplesOf_append, samplesOf_cons_self,
      samplesOf_nil, add_zero, Multiset.add_cons] at hk ⊢
    by_cases hp : e.1 ∈ p.map Prod.fst
    · -- the entry already holds this row
      rw [holders_cons_of_mem hp, holders_nil] at hk
      simpa [add_assoc] using SlotRow.rowFor_insert_again (x := e.2) hk
    · rw [holders_cons_of_notMem hp, holders_nil, List.append_nil] at hk
      have h0 : holders e.1 w = [] → windowSamples e.1 w + samplesOf e.1 p = 0 := by
        intro hw
        rw [windowSamples_eq_zero hw, samplesOf_eq_zero.mpr hp, add_zero]
      simpa [add_assoc] using SlotRow.rowFor_insert_new (x := e.2) h0 (notMem_holders hfresh) hk
  · rw [get_insertSample_ne hke]
    have hmem : k ∈ (p ++ [e]).map Prod.fst ↔ k ∈ p.map Prod.fst := by simp [hke]
    by_cases hp : k ∈ p.map Prod.fst
    · simpa [holders_cons_of_mem hp, holders_cons_of_mem (hmem.mpr hp),
        samplesOf_cons_ne hke] using hk
    · simpa [holders_cons_of_notMem hp, holders_cons_of_notMem (mt hmem.mp hp),
        samplesOf_cons_ne hke] using hk

/-- Inserting all samples of a new entry extends the window at the back. -/
theorem summarises_insertAll (hfresh : slot ∉ w.map Prod.fst) (h : Summarises st acc t w) :
    Summarises st acc (p.foldl (insertSample st acc slot) t) (w ++ [(slot, p)]) := by
  induction p using List.reverseRecOn with
  | nil => exact summarises_idle.mpr (by simpa using h)
  | append_singleton p e ih =>
    rw [List.foldl_append]
    exact summarises_insertSample hfresh ih

/-! ### Departures -/

/-- The table while the oldest entry, in slot `slot`, is leaving: its samples
    `p` are out, its samples `q` are still in. -/
structure Leaving (st : KeyedStore K (SlotRow A) S) (acc : Accumulator X A) (slot : Nat)
    (t : Table S) (p q : List (K × X)) (w : List (Nat × List (K × X))) : Prop where
  touched : ∀ k ∈ p.map Prod.fst,
    SlotRow.RowLeaving acc slot (st.get t.rows k) (holders k w)
      (samplesOf k q + windowSamples k w)
  untouched : ∀ k ∉ p.map Prod.fst,
    SlotRow.RowFor acc (st.get t.rows k) (holders k ((slot, q) :: w))
      (windowSamples k ((slot, q) :: w))
  count : t.rowCount = st.size t.rows

theorem leaving_removeSample (h : Leaving st acc slot t p (e :: q) w) :
    Leaving st acc slot (removeSample st acc slot t e) (p ++ [e]) q w := by
  -- the row of `e` is in both cases about to lose the sample `e.2`
  have hself : SlotRow.RowLeaving acc slot
      (st.get (removeSample st acc slot t e).rows e.1) (holders e.1 w)
      (samplesOf e.1 q + windowSamples e.1 w) := by
    rw [get_removeSample_self]
    by_cases hp : e.1 ∈ p.map Prod.fst
    · have hrow := h.touched e.1 hp
      rw [samplesOf_cons_self, Multiset.cons_add] at hrow
      cases ho : st.get t.rows e.1 with
      | none => rwa [ho] at hrow
      | some d =>
        rw [ho] at hrow
        exact SlotRow.rowLeaving_remove hrow
    · have hrow := h.untouched e.1 hp
      rw [holders_cons_of_mem (by simp), windowSamples_cons, samplesOf_cons_self,
        Multiset.cons_add] at hrow
      cases ho : st.get t.rows e.1 with
      | none =>
        rw [ho] at hrow
        exact absurd hrow (List.cons_ne_nil _ _)
      | some d =>
        rw [ho] at hrow
        exact SlotRow.rowLeaving_of_rowFor hrow
  refine ⟨fun k hk => ?_, fun k hk => ?_, rowCount_removeSample h.count⟩
  · by_cases hke : k = e.1
    · rw [hke]
      exact hself
    · have hp : k ∈ p.map Prod.fst := by simpa [hke] using hk
      rw [get_removeSample_ne hke]
      simpa [samplesOf_cons_ne hke] using h.touched k hp
  · have hke : k ≠ e.1 := by rintro rfl; simp at hk
    have hp : k ∉ p.map Prod.fst := by simpa [hke] using hk
    have hrow := h.untouched k hp
    rw [get_removeSample_ne hke]
    have hmem : k ∈ (e :: q).map Prod.fst ↔ k ∈ q.map Prod.fst := by simp [hke]
    by_cases hq : k ∈ q.map Prod.fst
    · simpa [holders_cons_of_mem hq, holders_cons_of_mem (hmem.mpr hq),
        samplesOf_cons_ne hke] using hrow
    · simpa [holders_cons_of_notMem hq, holders_cons_of_notMem (mt hmem.mp hq),
        samplesOf_cons_ne hke] using hrow

theorem leaving_removeAll (h : Leaving st acc slot t p q w) :
    Leaving st acc slot (q.foldl (removeSample st acc slot) t) (p ++ q) [] w := by
  induction q generalizing t p with
  | nil => simpa using h
  | cons e q ih => simpa using ih (leaving_removeSample h)

/-- Removing all samples of the oldest entry shortens the window at the front. -/
theorem summarises_removeAll (hfresh : slot ∉ w.map Prod.fst)
    (h : Summarises st acc t ((slot, p) :: w)) :
    Summarises st acc (p.foldl (removeSample st acc slot) t) w := by
  have hstart : Leaving st acc slot t [] p w :=
    ⟨fun k hk => absurd hk (by simp), fun k _ => h.row k, h.count⟩
  have hend := leaving_removeAll hstart
  rw [List.nil_append] at hend
  refine ⟨fun k => ?_, hend.count⟩
  by_cases hp : k ∈ p.map Prod.fst
  · have hrow := hend.touched k hp
    rw [samplesOf_nil, zero_add] at hrow
    exact SlotRow.rowFor_of_rowLeaving (notMem_holders hfresh) hrow
  · simpa [holders_cons_of_notMem] using hend.untouched k hp

/-- The table of an empty window has no rows. -/
theorem get_of_nil (h : Summarises st acc t []) (k : K) : st.get t.rows k = none := by
  have hrow := h.row k
  cases ho : st.get t.rows k with
  | none => rfl
  | some d =>
    rw [ho] at hrow
    exact absurd rfl hrow.1

theorem count_of_nil (h : Summarises st acc t []) : t.rowCount = 0 := by
  rw [h.count, st.size_eq_zero t.rows (get_of_nil h), Nat.cast_zero]

theorem removeSample_of_nil (h : Summarises st acc t []) :
    removeSample st acc slot t e = t := by
  unfold removeSample
  rw [get_of_nil h]

/-- A key of the oldest entry has a row. -/
theorem get_of_mem (h : Summarises st acc t ((slot, p) :: w)) (hk : k ∈ p.map Prod.fst) :
    st.get t.rows k ≠ none := by
  have hrow := h.row k
  rw [holders_cons_of_mem hk] at hrow
  intro ho
  rw [ho] at hrow
  exact absurd hrow (List.cons_ne_nil _ _)

theorem summarises_empty : Summarises st acc ⟨st.empty, 0⟩ ([] : List (Nat × List (K × X))) := by
  refine ⟨fun k => ?_, ?_⟩
  · rw [st.get_empty]
    rfl
  · rw [st.size_empty]
    rfl

end slots

/-! ### Tables of counting rows -/

section counts
variable (st : KeyedStore K (CountRow A) S) (acc : Accumulator X A)

/-- Insert one keyed sample. -/
def insertOne (t : Table S) (e : K × X) : Table S :=
  let o := st.get t.rows e.1
  { rows := st.set t.rows e.1 (CountRow.insert acc e.2 o)
    rowCount := if o.isNone then t.rowCount + 1 else t.rowCount }

/-- Remove one keyed sample; a missing row is skipped. -/
def removeOne (t : Table S) (e : K × X) : Table S :=
  match st.get t.rows e.1 with
  | none => t
  | some d =>
    match CountRow.remove acc e.2 d with
    | none => { rows := st.del t.rows e.1, rowCount := t.rowCount - 1 }
    | some d' => { t with rows := st.set t.rows e.1 d' }

variable {st acc} in
theorem rowCount_insertOne {t : Table S} {e : K × X} (h : t.rowCount = st.size t.rows) :
    (insertOne st acc t e).rowCount = st.size (insertOne st acc t e).rows := by
  unfold insertOne
  cases ho : st.get t.rows e.1 with
  | none => simp [st.size_set_new _ _ _ ho, h]
  | some d => simp [st.size_set_old _ _ _ _ ho, h]

variable {st acc} in
theorem rowCount_removeOne {t : Table S} {e : K × X} (h : t.rowCount = st.size t.rows) :
    (removeOne st acc t e).rowCount = st.size (removeOne st acc t e).rows := by
  unfold removeOne
  split
  · exact h
  · next d hd =>
    split
    · have hs := st.size_del _ _ _ hd
      simp only
      omega
    · simp [st.size_set_old _ _ _ _ hd, h]

variable [DecidableEq K]

/-- The table is the exact grouped summary of the keyed samples `w`. -/
structure Counts (t : Table S) (w : List (K × X)) : Prop where
  row : ∀ k, CountRow.RowFor acc (st.get t.rows k) (samplesOf k w)
  count : t.rowCount = st.size t.rows

variable {st acc} {t : Table S} {e : K × X} {w : List (K × X)}

theorem counts_insertOne (h : Counts st acc t w) :
    Counts st acc (insertOne st acc t e) (w ++ [e]) := by
  constructor
  · intro k
    by_cases hke : k = e.1
    · subst hke
      have hs : samplesOf e.1 (w ++ [e]) = e.2 ::ₘ samplesOf e.1 w := by
        simp [samplesOf_cons_self, Multiset.add_cons, -Multiset.cons_zero]
      rw [hs]
      unfold insertOne
      rw [st.get_set_self]
      exact CountRow.rowFor_insert (h.row e.1)
    · unfold insertOne
      rw [st.get_set_ne _ _ _ _ hke]
      simpa [samplesOf_cons_ne hke] using h.row k
  · exact rowCount_insertOne h.count

theorem counts_removeOne (h : Counts st acc t (e :: w)) :
    Counts st acc (removeOne st acc t e) w := by
  have hself := h.row e.1
  rw [samplesOf_cons_self] at hself
  have hother : ∀ k, k ≠ e.1 → CountRow.RowFor acc (st.get t.rows k) (samplesOf k w) := by
    intro k hke
    simpa [samplesOf_cons_ne hke] using h.row k
  refine ⟨?_, rowCount_removeOne h.count⟩
  intro k
  unfold removeOne
  cases ho : st.get t.rows e.1 with
  | none =>
    rw [ho] at hself
    exact absurd hself Multiset.cons_ne_zero
  | some d =>
    rw [ho] at hself
    have hd := CountRow.rowFor_remove hself
    cases hr : CountRow.remove acc e.2 d with
    | none =>
      rw [hr] at hd
      by_cases hke : k = e.1
      · rw [hke]
        simpa [hr, st.get_del_self] using hd
      · simpa [hr, st.get_del_ne _ _ _ hke] using hother k hke
    | some d' =>
      rw [hr] at hd
      by_cases hke : k = e.1
      · rw [hke]
        simpa [hr, st.get_set_self] using hd
      · simpa [hr, st.get_set_ne _ _ _ _ hke] using hother k hke

/-- A table that holds samples has a row. -/
theorem rowCount_ne_zero (h : Counts st acc t (e :: w)) : t.rowCount ≠ 0 := by
  have hself := h.row e.1
  rw [samplesOf_cons_self] at hself
  cases ho : st.get t.rows e.1 with
  | none =>
    rw [ho] at hself
    exact absurd hself Multiset.cons_ne_zero
  | some d =>
    have hs := st.size_del _ _ _ ho
    rw [h.count]
    omega

theorem counts_empty : Counts st acc ⟨st.empty, 0⟩ ([] : List (K × X)) := by
  refine ⟨fun k => ?_, ?_⟩
  · rw [st.get_empty]
    rfl
  · rw [st.size_empty]
    rfl

/-- A table without samples has no rows. -/
theorem row_of_nil (h : Counts st acc t ([] : List (K × X))) (k : K) : st.get t.rows k = none := by
  have hk := h.row k
  cases ho : st.get t.rows k with
  | none => rfl
  | some d =>
    rw [ho] at hk
    exact absurd rfl hk.1

theorem rowCount_of_nil (h : Counts st acc t ([] : List (K × X))) : t.rowCount = 0 := by
  rw [h.count, st.size_eq_zero t.rows (row_of_nil h), Nat.cast_zero]

end counts

end Table
