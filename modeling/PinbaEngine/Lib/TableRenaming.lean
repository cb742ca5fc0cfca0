import PinbaEngine.Lib.SlotTable

/-! # Tables that agree up to a renaming of keys

    Two tables that are fed the same samples under different keys stay the same
    table, as long as the renaming of keys is injective. Rows are compared by a
    relation on their sums, so that the tables may differ in sums that nobody
    compares.

    Clients show that the two accumulators move together (`Accumulator.Together`)
    and get the same of whole tables, one lemma per table operation.
-/

variable {K K' X A A' R R' S S' : Type*}

/-! ## Section 1: Accumulators that move together -/

/-- The operations of two accumulators keep a relation between their sums. -/
structure Accumulator.Together (acc : Accumulator X A) (acc' : Accumulator X A')
    (rel : A → A' → Prop) : Prop where
  zero : rel acc.zero acc'.zero
  single : ∀ x, rel (acc.single x) (acc'.single x)
  add : ∀ x a a', rel a a' → rel (acc.add x a) (acc'.add x a')
  sub : ∀ x a a', rel a a' → rel (acc.sub x a) (acc'.sub x a')

/-- Equal counts, related sums. -/
structure CountRow.Same (rel : A → A' → Prop) (d : CountRow A) (d' : CountRow A') : Prop where
  members : d'.members = d.members
  acc : rel d.acc d'.acc

/-- Equal counts and slots, related sums. -/
structure SlotRow.Same (rel : A → A' → Prop) (d : SlotRow A) (d' : SlotRow A') : Prop where
  members : d'.members = d.members
  lastAdd : d'.lastAdd = d.lastAdd
  lastDel : d'.lastDel = d.lastDel
  acc : rel d.acc d'.acc

section rows
variable {acc : Accumulator X A} {acc' : Accumulator X A'} {rel : A → A' → Prop} {x : X}
  (hacc : acc.Together acc' rel)
include hacc

theorem CountRow.same_insert {o : Option (CountRow A)} {o' : Option (CountRow A')}
    (h : Option.Rel (CountRow.Same rel) o o') :
    CountRow.Same rel (insert acc x o) (insert acc' x o') := by
  cases h with
  | none => exact ⟨rfl, hacc.add x _ _ hacc.zero⟩
  | some hd => exact ⟨congrArg (· + 1) hd.members, hacc.add x _ _ hd.acc⟩

theorem CountRow.same_remove {d : CountRow A} {d' : CountRow A'} (h : CountRow.Same rel d d') :
    Option.Rel (CountRow.Same rel) (remove acc x d) (remove acc' x d') := by
  unfold remove
  rw [h.members]
  split
  · exact .none
  · exact .some ⟨rfl, hacc.sub x _ _ h.acc⟩

theorem SlotRow.same_insert {slot : Int} {o : Option (SlotRow A)} {o' : Option (SlotRow A')}
    (h : Option.Rel (SlotRow.Same rel) o o') :
    SlotRow.Same rel (insert acc slot x o) (insert acc' slot x o') := by
  cases h with
  | none =>
    simp only [insert, ne_eq, not_true_eq_false, if_false]
    exact ⟨rfl, rfl, rfl, hacc.single x⟩
  | some hd =>
    simp only [insert, hd.lastAdd]
    split
    · exact ⟨congrArg (· + 1) hd.members, rfl, hd.lastDel, hacc.add x _ _ hd.acc⟩
    · exact ⟨hd.members, rfl, hd.lastDel, hacc.add x _ _ hd.acc⟩

theorem SlotRow.same_remove {slot : Int} {d : SlotRow A} {d' : SlotRow A'}
    (h : SlotRow.Same rel d d') :
    Option.Rel (SlotRow.Same rel) (remove acc slot x d) (remove acc' slot x d') := by
  obtain ⟨members, lastAdd, lastDel, a⟩ := d
  obtain ⟨members', lastAdd', lastDel', a'⟩ := d'
  obtain ⟨rfl, rfl, rfl, ha⟩ := h
  unfold remove
  simp only
  by_cases hslot : slot ≠ lastDel'
  · simp only [if_pos hslot]
    split
    · exact .none
    · exact .some ⟨rfl, rfl, rfl, hacc.sub x _ _ ha⟩
  · simp only [if_neg hslot]
    split
    · exact .none
    · exact .some ⟨rfl, rfl, rfl, hacc.sub x _ _ ha⟩

end rows

/-! ## Section 2: Renamed tables -/

namespace Table

/-- Update or drop the row of a key, if there is one. -/
def shrink (st : KeyedStore K R S) (t : Table S) (k : K) (g : R → Option R) : Table S :=
  match st.get t.rows k with
  | none => t
  | some d =>
    match g d with
    | none => ⟨st.del t.rows k, t.rowCount - 1⟩
    | some d => { t with rows := st.set t.rows k d }

theorem removeSample_eq_shrink (st : KeyedStore K (SlotRow A) S) (acc : Accumulator X A)
    (slot : Nat) (t : Table S) (e : K × X) :
    t.removeSample st acc slot e = t.shrink st e.1 (SlotRow.remove acc slot e.2) := by
  unfold removeSample shrink
  cases st.get t.rows e.1 with
  | none => rfl
  | some d => cases h : SlotRow.remove acc slot e.2 d <;> simp [h]

theorem removeOne_eq_shrink (st : KeyedStore K (CountRow A) S) (acc : Accumulator X A)
    (t : Table S) (e : K × X) :
    t.removeOne st acc e = t.shrink st e.1 (CountRow.remove acc e.2) := by
  unfold removeOne shrink
  cases st.get t.rows e.1 with
  | none => rfl
  | some d => cases h : CountRow.remove acc e.2 d <;> simp [h]

/-- The second table holds the rows of the first under renamed keys, and nothing
    else. -/
structure Renamed (st : KeyedStore K R S) (st' : KeyedStore K' R' S') (f : K → K')
    (rel : R → R' → Prop) (t : Table S) (t' : Table S') : Prop where
  row : ∀ k, Option.Rel rel (st.get t.rows k) (st'.get t'.rows (f k))
  only : ∀ k', st'.get t'.rows k' ≠ none → ∃ k, f k = k'
  rowCount : t'.rowCount = t.rowCount

namespace Renamed

section stores
variable {st : KeyedStore K R S} {st' : KeyedStore K' R' S'} {f : K → K'} {rel : R → R' → Prop}
  {t : Table S} {t' : Table S'}

/-- Two tables without rows. -/
theorem blank (ht : ∀ k, st.get t.rows k = none) (ht' : ∀ k, st'.get t'.rows k = none)
    (hcount : t'.rowCount = t.rowCount) : Renamed st st' f rel t t' := by
  refine ⟨?_, fun k' hk' => absurd (ht' k') hk', hcount⟩
  intro k
  rw [ht, ht']
  exact .none

/-- A run of samples, if one sample keeps the tables the same. -/
theorem foldl {op : Table S → K × X → Table S} {op' : Table S' → K' × X → Table S'}
    (hop : ∀ t t' e, Renamed st st' f rel t t' → Renamed st st' f rel (op t e) (op' t' (f e.1, e.2)))
    (h : Renamed st st' f rel t t') (samples : List (K × X)) :
    Renamed st st' f rel (samples.foldl op t)
      ((samples.map fun e => (f e.1, e.2)).foldl op' t') := by
  induction samples generalizing t t' with
  | nil => exact h
  | cons e samples ih => exact ih (hop t t' e h)

variable (hf : Function.Injective f)
include hf

/-- Bind a key on both sides. -/
theorem set (h : Renamed st st' f rel t t') (k : K) {r : R} {r' : R'} (hr : rel r r') (n : Int) :
    Renamed st st' f rel ⟨st.set t.rows k r, n⟩ ⟨st'.set t'.rows (f k) r', n⟩ := by
  refine ⟨?_, ?_, rfl⟩
  · intro j
    by_cases hj : j = k
    · subst hj
      rw [st.get_set_self, st'.get_set_self]
      exact .some hr
    · rw [st.get_set_ne _ _ _ _ hj, st'.get_set_ne _ _ _ _ (fun hc => hj (hf hc))]
      exact h.row j
  · intro j' hj'
    by_cases hk : j' = f k
    · exact ⟨k, hk.symm⟩
    · rw [st'.get_set_ne _ _ _ _ hk] at hj'
      exact h.only j' hj'

/-- Drop a key on both sides. -/
theorem del (h : Renamed st st' f rel t t') (k : K) (n : Int) :
    Renamed st st' f rel ⟨st.del t.rows k, n⟩ ⟨st'.del t'.rows (f k), n⟩ := by
  refine ⟨?_, ?_, rfl⟩
  · intro j
    by_cases hj : j = k
    · subst hj
      rw [st.get_del_self, st'.get_del_self]
      exact .none
    · rw [st.get_del_ne _ _ _ hj, st'.get_del_ne _ _ _ (fun hc => hj (hf hc))]
      exact h.row j
  · intro j' hj'
    by_cases hk : j' = f k
    · exact ⟨k, hk.symm⟩
    · rw [st'.get_del_ne _ _ _ hk] at hj'
      exact h.only j' hj'

/-- Update or create a row on both sides, counting a row that is new. -/
theorem update (h : Renamed st st' f rel t t') (k : K) {g : Option R → R} {g' : Option R' → R'}
    (hg : ∀ o o', Option.Rel rel o o' → rel (g o) (g' o')) :
    Renamed st st' f rel
      ⟨st.set t.rows k (g (st.get t.rows k)),
        if (st.get t.rows k).isNone then t.rowCount + 1 else t.rowCount⟩
      ⟨st'.set t'.rows (f k) (g' (st'.get t'.rows (f k))),
        if (st'.get t'.rows (f k)).isNone then t'.rowCount + 1 else t'.rowCount⟩ := by
  have hnone : (st'.get t'.rows (f k)).isNone = (st.get t.rows k).isNone := by
    have hrow := h.row k
    generalize st.get t.rows k = o, st'.get t'.rows (f k) = o' at hrow
    cases hrow <;> rfl
  rw [hnone, h.rowCount]
  exact h.set hf k (hg _ _ (h.row k)) _

/-- Update or drop a row on both sides; a missing row is skipped. -/
theorem shrink (h : Renamed st st' f rel t t') (k : K) {g : R → Option R} {g' : R' → Option R'}
    (hg : ∀ d d', rel d d' → Option.Rel rel (g d) (g' d')) :
    Renamed st st' f rel (t.shrink st k g) (t'.shrink st' (f k) g') := by
  have hrow := h.row k
  unfold Table.shrink
  generalize st.get t.rows k = o, st'.get t'.rows (f k) = o' at hrow
  cases hrow with
  | none => exact h
  | @some d d' hd =>
    have hnew := hg d d' hd
    simp only
    generalize g d = o, g' d' = o' at hnew
    cases hnew with
    | none =>
      simp only [h.rowCount]
      exact h.del hf k _
    | some hd =>
      simp only [h.rowCount]
      exact h.set hf k hd _

end stores

/-! ## Section 3: Table operations -/

section operations
variable {f : K → K'} {acc : Accumulator X A} {acc' : Accumulator X A'} {rel : A → A' → Prop}
  {t : Table S} {t' : Table S'} (hf : Function.Injective f) (hacc : acc.Together acc' rel)
include hf hacc

section slots
variable {st : KeyedStore K (SlotRow A) S} {st' : KeyedStore K' (SlotRow A') S'}

theorem insertSample (slot : Nat) (h : Renamed st st' f (SlotRow.Same rel) t t') (e : K × X) :
    Renamed st st' f (SlotRow.Same rel) (t.insertSample st acc slot e)
      (t'.insertSample st' acc' slot (f e.1, e.2)) :=
  h.update hf e.1 fun _ _ ho => SlotRow.same_insert hacc ho

theorem removeSample (slot : Nat) (h : Renamed st st' f (SlotRow.Same rel) t t') (e : K × X) :
    Renamed st st' f (SlotRow.Same rel) (t.removeSample st acc slot e)
      (t'.removeSample st' acc' slot (f e.1, e.2)) := by
  rw [removeSample_eq_shrink, removeSample_eq_shrink]
  exact h.shrink hf e.1 fun _ _ hd => SlotRow.same_remove hacc hd

end slots

section counts
variable {st : KeyedStore K (CountRow A) S} {st' : KeyedStore K' (CountRow A') S'}

theorem insertOne (h : Renamed st st' f (CountRow.Same rel) t t') (e : K × X) :
    Renamed st st' f (CountRow.Same rel) (t.insertOne st acc e)
      (t'.insertOne st' acc' (f e.1, e.2)) :=
  h.update hf e.1 fun _ _ ho => CountRow.same_insert hacc ho

theorem removeOne (h : Renamed st st' f (CountRow.Same rel) t t') (e : K × X) :
    Renamed st st' f (CountRow.Same rel) (t.removeOne st acc e)
      (t'.removeOne st' acc' (f e.1, e.2)) := by
  rw [removeOne_eq_shrink, removeOne_eq_shrink]
  exact h.shrink hf e.1 fun _ _ hd => CountRow.same_remove hacc hd

end counts

end operations

end Renamed

end Table
