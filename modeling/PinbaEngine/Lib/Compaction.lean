import Mathlib.Data.List.Nodup
import Mathlib.Logic.Function.Basic

/-! # Closing holes by swaps

    Some entries own a cell of an array each, and there may be cells in between
    that nobody owns. A pass over the entries moves the cells together: the next
    entry's cell changes places with the next cell of the target, and the entry
    is told where its value went.

    The cells are reached through a numbering `slot`, so the array may wrap. The
    pass works because the entries own their cells in ascending order
    (`foldl_visit`): the target never overtakes a cell that is still to be read.
-/

namespace PinbaEngine.Compaction

variable {κ ι α : Type*} [DecidableEq κ] [DecidableEq ι]

/-! ## Section 1: The pass -/

@[ext] structure State (κ ι α : Type*) where
  data : ι → α
  /-- The cell that an entry owns. -/
  ids : κ → Option ι
  /-- The next cell of the target. -/
  position : ι
  counter : Nat

/-- One entry. Its value is labelled with its number. -/
def visit (next : ι → ι) (label : Nat → α → α) (s : State κ ι α) (k : κ) : State κ ι α :=
  match s.ids k with
  | none => s
  | some source =>
    let data :=
      if source ≠ s.position then
        Function.update (Function.update s.data source (s.data s.position)) s.position
          (s.data source)
      else s.data
    { data := Function.update data s.position (label s.counter (data s.position))
      ids := Function.update s.ids k (some s.position)
      position := next s.position
      counter := s.counter + 1 }

variable {next : ι → ι} {label : Nat → α → α} {s : State κ ι α} {k : κ} {source i : ι}

theorem visit_none (h : s.ids k = none) : visit next label s k = s := by
  unfold visit
  rw [h]

theorem ids_visit (h : s.ids k = some source) :
    (visit next label s k).ids = Function.update s.ids k (some s.position) := by
  unfold visit
  rw [h]

theorem position_visit (h : s.ids k = some source) :
    (visit next label s k).position = next s.position := by
  unfold visit
  rw [h]

theorem counter_visit (h : s.ids k = some source) :
    (visit next label s k).counter = s.counter + 1 := by
  unfold visit
  rw [h]

/-- The value of the entry arrives at the target. -/
theorem data_visit_position (h : s.ids k = some source) :
    (visit next label s k).data s.position = label s.counter (s.data source) := by
  unfold visit
  rw [h]
  by_cases hsame : source = s.position
  · simp [hsame]
  · simp [hsame]

/-- A turn touches the target and the cell of the entry, nothing else. -/
theorem data_visit_ne (h : s.ids k = some source) (hpos : i ≠ s.position) (hsource : i ≠ source) :
    (visit next label s k).data i = s.data i := by
  unfold visit
  rw [h]
  simp only [Function.update_of_ne hpos]
  split
  · rw [Function.update_of_ne hpos, Function.update_of_ne hsource]
  · rfl

/-! ## Section 2: The result -/

/-- What the pass over `keys` makes of the cells, if the entries own the cells
    `offs` and the target starts at cell `m`. -/
structure Compacted (slot : Nat → ι) (label : Nat → α → α) (bound m : Nat) (keys : List κ)
    (offs : List Nat) (s s' : State κ ι α) : Prop where
  moved : ∀ j, (h : j < offs.length) →
    s'.data (slot (m + j)) = label (m + j) (s.data (slot (offs.get ⟨j, h⟩)))
  before : ∀ j < m, s'.data (slot j) = s.data (slot j)
  outside : ∀ i, (∀ j < bound, i ≠ slot j) → s'.data i = s.data i
  ids_eq : keys.filterMap s'.ids = (List.range' m offs.length).map slot
  ids_other : ∀ k, k ∉ keys → s'.ids k = s.ids k
  ids_isSome : ∀ k, (s'.ids k).isSome = (s.ids k).isSome

variable {slot : Nat → ι} {bound m : Nat} {keys : List κ} {offs : List Nat}

theorem foldl_visit (hinj : ∀ a < bound, ∀ b < bound, slot a = slot b → a = b)
    (hnext : ∀ j < bound, next (slot j) = slot (j + 1)) (hnd : keys.Nodup)
    (hpos : s.position = slot m) (hcounter : s.counter = m)
    (hids : keys.filterMap s.ids = offs.map slot) (hsorted : offs.Pairwise (· < ·))
    (hfrom : ∀ o ∈ offs, m ≤ o ∧ o < bound) :
    Compacted slot label bound m keys offs s (keys.foldl (visit next label) s) := by
  induction keys generalizing s m offs with
  | nil =>
    obtain rfl : offs = [] := List.map_eq_nil_iff.mp hids.symm
    exact ⟨fun j h => absurd h (Nat.not_lt_zero j), fun _ _ => rfl, fun _ _ => rfl, rfl,
      fun _ _ => rfl, fun _ => rfl⟩
  | cons k keys ih =>
    rw [List.nodup_cons] at hnd
    rw [List.foldl_cons]
    cases hk : s.ids k with
    | none =>
      -- an entry without a cell
      rw [visit_none hk]
      rw [List.filterMap_cons_none hk] at hids
      have hrest := ih hnd.2 hpos hcounter hids hsorted hfrom
      refine { hrest with ids_eq := ?_, ids_other := ?_ }
      · rw [List.filterMap_cons_none, hrest.ids_eq]
        rw [hrest.ids_other k hnd.1, hk]
      · exact fun k' hk' => hrest.ids_other k' fun hmem => hk' (List.mem_cons_of_mem _ hmem)
    | some source =>
      rw [List.filterMap_cons_some hk] at hids
      obtain ⟨o, os, rfl⟩ : ∃ o os, offs = o :: os := by
        cases offs with
        | nil => cases hids
        | cons o os => exact ⟨o, os, rfl⟩
      obtain ⟨rfl, htl⟩ : source = slot o ∧ keys.filterMap s.ids = os.map slot :=
        List.cons.inj hids
      rw [List.pairwise_cons] at hsorted
      obtain ⟨hmo, hob⟩ := hfrom o List.mem_cons_self
      have hos : ∀ o' ∈ os, m < o' ∧ o < o' ∧ o' < bound := fun o' ho' =>
        have hlt := hsorted.1 o' ho'
        ⟨Nat.lt_of_le_of_lt hmo hlt, hlt, (hfrom o' (List.mem_cons_of_mem _ ho')).2⟩
      have hmb : m < bound := Nat.lt_of_le_of_lt hmo hob
      -- the cells that are still to be read are neither the target nor this cell
      have hunread : ∀ o' ∈ os, (visit next label s k).data (slot o') = s.data (slot o') := by
        intro o' ho'
        obtain ⟨hm, hlt, hb⟩ := hos o' ho'
        refine data_visit_ne hk ?_ ?_
        · rw [hpos]
          exact fun heq => absurd (hinj o' hb m hmb heq) (by omega)
        · exact fun heq => absurd (hinj o' hb o hob heq) (by omega)
      have hids' : keys.filterMap (visit next label s k).ids = os.map slot := by
        rw [← htl, ids_visit hk]
        apply List.filterMap_congr
        intro k' hk'
        have hne : k' ≠ k := fun heq => hnd.1 (heq ▸ hk')
        rw [Function.update_of_ne hne]
      have hrest := ih (m := m + 1) hnd.2
        (by rw [position_visit hk, hpos, hnext m hmb]) (by rw [counter_visit hk, hcounter])
        hids' hsorted.2 fun o' ho' => ⟨(hos o' ho').1, (hos o' ho').2.2⟩
      refine ⟨?_, ?_, ?_, ?_, ?_, ?_⟩
      · intro j hj
        cases j with
        | zero =>
          rw [Nat.add_zero, hrest.before m (Nat.lt_succ_self m), ← hpos, data_visit_position hk,
            hcounter]
          rfl
        | succ j =>
          have hj' : j < os.length := Nat.lt_of_succ_lt_succ hj
          rw [show m + (j + 1) = m + 1 + j by omega, hrest.moved j hj',
            hunread _ (List.get_mem os ⟨j, hj'⟩)]
          rfl
      · intro j hj
        rw [hrest.before j (Nat.lt_succ_of_lt hj)]
        refine data_visit_ne hk ?_ ?_
        · rw [hpos]
          exact fun heq => absurd (hinj j (by omega) m hmb heq) (by omega)
        · exact fun heq => absurd (hinj j (by omega) o hob heq) (by omega)
      · intro i hi
        rw [hrest.outside i hi]
        exact data_visit_ne hk (hpos ▸ hi m hmb) (hi o hob)
      · have hhead : (keys.foldl (visit next label) (visit next label s k)).ids k = some (slot m) := by
          rw [hrest.ids_other k hnd.1, ids_visit hk, Function.update_self, hpos]
        rw [List.filterMap_cons_some hhead, hrest.ids_eq, List.length_cons, List.range'_succ,
          List.map_cons]
      · intro k' hk'
        rw [List.mem_cons, not_or] at hk'
        rw [hrest.ids_other k' hk'.2, ids_visit hk, Function.update_of_ne hk'.1]
      · intro k'
        rw [hrest.ids_isSome k', ids_visit hk]
        by_cases heq : k' = k
        · rw [heq, Function.update_self, hk]
          rfl
        · rw [Function.update_of_ne heq]

end PinbaEngine.Compaction
