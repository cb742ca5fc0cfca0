import PinbaEngine.RowMemory

/-! # The tree of a report

    The blocks of a report form a tree: a map of rows, or a map of maps of rows, and below
    every row its histogram and its array. The update functions of `RowMemory` keep this
    tree, and the rows in it are those of the value-level models.
-/

namespace PinbaEngine

namespace RowMemory

open BlockMemory MapMemory

variable {X D α : Type} (lib : MapLibrary D) (code : RowCode X D)

/-! ## Section 1: Trees -/

/-- An entry of a map with what its value points to. -/
structure Node (A : Type) where
  key : Nat
  str : Bytes
  item : A

/-- A map of rows below a name. -/
structure Below (D : Type) where
  address : Nat
  rows : List (Node (Row D))

section trees
variable {A R : Type}

def Node.keyed (address : A → Nat) (n : Node A) : KeyedPointer := ⟨n.key, n.str, address n.item⟩

def Node.entry (view : A → R) (n : Node A) : Sigma fun _ : Bytes => R := ⟨n.str, view n.item⟩

/-- What the values of a map own. -/
def item_blocks (blocks : A → Blocks (Cell D)) (ns : List (Node A)) : Blocks (Cell D) :=
  (ns.map fun n => blocks n.item).sum

/-- What a map and its values own. -/
def tree_blocks (address : A → Nat) (blocks : A → Blocks (Cell D)) (map : Nat) (ns : List (Node A)) :
    Blocks (Cell D) :=
  map_blocks map (ns.map (Node.keyed address)) + item_blocks blocks ns

section blocks
variable {blocks : A → Blocks (Cell D)} {ns ns' l₁ l₂ : List (Node A)} {n : Node A}

theorem item_blocks_nil : item_blocks blocks [] = 0 := rfl

theorem item_blocks_cons : item_blocks blocks (n :: ns) = blocks n.item + item_blocks blocks ns := by
  rw [item_blocks, List.map_cons, List.sum_cons, item_blocks]

theorem item_blocks_perm (h : ns'.Perm ns) : item_blocks blocks ns' = item_blocks blocks ns :=
  (h.map _).sum_eq

theorem item_blocks_place :
    item_blocks blocks (l₁ ++ n :: l₂) = blocks n.item + item_blocks blocks (l₁ ++ l₂) := by
  rw [item_blocks_perm List.perm_middle, item_blocks_cons]

end blocks

/-- Every key once. -/
def Distinct (ns : List (Node A)) : Prop := (ns.map Node.str).Nodup

/-- What is at a key. -/
def look (view : A → R) (ns : List (Node A)) (index : Bytes) : Option R :=
  List.dlookup index (ns.map (Node.entry view))

variable {view : A → R} {ns ns' l₁ l₂ : List (Node A)} {n : Node A} {index k : Bytes}

theorem Distinct.entries (h : Distinct ns) : (ns.map (Node.entry view)).NodupKeys := by
  show ((ns.map (Node.entry view)).map Sigma.fst).Nodup
  rw [List.map_map]
  exact h

theorem Distinct.perm (h : Distinct ns) (hperm : ns'.Perm ns) : Distinct ns' :=
  (hperm.map Node.str).nodup_iff.mpr h

@[simp] theorem look_nil : look view [] index = none := rfl

theorem look_cons : look view (n :: ns) k = if k = n.str then some (view n.item) else look view ns k := by
  unfold look
  split
  · next h =>
    subst h
    exact List.dlookup_cons_eq _ _ _
  · next h => exact List.dlookup_cons_ne _ _ h

theorem look_perm (h : Distinct ns) (hperm : ns'.Perm ns) : look view ns' k = look view ns k :=
  List.perm_dlookup k (h.perm hperm).entries (hperm.map _)

theorem look_eq_none (h : ∀ n ∈ ns, n.str ≠ index) : look view ns index = none := by
  induction ns with
  | nil => rfl
  | cons n ns ih =>
    rw [look_cons, if_neg (Ne.symm (h n List.mem_cons_self)), ih fun e he => h e (List.mem_cons_of_mem n he)]

/-- A key is nowhere in a map, or it has a first place. -/
theorem exists_place (ns : List (Node A)) (index : Bytes) : (∀ n ∈ ns, n.str ≠ index) ∨
    ∃ l₁ n l₂, ns = l₁ ++ n :: l₂ ∧ n.str = index ∧ ∀ e ∈ l₁, e.str ≠ index := by
  cases hfind : ns.find? (·.str = index) with
  | none =>
    left
    intro n hn
    simpa using List.find?_eq_none.mp hfind n hn
  | some n =>
    obtain ⟨hn, l₁, l₂, rfl, hl₁⟩ := List.find?_eq_some_iff_append.mp hfind
    exact .inr ⟨l₁, n, l₂, rfl, by simpa using hn, fun e he => by simpa using hl₁ e he⟩

theorem look_place (hdistinct : Distinct (l₁ ++ n :: l₂)) :
    look view (l₁ ++ n :: l₂) k = if k = n.str then some (view n.item) else look view (l₁ ++ l₂) k := by
  rw [← look_cons]
  exact (look_perm hdistinct List.perm_middle.symm).symm

theorem distinct_place (hdistinct : Distinct (l₁ ++ n :: l₂)) : Distinct (l₁ ++ l₂) :=
  (List.nodup_cons.mp (hdistinct.perm List.perm_middle.symm)).2

theorem look_place_none (hdistinct : Distinct (l₁ ++ n :: l₂)) : look view (l₁ ++ l₂) n.str = none := by
  have hcons : Distinct (n :: (l₁ ++ l₂)) := hdistinct.perm List.perm_middle.symm
  refine look_eq_none fun e he heq => (List.nodup_cons.mp hcons).1 ?_
  rw [← heq]
  exact List.mem_map_of_mem he

theorem keyed_replace {address : A → Nat} {item : A} (h : address item = address n.item) :
    (l₁ ++ { n with item } :: l₂).map (Node.keyed address) = (l₁ ++ n :: l₂).map (Node.keyed address) := by
  have hn : Node.keyed address { n with item } = Node.keyed address n := by
    show KeyedPointer.mk _ _ (address item) = _
    rw [h]
    rfl
  rw [List.map_append, List.map_append, List.map_cons, List.map_cons, hn]

theorem distinct_replace {item : A} (h : Distinct (l₁ ++ n :: l₂)) : Distinct (l₁ ++ { n with item } :: l₂) := by
  have hstr : (l₁ ++ { n with item } :: l₂).map Node.str = (l₁ ++ n :: l₂).map Node.str := by
    rw [List.map_append, List.map_append, List.map_cons, List.map_cons]
  rw [Distinct, hstr]
  exact h

theorem look_replace {item : A} (h : Distinct (l₁ ++ n :: l₂)) :
    look view (l₁ ++ { n with item } :: l₂) =
      Function.update (look view (l₁ ++ n :: l₂)) n.str (some (view item)) := by
  funext k
  rw [Function.update_apply, look_place (distinct_replace h), look_place h]
  split <;> rfl

theorem look_remove (h : Distinct (l₁ ++ n :: l₂)) :
    look view (l₁ ++ l₂) = Function.update (look view (l₁ ++ n :: l₂)) n.str none := by
  funext k
  rw [Function.update_apply, look_place h]
  split
  · next hk =>
    rw [hk]
    exact look_place_none h
  · rfl

theorem distinct_insert (hdistinct : Distinct ns) (hnot : ∀ e ∈ ns, e.str ≠ n.str)
    (hperm : ns'.Perm (n :: ns)) : Distinct ns' := by
  refine Distinct.perm (show Distinct (n :: ns) from List.nodup_cons.mpr ⟨?_, hdistinct⟩) hperm
  intro hmem
  obtain ⟨e, he, heq⟩ := List.mem_map.mp hmem
  exact hnot e he heq

theorem look_insert (hdistinct : Distinct ns) (hnot : ∀ e ∈ ns, e.str ≠ n.str) (hperm : ns'.Perm (n :: ns)) :
    look view ns' = Function.update (look view ns) n.str (some (view n.item)) := by
  funext k
  rw [Function.update_apply, look_perm (distinct_insert hdistinct hnot (.refl _)) hperm, look_cons]

end trees

def Below.blocks (s : Below D) : Blocks (Cell D) := tree_blocks Row.address Row.blocks s.address s.rows

/-- The blocks of a map whose pointer may be null. -/
def held (map : Option Nat) (es : List KeyedPointer) : Blocks (Cell D) :=
  map.elim 0 fun map => map_blocks map es

theorem held_some (map : Nat) (es : List KeyedPointer) : (held (some map) es : Blocks (Cell D)) = map_blocks map es :=
  rfl

/-! ## Section 2: Rules for maps of a tree -/

section maps
variable {A : Type} {address : A → Nat} {ns ns' l₁ l₂ : List (Node A)} {n : Node A} {index : Bytes}
  {own F : Blocks (Cell D)} {post : α → Blocks (Cell D) → Prop} {map : Option Nat}

theorem find_keyed (ns : List (Node A)) : ((ns.map (Node.keyed address)).find? (·.str = index)).map
    KeyedPointer.value = look address ns index := by
  induction ns with
  | nil => rfl
  | cons n ns ih =>
    rw [look_cons, List.map_cons]
    by_cases h : n.str = index
    · have hn : (n.keyed address).str = index := h
      rw [if_pos h.symm, List.find?_cons_of_pos (by simpa using hn)]
      rfl
    · have hn : (n.keyed address).str ≠ index := h
      rw [if_neg (Ne.symm h), List.find?_cons_of_neg (by simpa using hn), ih]

theorem runs_get {g : Option Nat → MapProgram D α} (hnull : map = none → ns = [])
    (hheld : held map (ns.map (Node.keyed address)) ≤ own)
    (hg : Runs (g (look address ns index)) own post terminates) :
    Runs (pinba_map_get map index >>= g) own post terminates := by
  cases map with
  | none =>
    rw [hnull rfl] at hg
    exact hg
  | some map =>
    refine runs_data_get (show Sees own map (ns.map (Node.keyed address)) from hheld) ?_
    rw [find_keyed]
    exact hg

/-- An order of the entries is an order of the nodes. -/
theorem exists_nodes {es : List KeyedPointer} (h : es.Perm (ns.map (Node.keyed address))) :
    ∃ ns' : List (Node A), ns'.Perm ns ∧ es = ns'.map (Node.keyed address) := by
  rw [← congrFun (congrFun (List.eq_map_comp_perm (Node.keyed address)) _)] at h
  obtain ⟨ns', rfl, hperm⟩ := h
  exact ⟨ns', hperm, rfl⟩

theorem runs_add {value : Nat} {g : Nat → MapProgram D α} (hstrdup : ∀ m, lib.strdup.answer m ≠ none)
    (hnull : map = none → ns = []) (habsent : ∀ n ∈ ns, n.str ≠ index)
    (hown : own = held map (ns.map (Node.keyed address)) + F)
    (hg : ∀ p key (es : List KeyedPointer), (∀ q, map = some q → p = q) →
      es.Perm (⟨key, index, value⟩ :: ns.map (Node.keyed address)) →
      Runs (g p) (map_blocks p es + F) post terminates) :
    Runs (pinba_map_add lib map index value >>= g) own post terminates := by
  have habsent' : ∀ e ∈ ns.map (Node.keyed address), e.str ≠ index := by
    intro e he
    obtain ⟨n, hn, rfl⟩ := List.mem_map.mp he
    exact habsent n hn
  have hadd (p : Nat) (hp : ∀ q, map = some q → p = q) : Runs (data_add lib p index value >>= fun _ => g p)
      (map_blocks p (ns.map (Node.keyed address)) + F) post terminates :=
    runs_data_add_new lib habsent' rfl (fun ⟨m, hm⟩ => absurd hm (hstrdup m)) trivial
      fun key es hperm => hg p key es hp hperm
  subst hown
  cases map with
  | none =>
    show Runs ((new_map lib >>= _) >>= g) _ _ _
    rw [bind_assoc]
    refine runs_new_map lib trivial fun p => ?_
    rw [bind_assoc]
    have hown : map_blocks p (ns.map (Node.keyed address)) + F = map_blocks p [] + (0 + F) := by
      rw [hnull rfl, List.map_nil, zero_add]
    rw [held, Option.elim_none, ← hown]
    exact hadd p (by simp)
  | some p =>
    show Runs ((data_add lib p index value >>= _) >>= g) _ _ _
    rw [bind_assoc]
    exact hadd p (by simp)

theorem front_keyed (address : A → Nat) (l₂ : List (Node A)) (hfirst : ∀ e ∈ l₁, e.str ≠ index) (hn : n.str = index) :
    front index ((l₁ ++ n :: l₂).map (Node.keyed address)) = l₁.map (Node.keyed address) ∧
    back index ((l₁ ++ n :: l₂).map (Node.keyed address)) = (n :: l₂).map (Node.keyed address) := by
  induction l₁ with
  | nil => simp [front, back, Node.keyed, hn]
  | cons e l₁ ih =>
    obtain ⟨hfront, hback⟩ := ih fun e' he' => hfirst e' (List.mem_cons_of_mem e he')
    have he : (Node.keyed address e).str ≠ index := hfirst e List.mem_cons_self
    constructor
    · rw [List.cons_append, List.map_cons, List.map_cons, ← hfront]
      exact List.takeWhile_cons_of_pos (by simpa using he)
    · rw [List.cons_append, List.map_cons, ← hback]
      exact List.dropWhile_cons_of_pos (by simpa using he)

theorem runs_delete {map : Nat} {g : Int → MapProgram D α} (hfirst : ∀ e ∈ l₁, e.str ≠ index)
    (hn : n.str = index)
    (hown : own = map_blocks map ((l₁ ++ n :: l₂).map (Node.keyed address)) + F)
    (hg : Runs (g (if l₁ ++ l₂ = [] then -1 else 0)) (map_blocks map ((l₁ ++ l₂).map (Node.keyed address)) + F)
      post terminates) : Runs (pinba_map_delete (some map) index >>= g) own post terminates := by
  obtain ⟨hfront, hback⟩ := front_keyed address l₂ hfirst hn
  show Runs ((data_delete map index >>= _) >>= g) _ _ _
  rw [bind_assoc]
  refine runs_data_delete hown ?_
  rw [hfront, hback, List.map_cons, List.tail_cons, ← List.map_append, bind_assoc]
  refine runs_load_map (sees_add F).entries ?_
  rw [pure_bind]
  simpa only [List.isEmpty_iff, List.map_eq_nil_iff] using hg

end maps

/-! ## Section 3: Rules for rows -/

/-- What adding a sample makes of a row, and what taking one out leaves of it. -/
structure RowModel (X R : Type) where
  insert : Nat → X → Option R → R
  remove : Nat → X → R → Option R

/-- The stores of `code` to a row and its histogram are the operations of `model`. -/
structure Models {R : Type} (code : RowCode X D) (view : D → Histogram → R) (model : RowModel X R) : Prop where
  insert_new : ∀ s x, view (code.both s x (code.fresh s x))
    (pinba_update_histogram code.buckets ∅ (code.time x) (code.count x)) = model.insert s x none
  insert_old : ∀ s x data h, view (code.both s x (code.old x data))
    (pinba_update_histogram code.buckets h (code.time x) (code.count x)) = model.insert s x (some (view data h))
  remove_last : ∀ s x data h, code.last (code.leave s data) = true → model.remove s x (view data h) = none
  remove_stay : ∀ s x data h, code.last (code.leave s data) = false → model.remove s x (view data h) =
    some (view (code.stay x (code.leave s data))
      (pinba_update_histogram code.buckets h (code.time x) (-(code.count x : Int))))

section rows
variable {own F : Blocks (Cell D)} {post : α → Blocks (Cell D) → Prop} {r : Row D} {request_id : Nat} {x : X}

theorem row_mem_blocks : (r.address, r.cell) ∈ r.blocks :=
  Multiset.mem_add.mpr (.inl (Multiset.mem_singleton_self _))

/-- The fields of a row change, its pointers stay. -/
theorem runs_store_row {data : D} {g : Unit → MapProgram D α} (hown : own = r.blocks + F)
    (hg : Runs (g ()) (Row.blocks { r with data } + F) post terminates) :
    Runs (store r.address (.row data (r.histogram_data.map Prod.fst) r.tag_value) >>= g) own post terminates :=
  runs_store (F := histogram_blocks r.histogram_data + array_blocks r.tag_value + F)
    (by rw [hown, Row.blocks, add_assoc]) (by rw [← add_assoc]; exact hg)

theorem runs_update_row {g : Unit → MapProgram D α} (hown : own = r.blocks + F)
    (hg : ∀ r' : Row D, r'.address = r.address → r'.data = code.both request_id x r.data →
      r'.histogram = pinba_update_histogram code.buckets r.histogram (code.time x) (code.count x) →
      Runs (g ()) (r'.blocks + F) post terminates) :
    Runs (update_row lib code r.address request_id x >>= g) own post terminates := by
  unfold update_row
  rw [bind_assoc]
  refine runs_load_row (hown ▸ Multiset.mem_add.mpr (.inl row_mem_blocks)) ?_
  dsimp only
  rw [bind_assoc]
  refine runs_store_row hown ?_
  exact runs_update_histogram lib (r := { r with data := code.both request_id x r.data }) rfl hg

/-- A row with all its blocks, or none. -/
theorem runs_calloc_row {g : Option Nat → MapProgram D α}
    (hcalloc : code.calloc_check = false → ∀ m, lib.calloc.answer m ≠ none)
    (hfail : (∃ m, lib.calloc.answer m = none) → Runs (g none) own post terminates)
    (hg : ∀ r : Row D, r.data = code.fresh request_id x → r.histogram = ∅ →
      Runs (g (some r.address)) (r.blocks + own) post terminates) :
    Runs (calloc_row lib code request_id x >>= g) own post terminates := by
  unfold calloc_row
  rw [bind_assoc]
  refine runs_malloc (fun hnull => ?_) fun p => ?_
  · cases hcheck : code.calloc_check with
    | true => exact hfail hnull
    | false =>
      obtain ⟨m, hm⟩ := hnull
      exact absurd hm (hcalloc hcheck m)
  dsimp only
  split
  · rw [bind_assoc]
    refine runs_malloc (fun hnull => ?_) fun q => ?_
    · dsimp only
      rw [bind_assoc]
      refine runs_release rfl ?_
      rw [pure_bind]
      exact hfail hnull
    · dsimp only
      rw [bind_assoc]
      refine runs_store (v := .row (code.fresh request_id x) none none) (F := {(q, .array)} + own)
        (add_left_comm _ _ _) ?_
      rw [pure_bind]
      refine Eq.mp ?_ (hg ⟨p, code.fresh request_id x, none, some q⟩ rfl rfl)
      rw [Row.blocks, Row.cell, histogram_blocks, array_blocks]
      simp only [Option.elim_none, Option.elim_some, Option.map_none, zero_add, add_assoc]
  · split
    · rw [bind_assoc]
      refine runs_lmap_create lib fun h => ?_
      rw [bind_assoc]
      refine runs_store (v := .row (code.fresh request_id x) none none) (F := {(h, .pinba_lmap ∅)} + own)
        (add_left_comm _ _ _) ?_
      rw [pure_bind]
      refine Eq.mp ?_ (hg ⟨p, code.fresh request_id x, some (h, ∅), none⟩ rfl rfl)
      rw [Row.blocks, Row.cell, histogram_blocks, array_blocks]
      simp only [Option.elim_none, Option.elim_some, Option.map_some, add_zero, add_assoc]
    · rw [pure_bind]
      refine Eq.mp ?_ (hg ⟨p, code.fresh request_id x, none, none⟩ rfl rfl)
      rw [Row.blocks, Row.cell, histogram_blocks, array_blocks]
      simp only [Option.elim_none, Option.map_none, add_zero]

end rows

/-! ## Section 4: Adding a sample to a map of rows -/

section adding
variable {R : Type} {view : D → Histogram → R} {model : RowModel X R} {own F : Blocks (Cell D)}
  {post : α → Blocks (Cell D) → Prop} {ns l₁ l₂ : List (Node (Row D))} {n : Node (Row D)} {index : Bytes}
  {request_id : Nat} {x : X}

/-- A row as the value-level models have it. -/
def Row.value (view : D → Histogram → R) (r : Row D) : R := view r.data r.histogram

/-- The keys of some rows. -/
abbrev keyed_rows (ns : List (Node (Row D))) : List KeyedPointer := ns.map (Node.keyed Row.address)

/-- The rows after one more sample, and the number of new ones. -/
def RowAdded (model : RowModel X R) (index : Bytes) (request_id : Nat) (x : X) (rows rows' : Bytes → Option R)
    (added : Int) : Prop :=
  rows' = Function.update rows index (some (model.insert request_id x (rows index))) ∧
    added = if (rows index).isNone then 1 else 0

/-- A new row found no memory. -/
def RowSkipped (lib : MapLibrary D) (index : Bytes) (rows rows' : Bytes → Option R) (added : Int) : Prop :=
  (∃ m, lib.calloc.answer m = none) ∧ rows index = none ∧ rows' = rows ∧ added = 0

/-- What the allocators are relied on for: the keys of rows, and rows that are not checked for. -/
structure Supplied (lib : MapLibrary D) (code : RowCode X D) : Prop where
  strdup : ∀ m, lib.strdup.answer m ≠ none
  calloc : code.calloc_check = false → ∀ m, lib.calloc.answer m ≠ none

theorem runs_row_add {map : Option Nat} {g : Option Nat × Int → MapProgram D α} (hlib : Supplied lib code)
    (hmodel : Models code view model) (hdistinct : Distinct ns) (hnull : map = none → ns = [])
    (hown : own = held map (keyed_rows ns) + (item_blocks Row.blocks ns + F))
    (hg : ∀ map' added ns', Distinct ns' → (map' = none → ns' = []) → (∀ p, map = some p → map' = some p) →
      (RowAdded model index request_id x (look (Row.value view) ns) (look (Row.value view) ns') added ∨
        RowSkipped lib index (look (Row.value view) ns) (look (Row.value view) ns') added) →
      Runs (g (map', added)) (held map' (keyed_rows ns') + (item_blocks Row.blocks ns' + F)) post
        terminates) :
    Runs (row_add lib code map index request_id x >>= g) own post terminates := by
  unfold row_add
  rw [bind_assoc]
  refine runs_get hnull (by rw [hown]; exact Multiset.le_add_right _ _) ?_
  cases exists_place ns index with
  | inl habsent =>
    have hnone {V : Type} (v : Row D → V) : look v ns index = none := look_eq_none habsent
    rw [hnone]
    dsimp only
    rw [bind_assoc]
    refine runs_calloc_row lib code hlib.calloc (fun hfail => ?_) fun r hdata hhist => ?_
    · rw [pure_bind, hown]
      exact hg map 0 ns hdistinct hnull (fun _ h => h) (.inr ⟨hfail, hnone _, rfl, rfl⟩)
    dsimp only
    rw [bind_assoc]
    refine runs_add lib (F := r.blocks + (item_blocks Row.blocks ns + F)) hlib.strdup hnull habsent
      (by rw [hown, add_left_comm]) ?_
    intro p key es hp hperm
    rw [bind_assoc]
    refine runs_update_row lib code (r := r) (add_left_comm _ _ _) ?_
    intro r' haddress hdata' hhist'
    rw [pure_bind]
    -- the new row in its final form
    have hperm₁ : es.Perm (keyed_rows (⟨key, index, r'⟩ :: ns)) := by
      show es.Perm (⟨key, index, r'.address⟩ :: _)
      rw [haddress]
      exact hperm
    obtain ⟨ns', hperm', rfl⟩ := exists_nodes hperm₁
    have hdistinct' := distinct_insert hdistinct habsent hperm'
    have hvalue : Row.value view r' = model.insert request_id x none := by
      rw [Row.value, hdata', hhist', hdata, hhist, hmodel.insert_new]
    have hblocks : r'.blocks + (map_blocks p (keyed_rows ns') + (item_blocks Row.blocks ns + F)) =
        held (some p) (keyed_rows ns') + (item_blocks Row.blocks ns' + F) := by
      rw [item_blocks_perm hperm', item_blocks_cons, held_some]
      abel
    rw [hblocks]
    refine hg (some p) 1 ns' hdistinct' (by simp) (fun q hq => by rw [hp q hq]) (.inl ⟨?_, ?_⟩)
    · rw [hnone, ← hvalue, look_insert hdistinct habsent hperm']
    · rw [hnone]
      rfl
  | inr hplace =>
    obtain ⟨l₁, n, l₂, rfl, hn, hfirst⟩ := hplace
    have hlook {V : Type} (v : Row D → V) : look v (l₁ ++ n :: l₂) index = some (v n.item) := by
      rw [look_place hdistinct, if_pos hn.symm]
    rw [hlook]
    dsimp only
    let others : Blocks (Cell D) :=
      held map (keyed_rows (l₁ ++ n :: l₂)) + (item_blocks Row.blocks (l₁ ++ l₂) + F)
    have hrow : own = n.item.blocks + others := by
      rw [hown, item_blocks_place]
      simp only [others]
      abel
    rw [bind_assoc]
    refine runs_load_row (hrow ▸ Multiset.mem_add.mpr (.inl row_mem_blocks)) ?_
    dsimp only
    rw [bind_assoc]
    refine runs_store_row hrow ?_
    rw [bind_assoc]
    refine runs_update_row lib code (r := { n.item with data := code.old x n.item.data }) rfl ?_
    intro r' haddress hdata hhist
    rw [pure_bind]
    have hkeyed : keyed_rows (l₁ ++ { n with item := r' } :: l₂) = keyed_rows (l₁ ++ n :: l₂) :=
      keyed_replace haddress
    have hvalue : Row.value view r' = model.insert request_id x (some (Row.value view n.item)) := by
      rw [Row.value, hdata, hhist]
      exact hmodel.insert_old _ _ _ _
    have hblocks : r'.blocks + others = held map (keyed_rows (l₁ ++ { n with item := r' } :: l₂)) +
        (item_blocks Row.blocks (l₁ ++ { n with item := r' } :: l₂) + F) := by
      rw [hkeyed, item_blocks_place]
      simp only [others]
      abel
    rw [hblocks]
    refine hg map 0 _ (distinct_replace hdistinct) (fun h => absurd (hnull h) (by simp)) (fun _ h => h)
      (.inl ⟨?_, ?_⟩)
    · rw [hlook, ← hvalue, look_replace hdistinct, hn]
    · rw [hlook]
      rfl

end adding

/-! ## Section 5: Taking a sample out -/

section deleting
variable {R : Type} {view : D → Histogram → R} {model : RowModel X R} {own F : Blocks (Cell D)}
  {post : α → Blocks (Cell D) → Prop} {ns l₁ l₂ : List (Node (Row D))} {n : Node (Row D)} {index : Bytes}
  {request_id : Nat} {x : X}

/-- The rows after a sample was taken out, and the number of rows that are gone. -/
def RowRemoved (model : RowModel X R) (index : Bytes) (request_id : Nat) (x : X) (rows rows' : Bytes → Option R)
    (gone : Int) : Prop :=
  match rows index with
  | none => rows' = rows ∧ gone = 0
  | some row => rows' = Function.update rows index (model.remove request_id x row) ∧
    gone = if (model.remove request_id x row).isNone then 1 else 0

theorem runs_free {p : Option Nat} {v : Nat → Cell D} {g : Unit → MapProgram D α}
    (hown : own = (p.elim 0 fun p => {(p, v p)}) + F) (hg : Runs (g ()) F post terminates) :
    Runs (free p >>= g) own post terminates := by
  cases p with
  | none =>
    rw [Option.elim_none, zero_add] at hown
    rw [hown]
    exact hg
  | some p => exact runs_release hown hg

theorem runs_lmap_destroy {h : Option (Nat × Histogram)} {g : Unit → MapProgram D α}
    (hown : own = histogram_blocks h + F) (hg : Runs (g ()) F post terminates) :
    Runs (pinba_lmap_destroy (h.map Prod.fst) >>= g) own post terminates := by
  cases h with
  | none => exact runs_free (v := fun _ => .array) hown hg
  | some h => exact runs_free (v := fun _ => .pinba_lmap h.2) hown hg

/-- All blocks of a row go, whenever `unlink` does its part. -/
theorem runs_give_up {r : Row D} {unlink : MapProgram D (Option Nat)} {held' : Blocks (Cell D)}
    {mid : Option Nat → Blocks (Cell D) → Prop} {g : Option Nat → MapProgram D α}
    (hunlink : Runs unlink held' mid terminates) (hown : own = r.blocks + (held' + F))
    (hg : ∀ map own', mid map own' → Runs (g map) (own' + F) post terminates) :
    Runs (give_up code r.address (r.histogram_data.map Prod.fst) r.tag_value unlink >>= g) own post terminates := by
  unfold give_up
  cases code.order with
  | unlink_first =>
    have hown' : own = held' + (r.blocks + F) := by
      rw [hown]
      abel
    rw [hown']
    dsimp only
    rw [bind_assoc]
    refine runs_call hunlink fun map own' hmid => ?_
    rw [bind_assoc]
    refine runs_lmap_destroy (h := r.histogram_data)
      (F := {(r.address, r.cell)} + (array_blocks r.tag_value + (own' + F))) ?_ ?_
    · rw [Row.blocks]
      abel
    rw [bind_assoc]
    refine runs_free (v := fun _ => .array) (F := {(r.address, r.cell)} + (own' + F)) (add_left_comm _ _ _) ?_
    rw [bind_assoc]
    refine runs_release rfl ?_
    rw [pure_bind]
    exact hg map own' hmid
  | unlink_between =>
    have hown' : own = histogram_blocks r.histogram_data +
        (held' + ({(r.address, r.cell)} + (array_blocks r.tag_value + F))) := by
      rw [hown, Row.blocks]
      abel
    dsimp only
    rw [bind_assoc]
    refine runs_lmap_destroy hown' ?_
    rw [bind_assoc]
    refine runs_call hunlink fun map own' hmid => ?_
    rw [bind_assoc]
    refine runs_free (v := fun _ => .array) (F := {(r.address, r.cell)} + (own' + F)) ?_ ?_
    · rw [array_blocks]
      abel
    rw [bind_assoc]
    refine runs_release rfl ?_
    rw [pure_bind]
    exact hg map own' hmid
  | unlink_last =>
    dsimp only
    rw [bind_assoc]
    refine runs_lmap_destroy (h := r.histogram_data)
      (F := array_blocks r.tag_value + ({(r.address, r.cell)} + (held' + F))) ?_ ?_
    · rw [hown, Row.blocks]
      abel
    rw [bind_assoc]
    refine runs_free (v := fun _ => .array) rfl ?_
    rw [bind_assoc]
    refine runs_release rfl ?_
    exact runs_call hunlink hg

/-- `more` is what `unlink` needs besides the map of the row. -/
theorem runs_row_delete {map : Option Nat} {unlink : MapProgram D (Option Nat)} (more : Blocks (Cell D))
    (mid : List (Node (Row D)) → Option Nat → Blocks (Cell D) → Prop) {g : Option Nat × Int → MapProgram D α}
    (hmodel : Models code view model) (hdistinct : Distinct ns) (hnull : map = none → ns = [])
    (hown : own = held map (keyed_rows ns) + more + (item_blocks Row.blocks ns + F))
    (hunlink : ∀ l₁ n l₂, ns = l₁ ++ n :: l₂ → n.str = index → (∀ e ∈ l₁, e.str ≠ index) →
      Runs unlink (held map (keyed_rows ns) + more) (mid (l₁ ++ l₂)) terminates)
    (hstay : ∀ ns', Distinct ns' → (map = none → ns' = []) →
      RowRemoved model index request_id x (look (Row.value view) ns) (look (Row.value view) ns') 0 →
      Runs (g (map, 0)) (held map (keyed_rows ns') + more + (item_blocks Row.blocks ns' + F)) post terminates)
    (hgone : ∀ ns' map' own', Distinct ns' → mid ns' map' own' →
      RowRemoved model index request_id x (look (Row.value view) ns) (look (Row.value view) ns') 1 →
      Runs (g (map', 1)) (own' + (item_blocks Row.blocks ns' + F)) post terminates) :
    Runs (row_delete lib code map unlink index request_id x >>= g) own post terminates := by
  unfold row_delete
  rw [bind_assoc]
  refine runs_get hnull (by rw [hown, add_assoc]; exact Multiset.le_add_right _ _) ?_
  cases exists_place ns index with
  | inl habsent =>
    have hnone {V : Type} (v : Row D → V) : look v ns index = none := look_eq_none habsent
    rw [hnone]
    dsimp only
    rw [pure_bind, hown]
    refine hstay ns hdistinct hnull ?_
    unfold RowRemoved
    rw [hnone]
    exact ⟨rfl, rfl⟩
  | inr hplace =>
    obtain ⟨l₁, n, l₂, rfl, hn, hfirst⟩ := hplace
    have hlook {V : Type} (v : Row D → V) : look v (l₁ ++ n :: l₂) index = some (v n.item) := by
      rw [look_place hdistinct, if_pos hn.symm]
    rw [hlook]
    dsimp only
    let left := code.leave request_id n.item.data
    let others : Blocks (Cell D) :=
      held map (keyed_rows (l₁ ++ n :: l₂)) + more + (item_blocks Row.blocks (l₁ ++ l₂) + F)
    have hrow : own = n.item.blocks + others := by
      rw [hown, item_blocks_place]
      simp only [others]
      abel
    rw [bind_assoc]
    refine runs_load_row (hrow ▸ Multiset.mem_add.mpr (.inl row_mem_blocks)) ?_
    dsimp only
    rw [bind_assoc]
    refine runs_store_row hrow ?_
    by_cases hlast : code.last left = true
    · -- the request was the last one
      have hremove : model.remove request_id x (Row.value view n.item) = none := hmodel.remove_last _ _ _ _ hlast
      rw [if_pos hlast, bind_assoc]
      refine runs_give_up code (r := { n.item with data := left }) (hunlink l₁ n l₂ rfl hn hfirst) rfl ?_
      intro map' own' hmid
      rw [pure_bind]
      refine hgone (l₁ ++ l₂) map' own' (distinct_place hdistinct) hmid ?_
      unfold RowRemoved
      rw [hlook]
      refine ⟨?_, ?_⟩
      · rw [hremove, look_remove hdistinct, hn]
      · rw [hremove]
        rfl
    · have hlast' : code.last left = false := by simpa using hlast
      have hremove := hmodel.remove_stay request_id x n.item.data n.item.histogram hlast'
      rw [if_neg hlast, bind_assoc]
      refine runs_store_row (r := { n.item with data := left }) rfl ?_
      rw [bind_assoc]
      refine runs_update_histogram lib (r := { n.item with data := code.stay x left }) rfl ?_
      intro r' haddress hdata hhist
      rw [pure_bind]
      have hkeyed : keyed_rows (l₁ ++ { n with item := r' } :: l₂) = keyed_rows (l₁ ++ n :: l₂) :=
        keyed_replace haddress
      have hvalue : model.remove request_id x (Row.value view n.item) = some (Row.value view r') := by
        rw [Row.value, Row.value, hdata, hhist]
        exact hremove
      have hblocks : r'.blocks + others = held map (keyed_rows (l₁ ++ { n with item := r' } :: l₂)) + more +
          (item_blocks Row.blocks (l₁ ++ { n with item := r' } :: l₂) + F) := by
        rw [hkeyed, item_blocks_place]
        simp only [others]
        abel
      rw [hblocks]
      refine hstay _ (distinct_replace hdistinct) (fun h => absurd (hnull h) (by simp)) ?_
      unfold RowRemoved
      rw [hlook]
      refine ⟨?_, ?_⟩
      · rw [hvalue, look_replace hdistinct, hn]
      · rw [hvalue]
        rfl

end deleting

end RowMemory

end PinbaEngine
