import PinbaEngine.RowTrees

/-! # The memory of a report over a run

    An update function takes one sample after the other to its row, the nested kinds below
    a map that they look for, make and destroy. The report is its tree at every return,
    with the rows of the value-level tables, through any run of the update functions.
-/

namespace PinbaEngine

namespace RowMemory

open BlockMemory MapMemory

variable {X D R K S : Type}

/-! ## Section 1: Tables -/

section tables
variable (st : KeyedStore K R S)

/-- `Table.insertSample` and `Table.insertOne` in one. -/
def insertRow (ins : X → Option R → R) (t : Table S) (e : K × X) : Table S :=
  let o := st.get t.rows e.1
  { rows := st.set t.rows e.1 (ins e.2 o)
    rowCount := if o.isNone then t.rowCount + 1 else t.rowCount }

/-- `Table.removeSample` and `Table.removeOne` in one. -/
def removeRow (rem : X → R → Option R) (t : Table S) (e : K × X) : Table S :=
  match st.get t.rows e.1 with
  | none => t
  | some d =>
    match rem e.2 d with
    | none => { rows := st.del t.rows e.1, rowCount := t.rowCount - 1 }
    | some d' => { t with rows := st.set t.rows e.1 d' }

variable {st} {ins : X → Option R → R} {rem : X → R → Option R} {t : Table S} {e : K × X} {d d' : R}

theorem get_insertRow [DecidableEq K] : st.get (insertRow st ins t e).rows =
    Function.update (st.get t.rows) e.1 (some (ins e.2 (st.get t.rows e.1))) := by
  funext k
  rw [Function.update_apply]
  split
  · next h =>
    rw [h]
    exact st.get_set_self _ _ _
  · next h => exact st.get_set_ne _ _ _ _ h

theorem rowCount_insertRow : (insertRow st ins t e).rowCount =
    t.rowCount + if (st.get t.rows e.1).isNone then 1 else 0 := by
  show (if _ then _ else _) = _
  split <;> simp

theorem removeRow_of_none (h : st.get t.rows e.1 = none) : removeRow st rem t e = t := by
  unfold removeRow
  rw [h]

theorem removeRow_of_gone (h : st.get t.rows e.1 = some d) (hrem : rem e.2 d = none) :
    removeRow st rem t e = { rows := st.del t.rows e.1, rowCount := t.rowCount - 1 } := by
  unfold removeRow
  simp only [h, hrem]

theorem removeRow_of_stay (h : st.get t.rows e.1 = some d) (hrem : rem e.2 d = some d') :
    removeRow st rem t e = { t with rows := st.set t.rows e.1 d' } := by
  unfold removeRow
  simp only [h, hrem]

theorem get_removeRow [DecidableEq K] (h : st.get t.rows e.1 = some d) :
    st.get (removeRow st rem t e).rows = Function.update (st.get t.rows) e.1 (rem e.2 d) := by
  funext k
  rw [Function.update_apply]
  cases hrem : rem e.2 d with
  | none =>
    rw [removeRow_of_gone h hrem]
    split
    · next hk =>
      rw [hk]
      exact st.get_del_self _ _
    · next hk => exact st.get_del_ne _ _ _ hk
  | some d' =>
    rw [removeRow_of_stay h hrem]
    split
    · next hk =>
      rw [hk]
      exact st.get_set_self _ _ _
    · next hk => exact st.get_set_ne _ _ _ _ hk

theorem rowCount_removeRow (h : st.get t.rows e.1 = some d) : (removeRow st rem t e).rowCount =
    t.rowCount - if (rem e.2 d).isNone then 1 else 0 := by
  cases hrem : rem e.2 d with
  | none =>
    rw [removeRow_of_gone h hrem]
    rfl
  | some d' =>
    rw [removeRow_of_stay h hrem]
    simp

/-- The samples in a table, without some that needed a row and found no memory. -/
inductive AddsAll (lib : MapLibrary D) (st : KeyedStore K R S) (ins : X → Option R → R) :
    List (K × X) → Table S → Table S → Prop where
  | nil {t : Table S} : AddsAll lib st ins [] t t
  | add {e : K × X} {es : List (K × X)} {t t' : Table S} (h : AddsAll lib st ins es (insertRow st ins t e) t') :
    AddsAll lib st ins (e :: es) t t'
  | skip {e : K × X} {es : List (K × X)} {t t' : Table S} (hfail : ∃ m, lib.calloc.answer m = none)
      (hnone : st.get t.rows e.1 = none) (h : AddsAll lib st ins es t t') : AddsAll lib st ins (e :: es) t t'

/-- With memory for every row all samples are added. -/
theorem AddsAll.eq_foldl {lib : MapLibrary D} {es : List (K × X)} {t t' : Table S}
    (hcalloc : ∀ m, lib.calloc.answer m ≠ none) (h : AddsAll lib st ins es t t') :
    t' = es.foldl (insertRow st ins) t := by
  induction h with
  | nil => rfl
  | add _ ih => exact ih
  | skip hfail =>
    obtain ⟨m, hm⟩ := hfail
    exact absurd hm (hcalloc m)

end tables

/-! ## Section 2: Flat reports -/

variable {lib : MapLibrary D} {code : RowCode X D} {view : D → Histogram → R} {model : RowModel X R}

/-- The rows of a flat report. -/
structure FlatTree (report : ReportRows) (ns : List (Node (Row D))) (own : Blocks (Cell D)) : Prop where
  distinct : Distinct ns
  null : report.results = none → ns = []
  blocks : own = held report.results (keyed_rows ns) + item_blocks Row.blocks ns

/-- The table that is in memory. -/
structure Shows (st : KeyedStore K R S) (rows : K → Option R) (report : ReportRows) (t : Table S) : Prop where
  rows : rows = st.get t.rows
  results_cnt : report.results_cnt = t.rowCount

section flat
variable {st : KeyedStore Bytes R S} {own : Blocks (Cell D)} {report : ReportRows} {ns : List (Node (Row D))}
  {t : Table S} {name : Bytes} {request_id : Nat}

theorem shows_added {st : KeyedStore K R S} [DecidableEq K] {rows rows' : K → Option R} {results : Option Nat}
    {added : Int} {e : K × X} (h : Shows st rows report t)
    (hrows : rows' = Function.update rows e.1 (some (model.insert request_id e.2 (rows e.1))))
    (hadded : added = if (rows e.1).isNone then 1 else 0) :
    Shows st rows' ⟨results, report.results_cnt + added⟩ (insertRow st (model.insert request_id) t e) where
  rows := by rw [get_insertRow, hrows, h.rows]
  results_cnt := by rw [rowCount_insertRow, hadded, h.rows, ← h.results_cnt]

theorem shows_removed {st : KeyedStore K R S} [DecidableEq K] {rows rows' : K → Option R} {gone : Int}
    {e : K × X} (h : Shows st rows report t)
    (hremoved : match rows e.1 with
      | none => rows' = rows ∧ gone = 0
      | some row => rows' = Function.update rows e.1 (model.remove request_id e.2 row) ∧
        gone = if (model.remove request_id e.2 row).isNone then 1 else 0) :
    Shows st rows' { report with results_cnt := report.results_cnt - gone }
      (removeRow st (model.remove request_id) t e) := by
  cases hrow : rows e.1 with
  | none =>
    rw [hrow] at hremoved
    obtain ⟨rfl, rfl⟩ := hremoved
    rw [h.rows] at hrow
    rw [removeRow_of_none hrow]
    exact ⟨h.rows, by rw [sub_zero, h.results_cnt]⟩
  | some row =>
    rw [hrow] at hremoved
    obtain ⟨rfl, rfl⟩ := hremoved
    rw [h.rows] at hrow
    exact ⟨by rw [get_removeRow hrow, h.rows], by rw [rowCount_removeRow hrow, h.results_cnt]⟩

theorem runs_add_samples_flat (hlib : Supplied lib code) (hmodel : Models code view model)
    (hflat : code.nested = false) (samples : List (Bytes × X)) (htree : FlatTree report ns own)
    (hshows : Shows st (look (Row.value view) ns) report t) :
    Runs (add_samples lib code name request_id samples report none) own
      (fun report' own' => ∃ ns' t', AddsAll lib st (model.insert request_id) samples t t' ∧
        FlatTree report' ns' own' ∧ Shows st (look (Row.value view) ns') report' t')
      terminates := by
  induction samples generalizing report ns own t with
  | nil => exact runs_pure ⟨ns, t, .nil, htree, hshows⟩
  | cons e samples ih =>
    obtain ⟨index, x⟩ := e
    unfold add_samples
    rw [hflat, if_neg Bool.false_ne_true]
    refine runs_row_add lib code (F := 0) hlib hmodel htree.distinct htree.null
      (by rw [htree.blocks, add_zero]) ?_
    intro results added ns' hdistinct hnull _ hadded
    rw [add_zero]
    have htree' : FlatTree ⟨results, report.results_cnt + added⟩ ns'
        (held results (keyed_rows ns') + item_blocks Row.blocks ns') := ⟨hdistinct, hnull, rfl⟩
    rcases hadded with ⟨hrows, hcount⟩ | ⟨hfail, hnone, hrows, hcount⟩
    · refine runs_mono (ih htree' (shows_added (e := (index, x)) hshows hrows hcount)) ?_ fun _ _ h => h
      rintro report' own' ⟨ns'', t', hadds, h⟩
      exact ⟨ns'', t', .add hadds, h⟩
    · have hshows' : Shows st (look (Row.value view) ns') ⟨results, report.results_cnt + added⟩ t :=
        ⟨by rw [hrows, hshows.rows], by rw [hcount, add_zero, hshows.results_cnt]⟩
      refine runs_mono (ih htree' hshows') ?_ fun _ _ h => h
      rintro report' own' ⟨ns'', t', hadds, h⟩
      exact ⟨ns'', t', .skip hfail (by rw [← hshows.rows]; exact hnone) hadds, h⟩

theorem runs_unlink_flat {results : Option Nat} {l₁ l₂ : List (Node (Row D))} {n : Node (Row D)} {index : Bytes}
    (hnull : results = none → l₁ ++ n :: l₂ = []) (hn : n.str = index) (hfirst : ∀ e ∈ l₁, e.str ≠ index) :
    Runs (unlink_flat results index) (held results (keyed_rows (l₁ ++ n :: l₂)) : Blocks (Cell D))
      (fun _ own' => own' = held results (keyed_rows (l₁ ++ l₂))) terminates := by
  cases results with
  | none => exact absurd (hnull rfl) (by simp)
  | some p =>
    refine runs_delete (F := 0) hfirst hn (add_zero _).symm ?_
    rw [add_zero]
    exact runs_pure rfl

theorem runs_delete_samples_flat (hmodel : Models code view model) (hflat : code.nested = false)
    (samples : List (Bytes × X)) (htree : FlatTree report ns own)
    (hshows : Shows st (look (Row.value view) ns) report t) :
    Runs (delete_samples lib code name request_id samples report none) own
      (fun report' own' => ∃ ns', FlatTree report' ns' own' ∧ Shows st (look (Row.value view) ns') report'
        (samples.foldl (removeRow st (model.remove request_id)) t))
      terminates := by
  induction samples generalizing report ns own t with
  | nil => exact runs_pure ⟨ns, htree, hshows⟩
  | cons e samples ih =>
    obtain ⟨index, x⟩ := e
    unfold delete_samples
    rw [hflat, if_neg Bool.false_ne_true]
    refine runs_row_delete lib code (F := 0) 0
      (fun ns' _ own' => own' = held report.results (keyed_rows ns')) hmodel htree.distinct htree.null
      (by rw [htree.blocks, add_zero, add_zero]) ?_ ?_ ?_
    · rintro l₁ n l₂ rfl hn hfirst
      rw [add_zero]
      exact runs_unlink_flat htree.null hn hfirst
    · intro ns' hdistinct hnull hremoved
      rw [add_zero, add_zero]
      exact ih ⟨hdistinct, hnull, rfl⟩ (shows_removed (e := (index, x)) hshows hremoved)
    · rintro ns' map' _ hdistinct rfl hremoved
      rw [add_zero]
      refine ih ⟨hdistinct, fun hnone => ?_, rfl⟩ (shows_removed (e := (index, x)) hshows hremoved)
      -- only the rows of a map can be given up
      have hnil : ns = [] := htree.null hnone
      rw [hnil] at hremoved
      obtain ⟨-, hgone⟩ := hremoved
      exact absurd hgone (by decide)

end flat

/-! ## Section 3: Nested reports -/

/-- The keys of the maps of a nested report. -/
abbrev keyed_maps (ss : List (Node (Below D))) : List KeyedPointer := ss.map (Node.keyed Below.address)

/-- The maps of a nested report and their rows. -/
structure NestedTree (results : Option Nat) (ss : List (Node (Below D))) (own : Blocks (Cell D)) : Prop where
  distinct : Distinct ss
  inner : ∀ s ∈ ss, Distinct s.item.rows
  null : results = none → ss = []
  blocks : own = held results (keyed_maps ss) + item_blocks Below.blocks ss

def rows_below (view : D → Histogram → R) (ss : List (Node (Below D))) (k : Bytes × Bytes) : Option R :=
  (look Below.rows ss k.1).bind fun ns => look (Row.value view) ns k.2

section nested
variable {st : KeyedStore (Bytes × Bytes) R S} {own : Blocks (Cell D)} {report : ReportRows}
  {ss l₁ l₂ : List (Node (Below D))} {n : Node (Below D)} {t : Table S} {name index : Bytes} {request_id : Nat}
  {results : Option Nat} {α : Type} {post : α → Blocks (Cell D) → Prop}

theorem look_of_place {A V : Type} {l₁ l₂ : List (Node A)} {n : Node A} (v : A → V)
    (h : Distinct (l₁ ++ n :: l₂)) : look v (l₁ ++ n :: l₂) n.str = some (v n.item) := by
  rw [look_place h, if_pos rfl]

theorem rows_below_replace {item : Below D} (h : Distinct (l₁ ++ n :: l₂)) (k : Bytes × Bytes) :
    rows_below view (l₁ ++ { n with item } :: l₂) k =
      if k.1 = n.str then look (Row.value view) item.rows k.2 else rows_below view (l₁ ++ n :: l₂) k := by
  unfold rows_below
  rw [look_replace h, Function.update_apply]
  split <;> rfl

theorem rows_below_remove (h : Distinct (l₁ ++ n :: l₂)) (k : Bytes × Bytes) :
    rows_below view (l₁ ++ l₂) k = if k.1 = n.str then none else rows_below view (l₁ ++ n :: l₂) k := by
  unfold rows_below
  rw [look_remove h, Function.update_apply]
  split <;> rfl

/-- The map of a row next to everything else. -/
theorem NestedTree.focus (h : NestedTree results (l₁ ++ n :: l₂) own) :
    own = held (some n.item.address) (keyed_rows n.item.rows) + held results (keyed_maps (l₁ ++ n :: l₂)) +
      (item_blocks Row.blocks n.item.rows + item_blocks Below.blocks (l₁ ++ l₂)) := by
  rw [h.blocks, item_blocks_place, Below.blocks, tree_blocks, held_some]
  abel

/-- Other rows in a map of a nested report. -/
theorem NestedTree.replace {ns : List (Node (Row D))} (h : NestedTree results (l₁ ++ n :: l₂) own)
    (hdistinct : Distinct ns) : NestedTree results (l₁ ++ { n with item := ⟨n.item.address, ns⟩ } :: l₂)
      (held (some n.item.address) (keyed_rows ns) + held results (keyed_maps (l₁ ++ n :: l₂)) +
        (item_blocks Row.blocks ns + item_blocks Below.blocks (l₁ ++ l₂))) where
  distinct := distinct_replace h.distinct
  inner s hs := by
    rcases List.mem_append.mp hs with hs | hs
    · exact h.inner s (List.mem_append.mpr (.inl hs))
    · rcases List.mem_cons.mp hs with rfl | hs
      · exact hdistinct
      · exact h.inner s (List.mem_append.mpr (.inr (List.mem_cons_of_mem n hs)))
  null hnone := absurd (h.null hnone) (by simp)
  blocks := by
    rw [item_blocks_place, Below.blocks, tree_blocks, held_some,
      show keyed_maps (l₁ ++ { n with item := ⟨n.item.address, ns⟩ } :: l₂) = keyed_maps (l₁ ++ n :: l₂) from
        keyed_replace rfl]
    abel

/-- A map of a nested report is gone. -/
theorem NestedTree.remove (h : NestedTree results (l₁ ++ n :: l₂) own) : NestedTree results (l₁ ++ l₂)
    (held results (keyed_maps (l₁ ++ l₂)) + item_blocks Below.blocks (l₁ ++ l₂)) := by
  refine ⟨distinct_place h.distinct, fun s hs => h.inner s ?_, fun hnone => absurd (h.null hnone) (by simp), rfl⟩
  rcases List.mem_append.mp hs with hs | hs
  · exact List.mem_append.mpr (.inl hs)
  · exact List.mem_append.mpr (.inr (List.mem_cons_of_mem n hs))

/-- The map for a name, wherever it comes from. -/
theorem runs_script_map (view : D → Histogram → R) {current : Option Nat} {g : Option Nat × Nat → MapProgram D α}
    (hlib : ∀ m, lib.strdup.answer m ≠ none) (htree : NestedTree results ss own)
    (hcurrent : ∀ map, current = some map → look Below.address ss name = some map)
    (hg : ∀ results' l₁ n l₂ own', n.str = name → NestedTree results' (l₁ ++ n :: l₂) own' →
      rows_below view (l₁ ++ n :: l₂) = rows_below view ss →
      Runs (g (results', n.item.address)) own' post terminates) :
    Runs (script_map lib results current name >>= g) own post terminates := by
  cases exists_place ss name with
  | inr hplace =>
    obtain ⟨l₁, n, l₂, rfl, rfl, -⟩ := hplace
    have hlook := look_of_place Below.address htree.distinct
    have hfound := hg results l₁ n l₂ own rfl htree rfl
    unfold script_map
    cases current with
    | some map =>
      obtain rfl : n.item.address = map := Option.some.inj (hlook.symm.trans (hcurrent map rfl))
      rw [pure_bind]
      exact hfound
    | none =>
      dsimp only
      rw [bind_assoc]
      refine runs_get htree.null (by rw [htree.blocks]; exact Multiset.le_add_right _ _) ?_
      rw [hlook]
      exact hfound
  | inl habsent =>
    have hnone {V : Type} (v : Below D → V) : look v ss name = none := look_eq_none habsent
    unfold script_map
    cases current with
    | some map =>
      have hmap := hcurrent map rfl
      rw [hnone] at hmap
      cases hmap
    | none =>
      dsimp only
      rw [bind_assoc]
      refine runs_get htree.null (by rw [htree.blocks]; exact Multiset.le_add_right _ _) ?_
      rw [hnone]
      show Runs ((new_map lib >>= _) >>= g) _ _ _
      rw [bind_assoc]
      refine runs_new_map lib trivial fun map => ?_
      rw [bind_assoc]
      refine runs_add lib (F := map_blocks map [] + item_blocks Below.blocks ss) hlib htree.null habsent
        (by rw [htree.blocks]; abel) ?_
      intro p key es hp hperm
      let fresh : Node (Below D) := ⟨key, name, ⟨map, []⟩⟩
      have hperm₁ : es.Perm (keyed_maps (fresh :: ss)) := hperm
      obtain ⟨ss', hperm', rfl⟩ := exists_nodes hperm₁
      have hdistinct : Distinct ss' := distinct_insert htree.distinct habsent hperm'
      have hinsert {V : Type} (v : Below D → V) :
          look v ss' = Function.update (look v ss) name (some (v ⟨map, []⟩)) :=
        look_insert (n := fresh) htree.distinct habsent hperm'
      have htree' : NestedTree (some p) ss'
          (map_blocks p (keyed_maps ss') + (map_blocks map [] + item_blocks Below.blocks ss)) := by
        refine ⟨hdistinct, fun s hs => ?_, by simp, ?_⟩
        · rcases List.mem_cons.mp (hperm'.subset hs) with rfl | hs
          · exact List.nodup_nil
          · exact htree.inner s hs
        · have hfresh : (fresh.item.blocks : Blocks (Cell D)) = map_blocks map [] := by
            rw [Below.blocks, tree_blocks, item_blocks, List.map_nil, List.map_nil, List.sum_nil, add_zero]
          rw [item_blocks_perm hperm', item_blocks_cons, hfresh, held_some]
      have hrows : rows_below view ss' = rows_below view ss := by
        funext k
        unfold rows_below
        rw [hinsert, Function.update_apply]
        split
        · next hk =>
          rw [hk, hnone]
          rfl
        · rfl
      -- the new map is where the name leads
      rcases exists_place ss' name with habsent' | ⟨l₁, n, l₂, rfl, rfl, -⟩
      · exact absurd rfl (habsent' fresh (hperm'.symm.subset List.mem_cons_self))
      have haddress : some n.item.address = some map := by
        rw [← look_of_place Below.address hdistinct, hinsert, Function.update_self]
      rw [pure_bind, ← Option.some.inj haddress]
      rw [← Option.some.inj haddress] at htree'
      exact hg (some p) l₁ n l₂ _ rfl htree' hrows

theorem rows_below_of_place (view : D → Histogram → R) (h : Distinct (l₁ ++ n :: l₂)) (index : Bytes) :
    rows_below view (l₁ ++ n :: l₂) (n.str, index) = look (Row.value view) n.item.rows index := by
  unfold rows_below
  rw [look_of_place Below.rows h]
  rfl

theorem rows_below_update {ns : List (Node (Row D))} {row : Option R} (h : Distinct (l₁ ++ n :: l₂))
    (hrows : look (Row.value view) ns = Function.update (look (Row.value view) n.item.rows) index row) :
    rows_below view (l₁ ++ { n with item := ⟨n.item.address, ns⟩ } :: l₂) =
      Function.update (rows_below view (l₁ ++ n :: l₂)) (n.str, index) row := by
  funext k
  obtain ⟨name', index'⟩ := k
  rw [rows_below_replace h, Function.update_apply]
  by_cases hname : name' = n.str
  · subst hname
    rw [if_pos rfl, hrows, Function.update_apply, rows_below_of_place view h]
    simp
  · rw [if_neg hname, if_neg (fun heq => hname (Prod.mk.inj heq).1)]

theorem runs_add_samples_nested (hlib : Supplied lib code) (hmodel : Models code view model)
    (hnested : code.nested = true) (samples : List (Bytes × X)) {current : Option Nat}
    (hcurrent : ∀ map, current = some map → look Below.address ss name = some map)
    (htree : NestedTree report.results ss own) (hshows : Shows st (rows_below view ss) report t) :
    Runs (add_samples lib code name request_id samples report current) own
      (fun report' own' => ∃ ss' t', AddsAll lib st (model.insert request_id)
          (samples.map fun e => ((name, e.1), e.2)) t t' ∧
        NestedTree report'.results ss' own' ∧ Shows st (rows_below view ss') report' t')
      terminates := by
  induction samples generalizing report ss own t current with
  | nil => exact runs_pure ⟨ss, t, .nil, htree, hshows⟩
  | cons e samples ih =>
    obtain ⟨index, x⟩ := e
    unfold add_samples
    rw [hnested, if_pos rfl]
    refine runs_script_map view hlib.strdup htree hcurrent ?_
    rintro results' l₁ n l₂ own' rfl htree' hrows'
    have hshows' : Shows st (rows_below view (l₁ ++ n :: l₂)) report t := by
      rw [hrows']
      exact hshows
    dsimp only
    refine runs_row_add lib code
      (F := held results' (keyed_maps (l₁ ++ n :: l₂)) + item_blocks Below.blocks (l₁ ++ l₂)) hlib hmodel
      (htree'.inner n (by simp)) (by simp) (by rw [htree'.focus]; abel) ?_
    intro map' added ns' hdistinct _ hmap hadded
    rw [hmap n.item.address rfl]
    have htree'' : NestedTree (ReportRows.results ⟨results', report.results_cnt + added⟩) _ _ :=
      htree'.replace hdistinct
    have hcurrent' : ∀ map, some n.item.address = some map →
        look Below.address (l₁ ++ { n with item := ⟨n.item.address, ns'⟩ } :: l₂) n.str = some map :=
      fun map hmap => by rw [← hmap]; exact look_of_place Below.address htree''.distinct
    have hrow := rows_below_of_place view htree'.distinct index
    have hblocks : held (some n.item.address) (keyed_rows ns') + (item_blocks Row.blocks ns' +
        (held results' (keyed_maps (l₁ ++ n :: l₂)) + item_blocks Below.blocks (l₁ ++ l₂))) =
        held (some n.item.address) (keyed_rows ns') + held results' (keyed_maps (l₁ ++ n :: l₂)) +
          (item_blocks Row.blocks ns' + item_blocks Below.blocks (l₁ ++ l₂)) := by abel
    rw [hblocks]
    rcases hadded with ⟨hrows, hcount⟩ | ⟨hfail, hnone, hrows, hcount⟩
    · rw [← hrow] at hrows hcount
      have hupdate := rows_below_update htree'.distinct hrows
      refine runs_mono (ih hcurrent' htree''
        (shows_added (e := ((n.str, index), x)) hshows' hupdate hcount)) ?_ fun _ _ h => h
      rintro report' own'' ⟨ss', t', hadds, h⟩
      exact ⟨ss', t', .add hadds, h⟩
    · have hsame : rows_below view (l₁ ++ { n with item := ⟨n.item.address, ns'⟩ } :: l₂) =
          rows_below view (l₁ ++ n :: l₂) := by
        funext k
        rw [rows_below_replace htree'.distinct]
        split
        · next hk =>
          obtain ⟨name', index'⟩ := k
          rw [show name' = n.str from hk, rows_below_of_place view htree'.distinct]
          exact congrFun hrows index'
        · rfl
      have hshows'' : Shows st (rows_below view (l₁ ++ { n with item := ⟨n.item.address, ns'⟩ } :: l₂))
          ⟨results', report.results_cnt + added⟩ t :=
        ⟨hsame.trans hshows'.rows, by rw [hcount, add_zero, hshows.results_cnt]⟩
      refine runs_mono (ih hcurrent' htree'' hshows'') ?_
        fun _ _ h => h
      rintro report' own'' ⟨ss', t', hadds, h⟩
      refine ⟨ss', t', .skip hfail ?_ hadds, h⟩
      rw [← hshows'.rows]
      exact hrow.trans hnone

theorem first_of_distinct {A : Type} {l₁ l₂ : List (Node A)} {n : Node A} (h : Distinct (l₁ ++ n :: l₂)) :
    ∀ e ∈ l₁, e.str ≠ n.str := by
  intro e he heq
  rw [Distinct, List.map_append, List.map_cons, List.nodup_append] at h
  exact h.2.2 e.str (List.mem_map_of_mem he) n.str List.mem_cons_self heq

/-- After the last row its map goes, too. -/
def Unlinked (results : Option Nat) (l₁ : List (Node (Below D))) (n : Node (Below D)) (l₂ : List (Node (Below D)))
    (ns : List (Node (Row D))) (map : Option Nat) (own : Blocks (Cell D)) : Prop :=
  if ns = [] then map = none ∧ own = held results (keyed_maps (l₁ ++ l₂))
  else map = some n.item.address ∧
    own = held (some n.item.address) (keyed_rows ns) + held results (keyed_maps (l₁ ++ n :: l₂))

theorem runs_unlink_below {k₁ k₂ : List (Node (Row D))} {row : Node (Row D)}
    (htree : NestedTree results (l₁ ++ n :: l₂) own) (hrow : row.str = index) (hfirst : ∀ e ∈ k₁, e.str ≠ index) :
    Runs (unlink_below results (some n.item.address) n.str index)
      (held (some n.item.address) (keyed_rows (k₁ ++ row :: k₂)) + held results (keyed_maps (l₁ ++ n :: l₂)))
      (Unlinked results l₁ n l₂ (k₁ ++ k₂)) terminates := by
  unfold unlink_below Unlinked
  refine runs_delete (F := held results (keyed_maps (l₁ ++ n :: l₂))) hfirst hrow rfl ?_
  by_cases hlast : k₁ ++ k₂ = []
  · simp only [if_pos hlast]
    rw [if_pos (by decide), hlast, List.map_nil]
    refine runs_destroy rfl ?_
    cases results with
    | none => exact absurd (htree.null rfl) (by simp)
    | some p =>
      refine runs_delete (F := 0) (first_of_distinct htree.distinct) rfl (add_zero _).symm ?_
      rw [add_zero]
      exact runs_pure ⟨rfl, rfl⟩
  · simp only [if_neg hlast]
    rw [if_neg (by decide)]
    exact runs_pure ⟨rfl, rfl⟩

theorem foldl_removeRow_of_none {rem : X → R → Option R} {es : List (K × X)} {st : KeyedStore K R S}
    (h : ∀ e ∈ es, st.get t.rows e.1 = none) : es.foldl (removeRow st rem) t = t := by
  induction es with
  | nil => rfl
  | cons e es ih =>
    rw [List.foldl_cons, removeRow_of_none (h e List.mem_cons_self)]
    exact ih fun e' he' => h e' (List.mem_cons_of_mem e he')

/-- Without a map for the name there are no rows. -/
theorem runs_delete_samples_null (hnested : code.nested = true) (samples : List (Bytes × X)) :
    Runs (delete_samples lib code name request_id samples report none) own
      (fun report' own' => report' = report ∧ own' = own) terminates := by
  induction samples generalizing report with
  | nil => exact runs_pure ⟨rfl, rfl⟩
  | cons e samples ih =>
    obtain ⟨index, x⟩ := e
    unfold delete_samples
    rw [hnested, if_pos rfl]
    show Runs (delete_samples lib code name request_id samples
      { report with results_cnt := report.results_cnt - 0 } none) _ _ _
    rw [sub_zero]
    exact ih

theorem rows_below_empty (h : Distinct (l₁ ++ n :: l₂)) (address : Nat) :
    rows_below view (l₁ ++ { n with item := ⟨address, []⟩ } :: l₂) = rows_below view (l₁ ++ l₂) := by
  funext k
  rw [rows_below_replace h, rows_below_remove h]
  split <;> rfl

theorem removed_below {ns : List (Node (Row D))} {x : X} {gone : Int} (h : Distinct (l₁ ++ n :: l₂))
    (hremoved : RowRemoved model index request_id x (look (Row.value view) n.item.rows)
      (look (Row.value view) ns) gone) :
    match rows_below view (l₁ ++ n :: l₂) (n.str, index) with
    | none => rows_below view (l₁ ++ { n with item := ⟨n.item.address, ns⟩ } :: l₂) =
      rows_below view (l₁ ++ n :: l₂) ∧ gone = 0
    | some row => rows_below view (l₁ ++ { n with item := ⟨n.item.address, ns⟩ } :: l₂) =
      Function.update (rows_below view (l₁ ++ n :: l₂)) (n.str, index) (model.remove request_id x row) ∧
        gone = if (model.remove request_id x row).isNone then 1 else 0 := by
  unfold RowRemoved at hremoved
  have hrow := rows_below_of_place view h index
  cases hlook : look (Row.value view) n.item.rows index with
  | none =>
    rw [hlook] at hremoved hrow
    rw [hrow]
    refine ⟨?_, hremoved.2⟩
    have hsame : look (Row.value view) ns = Function.update (look (Row.value view) n.item.rows) index none := by
      rw [← hlook, Function.update_eq_self]
      exact hremoved.1
    rw [rows_below_update h hsame, ← hrow, Function.update_eq_self]
  | some row =>
    rw [hlook] at hremoved hrow
    rw [hrow]
    exact ⟨rows_below_update h hremoved.1, hremoved.2⟩

theorem runs_delete_samples_nested (hmodel : Models code view model) (hnested : code.nested = true)
    (samples : List (Bytes × X)) (hname : n.str = name) (htree : NestedTree report.results (l₁ ++ n :: l₂) own)
    (hshows : Shows st (rows_below view (l₁ ++ n :: l₂)) report t) :
    Runs (delete_samples lib code name request_id samples report (some n.item.address)) own
      (fun report' own' => ∃ ss', NestedTree report'.results ss' own' ∧ Shows st (rows_below view ss') report'
        ((samples.map fun e => ((name, e.1), e.2)).foldl (removeRow st (model.remove request_id)) t))
      terminates := by
  subst hname
  induction samples generalizing report n own t with
  | nil => exact runs_pure ⟨_, htree, hshows⟩
  | cons e samples ih =>
    obtain ⟨index, x⟩ := e
    unfold delete_samples
    rw [hnested, if_pos rfl]
    have hrow := rows_below_of_place view htree.distinct index
    refine runs_row_delete lib code (F := item_blocks Below.blocks (l₁ ++ l₂))
      (held report.results (keyed_maps (l₁ ++ n :: l₂))) (Unlinked report.results l₁ n l₂) hmodel
      (htree.inner n (by simp)) (by simp) htree.focus ?_ ?_ ?_
    · intro k₁ row k₂ hrows hstr hfirst
      rw [hrows]
      exact runs_unlink_below htree hstr hfirst
    · intro ns' hdistinct _ hremoved
      have hshows' := shows_removed (e := ((n.str, index), x)) hshows (removed_below htree.distinct hremoved)
      exact ih (n := { n with item := ⟨n.item.address, ns'⟩ }) (htree.replace hdistinct) hshows'
    · intro ns' map' own' hdistinct hunlinked hremoved
      have hshows' := shows_removed (e := ((n.str, index), x)) hshows (removed_below htree.distinct hremoved)
      unfold Unlinked at hunlinked
      by_cases hlast : ns' = []
      · -- the map is gone, and so is every row below the name
        rw [if_pos hlast] at hunlinked
        obtain ⟨rfl, rfl⟩ := hunlinked
        subst hlast
        have htree' := htree.remove
        rw [rows_below_empty htree.distinct] at hshows'
        rw [item_blocks_nil, zero_add]
        refine runs_mono (runs_delete_samples_null hnested samples) ?_ fun _ _ h => h
        rintro report' own'' ⟨rfl, rfl⟩
        refine ⟨l₁ ++ l₂, htree', ?_⟩
        rw [List.map_cons, List.foldl_cons, foldl_removeRow_of_none]
        · exact hshows'
        · intro e he
          obtain ⟨e, -, rfl⟩ := List.mem_map.mp he
          rw [← hshows'.rows, rows_below_remove htree.distinct, if_pos rfl]
      · rw [if_neg hlast] at hunlinked
        obtain ⟨rfl, rfl⟩ := hunlinked
        exact ih (n := { n with item := ⟨n.item.address, ns'⟩ }) (htree.replace hdistinct) hshows'

end nested

/-! ## Section 4: Runs -/

/-- A report and its blocks, with the rows and the row count of a table. -/
def InMemory (view : D → Histogram → R) :
    (nested : Bool) → KeyedStore (RowKey nested) R S → ReportRows → Table S → Blocks (Cell D) → Prop
  | false, st, report, t, own => ∃ ns, FlatTree report ns own ∧ Shows st (look (Row.value view) ns) report t
  | true, st, report, t, own =>
    ∃ ss, NestedTree report.results ss own ∧ Shows st (rows_below view ss) report t

/-- A call of an add or a delete function. -/
inductive Update (X : Type) where
  | add (name : Bytes) (request_id : Nat) (samples : List (Bytes × X))
  | delete (name : Bytes) (request_id : Nat) (samples : List (Bytes × X))

/-- The calls one after the other. -/
def update_all (lib : MapLibrary D) (code : RowCode X D) : List (Update X) → ReportRows → MapProgram D ReportRows
  | [], report => return report
  | .add name request_id samples :: updates, report => do
    update_all lib code updates (← add_request lib code name request_id samples report)
  | .delete name request_id samples :: updates, report => do
    update_all lib code updates (← delete_request lib code name request_id samples report)

section runs
variable {nested : Bool} {st : KeyedStore (RowKey nested) R S} {own : Blocks (Cell D)} {report : ReportRows}
  {t : Table S}

def keyed_samples (nested : Bool) (name : Bytes) (samples : List (Bytes × X)) : List (RowKey nested × X) :=
  samples.map fun e => (row_key nested name e.1, e.2)

/-- What the calls make of a table; samples of new rows may be lost. -/
def TableAfter (lib : MapLibrary D) (st : KeyedStore (RowKey nested) R S) (model : RowModel X R) :
    List (Update X) → Table S → Table S → Prop
  | [], t, t' => t' = t
  | .add name request_id samples :: updates, t, t' => ∃ mid,
    AddsAll lib st (model.insert request_id) (keyed_samples nested name samples) t mid ∧
      TableAfter lib st model updates mid t'
  | .delete name request_id samples :: updates, t, t' => TableAfter lib st model updates
    ((keyed_samples nested name samples).foldl (removeRow st (model.remove request_id)) t) t'

theorem runs_add_request (hlib : Supplied lib code) (hmodel : Models code view model)
    (hnested : code.nested = nested) (name : Bytes) (request_id : Nat) (samples : List (Bytes × X))
    (hmemory : InMemory view nested st report t own) :
    Runs (add_request lib code name request_id samples report) own
      (fun report' own' => ∃ t', AddsAll lib st (model.insert request_id) (keyed_samples nested name samples) t t' ∧
        InMemory view nested st report' t' own')
      terminates := by
  cases nested with
  | false =>
    obtain ⟨ns, htree, hshows⟩ := hmemory
    refine runs_mono (runs_add_samples_flat hlib hmodel hnested samples htree hshows) ?_ fun _ _ h => h
    rintro report' own' ⟨ns', t', hadds, htree', hshows'⟩
    have hsamples : keyed_samples false name samples = samples := List.map_id' samples
    exact ⟨t', by rw [hsamples]; exact hadds, ns', htree', hshows'⟩
  | true =>
    obtain ⟨ss, htree, hshows⟩ := hmemory
    refine runs_mono (runs_add_samples_nested hlib hmodel hnested samples (by simp) htree hshows) ?_ fun _ _ h => h
    rintro report' own' ⟨ss', t', hadds, htree', hshows'⟩
    exact ⟨t', hadds, ss', htree', hshows'⟩

theorem runs_delete_request (hmodel : Models code view model) (hnested : code.nested = nested) (name : Bytes)
    (request_id : Nat) (samples : List (Bytes × X)) (hmemory : InMemory view nested st report t own) :
    Runs (delete_request lib code name request_id samples report) own
      (fun report' own' => InMemory view nested st report'
        ((keyed_samples nested name samples).foldl (removeRow st (model.remove request_id)) t) own')
      terminates := by
  unfold delete_request
  cases nested with
  | false =>
    obtain ⟨ns, htree, hshows⟩ := hmemory
    have hsamples : keyed_samples false name samples = samples := List.map_id' samples
    rw [hnested, if_neg Bool.false_ne_true, hsamples]
    refine runs_mono (runs_delete_samples_flat hmodel hnested samples htree hshows) ?_ fun _ _ h => h
    rintro report' own' ⟨ns', h⟩
    exact ⟨ns', h⟩
  | true =>
    obtain ⟨ss, htree, hshows⟩ := hmemory
    rw [hnested, if_pos rfl]
    refine runs_get htree.null (by rw [htree.blocks]; exact Multiset.le_add_right _ _) ?_
    rcases exists_place ss name with habsent | ⟨l₁, n, l₂, rfl, hn, -⟩
    · have hnone {V : Type} (v : Below D → V) : look v ss name = none := look_eq_none habsent
      rw [hnone]
      refine runs_pure ⟨ss, htree, ?_⟩
      rw [foldl_removeRow_of_none]
      · exact hshows
      · intro e he
        obtain ⟨e, -, rfl⟩ := List.mem_map.mp he
        rw [← hshows.rows]
        show (look Below.rows ss name).bind _ = none
        rw [hnone]
        rfl
    · rw [← hn, look_of_place Below.address htree.distinct, hn]
      refine runs_mono (runs_delete_samples_nested hmodel hnested samples hn htree hshows) ?_ fun _ _ h => h
      rintro report' own' ⟨ss', h⟩
      exact ⟨ss', h⟩

/-- Any run of the update functions. -/
theorem runs_update_all (hlib : Supplied lib code) (hmodel : Models code view model)
    (hnested : code.nested = nested) (updates : List (Update X)) (hmemory : InMemory view nested st report t own) :
    Runs (update_all lib code updates report) own
      (fun report' own' => ∃ t', TableAfter lib st model updates t t' ∧ InMemory view nested st report' t' own')
      terminates := by
  induction updates generalizing report t own with
  | nil => exact runs_pure ⟨t, rfl, hmemory⟩
  | cons u updates ih =>
    cases u with
    | add name request_id samples =>
      refine runs_bind (runs_add_request hlib hmodel hnested name request_id samples hmemory) ?_
      rintro report' own' ⟨mid, hadds, hmemory'⟩
      refine runs_mono (ih hmemory') ?_ fun _ _ h => h
      rintro report'' own'' ⟨t', hafter, h⟩
      exact ⟨t', ⟨mid, hadds, hafter⟩, h⟩
    | delete name request_id samples =>
      refine runs_bind (runs_delete_request hmodel hnested name request_id samples hmemory) ?_
      intro report' own' hmemory'
      exact ih hmemory'

theorem inMemory_empty : InMemory view nested st ⟨none, 0⟩ ⟨st.empty, 0⟩ (0 : Blocks (Cell D)) := by
  have hempty : (fun _ => none : RowKey nested → Option R) = st.get st.empty := funext fun k => (st.get_empty k).symm
  cases nested with
  | false => exact ⟨[], ⟨List.nodup_nil, fun _ => rfl, rfl⟩, hempty, rfl⟩
  | true => exact ⟨[], ⟨List.nodup_nil, by simp, fun _ => rfl, rfl⟩, hempty, rfl⟩

end runs

end RowMemory

end PinbaEngine
