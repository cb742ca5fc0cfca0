import PinbaEngine.MapMemory
import PinbaEngine.Reports.Rtag
import PinbaEngine.Reports.Tag

/-! # Report rows in memory

    The update functions of `data.cc` and of the base reports once more, now down to the
    blocks: a row is allocated, linked under its key, finds its histogram on demand, and
    is given up with the last request. Nested kinds keep their rows in maps per script or
    host name that are made and destroyed on the way.

    33 pairs of functions share this code. They differ in what they store and in the
    order in which they give up a row, see `RowCode`; which rows a request belongs to is
    taken from the value-level models of `PinbaEngine.Reports`.
-/

namespace PinbaEngine

namespace RowMemory

open BlockMemory MapMemory

/-! ## Section 1: Rows -/

/-- When a row is taken out of its map. -/
inductive RemovalOrder where
  | unlink_first
  /-- After its histogram was destroyed. -/
  | unlink_between
  /-- After it was freed. -/
  | unlink_last

/-- What differs between the update functions, for samples `X` and rows with the fields `D`. -/
structure RowCode (X D : Type) where
  nested : Bool
  order : RemovalOrder
  /-- Rows have an array `tag_value`. -/
  tag_value : Bool
  /-- The result of `calloc` is checked. -/
  calloc_check : Bool
  /-- The histogram is made with the row. -/
  lmap_create : Bool
  buckets : BucketChoice
  time : X → Timeval
  count : X → Nat
  /-- The fields of a new row, and the changes to an old one. -/
  fresh : Nat → X → D
  old : X → D → D
  /-- The changes to both. -/
  both : Nat → X → D → D
  /-- Count the request out. -/
  leave : Nat → D → D
  /-- No other request is left. -/
  last : D → Bool
  stay : X → D → D

/-- The blocks of a row with their addresses. -/
structure Row (D : Type) where
  address : Nat
  data : D
  histogram_data : Option (Nat × Histogram)
  tag_value : Option Nat

variable {X D α : Type}

def histogram_blocks (h : Option (Nat × Histogram)) : Blocks (Cell D) :=
  h.elim 0 fun h => {(h.1, .pinba_lmap h.2)}

def array_blocks (p : Option Nat) : Blocks (Cell D) := p.elim 0 fun p => {(p, .array)}

namespace Row

def cell (r : Row D) : Cell D := .row r.data (r.histogram_data.map Prod.fst) r.tag_value

def blocks (r : Row D) : Blocks (Cell D) :=
  {(r.address, r.cell)} + (histogram_blocks r.histogram_data + array_blocks r.tag_value)

/-- A null pointer is an empty histogram. -/
def histogram (r : Row D) : Histogram := r.histogram_data.elim ∅ Prod.snd

end Row

variable (lib : MapLibrary D) (code : RowCode X D)

def load_row (p : Nat) : MapProgram D (D × Option Nat × Option Nat) := do
  match ← load p with
  | .row data histogram_data tag_value => return (data, histogram_data, tag_value)
  | _ => undefined

def load_lmap (p : Nat) : MapProgram D Histogram := do
  match ← load p with
  | .pinba_lmap contents => return contents
  | _ => undefined

/-- `pinba_lmap_create`. -/
def pinba_lmap_create : MapProgram D Nat := do
  match ← malloc lib.new (.pinba_lmap ∅) with
  | none => throw .bad_alloc
  | some map => return map

/-- `pinba_lmap_destroy`. -/
def pinba_lmap_destroy : Option Nat → MapProgram D Unit := free

/-- `pinba_lmap_get`; a missing entry reads as null. -/
def pinba_lmap_get (map_report : Option Nat) (index : Nat) : MapProgram D Int :=
  match map_report with
  | none => return 0
  | some map => do return ((← load_lmap map).lookup index).getD 0

/-- `pinba_lmap_delete`; its result is not used. -/
def pinba_lmap_delete (map_report : Option Nat) (index : Nat) : MapProgram D Unit :=
  match map_report with
  | none => return ()
  | some map => do store map (.pinba_lmap ((← load_lmap map).erase index))

/-- `hash_map[index] = value`. -/
def pinba_lmap_data_add (map index : Nat) (value : Int) : MapProgram D Unit := do
  let contents ← load_lmap map
  if index ∈ contents then store map (.pinba_lmap (contents.insert index value))
  else if ← ask lib.has_node then store map (.pinba_lmap (contents.insert index value))
  else throw .bad_alloc

/-- `pinba_lmap_add`. -/
def pinba_lmap_add (map_report : Option Nat) (index : Nat) (value : Int) : MapProgram D Nat := do
  let map ← map_report.elim (pinba_lmap_create lib) pure
  pinba_lmap_data_add lib map index value
  return map

theorem pinba_lmap_add_some (map index : Nat) (value : Int) : pinba_lmap_add lib (some map) index value =
    pinba_lmap_data_add lib map index value >>= fun _ => pure map := by
  rw [pinba_lmap_add, Option.elim_some, pure_bind]

/-- `pinba_update_histogram` for the row at `p`. -/
def update_histogram (report : BucketChoice) (p : Nat) (time : Timeval) (add : Int) :
    MapProgram D Unit := do
  let (data, histogram_data, tag_value) ← load_row p
  let slot_num := report.slot time add.natAbs
  let value := (← pinba_lmap_get histogram_data slot_num) + add
  if value = 0 then pinba_lmap_delete histogram_data slot_num
  else
    let map ← pinba_lmap_add lib histogram_data slot_num value
    store p (.row data (some map) tag_value)

section rules
variable {own F : Blocks (Cell D)} {post : α → Blocks (Cell D) → Prop}

/-- Nobody catches `std::bad_alloc` below the update functions: the process ends. -/
def terminates : Thrown → Blocks (Cell D) → Prop := fun _ _ => True

theorem runs_load_row {r : Row D} {g : D × Option Nat × Option Nat → MapProgram D α}
    (hrow : (r.address, r.cell) ∈ own)
    (hg : Runs (g (r.data, r.histogram_data.map Prod.fst, r.tag_value)) own post terminates) :
    Runs (load_row r.address >>= g) own post terminates := by
  unfold load_row
  rw [bind_assoc]
  refine runs_load hrow ?_
  rw [Row.cell, pure_bind]
  exact hg

theorem runs_load_lmap {p : Nat} {contents : Histogram} {g : Histogram → MapProgram D α}
    (hmap : (p, .pinba_lmap contents) ∈ own) (hg : Runs (g contents) own post terminates) :
    Runs (load_lmap p >>= g) own post terminates := by
  unfold load_lmap
  rw [bind_assoc]
  refine runs_load hmap ?_
  rw [pure_bind]
  exact hg

theorem runs_lmap_create {g : Nat → MapProgram D α}
    (hg : ∀ map, Runs (g map) ({(map, .pinba_lmap ∅)} + own) post terminates) :
    Runs (pinba_lmap_create lib >>= g) own post terminates := by
  unfold pinba_lmap_create
  rw [bind_assoc]
  refine runs_malloc (fun _ => runs_throw_bind trivial) fun map => ?_
  rw [pure_bind]
  exact hg map

theorem runs_lmap_data_add {p index : Nat} {value : Int} {contents : Histogram} {g : Unit → MapProgram D α}
    (hown : own = {(p, .pinba_lmap contents)} + F)
    (hg : Runs (g ()) ({(p, .pinba_lmap (contents.insert index value))} + F) post terminates) :
    Runs (pinba_lmap_data_add lib p index value >>= g) own post terminates := by
  have hadd : Runs (store p (.pinba_lmap (contents.insert index value)) >>= g) own post terminates :=
    runs_store hown hg
  unfold pinba_lmap_data_add
  rw [bind_assoc]
  have hmem : (p, Cell.pinba_lmap contents) ∈ own := by
    rw [hown]
    exact Multiset.mem_add.mpr (.inl (Multiset.mem_singleton_self _))
  refine runs_load_lmap hmem ?_
  · split
    · exact hadd
    · rw [bind_assoc]
      refine runs_ask fun node => ?_
      cases node with
      | true => exact hadd
      | false => exact runs_throw_bind trivial

/-- The histogram of a row takes a sample in or out. -/
theorem runs_update_histogram {report : BucketChoice} {r : Row D} {time : Timeval} {add : Int}
    {g : Unit → MapProgram D α} (hown : own = r.blocks + F)
    (hg : ∀ r' : Row D, r'.address = r.address → r'.data = r.data →
      r'.histogram = pinba_update_histogram report r.histogram time add →
      Runs (g ()) (r'.blocks + F) post terminates) :
    Runs (update_histogram lib report r.address time add >>= g) own post terminates := by
  obtain ⟨address, data, histogram_data, tag_value⟩ := r
  let slot_num := report.slot time add.natAbs
  have hrow : (address, Cell.row data (histogram_data.map Prod.fst) tag_value) ∈ own := by
    rw [hown, Row.blocks, add_assoc]
    exact Multiset.mem_add.mpr (.inl (Multiset.mem_singleton_self _))
  unfold update_histogram
  rw [bind_assoc]
  refine runs_load_row (r := ⟨address, data, histogram_data, tag_value⟩) hrow ?_
  dsimp only
  rw [bind_assoc]
  cases histogram_data with
  | none =>
    show Runs (pure 0 >>= _) _ _ _
    rw [pure_bind]
    by_cases hvalue : 0 + add = 0
    · rw [if_pos hvalue]
      show Runs (g ()) own post terminates
      rw [hown]
      exact hg _ rfl rfl (if_pos hvalue).symm
    · rw [if_neg hvalue]
      show Runs (((pinba_lmap_create lib >>= fun map => pinba_lmap_data_add lib map slot_num (0 + add) >>= _)
        >>= _) >>= _) _ _ _
      rw [bind_assoc, bind_assoc]
      refine runs_lmap_create lib fun h => ?_
      rw [bind_assoc]
      refine runs_lmap_data_add lib rfl ?_
      refine runs_store (F := {(h, .pinba_lmap ((∅ : Histogram).insert slot_num (0 + add)))} +
        (array_blocks tag_value + F)) (v := .row data none tag_value) ?_ ?_
      · rw [hown, Row.blocks, Row.cell, histogram_blocks]
        simp only [Option.elim_none, Option.map_none, zero_add]
        abel
      refine Eq.mp ?_ (hg ⟨address, data, some (h, (∅ : Histogram).insert slot_num (0 + add)), tag_value⟩
        rfl rfl (if_neg hvalue).symm)
      rw [Row.blocks, Row.cell, histogram_blocks]
      simp only [Option.elim_some, Option.map_some, add_assoc]
  | some h =>
    obtain ⟨h, contents⟩ := h
    let others : Blocks (Cell D) := {(address, .row data (some h) tag_value)} + (array_blocks tag_value + F)
    have hlmap : own = {(h, .pinba_lmap contents)} + others := by
      rw [hown, Row.blocks, Row.cell, histogram_blocks]
      simp only [Option.elim_some, Option.map_some, others]
      abel
    have hblocks (contents' : Histogram) : (Row.mk address data (some (h, contents')) tag_value).blocks + F =
        {(h, .pinba_lmap contents')} + others := by
      rw [Row.blocks, Row.cell, histogram_blocks]
      simp only [Option.elim_some, Option.map_some, others]
      abel
    have hmem : (h, Cell.pinba_lmap contents) ∈ own := by
      rw [hlmap]
      exact Multiset.mem_add.mpr (.inl (Multiset.mem_singleton_self _))
    show Runs ((load_lmap h >>= _) >>= _) _ _ _
    rw [bind_assoc]
    refine runs_load_lmap hmem ?_
    rw [pure_bind]
    by_cases hvalue : (contents.lookup slot_num).getD 0 + add = 0
    · rw [if_pos hvalue]
      show Runs ((load_lmap h >>= _) >>= _) _ _ _
      rw [bind_assoc]
      refine runs_load_lmap hmem (runs_store hlmap ?_)
      rw [← hblocks]
      exact hg _ rfl rfl (if_pos hvalue).symm
    · rw [if_neg hvalue]
      rw [Option.map_some, pinba_lmap_add_some, bind_assoc, bind_assoc]
      refine runs_lmap_data_add lib hlmap ?_
      let contents' := contents.insert slot_num ((contents.lookup slot_num).getD 0 + add)
      refine runs_store (v := .row data (some h) tag_value) (F := {(h, .pinba_lmap contents')} +
        (array_blocks tag_value + F)) (by simp only [others]; abel) ?_
      refine Eq.mp ?_ (hg ⟨address, data, some (h, contents'), tag_value⟩ rfl rfl
        (if_neg hvalue).symm)
      rw [hblocks]
      simp only [others]
      rw [add_left_comm]

end rules

/-! ## Section 2: Update functions -/

/-- Allocate a row; without its array it is freed again. -/
def calloc_row (request_id : Nat) (x : X) : MapProgram D (Option Nat) := do
  match ← malloc lib.calloc (.row (code.fresh request_id x) none none) with
  | none => if code.calloc_check then return none else undefined
  | some p =>
    if code.tag_value then
      match ← malloc lib.calloc .array with
      | none =>
        release p
        return none
      | some tag_value =>
        store p (.row (code.fresh request_id x) none (some tag_value))
        return some p
    else if code.lmap_create then
      store p (.row (code.fresh request_id x) (some (← pinba_lmap_create lib)) none)
      return some p
    else return some p

/-- What happens to a new row and to an old one. -/
def update_row (p request_id : Nat) (x : X) : MapProgram D Unit := do
  let (data, histogram_data, tag_value) ← load_row p
  store p (.row (code.both request_id x data) histogram_data tag_value)
  update_histogram lib code.buckets p (code.time x) (code.count x)

/-- Add a sample to the row at `index`: the map then, and how many rows are new. -/
def row_add (map : Option Nat) (index : Bytes) (request_id : Nat) (x : X) :
    MapProgram D (Option Nat × Int) := do
  match ← pinba_map_get map index with
  | some p =>
    let (data, histogram_data, tag_value) ← load_row p
    store p (.row (code.old x data) histogram_data tag_value)
    update_row lib code p request_id x
    return (map, 0)
  | none =>
    match ← calloc_row lib code request_id x with
    | none => return (map, 0)
    | some p =>
      let map ← pinba_map_add lib map index p
      update_row lib code p request_id x
      return (some map, 1)

/-- Free a row, and take it out of its map in the order of the kind. -/
def give_up (p : Nat) (histogram_data tag_value : Option Nat) (unlink : MapProgram D (Option Nat)) :
    MapProgram D (Option Nat) := do
  match code.order with
  | .unlink_first =>
    let map ← unlink
    pinba_lmap_destroy histogram_data
    free tag_value
    release p
    return map
  | .unlink_between =>
    pinba_lmap_destroy histogram_data
    let map ← unlink
    free tag_value
    release p
    return map
  | .unlink_last =>
    pinba_lmap_destroy histogram_data
    free tag_value
    release p
    unlink

/-- Take a sample out of the row at `index`: the map then, and how many rows are gone. -/
def row_delete (map : Option Nat) (unlink : MapProgram D (Option Nat)) (index : Bytes) (request_id : Nat)
    (x : X) : MapProgram D (Option Nat × Int) := do
  match ← pinba_map_get map index with
  | none => return (map, 0)
  | some p =>
    let (data, histogram_data, tag_value) ← load_row p
    let data := code.leave request_id data
    store p (.row data histogram_data tag_value)
    if code.last data then return (← give_up code p histogram_data tag_value unlink, 1)
    else
      store p (.row (code.stay x data) histogram_data tag_value)
      update_histogram lib code.buckets p (code.time x) (-(code.count x : Int))
      return (map, 0)

/-- `report->results` and `report->std.results_cnt`. -/
structure ReportRows where
  results : Option Nat
  results_cnt : Int

/-- The map for a script or a host name, which is made if there is none. -/
def script_map (results current : Option Nat) (name : Bytes) : MapProgram D (Option Nat × Nat) :=
  match current with
  | some map => return (results, map)
  | none => do
    match ← pinba_map_get results name with
    | some map => return (results, map)
    | none =>
      let map ← pinba_map_create lib
      return (some (← pinba_map_add lib results name map), map)

/-- The samples of a request with the keys of their rows below `name`. -/
def add_samples (name : Bytes) (request_id : Nat) :
    List (Bytes × X) → ReportRows → Option Nat → MapProgram D ReportRows
  | [], report, _ => return report
  | (index, x) :: samples, report, current =>
    if code.nested then do
      let (results, map) ← script_map lib report.results current name
      let (_, added) ← row_add lib code (some map) index request_id x
      add_samples name request_id samples ⟨results, report.results_cnt + added⟩ (some map)
    else do
      let (results, added) ← row_add lib code report.results index request_id x
      add_samples name request_id samples ⟨results, report.results_cnt + added⟩ none

/-- `pinba_map_delete` on the map of a script, which goes with its last row. -/
def unlink_below (results map : Option Nat) (name index : Bytes) : MapProgram D (Option Nat) := do
  if (← pinba_map_delete map index) < 0 then
    pinba_map_destroy map
    let _ ← pinba_map_delete results name
    return none
  else return map

def unlink_flat (results : Option Nat) (index : Bytes) : MapProgram D (Option Nat) := do
  let _ ← pinba_map_delete results index
  return results

def delete_samples (name : Bytes) (request_id : Nat) :
    List (Bytes × X) → ReportRows → Option Nat → MapProgram D ReportRows
  | [], report, _ => return report
  | (index, x) :: samples, report, current =>
    if code.nested then do
      let (map, gone) ← row_delete lib code current (unlink_below report.results current name index) index
        request_id x
      delete_samples name request_id samples { report with results_cnt := report.results_cnt - gone } map
    else do
      let (_, gone) ← row_delete lib code report.results (unlink_flat report.results index) index request_id x
      delete_samples name request_id samples { report with results_cnt := report.results_cnt - gone } none

/-- An add function, after the samples were selected. -/
def add_request (name : Bytes) (request_id : Nat) (samples : List (Bytes × X)) (report : ReportRows) :
    MapProgram D ReportRows :=
  add_samples lib code name request_id samples report none

/-- A delete function. The nested kinds return if there is no map for the name. -/
def delete_request (name : Bytes) (request_id : Nat) (samples : List (Bytes × X)) (report : ReportRows) :
    MapProgram D ReportRows :=
  if code.nested then do
    match ← pinba_map_get report.results name with
    | none => return report
    | some map => delete_samples lib code name request_id samples report (some map)
  else delete_samples lib code name request_id samples report none

end RowMemory

end PinbaEngine
