import PinbaEngine.Histogram
import PinbaEngine.Lib.BlockMemory
import PinbaEngine.ReportScan

/-! # Maps in memory

    `pinba_map.cc`: a map from strings to pointers over `std::unordered_map`. The map
    owns a copy of every key (`strdup`), the values belong to its callers. Other modules
    work with the contents of a map only; here the blocks are accounted for.

    An iterator is the rest of the entries from its position on. Where a new entry goes,
    and what a rehash does to the order, is left open. `std::bad_alloc` is an exception
    of the program.
-/

namespace PinbaEngine

/-- A block of a map or of a report that keeps its rows in maps. -/
inductive Cell (D : Type) where
  /-- The copy of a key. -/
  | key (str : Bytes)
  /-- A `pinba_map`: the pointers of its entries in iteration order. -/
  | pinba_map (entries : List (Nat × Nat))
  /-- A `pinba_lmap` with a histogram. -/
  | pinba_lmap (contents : Histogram)
  | row (data : D) (histogram_data tag_value : Option Nat)
  /-- The array `tag_value` of a row. -/
  | array

inductive Thrown where
  | bad_alloc

/-- What the maps use of the library. -/
structure MapLibrary (D : Type) where
  calloc : Allocator (Cell D)
  strdup : Allocator (Cell D)
  new : Allocator (Cell D)
  /-- Whether `emplace` finds memory for a node. -/
  has_node : BlockMemory (Cell D) → Bool
  /-- The order of the entries with a new one. -/
  arrange : List (Nat × Nat) → List (Nat × Nat)
  arrange_perm : ∀ entries, (arrange entries).Perm entries

abbrev MapProgram (D α : Type) := MemoryProgram (Cell D) Thrown α

namespace MapMemory

open BlockMemory

variable {D α : Type} (lib : MapLibrary D)

/-! ## Section 1: `pinba_map` -/

def load_key (p : Nat) : MapProgram D Bytes := do
  match ← load p with
  | .key str => return str
  | _ => undefined

def load_map (p : Nat) : MapProgram D (List (Nat × Nat)) := do
  match ← load p with
  | .pinba_map entries => return entries
  | _ => undefined

/-- `new pinba_map`. -/
def new_map : MapProgram D Nat := do
  match ← malloc lib.new (.pinba_map []) with
  | none => throw .bad_alloc
  | some map => return map

/-- `hash_map.find`. -/
def find (index : Bytes) : List (Nat × Nat) → MapProgram D (List (Nat × Nat))
  | [] => return []
  | e :: entries => do
    if (← load_key e.1) = index then return e :: entries else find index entries

/-- The entries in front of an iterator. -/
def before (entries it : List (Nat × Nat)) : List (Nat × Nat) := entries.take (entries.length - it.length)

/-- `hash_map.emplace`, without the key if there is no memory for a node. -/
def emplace (map key value : Nat) : MapProgram D Unit := do
  let entries ← load_map map
  if ← ask lib.has_node then store map (.pinba_map (lib.arrange ((key, value) :: entries))) else throw .bad_alloc

/-- `pinba_map::data_add`; true stands for `0`. -/
def data_add (map : Nat) (index : Bytes) (value : Nat) : MapProgram D Bool := do
  let entries ← load_map map
  match ← find index entries with
  | e :: it =>
    store map (.pinba_map (before entries (e :: it) ++ (e.1, value) :: it))
    return true
  | [] =>
    match ← malloc lib.strdup (.key index) with
    | none => return false
    | some key =>
      handle (emplace lib map key value) fun e => do
        release key
        throw e
      return true

/-- `pinba_map::data_delete`. -/
def data_delete (map : Nat) (index : Bytes) : MapProgram D Unit := do
  let entries ← load_map map
  match ← find index entries with
  | [] => return ()
  | e :: it =>
    store map (.pinba_map (before entries (e :: it) ++ it))
    release e.1

/-- The key and the value that an iterator points to; the key goes to a buffer. -/
def fill_index (buf_size : Nat) : List (Nat × Nat) → MapProgram D (Option (Bytes × Nat))
  | [] => return none
  | e :: _ => do return some (snprintf_s buf_size (← load_key e.1), e.2)

/-- `pinba_map::data_first`. -/
def data_first (map buf_size : Nat) : MapProgram D (Option (Bytes × Nat)) := do
  fill_index buf_size (← load_map map)

/-- `pinba_map::data_next`. -/
def data_next (map : Nat) (index_to_fill : Bytes) (buf_size : Nat) :
    MapProgram D (Option (Bytes × Nat)) := do
  fill_index buf_size (← find index_to_fill (← load_map map)).tail

/-- The loop of `pinba_map::clear`. -/
def clear (map : Nat) : List (Nat × Nat) → MapProgram D Unit
  | [] => return ()
  | e :: it => do
    store map (.pinba_map it)
    release e.1
    clear map it

/-- `pinba_map::data_get`. -/
def data_get (map : Nat) (index : Bytes) : MapProgram D (Option Nat) := do
  return (← find index (← load_map map)).head?.map Prod.snd

/-- `pinba_map_first`. -/
def pinba_map_first (map_report : Option Nat) (buf_size : Nat) : MapProgram D (Option (Bytes × Nat)) :=
  map_report.elim (pure none) fun map => data_first map buf_size

/-- `pinba_map_next`. -/
def pinba_map_next (map_report : Option Nat) (index_to_fill : Bytes) (buf_size : Nat) :
    MapProgram D (Option (Bytes × Nat)) :=
  map_report.elim (pure none) fun map => data_next map index_to_fill buf_size

/-- `pinba_map_get`. -/
def pinba_map_get (map_report : Option Nat) (index : Bytes) : MapProgram D (Option Nat) :=
  map_report.elim (pure none) fun map => data_get map index

/-- `pinba_map_add`; the result of `data_add` is ignored. -/
def pinba_map_add (map_report : Option Nat) (index : Bytes) (value : Nat) : MapProgram D Nat := do
  let map ← map_report.elim (new_map lib) pure
  let _ ← data_add lib map index value
  return map

/-- `pinba_map_create`. -/
def pinba_map_create : MapProgram D Nat := new_map lib

/-- `pinba_map_delete`. -/
def pinba_map_delete (map_report : Option Nat) (index : Bytes) : MapProgram D Int :=
  match map_report with
  | none => return -1
  | some map => do
    data_delete map index
    return if (← load_map map).isEmpty then -1 else 0

/-- `pinba_map_destroy`. -/
def pinba_map_destroy (data : Option Nat) : MapProgram D Unit :=
  match data with
  | none => return ()
  | some map => do
    clear map (← load_map map)
    release map

/-- `pinba_map_count`. -/
def pinba_map_count (map_report : Option Nat) : MapProgram D Nat :=
  match map_report with
  | none => return 0
  | some map => do return (← load_map map).length

/-- The loop of `pinba_map_delete_if`: the entries that were kept, and those ahead. -/
def delete_if_loop (map : Nat) (predicate : Nat → MapProgram D Bool) (kept : List (Nat × Nat)) :
    List (Nat × Nat) → Nat → MapProgram D Nat
  | [], removed => return removed
  | e :: it, removed => do
    if ← predicate e.2 then
      store map (.pinba_map (kept ++ it))
      release e.1
      delete_if_loop map predicate kept it (removed + 1)
    else delete_if_loop map predicate (kept ++ [e]) it removed

/-- `pinba_map_delete_if`. -/
def pinba_map_delete_if (map_report : Option Nat) (predicate : Nat → MapProgram D Bool) :
    MapProgram D Nat :=
  match map_report with
  | none => return 0
  | some map => do delete_if_loop map predicate [] (← load_map map) 0

/-- `pinba_map_try_add`: whether the entry was added, and `*storage`. A map that was made for
    the entry is freed again. -/
def pinba_map_try_add (storage : Option Nat) (index : Bytes) (value : Nat) :
    MapProgram D (Bool × Option Nat) :=
  handle (match storage with
    | some map => do return (← data_add lib map index value, some map)
    | none => do
      let map ← new_map lib
      let added ← handle (data_add lib map index value) fun e => do
        release map
        throw e
      if added then return (true, some map)
      else
        release map
        return (false, none))
    fun _ => return (false, storage)

/-! ## Section 2: The blocks of a map -/

/-- An entry with its key. -/
structure KeyedPointer where
  key : Nat
  str : Bytes
  value : Nat

def KeyedPointer.raw (e : KeyedPointer) : Nat × Nat := (e.key, e.value)

/-- The copies of the keys. -/
def key_blocks (es : List KeyedPointer) : Blocks (Cell D) :=
  (es.map fun e => (e.key, Cell.key e.str) : List (Nat × Cell D))

/-- What a map owns. -/
def map_blocks (map : Nat) (es : List KeyedPointer) : Blocks (Cell D) :=
  {(map, .pinba_map (es.map KeyedPointer.raw))} + key_blocks es

section blocks
variable {es es' : List KeyedPointer} {e : KeyedPointer} {map : Nat} {own : Blocks (Cell D)}

@[simp] theorem key_blocks_nil : (key_blocks [] : Blocks (Cell D)) = 0 := rfl

theorem key_blocks_cons : (key_blocks (e :: es) : Blocks (Cell D)) = {(e.key, .key e.str)} + key_blocks es :=
  rfl

theorem key_blocks_append :
    (key_blocks (es ++ es') : Blocks (Cell D)) = key_blocks es + key_blocks es' := by
  unfold key_blocks
  rw [List.map_append, ← Multiset.coe_add]

theorem key_blocks_perm (h : es'.Perm es) : (key_blocks es' : Blocks (Cell D)) = key_blocks es :=
  Multiset.coe_eq_coe.mpr (h.map _)

/-- The map and its keys are there. -/
def Sees (own : Blocks (Cell D)) (map : Nat) (es : List KeyedPointer) : Prop := map_blocks map es ≤ own

theorem Sees.entries (h : Sees own map es) : (map, .pinba_map (es.map KeyedPointer.raw)) ∈ own :=
  Multiset.mem_of_le h (Multiset.mem_add.mpr (.inl (Multiset.mem_singleton_self _)))

theorem Sees.key (h : Sees own map es) (he : e ∈ es) : (e.key, .key e.str) ∈ own :=
  Multiset.mem_of_le h (Multiset.mem_add.mpr (.inr (Multiset.mem_coe.mpr (List.mem_map_of_mem he))))

theorem sees_self : Sees (map_blocks map es : Blocks (Cell D)) map es := le_refl _

theorem sees_add (F : Blocks (Cell D)) : Sees (map_blocks map es + F) map es :=
  Multiset.le_add_right _ _

end blocks

/-- The entries up to `index`, and from `index` on. -/
def front (index : Bytes) (es : List KeyedPointer) : List KeyedPointer := es.takeWhile (·.str ≠ index)

def back (index : Bytes) (es : List KeyedPointer) : List KeyedPointer := es.dropWhile (·.str ≠ index)

section positions
variable {index : Bytes} {es : List KeyedPointer}

theorem front_append_back : front index es ++ back index es = es := List.takeWhile_append_dropWhile

theorem before_back (index : Bytes) (es : List KeyedPointer) :
    before (es.map KeyedPointer.raw) ((back index es).map KeyedPointer.raw) =
      (front index es).map KeyedPointer.raw := by
  have hlen : (front index es ++ back index es).length = es.length := by rw [front_append_back]
  rw [List.length_append] at hlen
  unfold before
  rw [List.length_map, List.length_map, ← List.map_take]
  have htake : es.take (es.length - (back index es).length) = front index es := calc
    es.take (es.length - (back index es).length)
      = (front index es ++ back index es).take (front index es).length := by
        rw [front_append_back]
        congr 1
        omega
    _ = front index es := List.take_left
  rw [htake]

theorem head?_back : (back index es).head? = es.find? (·.str = index) := by
  unfold back
  induction es with
  | nil => rfl
  | cons e es ih =>
    by_cases h : e.str = index
    · simp [h]
    · simpa [h] using ih

theorem str_of_back {e : KeyedPointer} {it : List KeyedPointer} (h : back index es = e :: it) :
    e.str = index := by
  have hfind : (back index es).head? = es.find? (·.str = index) := head?_back
  rw [h] at hfind
  simpa using List.find?_some hfind.symm

theorem back_eq_nil_iff : back index es = [] ↔ ∀ e ∈ es, e.str ≠ index := by
  simp [back, List.dropWhile_eq_nil_iff]

end positions

/-! ## Section 3: What the functions do -/

section rules
variable {index : Bytes} {es : List KeyedPointer} {map value : Nat} {own F : Blocks (Cell D)}
  {post : α → Blocks (Cell D) → Prop} {thrown : Thrown → Blocks (Cell D) → Prop}

theorem runs_load_key {p : Nat} {str : Bytes} {g : Bytes → MapProgram D α}
    (hkey : (p, .key str) ∈ own) (hg : Runs (g str) own post thrown) :
    Runs (load_key p >>= g) own post thrown := by
  unfold load_key
  rw [bind_assoc]
  refine runs_load hkey ?_
  rw [pure_bind]
  exact hg

theorem runs_load_map {entries : List (Nat × Nat)} {g : List (Nat × Nat) → MapProgram D α}
    (hmap : (map, .pinba_map entries) ∈ own) (hg : Runs (g entries) own post thrown) :
    Runs (load_map map >>= g) own post thrown := by
  unfold load_map
  rw [bind_assoc]
  refine runs_load hmap ?_
  rw [pure_bind]
  exact hg

theorem runs_new_map {g : Nat → MapProgram D α} (hthrow : thrown .bad_alloc own)
    (hg : ∀ map, Runs (g map) (map_blocks map [] + own) post thrown) :
    Runs (new_map lib >>= g) own post thrown := by
  unfold new_map
  rw [bind_assoc]
  refine runs_malloc (fun _ => ?_) fun map => ?_
  · exact runs_throw_bind hthrow
  · rw [pure_bind]
    exact hg map

theorem runs_find {g : List (Nat × Nat) → MapProgram D α}
    (hkeys : ∀ e ∈ es, (e.key, .key e.str) ∈ own)
    (hg : Runs (g ((back index es).map KeyedPointer.raw)) own post thrown) :
    Runs (find index (es.map KeyedPointer.raw) >>= g) own post thrown := by
  induction es with
  | nil =>
    rw [List.map_nil, find, pure_bind]
    exact hg
  | cons e es ih =>
    rw [List.map_cons, find, bind_assoc]
    refine runs_load_key (hkeys e List.mem_cons_self) ?_
    by_cases h : e.str = index
    · rw [if_pos h, pure_bind]
      simpa [back, h] using hg
    · rw [if_neg h]
      refine ih (fun e' he' => hkeys e' (List.mem_cons_of_mem e he')) ?_
      simpa [back, h] using hg

theorem runs_data_get {g : Option Nat → MapProgram D α} (hsees : Sees own map es)
    (hg : Runs (g ((es.find? (·.str = index)).map KeyedPointer.value)) own post thrown) :
    Runs (data_get map index >>= g) own post thrown := by
  unfold data_get
  rw [bind_assoc]
  refine runs_load_map hsees.entries ?_
  rw [bind_assoc]
  refine runs_find (fun e he => hsees.key he) ?_
  rw [pure_bind, List.head?_map, head?_back, Option.map_map]
  exact hg

theorem runs_fill_index {buf_size : Nat} {g : Option (Bytes × Nat) → MapProgram D α}
    (hkeys : ∀ e ∈ es, (e.key, .key e.str) ∈ own)
    (hg : Runs (g (es.head?.map fun e => (snprintf_s buf_size e.str, e.value))) own post thrown) :
    Runs (fill_index buf_size (es.map KeyedPointer.raw) >>= g) own post thrown := by
  cases es with
  | nil =>
    rw [List.map_nil, fill_index, pure_bind]
    exact hg
  | cons e es =>
    rw [List.map_cons, fill_index, bind_assoc]
    refine runs_load_key (hkeys e List.mem_cons_self) ?_
    rw [pure_bind]
    exact hg

theorem runs_data_first {buf_size : Nat} {g : Option (Bytes × Nat) → MapProgram D α}
    (hsees : Sees own map es)
    (hg : Runs (g (es.head?.map fun e => (snprintf_s buf_size e.str, e.value))) own post thrown) :
    Runs (data_first map buf_size >>= g) own post thrown := by
  unfold data_first
  rw [bind_assoc]
  exact runs_load_map hsees.entries (runs_fill_index (fun e he => hsees.key he) hg)

theorem runs_data_next {buf_size : Nat} {g : Option (Bytes × Nat) → MapProgram D α}
    (hsees : Sees own map es)
    (hg : Runs (g ((back index es).tail.head?.map fun e => (snprintf_s buf_size e.str, e.value))) own
      post thrown) :
    Runs (data_next map index buf_size >>= g) own post thrown := by
  unfold data_next
  rw [bind_assoc]
  refine runs_load_map hsees.entries ?_
  rw [bind_assoc]
  refine runs_find (fun e he => hsees.key he) ?_
  rw [← List.map_tail]
  refine runs_fill_index (fun e he => hsees.key ?_) hg
  exact (List.dropWhile_sublist _).subset (List.mem_of_mem_tail he)

/-- A key that is there already keeps its copy. -/
theorem runs_data_add_old {g : Bool → MapProgram D α} {e : KeyedPointer} {it : List KeyedPointer}
    (hback : back index es = e :: it) (hown : own = map_blocks map es + F)
    (hg : Runs (g true) (map_blocks map (front index es ++ { e with value } :: it) + F) post thrown) :
    Runs (data_add lib map index value >>= g) own post thrown := by
  have hsees : Sees own map es := hown ▸ sees_add F
  have hbefore := before_back index es
  unfold data_add
  rw [bind_assoc]
  refine runs_load_map hsees.entries ?_
  rw [bind_assoc]
  refine runs_find (fun e he => hsees.key he) ?_
  rw [hback] at hbefore ⊢
  rw [List.map_cons]
  show Runs ((store map (.pinba_map (before _ (e.raw :: it.map KeyedPointer.raw) ++ _)) >>= _) >>= g) _ _ _
  rw [bind_assoc, ← List.map_cons, hbefore]
  refine runs_store (F := key_blocks es + F) (by rw [hown, map_blocks, add_assoc]) ?_
  rw [pure_bind]
  have hblocks : map_blocks map (front index es ++ { e with value } :: it) + F =
      {(map, .pinba_map ((front index es).map KeyedPointer.raw ++ (e.raw.1, value) ::
        it.map KeyedPointer.raw))} + (key_blocks es + F) := by
    have hkeys : (key_blocks es : Blocks (Cell D)) = key_blocks (front index es ++ e :: it) := by
      rw [← hback, front_append_back]
    rw [map_blocks, hkeys, key_blocks_append, key_blocks_append, key_blocks_cons, key_blocks_cons,
      List.map_append, List.map_cons, add_assoc]
    rfl
  rw [← hblocks]
  exact hg

/-- Entries in another order. -/
theorem exists_arranged (es : List KeyedPointer) : ∃ es' : List KeyedPointer,
    es'.Perm es ∧ es'.map KeyedPointer.raw = lib.arrange (es.map KeyedPointer.raw) := by
  have hperm := lib.arrange_perm (es.map KeyedPointer.raw)
  rw [← congrFun (congrFun (List.eq_map_comp_perm KeyedPointer.raw) _)] at hperm
  obtain ⟨es', hmap, hperm⟩ := hperm
  exact ⟨es', hperm, hmap.symm⟩

/-- The key is in hand already. -/
theorem runs_emplace {g : Unit → MapProgram D α} {e : KeyedPointer}
    (hown : own = map_blocks map es + F) (hthrow : thrown .bad_alloc own)
    (hg : ∀ es' : List KeyedPointer, es'.Perm (e :: es) →
      Runs (g ()) ({(map, .pinba_map (es'.map KeyedPointer.raw))} + (key_blocks es + F)) post thrown) :
    Runs (emplace lib map e.key e.value >>= g) own post thrown := by
  have hsees : Sees own map es := hown ▸ sees_add F
  obtain ⟨es', hperm, hraw⟩ := exists_arranged lib (e :: es)
  unfold emplace
  rw [bind_assoc]
  refine runs_load_map hsees.entries ?_
  rw [bind_assoc]
  refine runs_ask fun node => ?_
  cases node
  case false => exact runs_throw_bind hthrow
  case true =>
    show Runs (store map (.pinba_map (lib.arrange ((e :: es).map KeyedPointer.raw))) >>= g) _ _ _
    rw [← hraw]
    exact runs_store (by rw [hown, map_blocks, add_assoc]) (hg es' hperm)

/-- A new key is copied. Without memory nothing changes. -/
theorem runs_data_add_new {g : Bool → MapProgram D α} (habsent : ∀ e ∈ es, e.str ≠ index)
    (hown : own = map_blocks map es + F)
    (hfail : (∃ m, lib.strdup.answer m = none) → Runs (g false) own post thrown)
    (hthrow : thrown .bad_alloc own)
    (hg : ∀ key es', es'.Perm (⟨key, index, value⟩ :: es) →
      Runs (g true) (map_blocks map es' + F) post thrown) :
    Runs (data_add lib map index value >>= g) own post thrown := by
  have hsees : Sees own map es := hown ▸ sees_add F
  unfold data_add
  rw [bind_assoc]
  refine runs_load_map hsees.entries ?_
  rw [bind_assoc]
  refine runs_find (fun e he => hsees.key he) ?_
  rw [back_eq_nil_iff.mpr habsent, List.map_nil]
  show Runs ((malloc lib.strdup (.key index) >>= _) >>= g) _ _ _
  rw [bind_assoc]
  refine runs_malloc (fun h => by simpa using hfail h) fun key => ?_
  dsimp only
  rw [bind_assoc]
  let e : KeyedPointer := ⟨key, index, value⟩
  have hemplace : Runs (emplace lib map e.key e.value) ({(key, Cell.key index)} + own)
      (fun _ own' => ∃ es' : List KeyedPointer, es'.Perm (e :: es) ∧ own' = map_blocks map es' + F)
      fun _ own' => own' = {(key, Cell.key index)} + own := by
    rw [← bind_pure (emplace lib map e.key e.value)]
    refine runs_emplace (F := {(key, Cell.key index)} + F) lib
      (by rw [hown]; abel) rfl fun es' hperm => ?_
    refine runs_pure ⟨es', hperm, ?_⟩
    rw [map_blocks, key_blocks_perm hperm, key_blocks_cons]
    show _ = _ + ({(key, Cell.key index)} + _) + _
    abel
  refine runs_bind (runs_handle _ hemplace fun thrown' own' hown' => ?_) fun _ own' hadded => ?_
  · exact runs_release hown' (runs_throw (by cases thrown'; exact hthrow))
  · obtain ⟨es', hperm, rfl⟩ := hadded
    rw [pure_bind]
    exact hg key es' hperm

/-- The entry with its copy of the key goes. -/
theorem runs_data_delete {g : Unit → MapProgram D α} (hown : own = map_blocks map es + F)
    (hg : Runs (g ()) (map_blocks map (front index es ++ (back index es).tail) + F) post thrown) :
    Runs (data_delete map index >>= g) own post thrown := by
  have hsees : Sees own map es := hown ▸ sees_add F
  have hbefore := before_back index es
  have hsplit : front index es ++ back index es = es := front_append_back
  unfold data_delete
  rw [bind_assoc]
  refine runs_load_map hsees.entries ?_
  rw [bind_assoc]
  refine runs_find (fun e he => hsees.key he) ?_
  cases hback : back index es with
  | nil =>
    rw [hback, List.append_nil] at hsplit
    rw [hback, List.tail_nil, List.append_nil, hsplit, ← hown] at hg
    rw [List.map_nil]
    exact hg
  | cons e it =>
    rw [hback, List.tail_cons] at hg
    rw [hback] at hbefore hsplit
    rw [List.map_cons] at hbefore ⊢
    show Runs ((store map (.pinba_map (before _ (e.raw :: it.map KeyedPointer.raw) ++ _)) >>= _) >>= g) _ _ _
    rw [bind_assoc, hbefore, ← List.map_append]
    refine runs_store (F := key_blocks es + F) (by rw [hown, map_blocks, add_assoc]) ?_
    refine runs_release (p := e.key) (v := .key e.str) (F := map_blocks map (front index es ++ it) + F) ?_ hg
    have hkeys : (key_blocks es : Blocks (Cell D)) = key_blocks (front index es ++ e :: it) := by rw [hsplit]
    rw [map_blocks, hkeys, key_blocks_append, key_blocks_append, key_blocks_cons]
    abel

theorem runs_clear {g : Unit → MapProgram D α} (hg : Runs (g ()) (map_blocks map [] + F) post thrown) :
    Runs (clear map (es.map KeyedPointer.raw) >>= g) (map_blocks map es + F) post thrown := by
  induction es with
  | nil => exact hg
  | cons e es ih =>
    rw [List.map_cons, clear, bind_assoc]
    refine runs_store (F := key_blocks (e :: es) + F) (by rw [map_blocks, List.map_cons, add_assoc]) ?_
    rw [bind_assoc]
    refine runs_release (p := e.key) (v := .key e.str) (F := map_blocks map es + F) ?_ ih
    rw [map_blocks, key_blocks_cons]
    abel

/-- The map and its keys go, the values stay. -/
theorem runs_destroy {g : Unit → MapProgram D α} (hown : own = map_blocks map es + F)
    (hg : Runs (g ()) F post thrown) : Runs (pinba_map_destroy (some map) >>= g) own post thrown := by
  subst hown
  unfold pinba_map_destroy
  dsimp only
  rw [bind_assoc]
  refine runs_load_map (sees_add F).entries ?_
  rw [bind_assoc]
  refine runs_clear ?_
  refine runs_release (v := .pinba_map []) (F := F) ?_ hg
  rw [map_blocks, List.map_nil, key_blocks_nil, add_zero]

/-- What the values own. -/
def value_blocks (blocks : Nat → Blocks (Cell D)) (es : List KeyedPointer) : Blocks (Cell D) :=
  (es.map fun e => blocks e.value).sum

/-- The predicate picks values and takes what they own. -/
theorem runs_delete_if_loop {predicate : Nat → MapProgram D Bool} {pick : Nat → Bool}
    {blocks : Nat → Blocks (Cell D)} (kept : List KeyedPointer) {removed : Nat} {g : Nat → MapProgram D α}
    (hpred : ∀ value, Runs (predicate value) (blocks value) (fun picked own' =>
      picked = pick value ∧ own' = if picked then 0 else blocks value) fun _ _ => False)
    (hg : Runs (g (removed + es.countP fun e => pick e.value))
      (map_blocks map (kept ++ es.filter fun e => !pick e.value) +
        (value_blocks blocks (es.filter fun e => !pick e.value) + F)) post thrown) :
    Runs (delete_if_loop map predicate (kept.map KeyedPointer.raw) (es.map KeyedPointer.raw) removed >>= g)
      (map_blocks map (kept ++ es) + (value_blocks blocks es + F)) post thrown := by
  induction es generalizing kept removed F with
  | nil => simpa [delete_if_loop] using hg
  | cons e es ih =>
    rw [List.map_cons, delete_if_loop, bind_assoc]
    have hown : map_blocks map (kept ++ e :: es) + (value_blocks blocks (e :: es) + F) =
        blocks e.value + (map_blocks map (kept ++ e :: es) + (value_blocks blocks es + F)) := by
      rw [value_blocks, List.map_cons, List.sum_cons, value_blocks]
      abel
    rw [hown]
    refine runs_call (runs_mono (hpred e.value) (fun _ _ h => h) fun _ _ h => h.elim) ?_
    rintro picked _ ⟨hpick, rfl⟩
    cases picked with
    | true =>
      -- the predicate has taken the value, the map gives up the entry and the key
      have hcount : (e :: es).countP (fun e => pick e.value) = es.countP (fun e => pick e.value) + 1 :=
        List.countP_cons_of_pos hpick.symm
      have hkept : (e :: es).filter (fun e => !pick e.value) = es.filter fun e => !pick e.value :=
        List.filter_cons_of_neg (by simp [← hpick])
      rw [hcount, hkept, ← Nat.add_assoc, Nat.add_right_comm] at hg
      simp only [↓reduceIte, zero_add, bind_assoc]
      refine runs_store (v := .pinba_map ((kept ++ e :: es).map KeyedPointer.raw))
        (F := key_blocks (kept ++ e :: es) + (value_blocks blocks es + F)) ?_ ?_
      · rw [map_blocks, add_assoc]
      rw [← List.map_append]
      refine runs_release (p := e.key) (v := .key e.str)
        (F := map_blocks map (kept ++ es) + (value_blocks blocks es + F)) ?_ (ih _ hg)
      rw [map_blocks, key_blocks_append, key_blocks_append, key_blocks_cons]
      abel
    | false =>
      have hcount : (e :: es).countP (fun e => pick e.value) = es.countP fun e => pick e.value :=
        List.countP_cons_of_neg (by simp [← hpick])
      have hkept : (e :: es).filter (fun e => !pick e.value) = e :: es.filter fun e => !pick e.value :=
        List.filter_cons_of_pos (by simp [← hpick])
      rw [hcount, hkept] at hg
      have hstay : blocks e.value + (map_blocks map (kept ++ e :: es) + (value_blocks blocks es + F)) =
          map_blocks map (kept ++ [e] ++ es) + (value_blocks blocks es + (blocks e.value + F)) := by
        rw [List.append_assoc, List.singleton_append]
        abel
      have hloop : kept.map KeyedPointer.raw ++ [e.raw] = (kept ++ [e]).map KeyedPointer.raw := by
        rw [List.map_append, List.map_singleton]
      simp only [Bool.false_eq_true, ↓reduceIte]
      rw [hstay, hloop]
      refine ih _ ?_
      rw [value_blocks, List.map_cons, List.sum_cons, ← value_blocks, add_assoc,
        add_left_comm (blocks e.value)] at hg
      rwa [List.append_assoc, List.singleton_append]

theorem runs_delete_if {predicate : Nat → MapProgram D Bool} (pick : Nat → Bool)
    (blocks : Nat → Blocks (Cell D)) {g : Nat → MapProgram D α}
    (hpred : ∀ value, Runs (predicate value) (blocks value) (fun picked own' =>
      picked = pick value ∧ own' = if picked then 0 else blocks value) fun _ _ => False)
    (hown : own = map_blocks map es + (value_blocks blocks es + F))
    (hg : Runs (g (es.countP fun e => pick e.value)) (map_blocks map (es.filter fun e => !pick e.value) +
      (value_blocks blocks (es.filter fun e => !pick e.value) + F)) post thrown) :
    Runs (pinba_map_delete_if (some map) predicate >>= g) own post thrown := by
  subst hown
  unfold pinba_map_delete_if
  dsimp only
  rw [bind_assoc]
  refine runs_load_map (sees_add _).entries ?_
  exact runs_delete_if_loop [] hpred (by rwa [Nat.zero_add])

end rules

/-! ## Section 4: The contents of a map -/

def KeyedPointer.entry (e : KeyedPointer) : Sigma fun _ : Bytes => Nat := ⟨e.str, e.value⟩

/-- The map that other modules work with. -/
def Contents (es : List KeyedPointer) (contents : PinbaMap Nat) : Prop :=
  contents.entries = es.map KeyedPointer.entry

section contents
variable {es es' : List KeyedPointer} {contents : PinbaMap Nat} {index : Bytes} {e : KeyedPointer}
  {it : List KeyedPointer} {value : Nat}

theorem Contents.keys (h : Contents es contents) : contents.keys = es.map KeyedPointer.str := by
  show contents.entries.map _ = _
  rw [h, List.map_map]
  rfl

theorem Contents.mem_iff (h : Contents es contents) : index ∈ contents ↔ ∃ e ∈ es, e.str = index := by
  show index ∈ contents.keys ↔ _
  rw [h.keys, List.mem_map]

theorem Contents.lookup (h : Contents es contents) :
    contents.data_get index = (es.find? (·.str = index)).map KeyedPointer.value := by
  show List.dlookup index contents.entries = _
  rw [h]
  clear h
  induction es with
  | nil => rfl
  | cons e es ih =>
    by_cases heq : e.str = index
    · subst heq
      rw [List.map_cons, KeyedPointer.entry, List.dlookup_cons_eq, List.find?_cons_of_pos (by simp)]
      rfl
    · rw [List.map_cons, KeyedPointer.entry, List.dlookup_cons_ne _ _ (Ne.symm heq),
        List.find?_cons_of_neg (by simpa using heq), ih]

theorem Contents.entry (h : Contents es contents) (he : e ∈ es) :
    contents.entry e.str = some (e.str, e.value) := by
  have hmem : (⟨e.str, e.value⟩ : Sigma fun _ : Bytes => Nat) ∈ contents.entries := by
    rw [h]
    exact List.mem_map_of_mem he
  unfold PinbaMap.entry
  rw [AList.mem_lookup_iff.mpr hmem]
  rfl

theorem Contents.front_notMem : index ∉ (front index es).map KeyedPointer.str := by
  intro hmem
  obtain ⟨e, he, heq⟩ := List.mem_map.mp hmem
  have hne := List.mem_takeWhile_imp he
  simp [heq] at hne

theorem Contents.after (h : Contents es contents) :
    SavedCursor.after index contents.keys = (back index es).tail.map KeyedPointer.str := by
  rw [h.keys]
  cases hback : back index es with
  | nil =>
    refine SavedCursor.after_of_notMem ?_
    intro hmem
    obtain ⟨e, he, heq⟩ := List.mem_map.mp hmem
    exact back_eq_nil_iff.mp hback e he heq
  | cons e it =>
    have hsplit : es = front index es ++ e :: it := by rw [← hback, front_append_back]
    have hstr := str_of_back hback
    have hkeys : es.map KeyedPointer.str =
        (front index es).map KeyedPointer.str ++ index :: it.map KeyedPointer.str := by
      rw [← hstr, ← List.map_cons, ← List.map_append, hstr, ← hsplit]
    rw [hkeys]
    exact SavedCursor.after_append_cons Contents.front_notMem

/-- The entry at the head of `keys`. -/
theorem Contents.head (h : Contents es contents) (hit : it ⊆ es) :
    (it.map KeyedPointer.str).head?.bind contents.entry = it.head?.map fun e => (e.str, e.value) := by
  cases it with
  | nil => rfl
  | cons e it => exact h.entry (hit List.mem_cons_self)

theorem Contents.data_first (h : Contents es contents) :
    contents.data_first = es.head?.map fun e => (e.str, e.value) := by
  rw [PinbaMap.data_first, h.keys]
  exact h.head (List.Subset.refl es)

theorem Contents.data_next (h : Contents es contents) :
    contents.data_next index = (back index es).tail.head?.map fun e => (e.str, e.value) := by
  rw [PinbaMap.data_next, h.after]
  exact h.head (((List.tail_sublist _).trans (List.dropWhile_sublist _)).subset)

theorem Contents.replace (h : Contents es contents) (hback : back index es = e :: it) :
    Contents (front index es ++ { e with value } :: it) (contents.replace index value) := by
  show List.kreplace index value contents.entries = _
  rw [h]
  clear h
  induction es with
  | nil => cases hback
  | cons a es ih =>
    by_cases heq : a.str = index
    · obtain ⟨rfl, rfl⟩ : a = e ∧ es = it := by simpa [back, heq] using hback
      have hreplace : List.kreplace index value (a.entry :: es.map KeyedPointer.entry) =
          ⟨index, value⟩ :: es.map KeyedPointer.entry := List.lookmap_cons_some _ _ (if_pos heq.symm)
      rw [List.map_cons, hreplace]
      simp [front, heq, KeyedPointer.entry]
    · have hback' : back index es = e :: it := by simpa [back, heq] using hback
      have hfront : front index (a :: es) = a :: front index es := by simp [front, heq]
      rw [hfront, List.cons_append, List.map_cons, List.map_cons, ← ih hback']
      exact List.lookmap_cons_none _ _ (if_neg (Ne.symm heq))

theorem Contents.erase (h : Contents es contents) :
    Contents (front index es ++ (back index es).tail) (contents.erase index) := by
  show List.kerase index contents.entries = _
  rw [h]
  clear h
  induction es with
  | nil => rfl
  | cons a es ih =>
    by_cases heq : a.str = index
    · rw [List.map_cons, List.kerase_cons_eq (show index = a.entry.1 from heq.symm)]
      simp [front, back, heq]
    · have hfront : front index (a :: es) = a :: front index es := by simp [front, heq]
      have hback : back index (a :: es) = back index es := by simp [back, heq]
      rw [hfront, hback, List.cons_append, List.map_cons, List.map_cons, ← ih,
        List.kerase_cons_ne (show index ≠ a.entry.1 from Ne.symm heq)]

theorem Contents.insert (h : Contents es contents) (hnot : index ∉ contents)
    (hperm : es'.Perm (e :: es)) (he : e.entry = ⟨index, value⟩) : ∃ contents' : PinbaMap Nat,
      Contents es' contents' ∧ contents'.entries.Perm (contents.insert index value).entries := by
  have hentries : (es'.map KeyedPointer.entry).Perm (contents.insert index value).entries := by
    rw [AList.entries_insert_of_notMem hnot, h, ← he]
    exact hperm.map _
  have hnodup : (es'.map KeyedPointer.entry).NodupKeys :=
    (List.perm_nodupKeys hentries).mpr (contents.insert index value).nodupKeys
  exact ⟨⟨es'.map KeyedPointer.entry, hnodup⟩, rfl, hentries⟩

theorem Contents.filter (h : Contents es contents) (p : Nat → Bool) : ∃ contents' : PinbaMap Nat,
    Contents (es.filter fun e => p e.value) contents' ∧
      contents'.entries = contents.entries.filter fun entry => p entry.2 := by
  have hentries : (es.filter fun e => p e.value).map KeyedPointer.entry =
      contents.entries.filter fun entry => p entry.2 := by
    rw [h, List.filter_map]
    rfl
  have hnodup : (contents.entries.filter fun entry => p entry.2).NodupKeys :=
    List.NodupKeys.sublist List.filter_sublist contents.nodupKeys
  exact ⟨⟨_, hnodup⟩, hentries.symm, rfl⟩

end contents

/-! ## Section 5: Calls on a map -/

/-- What callers do with a pointer that is null at first and that they set to what the
    functions return. -/
inductive Call where
  /-- `pinba_map_create` if the pointer is null. -/
  | create
  | add (index : Bytes) (value : Nat)
  | try_add (index : Bytes) (value : Nat)
  | get (index : Bytes)
  | first (buf_size : Nat)
  | next (index : Bytes) (buf_size : Nat)
  | delete (index : Bytes)
  | delete_if (pick : Nat → Bool)
  | count
  | destroy

inductive Answer where
  | void
  | added (ok : Bool)
  | value (v : Option Nat)
  | entry (found : Option (Bytes × Nat))
  | code (c : Int)
  | size (n : Nat)

def call_on (storage : Option Nat) : Call → MapProgram D (Answer × Option Nat)
  | .create => do return (.void, some (← storage.elim (pinba_map_create lib) pure))
  | .add index value => do return (.void, some (← pinba_map_add lib storage index value))
  | .try_add index value => do
    let (ok, storage) ← pinba_map_try_add lib storage index value
    return (.added ok, storage)
  | .get index => do return (.value (← pinba_map_get storage index), storage)
  | .first buf_size => do return (.entry (← pinba_map_first storage buf_size), storage)
  | .next index buf_size => do return (.entry (← pinba_map_next storage index buf_size), storage)
  | .delete index => do return (.code (← pinba_map_delete storage index), storage)
  | .delete_if pick => do
    return (.size (← pinba_map_delete_if storage fun value => pure (pick value)), storage)
  | .count => do return (.size (← pinba_map_count storage), storage)
  | .destroy => do
    pinba_map_destroy storage
    return (.void, none)

/-- The calls one after the other, and what they answer. -/
def calls_on : List Call → Option Nat → MapProgram D (List Answer × Option Nat)
  | [], storage => return ([], storage)
  | call :: calls, storage => do
    let (answer, storage) ← call_on lib storage call
    let (answers, storage) ← calls_on calls storage
    return (answer :: answers, storage)

/-- What a map becomes if `index` is added. -/
inductive Adds (index : Bytes) (value : Nat) : PinbaMap Nat → Bool → PinbaMap Nat → Prop
  | replaced {map : PinbaMap Nat} (h : index ∈ map) : Adds index value map true (map.replace index value)
  | inserted {map map' : PinbaMap Nat} (h : index ∉ map)
      (hperm : map'.entries.Perm (map.insert index value).entries) : Adds index value map true map'
  /-- There is no memory for the key. -/
  | failed {map : PinbaMap Nat} (h : index ∉ map) : Adds index value map false map

/-- What a call answers and does, in terms of the contents; a null pointer has none. -/
def Does : Call → Option (PinbaMap Nat) → Answer → Option (PinbaMap Nat) → Prop
  | .create, map, answer, map' => answer = .void ∧ map' = some (map.getD ∅)
  | .add index value, map, answer, map' =>
    answer = .void ∧ ∃ ok added, Adds index value (map.getD ∅) ok added ∧ map' = some added
  | .try_add index value, map, answer, map' =>
    (answer = .added true ∧ ∃ added, Adds index value (map.getD ∅) true added ∧ map' = some added) ∨
      (answer = .added false ∧ index ∉ map.getD ∅ ∧ map' = map)
  | .get index, map, answer, map' => answer = .value ((map.getD ∅).data_get index) ∧ map' = map
  | .first buf_size, map, answer, map' =>
    answer = .entry ((map.getD ∅).data_first.map fun e => (snprintf_s buf_size e.1, e.2)) ∧ map' = map
  | .next index buf_size, map, answer, map' =>
    answer = .entry (((map.getD ∅).data_next index).map fun e => (snprintf_s buf_size e.1, e.2)) ∧ map' = map
  | .delete index, map, answer, map' =>
    answer = .code (if (map'.getD ∅).keys = [] then -1 else 0) ∧ map' = map.map (AList.erase index)
  | .delete_if pick, map, answer, map' =>
    answer = .size ((map.getD ∅).entries.countP fun e => pick e.2) ∧
      map'.map AList.entries = map.map fun map => map.entries.filter fun e => !pick e.2
  | .count, map, answer, map' => answer = .size (map.getD ∅).keys.length ∧ map' = map
  | .destroy, _, answer, map' => answer = .void ∧ map' = none

def DoesAll : List Call → Option (PinbaMap Nat) → List Answer → Option (PinbaMap Nat) → Prop
  | [], map, answers, map' => answers = [] ∧ map' = map
  | call :: calls, map, answers, map' => ∃ answer answers' mid,
    answers = answer :: answers' ∧ Does call map answer mid ∧ DoesAll calls mid answers' map'

/-- Where `std::bad_alloc` comes from, and what stays behind: `pinba_map_add` does not give
    back a map that it has made. -/
inductive Throws : Call → Option (PinbaMap Nat) → Blocks (Cell D) → Prop
  | create : Throws .create none 0
  | add {index value map} : Throws (.add index value) map 0
  | add_null {index value map} : Throws (.add index value) none (map_blocks map [])

/-- The pointer, the contents and the blocks. -/
inductive Holds : Option Nat → Option (PinbaMap Nat) → Blocks (Cell D) → Prop
  | null : Holds none none 0
  | map {map es contents} (h : Contents es contents) : Holds (some map) (some contents) (map_blocks map es)

section calls
variable {storage : Option Nat} {map : Option (PinbaMap Nat)} {own : Blocks (Cell D)}

/-- `data_add` in terms of the contents. -/
theorem runs_data_add {g : Bool → MapProgram D α} {index : Bytes} {value map : Nat}
    {es : List KeyedPointer} {contents : PinbaMap Nat} {F : Blocks (Cell D)}
    {post : α → Blocks (Cell D) → Prop} {thrown : Thrown → Blocks (Cell D) → Prop}
    (h : Contents es contents) (hown : own = map_blocks map es + F)
    (hthrow : index ∉ contents → thrown .bad_alloc own)
    (hg : ∀ ok es' contents', Adds index value contents ok contents' → Contents es' contents' →
      (ok = false → es' = es) → Runs (g ok) (map_blocks map es' + F) post thrown) :
    Runs (data_add lib map index value >>= g) own post thrown := by
  cases hback : back index es with
  | nil =>
    have habsent := back_eq_nil_iff.mp hback
    have hnot : index ∉ contents := by
      rw [h.mem_iff]
      rintro ⟨e, he, heq⟩
      exact habsent e he heq
    refine runs_data_add_new lib habsent hown (fun _ => ?_) (hthrow hnot) fun key es' hperm => ?_
    · rw [hown]
      exact hg false es contents (.failed hnot) h fun _ => rfl
    · obtain ⟨contents', hcontents, hinsert⟩ := h.insert hnot hperm rfl
      exact hg true es' contents' (.inserted hnot hinsert) hcontents (by simp)
  | cons e it =>
    have hmem : index ∈ contents := by
      have he : e ∈ es := (List.dropWhile_sublist _).subset (by rw [← back, hback]; exact List.mem_cons_self)
      exact h.mem_iff.mpr ⟨e, he, str_of_back hback⟩
    refine runs_data_add_old lib hback hown ?_
    exact hg true _ _ (.replaced hmem) (h.replace hback) (by simp)

theorem contents_empty : Contents [] ∅ := rfl

/-- Neither an exception nor a block comes out of `pinba_map_try_add` when memory runs out. -/
theorem runs_try_add {index : Bytes} {value : Nat} (h : Holds storage map own) :
    Runs (pinba_map_try_add lib storage index value) own
      (fun result own' => ∃ map', Does (.try_add index value) map (.added result.1) map' ∧
        Holds result.2 map' own')
      fun _ _ => False := by
  unfold pinba_map_try_add
  refine runs_handle (fun _ own' => own' = own ∧ index ∉ map.getD ∅) ?_ ?_
  · cases h with
    | null =>
      refine runs_new_map lib ⟨rfl, AList.notMem_empty index⟩ fun map => ?_
      rw [add_zero]
      have hadd : Runs (data_add lib map index value) (map_blocks map [])
          (fun ok own' => ∃ es' contents', Adds index value ∅ ok contents' ∧ Contents es' contents' ∧
            (ok = false → es' = []) ∧ own' = map_blocks map es')
          fun _ own' => own' = map_blocks map [] := by
        rw [← bind_pure (data_add lib map index value)]
        refine runs_data_add lib contents_empty (F := 0) (add_zero _).symm (fun _ => rfl) ?_
        intro ok es' contents' hadds hcontents hsame
        exact runs_pure ⟨es', contents', hadds, hcontents, hsame, add_zero _⟩
      refine runs_bind (runs_handle _ hadd fun e own' hown' => ?_) ?_
      · refine runs_release (v := .pinba_map []) (F := 0) ?_ (runs_throw ⟨rfl, AList.notMem_empty index⟩)
        rw [hown', map_blocks, key_blocks_nil, List.map_nil]
      · rintro ok _ ⟨es', contents', hadds, hcontents, hsame, rfl⟩
        cases ok with
        | true => exact runs_pure ⟨_, .inl ⟨rfl, contents', hadds, rfl⟩, .map hcontents⟩
        | false =>
          refine runs_release (v := .pinba_map []) (F := 0) ?_ (runs_pure ⟨none, .inr ⟨rfl, ?_, rfl⟩, .null⟩)
          · rw [hsame rfl, map_blocks, key_blocks_nil, List.map_nil]
          · exact AList.notMem_empty index
    | @map map es contents h =>
      show Runs (data_add lib map index value >>= fun ok => pure (ok, some map)) _ _ _
      refine runs_data_add lib h (F := 0) (add_zero _).symm (fun hnot => ⟨rfl, hnot⟩) ?_
      intro ok es' contents' hadds hcontents hsame
      rw [add_zero]
      cases hadds with
      | replaced hmem => exact runs_pure ⟨_, .inl ⟨rfl, _, .replaced hmem, rfl⟩, .map hcontents⟩
      | inserted hnot hperm => exact runs_pure ⟨_, .inl ⟨rfl, _, .inserted hnot hperm, rfl⟩, .map hcontents⟩
      | failed hnot => exact runs_pure ⟨_, .inr ⟨rfl, hnot, rfl⟩, .map hcontents⟩
  · rintro e own' ⟨rfl, hnot⟩
    exact runs_pure ⟨map, .inr ⟨rfl, hnot, rfl⟩, h⟩

/-- One call. -/
theorem runs_call_on (call : Call) (h : Holds storage map own) :
    Runs (call_on lib storage call) own
      (fun result own' => ∃ map', Does call map result.1 map' ∧ Holds result.2 map' own')
      fun _ own' => ∃ left, Throws call map left ∧ own' = own + left := by
  cases call with
  | create =>
    cases h with
    | null =>
      refine runs_new_map lib ⟨0, .create, rfl⟩ fun map => ?_
      refine runs_pure ⟨_, ⟨rfl, rfl⟩, ?_⟩
      rw [add_zero]
      exact .map rfl
    | map h => exact runs_pure ⟨_, ⟨rfl, rfl⟩, .map h⟩
  | add index value =>
    cases h with
    | null =>
      show Runs ((new_map lib >>= fun map => data_add lib map index value >>= _) >>= _) _ _ _
      rw [bind_assoc]
      refine runs_new_map lib ⟨0, .add, rfl⟩ fun map => ?_
      rw [bind_assoc]
      refine runs_data_add lib contents_empty (F := 0) rfl
        (fun _ => ⟨map_blocks map [], .add_null, add_comm _ _⟩) ?_
      intro ok es' contents' hadds hcontents _
      refine runs_pure ⟨_, ⟨rfl, ok, contents', hadds, rfl⟩, ?_⟩
      rw [add_zero]
      exact .map hcontents
    | @map map es contents h =>
      show Runs ((data_add lib map index value >>= _) >>= _) _ _ _
      rw [bind_assoc]
      refine runs_data_add lib h (F := 0) (add_zero _).symm (fun _ => ⟨0, .add, (add_zero _).symm⟩) ?_
      intro ok es' contents' hadds hcontents _
      refine runs_pure ⟨_, ⟨rfl, ok, contents', hadds, rfl⟩, ?_⟩
      rw [add_zero]
      exact .map hcontents
  | try_add index value =>
    refine runs_bind (runs_mono (runs_try_add lib h) (fun _ _ h => h) fun _ _ h => h.elim) ?_
    rintro ⟨ok, storage'⟩ own' ⟨map', hdoes, hholds⟩
    exact runs_pure ⟨map', hdoes, hholds⟩
  | get index =>
    cases h with
    | null => exact runs_pure ⟨_, ⟨rfl, rfl⟩, .null⟩
    | map h =>
      refine runs_data_get sees_self (runs_pure ⟨_, ⟨?_, rfl⟩, .map h⟩)
      rw [Option.getD_some, h.lookup]
  | first buf_size =>
    cases h with
    | null => exact runs_pure ⟨_, ⟨rfl, rfl⟩, .null⟩
    | map h =>
      refine runs_data_first sees_self (runs_pure ⟨_, ⟨?_, rfl⟩, .map h⟩)
      rw [Option.getD_some, h.data_first, Option.map_map]
      rfl
  | next index buf_size =>
    cases h with
    | null => exact runs_pure ⟨_, ⟨rfl, rfl⟩, .null⟩
    | map h =>
      refine runs_data_next sees_self (runs_pure ⟨_, ⟨?_, rfl⟩, .map h⟩)
      rw [Option.getD_some, h.data_next, Option.map_map]
      rfl
  | delete index =>
    cases h with
    | null => exact runs_pure ⟨_, ⟨rfl, rfl⟩, .null⟩
    | @map map es contents h =>
      show Runs ((data_delete map index >>= fun _ => _) >>= _) _ _ _
      rw [bind_assoc]
      refine runs_data_delete (F := 0) (add_zero _).symm ?_
      rw [add_zero, bind_assoc]
      refine runs_load_map sees_self.entries ?_
      refine runs_pure ⟨some (contents.erase index), ⟨?_, rfl⟩, .map h.erase⟩
      simp only [Option.getD_some, h.erase.keys, List.isEmpty_iff, List.map_eq_nil_iff]
  | delete_if pick =>
    cases h with
    | null => exact runs_pure ⟨none, ⟨rfl, rfl⟩, .null⟩
    | @map map es contents h =>
      obtain ⟨contents', hcontents, hentries⟩ := h.filter fun value => !pick value
      have hcount : es.countP (fun e => pick e.value) = contents.entries.countP fun e => pick e.2 := by
        rw [h, List.countP_map]
        rfl
      have hnone (l : List KeyedPointer) : value_blocks (fun _ => (0 : Blocks (Cell D))) l = 0 := by
        simp [value_blocks]
      refine runs_delete_if pick (fun _ => 0) (F := 0)
        (fun value => runs_pure ⟨rfl, by simp⟩) (by rw [hnone, add_zero, add_zero]) ?_
      rw [hnone, add_zero, add_zero]
      refine runs_pure ⟨some contents', ⟨?_, ?_⟩, .map hcontents⟩
      · rw [hcount, Option.getD_some]
      · rw [Option.map_some, Option.map_some, hentries]
  | count =>
    cases h with
    | null => exact runs_pure ⟨_, ⟨rfl, rfl⟩, .null⟩
    | @map map es contents h =>
      show Runs ((load_map map >>= fun _ => _) >>= _) _ _ _
      rw [bind_assoc]
      refine runs_load_map sees_self.entries (runs_pure ⟨_, ⟨?_, rfl⟩, .map h⟩)
      rw [Option.getD_some, h.keys, List.length_map, List.length_map]
  | destroy =>
    cases h with
    | null => exact runs_pure ⟨_, ⟨rfl, rfl⟩, .null⟩
    | @map map es contents h =>
      exact runs_destroy (F := 0) (add_zero _).symm (runs_pure ⟨none, ⟨rfl, rfl⟩, .null⟩)

/-- All calls, up to the one that throws. -/
theorem runs_calls_on (calls : List Call) (h : Holds storage map own) :
    Runs (calls_on lib calls storage) own
      (fun result own' => ∃ map', DoesAll calls map result.1 map' ∧ Holds result.2 map' own')
      fun _ own' => ∃ done call later answers map' storage' held left, calls = done ++ call :: later ∧
        DoesAll done map answers map' ∧ Holds storage' map' held ∧ Throws call map' left ∧
        own' = held + left := by
  induction calls generalizing storage map own with
  | nil => exact runs_pure ⟨map, ⟨rfl, rfl⟩, h⟩
  | cons call calls ih =>
    refine runs_bind (runs_mono (runs_call_on lib call h) (fun _ _ h => h) ?_) ?_
    · rintro _ own' ⟨left, hthrows, hown'⟩
      exact ⟨[], call, calls, [], map, storage, own, left, rfl, ⟨rfl, rfl⟩, h, hthrows, hown'⟩
    · rintro ⟨answer, storage₁⟩ own₁ ⟨map₁, hdoes, hholds⟩
      refine runs_bind (runs_mono (ih hholds) (fun _ _ h => h) ?_) ?_
      · rintro _ own' ⟨done, call', later, answers, map', storage', held, left, rfl, hall, hheld, hthrows, hown'⟩
        exact ⟨call :: done, call', later, answer :: answers, map', storage', held, left, rfl,
          ⟨answer, answers, map₁, rfl, hdoes, hall⟩, hheld, hthrows, hown'⟩
      · rintro ⟨answers, storage₂⟩ own₂ ⟨map₂, hall, hholds₂⟩
        exact runs_pure ⟨map₂, ⟨answer, answers, map₁, rfl, hdoes, hall⟩, hholds₂⟩

end calls

/-- Whatever else is in memory, and wherever the allocators fail: every call has a result,
    it answers and does what it should do with the contents of the map, and the blocks
    that were not there before are those of the map. If a call throws, the map is as it
    was, and at most a map without entries is lost. -/
theorem calls_refine (calls : List Call) (m : BlockMemory (Cell D)) :
    ∃ r m', calls_on lib calls none m = some (r, m') ∧ match r with
      | .ok (answers, storage) => ∃ map own,
        DoesAll calls none answers map ∧ Holds storage map own ∧ m'.all = own + m.all
      | .error _ => ∃ done call later answers map storage own left, calls = done ++ call :: later ∧
        DoesAll done none answers map ∧ Holds storage map own ∧ Throws call map left ∧
        m'.all = own + left + m.all := by
  obtain ⟨r, m', own', hr, hm', hout⟩ := runs_calls_on lib calls .null m m.all (zero_add _).symm
  refine ⟨r, m', hr, ?_⟩
  cases r with
  | ok result =>
    obtain ⟨map', hall, hholds⟩ := hout
    exact ⟨map', own', hall, hholds, hm'⟩
  | error e =>
    obtain ⟨done, call, later, answers, map', storage', held, left, hcalls, hall, hheld, hthrows, hown'⟩ := hout
    exact ⟨done, call, later, answers, map', storage', held, left, hcalls, hall, hheld, hthrows, by rw [hm', hown']⟩

/-- Memory never runs out, and a new entry goes to the front. -/
def plenty : MapLibrary D where
  calloc := bump _
  strdup := bump _
  new := bump _
  has_node _ := true
  arrange := id
  arrange_perm _ := .refl _

example : ((calls_on (plenty (D := Unit)) [.add [1] 7, .add [2] 8, .add [1] 9, .next [2] 8, .delete [1], .count]
    none).run empty).map (·.1) =
    some (.ok ([.void, .void, .void, .entry (some ([1], 9)), .code 0, .size 1], some 1)) := rfl

end MapMemory

end PinbaEngine
