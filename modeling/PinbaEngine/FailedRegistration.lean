import PinbaEngine.TableRegistry

/-! # Registrations that fail

    A constructor puts its new report into the map, then into the array of its kind, and
    then attaches it to its tables. The second step fails where the array cannot
    grow, the third one where the index of the report has no tables. The constructors of
    base reports then undo what they did, those of tag reports call the destructor.

    Arrays are modelled as memory here: a block of cells, lost when `realloc` fails,
    with a size next to it. Where memory is available the constructors do what the
    registry of lists does (`models_construct`). -/

namespace PinbaEngine

open KeyedStore

/-! ## Section 1: Arrays in memory -/

/-- `pinba_array_t`. -/
structure PinbaArray where
  data : Option (List Nat)
  size : Nat
deriving DecidableEq

namespace PinbaArray

variable (a : PinbaArray)

/-- The reports that a pass of ingest or expiry visits. There is no answer where it follows
    a null pointer or leaves the block. -/
def reports : Option (List Nat) :=
  match a.data with
  | none => if a.size = 0 then some [] else none
  | some cells => if a.size ≤ cells.length then some (cells.take a.size) else none

/-- `pinba_array_add`; `grows` says whether `realloc` finds memory. -/
def pinba_array_add (report : Nat) (grows : Bool) : PinbaArray × Bool :=
  if grows then (⟨some ((a.data.getD []).take a.size ++ [report]), a.size + 1⟩, true)
  -- the pointer to the old block is overwritten
  else (⟨none, a.size⟩, false)

/-- `pinba_array_delete`. -/
def pinba_array_delete (report : Nat) : PinbaArray :=
  match a.data with
  | none => a
  | some cells =>
    if report ∈ cells.take a.size then
      ⟨some ((cells.take a.size).erase report ++ cells.drop (a.size - 1)), a.size - 1⟩
    else a

section arrays
variable {a} {xs : List Nat} {p : Nat}

theorem cells_of_reports (h : a.reports = some xs) :
    (a.data.getD []).take a.size = xs ∧ xs.length = a.size := by
  unfold reports at h
  split at h
  · next hdata =>
    split at h
    · next hsize =>
      cases h
      simp [hdata, hsize]
    · cases h
  · next cells hdata =>
    split at h
    · next hsize =>
      cases h
      rw [hdata]
      exact ⟨rfl, List.length_take_of_le hsize⟩
    · cases h

theorem reports_add (h : a.reports = some xs) (p : Nat) :
    (a.pinba_array_add p true).1.reports = some (xs ++ [p]) := by
  obtain ⟨hcells, hlength⟩ := cells_of_reports h
  have hsize : (xs ++ [p]).length = a.size + 1 := by simp [hlength]
  simp only [pinba_array_add, if_true, reports, hcells]
  rw [if_pos hsize.ge, ← hsize, List.take_length]

/-- Adding a report and deleting it again leaves the reports that were there. -/
theorem reports_delete_add (h : a.reports = some xs) (hp : p ∉ xs) :
    ((a.pinba_array_add p true).1.pinba_array_delete p).reports = some xs ∧
      ((a.pinba_array_add p true).1.pinba_array_delete p).size = a.size := by
  obtain ⟨hcells, hlength⟩ := cells_of_reports h
  have hall : (xs ++ [p]).take (a.size + 1) = xs ++ [p] := List.take_of_length_le (by simp [hlength])
  have herase : (xs ++ [p]).erase p = xs := by
    rw [List.erase_append_right [p] hp, List.erase_cons_head, List.append_nil]
  have hdelete : (a.pinba_array_add p true).1.pinba_array_delete p =
      ⟨some (xs ++ (xs ++ [p]).drop a.size), a.size⟩ := by
    simp only [pinba_array_add, if_true, pinba_array_delete, hcells, hall, herase,
      Nat.add_sub_cancel]
    exact if_pos (List.mem_append_right xs (List.mem_singleton_self p))
  rw [hdelete]
  refine ⟨?_, rfl⟩
  simp only [reports]
  rw [if_pos (by simp [hlength]), List.take_append_of_le_length hlength.ge, ← hlength, List.take_length]

/-- An array that could not grow is readable only if it was empty. -/
theorem reports_not_grown (h : a.reports = some xs) (p : Nat) :
    (a.pinba_array_add p false).1.reports = some xs ↔ a.size = 0 := by
  obtain ⟨-, hlength⟩ := cells_of_reports h
  simp only [pinba_array_add, Bool.false_eq_true, if_false, reports]
  constructor
  · intro heq
    by_contra hsize
    rw [if_neg hsize] at heq
    cases heq
  · intro hsize
    rw [hsize, List.length_eq_zero_iff] at hlength
    rw [if_pos hsize, hlength]

end arrays

end PinbaArray

/-! ## Section 2: Constructors -/

/-- The registries that a constructor changes. -/
structure RegistryMemory where
  reports_to_tables : AList fun _ : Bytes => ReportTables
  maps : ReportKind → AList fun _ : Bytes => Nat
  arrays : ReportKind → PinbaArray
  heap : AList fun _ : Nat => ReportIdentity

namespace RegistryMemory

section constructors
variable (m : RegistryMemory)

/-- `pinba_update_report_tables`. -/
def pinba_update_report_tables (p : Nat) (std : ReportIdentity) (index : Bytes) :
    RegistryMemory × Bool :=
  match m.reports_to_tables.lookup index with
  | none => (m, false)
  | some rt =>
    match rt.std with
    | some _ => (m, true)
    | none => ({ m with
        heap := m.heap.insert p { std with use_cnt := entryCount rt.tables }
        reports_to_tables := m.reports_to_tables.insert index { rt with std := some p } }, true)

/-- What a constructor does with its report after `pinba_array_add` has failed. -/
def after_array_add (kind : ReportKind) (index : Bytes) (p : Nat) : RegistryMemory :=
  match kind with
  | .base => { m with
      maps := Function.update m.maps kind ((m.maps kind).erase index)
      heap := m.heap.erase p }
  -- the destructor does not take the report out of the map
  | .tag | .rtag => { m with heap := m.heap.erase p }

/-- What it does after `pinba_update_report_tables` has failed. -/
def after_update_report_tables (kind : ReportKind) (index : Bytes) (p : Nat) : RegistryMemory :=
  match kind with
  | .base => { m with
      arrays := Function.update m.arrays kind ((m.arrays kind).pinba_array_delete p)
      maps := Function.update m.maps kind ((m.maps kind).erase index)
      heap := m.heap.erase p }
  -- the destructor takes the report neither out of the map nor out of the array
  | .tag | .rtag => { m with heap := m.heap.erase p }

/-- The constructors from `calloc` on: the registries, and the report they return. -/
def construct (kind : ReportKind) (share : TableShare) (p : Nat) (grows : Bool) :
    RegistryMemory × Option Nat :=
  let std : ReportIdentity := ⟨kind, share.type, Registry.stored_index share, 0⟩
  let m := { m with
    heap := m.heap.insert p std
    maps := Function.update m.maps kind ((m.maps kind).insert share.index p) }
  let (array, added) := (m.arrays kind).pinba_array_add p grows
  let m := { m with arrays := Function.update m.arrays kind array }
  if !added then (m.after_array_add kind share.index p, none)
  else
    let (m, updated) := m.pinba_update_report_tables p std share.index
    if !updated then (m.after_update_report_tables kind share.index p, none) else (m, some p)

/-- `pinba_regenerate_*` of a kind. `known` are the tag names that are found, `p` is the address
    that `calloc` answers, if it and the allocations for the tags find memory, and `grows` says
    whether `realloc` does. -/
def regenerate (kind : ReportKind) (share : TableShare) (known : Bytes → Bool) (p : Option Nat)
    (grows : Bool) : Except Fault (RegistryMemory × Option Nat) :=
  match (m.maps kind).lookup share.index with
  | some report => .ok (m, some report)
  | none =>
    match info_params share known with
    | .error e => .error e
    | .ok false => .ok (m, none)
    | .ok true =>
      match p with
      | none => .ok (m, none)
      | some p => .ok (m.construct kind share p grows)

end constructors

/-! ## Section 3: Failures -/

variable {m m' : RegistryMemory} {s : Registry} {kind : ReportKind} {share : TableShare} {p : Nat}
  {grows : Bool}

/-- The map, the array and the tables of every report are those of before. -/
structure Unchanged (m m' : RegistryMemory) : Prop where
  maps : m'.maps = m.maps
  reports : ∀ kind, (m'.arrays kind).reports = (m.arrays kind).reports
  sizes : ∀ kind, (m'.arrays kind).size = (m.arrays kind).size
  tables : m'.reports_to_tables = m.reports_to_tables

/-- The passes over the array of a kind are defined and visit reports in memory. -/
def Readable (m : RegistryMemory) (kind : ReportKind) : Prop :=
  ∃ reports, (m.arrays kind).reports = some reports ∧ ∀ p ∈ reports, m.heap.lookup p ≠ none

theorem unchanged_refl (m : RegistryMemory) : Unchanged m m := ⟨rfl, fun _ => rfl, fun _ => rfl, rfl⟩

theorem update_insert_erase {V : Type} {maps : ReportKind → AList fun _ : Bytes => V} {index : Bytes}
    (v : V) (h : (maps kind).lookup index = none) :
    Function.update (Function.update maps kind ((maps kind).insert index v)) kind
      (((Function.update maps kind ((maps kind).insert index v)) kind).erase index) = maps := by
  rw [Function.update_self, Function.update_idem, erase_insert_of_none v h, Function.update_eq_self]

/-- The array of one kind is changed, and reads as before. -/
theorem arrays_unchanged {arrays arrays' : ReportKind → PinbaArray} {a : PinbaArray}
    (harrays : arrays' = Function.update arrays kind a)
    (hreports : a.reports = (arrays kind).reports) (hsize : a.size = (arrays kind).size) :
    (∀ k, (arrays' k).reports = (arrays k).reports) ∧ ∀ k, (arrays' k).size = (arrays k).size := by
  rw [harrays]
  refine ⟨fun k => ?_, fun k => ?_⟩
  · by_cases hk : k = kind
    · rw [hk, Function.update_self, hreports]
    · rw [Function.update_of_ne hk]
  · by_cases hk : k = kind
    · rw [hk, Function.update_self, hsize]
    · rw [Function.update_of_ne hk]

/-- A report that could not be attached to tables: there are none. -/
theorem update_report_tables_failed {std : ReportIdentity} {index : Bytes}
    (h : m.pinba_update_report_tables p std index = (m', false)) : m' = m := by
  unfold pinba_update_report_tables at h
  split at h
  · exact (Prod.mk.inj h).1.symm
  · split at h
    · exact absurd (Prod.mk.inj h).2 (by simp)
    · exact absurd (Prod.mk.inj h).2 (by simp)

/-- The registries when a constructor looks for the tables of its report. -/
def published (m : RegistryMemory) (kind : ReportKind) (share : TableShare) (p : Nat) (grows : Bool) :
    RegistryMemory :=
  { m with
    heap := m.heap.insert p ⟨kind, share.type, Registry.stored_index share, 0⟩
    maps := Function.update m.maps kind ((m.maps kind).insert share.index p)
    arrays := Function.update m.arrays kind ((m.arrays kind).pinba_array_add p grows).1 }

/-- A constructor that returns null fails at one of two points. -/
theorem construct_failed (h : m.construct kind share p grows = (m', none)) :
    (grows = false ∧ m' = (m.published kind share p grows).after_array_add kind share.index p) ∨
      (grows = true ∧ m' = (m.published kind share p grows).after_update_report_tables kind share.index p) := by
  cases grows with
  | false => exact .inl ⟨rfl, (Prod.mk.inj h).1.symm⟩
  | true =>
    obtain ⟨new, updated, hnew⟩ : ∃ new updated, (m.published kind share p true).pinba_update_report_tables p
        ⟨kind, share.type, Registry.stored_index share, 0⟩ share.index = (new, updated) := ⟨_, _, rfl⟩
    have hconstruct : m.construct kind share p true =
        if !updated then (new.after_update_report_tables kind share.index p, none) else (new, some p) := by
      rw [show new = (new, updated).1 from rfl, ← hnew]
      rw [show updated = (new, updated).2 from rfl, ← hnew]
      rfl
    rw [hconstruct] at h
    cases updated with
    | true => exact absurd (Prod.mk.inj h).2 (by simp)
    | false =>
      rw [update_report_tables_failed hnew] at h
      exact .inr ⟨rfl, (Prod.mk.inj h).1.symm⟩

/-- A base report that fails is undone, unless the array lost its reports. -/
theorem unchanged_base_iff (hreadable : m.Readable .base) (hmap : (m.maps .base).lookup share.index = none)
    (hp : m.heap.lookup p = none) (h : m.construct .base share p grows = (m', none)) :
    m.Unchanged m' ↔ grows = true ∨ (m.arrays .base).size = 0 := by
  obtain ⟨xs, hxs, hlive⟩ := hreadable
  rcases construct_failed h with ⟨rfl, rfl⟩ | ⟨rfl, rfl⟩
  · constructor
    · intro hunchanged
      have hreports := hunchanged.reports .base
      simp only [after_array_add, published, Function.update_self, hxs] at hreports
      exact .inr ((PinbaArray.reports_not_grown hxs p).mp hreports)
    · rintro (hfalse | hsize)
      · cases hfalse
      · have hreports := ((PinbaArray.reports_not_grown hxs p).mpr hsize).trans hxs.symm
        have harrays : ((m.published .base share p false).after_array_add .base share.index p).arrays =
            Function.update m.arrays .base ((m.arrays .base).pinba_array_add p false).1 := rfl
        obtain ⟨hall, hsizes⟩ := arrays_unchanged harrays hreports rfl
        exact ⟨update_insert_erase p hmap, hall, hsizes, rfl⟩
  · refine iff_of_true ?_ (.inl rfl)
    have hfresh : p ∉ xs := fun hmem => hlive p hmem hp
    obtain ⟨hreports, hsize⟩ := PinbaArray.reports_delete_add hxs hfresh
    have harrays : ((m.published .base share p true).after_update_report_tables .base share.index p).arrays =
        Function.update m.arrays .base
          (((m.arrays .base).pinba_array_add p true).1.pinba_array_delete p) := by
      simp only [after_update_report_tables, published, Function.update_self, Function.update_idem]
    obtain ⟨hall, hsizes⟩ := arrays_unchanged harrays (hreports.trans hxs.symm) hsize
    exact ⟨update_insert_erase p hmap, hall, hsizes, rfl⟩

/-- A tag report that fails is still in the map. -/
theorem map_of_failed_tag (hkind : kind ≠ .base) (h : m.construct kind share p grows = (m', none)) :
    (m'.maps kind).lookup share.index = some p ∧ m'.heap.lookup p = none := by
  have hmap : ((m.published kind share p grows).maps kind).lookup share.index = some p := by
    simp only [published, Function.update_self, AList.lookup_insert]
  rcases construct_failed h with ⟨-, rfl⟩ | ⟨-, rfl⟩ <;> cases kind
  case inl.base | inr.base => exact absurd rfl hkind
  all_goals exact ⟨hmap, AList.lookup_erase _ _⟩

/-- Every constructor that returns null leaves the registries as they were exactly if it gave up
    before it had a report, or its report is a base report and the array of these has grown
    or was empty. -/
theorem failed_registration_iff (m m' : RegistryMemory) (kind : ReportKind) (share : TableShare)
    (known : Bytes → Bool) (p : Option Nat) (grows : Bool) (hreadable : m.Readable .base)
    (hp : ∀ q ∈ p, m.heap.lookup q = none)
    (h : m.regenerate kind share known p grows = .ok (m', none)) :
    m.Unchanged m' ↔ info_params share known = .ok false ∨ p = none ∨
      kind = .base ∧ (grows = true ∨ (m.arrays .base).size = 0) := by
  unfold regenerate at h
  split at h
  · cases h
  · next hmap =>
    split at h
    · cases h
    · next hunknown =>
      cases h
      exact iff_of_true (unchanged_refl m) (.inl hunknown)
    · next hknown =>
      cases p with
      | none =>
        cases h
        exact iff_of_true (unchanged_refl m) (.inr (.inl rfl))
      | some p =>
        have hfailed : m.construct kind share p grows = (m', none) := Except.ok.inj h
        rw [hknown]
        simp only [Except.ok.injEq, Bool.true_eq_false, reduceCtorEq, false_or]
        by_cases hkind : kind = .base
        · subst hkind
          rw [unchanged_base_iff hreadable hmap (hp p rfl) hfailed]
          exact (and_iff_right rfl).symm
        · refine iff_of_false (fun hunchanged => ?_) fun hbase => hkind hbase.1
          obtain ⟨hleft, -⟩ := map_of_failed_tag hkind hfailed
          rw [hunchanged.maps, hmap] at hleft
          cases hleft

/-- A base report, in registries that have one, whose index has no tables. -/
theorem failed_registration_base :
    let share : TableShare := ⟨.base_report .report1, .unknown, .base, [], [], [], ascii "9"⟩
    let m : RegistryMemory := ⟨∅, fun _ => ∅, fun _ => ⟨some [7], 1⟩,
      (∅ : AList fun _ : Nat => ReportIdentity).insert 7 ⟨.base, .base_report .report2, some (ascii "10"), 1⟩⟩
    ∃ m', m.regenerate .base share (fun _ => true) (some 8) true = .ok (m', none) ∧ m.Unchanged m' := by
  intro share m
  have hreadable : m.Readable .base := ⟨[7], rfl, by decide⟩
  have hp : ∀ q ∈ some 8, m.heap.lookup q = none := by
    rintro q ⟨⟩
    rfl
  have h : m.regenerate .base share (fun _ => true) (some 8) true =
      .ok ((m.construct .base share 8 true).1, none) := rfl
  exact ⟨_, h, (failed_registration_iff m _ .base share (fun _ => true) (some 8) true hreadable hp h).mpr
    (.inr (.inr ⟨rfl, .inl rfl⟩))⟩

/-- The map keeps a tag report that was freed since the array could not grow, and a base report that
    fails so takes all reports from the next passes. -/
theorem failed_registration_leaves_traces :
    let tag_share : TableShare := ⟨.tag_report .tag_info, .unknown, .tag, [ascii "a"], [], [], ascii "27|a"⟩
    let share : TableShare := ⟨.base_report .report1, .unknown, .base, [], [], [], ascii "9"⟩
    let m : RegistryMemory := ⟨∅, fun _ => ∅, fun _ => ⟨some [7], 1⟩,
      (∅ : AList fun _ : Nat => ReportIdentity).insert 7 ⟨.base, .base_report .report2, some (ascii "10"), 1⟩⟩
    (∃ m', m.regenerate .tag tag_share (fun _ => true) (some 8) false = .ok (m', none) ∧
      (m'.maps .tag).lookup (ascii "27|a") = some 8 ∧ m'.heap.lookup 8 = none ∧ ¬ m.Unchanged m') ∧
    (∃ m', m.regenerate .tag tag_share (fun _ => true) (some 8) true = .ok (m', none) ∧
      (m'.arrays .tag).reports = some [7, 8] ∧ m'.heap.lookup 8 = none ∧ ¬ m.Unchanged m') ∧
    ∃ m', m.regenerate .base share (fun _ => true) (some 8) false = .ok (m', none) ∧
      (m'.arrays .base).reports = none ∧ ¬ m.Unchanged m' := by
  intro tag_share share m
  refine ⟨⟨_, rfl, rfl, rfl, fun hunchanged => ?_⟩, ⟨_, rfl, rfl, rfl, fun hunchanged => ?_⟩,
    ⟨_, rfl, rfl, fun hunchanged => ?_⟩⟩
  · have hmap := congrArg (fun maps => (maps .tag).lookup (ascii "27|a")) hunchanged.maps
    cases hmap
  · have hreports := hunchanged.reports .tag
    cases hreports
  · have hreports := hunchanged.reports .base
    cases hreports

/-! ## Section 4: Memory is available -/

/-- The arrays in memory hold the lists of a registry. -/
structure Models (m : RegistryMemory) (s : Registry) : Prop where
  maps : m.maps = s.maps
  arrays : ∀ kind, (m.arrays kind).reports = some (s.arrays kind)
  tables : m.reports_to_tables = s.reports_to_tables
  heap : m.heap = s.heap

theorem models_published (h : Models m s) (kind : ReportKind) (share : TableShare) (p : Nat) :
    Models (m.published kind share p true)
      (s.stored kind share.index p ⟨kind, share.type, Registry.stored_index share, 0⟩) := by
  constructor
  · simp only [published, Registry.stored, h.maps]
  · intro k
    simp only [published, Registry.stored]
    by_cases hk : k = kind
    · subst hk
      rw [Function.update_self, Function.update_self]
      exact PinbaArray.reports_add (h.arrays k) p
    · rw [Function.update_of_ne hk, Function.update_of_ne hk]
      exact h.arrays k
  · exact h.tables
  · simp only [published, Registry.stored, h.heap]

/-- Both attach a report to its tables, or there are none. -/
theorem models_update_report_tables (h : Models m s) (p : Nat) (std : ReportIdentity) (index : Bytes) :
    match s.pinba_update_report_tables p std index with
    | none => m.pinba_update_report_tables p std index = (m, false)
    | some s' => ∃ m', m.pinba_update_report_tables p std index = (m', true) ∧ Models m' s' := by
  unfold Registry.pinba_update_report_tables pinba_update_report_tables
  rw [h.tables]
  cases s.reports_to_tables.lookup index with
  | none => rfl
  | some rt =>
    obtain ⟨attached, tables⟩ := rt
    cases attached with
    | some q => exact ⟨m, rfl, h⟩
    | none => exact ⟨_, rfl, h.maps, h.arrays, rfl, congrArg (AList.insert p _) h.heap⟩

/-- With memory for the array a constructor does what the registry of lists does. -/
theorem models_construct (h : Models m s) (hp : p ∉ s.arrays kind) :
    Models (m.construct kind share p true).1 (s.register kind share p) := by
  have hnew := models_published h kind share p
  have hupdate := models_update_report_tables hnew p
    ⟨kind, share.type, Registry.stored_index share, 0⟩ share.index
  have hconstruct : m.construct kind share p true =
      if !((m.published kind share p true).pinba_update_report_tables p
          ⟨kind, share.type, Registry.stored_index share, 0⟩ share.index).2 then
        (((m.published kind share p true).pinba_update_report_tables p
          ⟨kind, share.type, Registry.stored_index share, 0⟩ share.index).1.after_update_report_tables
            kind share.index p, none)
      else (((m.published kind share p true).pinba_update_report_tables p
          ⟨kind, share.type, Registry.stored_index share, 0⟩ share.index).1, some p) := rfl
  rw [hconstruct]
  cases hs : (s.stored kind share.index p ⟨kind, share.type, Registry.stored_index share, 0⟩
      ).pinba_update_report_tables p ⟨kind, share.type, Registry.stored_index share, 0⟩ share.index with
  | some s' =>
    simp only [hs] at hupdate
    obtain ⟨m', hm', hmodels⟩ := hupdate
    simp only [Registry.register, hs, hm', Bool.not_true, Bool.false_eq_true, if_false]
    exact hmodels
  | none =>
    simp only [hs] at hupdate
    simp only [Registry.register, hs, hupdate, Bool.not_false, if_true]
    cases kind with
    | base =>
      refine ⟨?_, ?_, hnew.tables, ?_⟩
      · simp only [after_update_report_tables, hnew.maps]
      · intro k
        simp only [after_update_report_tables]
        by_cases hk : k = .base
        · subst hk
          rw [Function.update_self, Function.update_self]
          simp only [published, Registry.stored, Function.update_self]
          rw [(PinbaArray.reports_delete_add (h.arrays _) hp).1, List.erase_append_right [p] hp,
            List.erase_cons_head, List.append_nil]
        · rw [Function.update_of_ne hk, Function.update_of_ne hk]
          exact hnew.arrays k
      · simp only [after_update_report_tables, hnew.heap]
    | tag => exact ⟨hnew.maps, hnew.arrays, hnew.tables, congrArg (AList.erase p) hnew.heap⟩
    | rtag => exact ⟨hnew.maps, hnew.arrays, hnew.tables, congrArg (AList.erase p) hnew.heap⟩

end RegistryMemory

end PinbaEngine
