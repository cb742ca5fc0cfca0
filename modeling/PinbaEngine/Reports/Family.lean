import PinbaEngine.Reports.Common

/-! # Report families over the request ring

    Base, timer tag and request tag reports differ in what they group by, but
    all three are driven the same way: `pinba_data_main` sets the start of a
    report that has none and then runs `update_reports_func` over the new
    records; `pinba_stats_main` runs it over the expired ones.

    `ReportOps` is what the driver needs of a family. `ReportLaws` says what a
    family has to prove about one record: adding extends the accounted window
    at the back, deleting shortens it at the front. From these the module
    derives what a whole batch and a whole expiry pass do to the window, start
    watermark and condition filter included.
-/

namespace PinbaEngine

/-! ## Section 1: Driving a report -/

/-- The operations of a report family. -/
structure ReportOps (R : Type*) where
  std : R → StdReport
  with_std : R → StdReport → R
  add_func : Nat → R → StatsRecord → R
  delete_func : Nat → R → StatsRecord → R

/-- A live ring slot and its record. -/
abbrev Entry := Nat × StatsRecord

namespace ReportOps

variable {R : Type*} (ops : ReportOps R)

/-- Set the start of a report that has none from the record in a slot. -/
def start_from (first : StatsRecord) (report : R) : R :=
  if (ops.std report).unset then ops.with_std report ((ops.std report).set_start first)
  else report

/-- The loop of `update_reports_func` with `func = add_func`. -/
def add_all (entries : List Entry) (report : R) : R :=
  entries.foldl (fun report e =>
    if (ops.std report).cond.check e.2.data then ops.add_func e.1 report e.2 else report) report

/-- The loop of `update_reports_func` with `func = delete_func`. -/
def delete_all (entries : List Entry) (report : R) : R :=
  entries.foldl (fun report e =>
    if (ops.std report).cond.check e.2.data then ops.delete_func e.1 report e.2 else report) report

/-- `update_reports_func`; `first` is the record in the slot the job starts at. -/
def update_reports_func (add : Bool) (first : StatsRecord) (entries : List Entry) (report : R) :
    R :=
  if add then ops.add_all entries (ops.start_from first report)
  else ops.delete_all entries report

/-- The entries that a report with this header has to account for. -/
def accounted (std : StdReport) (live : List Entry) : List Entry :=
  if std.unset then [] else live.filter fun e => std.since e.2 && std.cond.check e.2.data

/-- What the add function keeps, a batch keeps. -/
theorem add_all_induct {P : R → Prop} (hadd : ∀ slot r rec, P r → P (ops.add_func slot r rec))
    (entries : List Entry) {r : R} (h : P r) : P (ops.add_all entries r) := by
  unfold add_all
  induction entries generalizing r with
  | nil => exact h
  | cons e entries ih =>
    rw [List.foldl_cons]
    apply ih
    split
    · exact hadd _ _ _ h
    · exact h

/-- What the delete function keeps, an expiry pass keeps. -/
theorem delete_all_induct {P : R → Prop}
    (hdelete : ∀ slot r rec, P r → P (ops.delete_func slot r rec)) (entries : List Entry) {r : R}
    (h : P r) : P (ops.delete_all entries r) := by
  unfold delete_all
  induction entries generalizing r with
  | nil => exact h
  | cons e entries ih =>
    rw [List.foldl_cons]
    apply ih
    split
    · exact hdelete _ _ _ h
    · exact h

end ReportOps

open ReportOps

/-! ## Section 2: What a family has to prove -/

/-- The accounting laws of a family, one record at a time. -/
structure ReportLaws {R : Type*} (ops : ReportOps R) where
  /-- The report's content is the exact summary of these entries. -/
  Accounts : R → List Entry → Prop
  /-- What the code relies on of a record. -/
  Valid : StatsRecord → Prop
  /-- The records that are not shown to the family when they come alone. -/
  Idle : StatsRecord → Prop
  /-- What the code relies on of a report. -/
  WellFormed : R → Prop
  std_with_std : ∀ r s, ops.std (ops.with_std r s) = s
  std_add : ∀ slot r rec, ops.std (ops.add_func slot r rec) = ops.std r
  std_delete : ∀ slot r rec, ops.std (ops.delete_func slot r rec) = ops.std r
  wf_with_std : ∀ r s, WellFormed r → WellFormed (ops.with_std r s)
  wf_add : ∀ slot r rec, WellFormed r → WellFormed (ops.add_func slot r rec)
  wf_delete : ∀ slot r rec, WellFormed r → WellFormed (ops.delete_func slot r rec)
  accounts_set_start : ∀ r first w, Accounts r w →
    Accounts (ops.with_std r ((ops.std r).set_start first)) w
  accounts_add : ∀ slot r rec w, Valid rec → slot ∉ w.map Prod.fst → Accounts r w →
    Accounts (ops.add_func slot r rec) (w ++ [(slot, rec)])
  delete_old : ∀ slot r rec, (ops.std r).delete_check rec = true → ops.delete_func slot r rec = r
  accounts_delete : ∀ slot r rec w, Valid rec → slot ∉ w.map Prod.fst →
    (ops.std r).delete_check rec = false → Accounts r ((slot, rec) :: w) →
    Accounts (ops.delete_func slot r rec) w
  delete_empty : ∀ slot r rec, Valid rec → Accounts r [] → Accounts (ops.delete_func slot r rec) []
  accounts_idle : ∀ r rec slot w v, WellFormed r → Idle rec →
    (Accounts r (w ++ (slot, rec) :: v) ↔ Accounts r (w ++ v))

namespace ReportLaws

variable {R : Type*} {ops : ReportOps R} (laws : ReportLaws ops)

/-! ## Section 3: Frames -/

include laws

theorem std_add_all (entries : List Entry) (r : R) :
    ops.std (ops.add_all entries r) = ops.std r :=
  ops.add_all_induct (P := fun r' => ops.std r' = ops.std r)
    (fun slot r' rec h => (laws.std_add slot r' rec).trans h) entries rfl

theorem std_delete_all (entries : List Entry) (r : R) :
    ops.std (ops.delete_all entries r) = ops.std r :=
  ops.delete_all_induct (P := fun r' => ops.std r' = ops.std r)
    (fun slot r' rec h => (laws.std_delete slot r' rec).trans h) entries rfl

theorem wf_start_from (first : StatsRecord) {r : R} (h : laws.WellFormed r) :
    laws.WellFormed (ops.start_from first r) := by
  unfold start_from
  split
  · exact laws.wf_with_std _ _ h
  · exact h

theorem wf_add_all (entries : List Entry) {r : R} (h : laws.WellFormed r) :
    laws.WellFormed (ops.add_all entries r) :=
  ops.add_all_induct laws.wf_add entries h

theorem wf_delete_all (entries : List Entry) {r : R} (h : laws.WellFormed r) :
    laws.WellFormed (ops.delete_all entries r) :=
  ops.delete_all_induct laws.wf_delete entries h

theorem std_start_from (first : StatsRecord) (r : R) :
    ops.std (ops.start_from first r) =
      if (ops.std r).unset then (ops.std r).set_start first else ops.std r := by
  unfold start_from
  split
  · exact laws.std_with_std _ _
  · rfl

theorem accounts_start_from (first : StatsRecord) {r : R} {w : List Entry}
    (h : laws.Accounts r w) : laws.Accounts (ops.start_from first r) w := by
  unfold start_from
  split
  · exact laws.accounts_set_start _ _ _ h
  · exact h

/-! ## Section 4: A batch -/

/-- Adding a run of fresh entries accounts for those that pass the filter. -/
theorem accounts_add_all {entries w : List Entry} {r : R}
    (hvalid : ∀ e ∈ entries, laws.Valid e.2)
    (hnodup : ((w ++ entries).map Prod.fst).Nodup) (h : laws.Accounts r w) :
    laws.Accounts (ops.add_all entries r)
      (w ++ entries.filter fun e => (ops.std r).cond.check e.2.data) := by
  induction entries generalizing r w with
  | nil => simpa [add_all] using h
  | cons e entries ih =>
    have hrest : ∀ e ∈ entries, laws.Valid e.2 := fun x hx => hvalid x (List.mem_cons_of_mem _ hx)
    have hstep : ops.add_all (e :: entries) r = ops.add_all entries
        (if (ops.std r).cond.check e.2.data then ops.add_func e.1 r e.2 else r) := rfl
    rw [hstep]
    by_cases hc : (ops.std r).cond.check e.2.data = true
    · have hfresh : e.1 ∉ w.map Prod.fst := by
        intro hmem
        rw [List.map_append, List.nodup_append'] at hnodup
        exact hnodup.2.2 hmem (List.mem_cons_self)
      have hnd : (((w ++ [e]) ++ entries).map Prod.fst).Nodup := by simpa using hnodup
      have hadd := laws.accounts_add e.1 r e.2 w (hvalid e List.mem_cons_self) hfresh h
      have := ih hrest hnd hadd
      rw [laws.std_add] at this
      simpa [hc] using this
    · have hnd : ((w ++ entries).map Prod.fst).Nodup := by
        rw [List.map_append] at hnodup ⊢
        exact hnodup.sublist (List.Sublist.append_left (List.sublist_cons_self _ _) _)
      simpa [hc] using ih hrest hnd h

/-- Entries that the family is never shown do not change the accounting. -/
theorem accounts_idle_filter {p : Entry → Bool} {entries w : List Entry} {r : R}
    (hwf : laws.WellFormed r) (hidle : ∀ e ∈ entries, laws.Idle e.2) :
    laws.Accounts r (w ++ entries.filter p) ↔ laws.Accounts r w := by
  induction entries generalizing w with
  | nil => simp
  | cons e entries ih =>
    have hrest : ∀ e ∈ entries, laws.Idle e.2 := fun x hx => hidle x (List.mem_cons_of_mem _ hx)
    by_cases hp : p e = true
    · rw [List.filter_cons_of_pos hp]
      have hmid := laws.accounts_idle r e.2 e.1 w (entries.filter p) hwf
        (hidle e List.mem_cons_self)
      exact hmid.trans (ih hrest)
    · rw [List.filter_cons_of_neg hp]
      exact ih hrest

/-- What the accounting needs to know about the ring and a report's header
    when a batch with time `now` and counters from `counter` on arrives. -/
structure BatchReady (std : StdReport) (live : List Entry) (now : Timeval) (counter : Nat) :
    Prop where
  live_time : ∀ e ∈ live, now.lt e.2.time = false
  live_counter : ∀ e ∈ live, e.2.counter < counter
  start_time : ¬ std.unset → now.lt std.start = false
  start_counter : ¬ std.unset → std.request_pool_start_id ≤ counter

/-- The records of a batch: stamped with its time, counted from `counter` on. -/
structure BatchOf (entries : List Entry) (now : Timeval) (counter : Nat) : Prop where
  time : ∀ e ∈ entries, e.2.time = now
  counter_le : ∀ e ∈ entries, counter ≤ e.2.counter
  first_counter : ∀ e ∈ entries.head?, e.2.counter = counter

variable {live entries : List Entry} {now : Timeval} {counter : Nat} {r : R}

omit laws in
/-- Every record of a batch is at or after the start that is in force then. -/
theorem since_batch {std : StdReport} (hready : BatchReady std live now counter)
    (hset : ¬ std.unset) (hbatch : BatchOf entries now counter) {e : Entry} (he : e ∈ entries) :
    std.since e.2 = true := by
  apply StdReport.since_of_le
  · rw [hbatch.time e he]
    exact hready.start_time hset
  · intro _
    exact (hready.start_counter hset).trans (hbatch.counter_le e he)

/-- A batch that reaches the report extends its window by the batch. -/
theorem accounts_batch (hready : BatchReady (ops.std r) live now counter)
    (hbatch : BatchOf entries now counter) (hnow : now.tv_sec ≠ 0)
    (hvalid : ∀ e ∈ entries, laws.Valid e.2)
    (hnodup : ((live ++ entries).map Prod.fst).Nodup) {first : Entry}
    (hfirst : entries.head? = some first)
    (h : laws.Accounts r (accounted (ops.std r) live)) :
    let r' := ops.update_reports_func true first.2 entries (ops.start_from first.2 r)
    laws.Accounts r' (accounted (ops.std r') (live ++ entries)) := by
  have hmem : first ∈ entries := List.mem_of_head? hfirst
  set std' := ops.std (ops.start_from first.2 r) with hstd'
  have hset' : ¬ std'.unset := by
    rw [hstd', laws.std_start_from]
    split
    · show first.2.time.tv_sec ≠ 0
      rw [hbatch.time first hmem]
      exact hnow
    · assumption
  -- the second `start_from`, inside the job, finds the start set
  have hagain : ops.start_from first.2 (ops.start_from first.2 r) = ops.start_from first.2 r := by
    conv_lhs => unfold start_from
    exact if_neg hset'
  have hcond : std'.cond = (ops.std r).cond := by
    rw [hstd', laws.std_start_from]
    split <;> rfl
  -- the window of the old records is the same under the new header
  have hold : accounted std' live = accounted (ops.std r) live := by
    rw [hstd', laws.std_start_from]
    by_cases hun : (ops.std r).unset
    · rw [if_pos hun]
      unfold accounted
      rw [if_pos hun]
      split
      · rfl
      · rw [List.filter_eq_nil_iff]
        intro e he
        have hbefore : ((ops.std r).set_start first.2).since e.2 = false := by
          apply StdReport.not_since_of_before
          · rw [hbatch.time first hmem]
            exact hready.live_time e he
          · rw [hbatch.first_counter first hfirst]
            exact hready.live_counter e he
        simp [hbefore]
    · rw [if_neg hun]
  have hnew : ∀ e ∈ entries, std'.since e.2 = true := by
    intro e he
    rw [hstd', laws.std_start_from]
    by_cases hun : (ops.std r).unset
    · rw [if_pos hun]
      apply StdReport.since_of_le
      · show e.2.time.lt first.2.time = false
        rw [hbatch.time e he, hbatch.time first hmem]
        exact Timeval.not_lt_self now
      · intro _
        show first.2.counter ≤ e.2.counter
        rw [hbatch.first_counter first hfirst]
        exact hbatch.counter_le e he
    · rw [if_neg hun]
      exact since_batch hready hun hbatch he
  have hstart : laws.Accounts (ops.start_from first.2 r) (accounted std' live) := by
    rw [hold]
    exact laws.accounts_start_from _ h
  have hnd : ((accounted std' live ++ entries).map Prod.fst).Nodup := by
    refine hnodup.sublist (List.Sublist.map _ (List.Sublist.append_right ?_ _))
    unfold accounted
    split
    · exact List.nil_sublist _
    · exact List.filter_sublist
  have hadd := laws.accounts_add_all hvalid hnd hstart
  simp only [update_reports_func, if_true, hagain]
  rw [laws.std_add_all]
  show laws.Accounts _ (accounted std' (live ++ entries))
  have hfilter : entries.filter (fun e => std'.since e.2 && std'.cond.check e.2.data) =
      entries.filter fun e => std'.cond.check e.2.data := by
    apply List.filter_congr
    intro e he
    rw [hnew e he, Bool.true_and]
  have hsplit : accounted std' (live ++ entries) =
      accounted std' live ++ entries.filter fun e => std'.cond.check e.2.data := by
    simp only [accounted, if_neg hset', List.filter_append, hfilter]
  rw [hsplit]
  exact hadd

/-- A batch that is not shown to the report has only records that do not
    matter to it. -/
theorem accounts_batch_idle (hwf : laws.WellFormed r) (hidle : ∀ e ∈ entries, laws.Idle e.2)
    (h : laws.Accounts r (accounted (ops.std r) live)) :
    laws.Accounts r (accounted (ops.std r) (live ++ entries)) := by
  unfold accounted at *
  split
  · simpa [*] using h
  · next hset =>
    rw [if_neg hset] at h
    rw [List.filter_append]
    exact (laws.accounts_idle_filter hwf hidle).mpr h

/-! ## Section 5: An expiry pass -/

/-- Expiring the oldest entries shortens the window by them; entries from
    before the start are skipped. -/
theorem accounts_expire_of_set (hvalid : ∀ e ∈ entries, laws.Valid e.2)
    (hnodup : ((entries ++ live).map Prod.fst).Nodup)
    (hset : ¬ (ops.std r).unset)
    (h : laws.Accounts r (accounted (ops.std r) (entries ++ live))) :
    laws.Accounts (ops.delete_all entries r) (accounted (ops.std r) live) := by
  simp only [accounted, if_neg hset] at h ⊢
  induction entries generalizing r with
  | nil => exact h
  | cons e entries ih =>
    have hrest : ∀ e ∈ entries, laws.Valid e.2 := fun x hx => hvalid x (List.mem_cons_of_mem _ hx)
    have hnd : ((entries ++ live).map Prod.fst).Nodup := by
      rw [List.cons_append, List.map_cons, List.nodup_cons] at hnodup
      exact hnodup.2
    have hstep : ops.delete_all (e :: entries) r = ops.delete_all entries
        (if (ops.std r).cond.check e.2.data then ops.delete_func e.1 r e.2 else r) := rfl
    rw [hstep]
    by_cases hc : (ops.std r).cond.check e.2.data = true
    · rw [if_pos hc]
      by_cases hs : (ops.std r).since e.2 = true
      · have hfresh : e.1 ∉ (((entries ++ live).filter fun e =>
            (ops.std r).since e.2 && (ops.std r).cond.check e.2.data)).map Prod.fst := by
          intro hmem
          rw [List.cons_append, List.map_cons, List.nodup_cons] at hnodup
          exact hnodup.1 ((List.filter_sublist.map _).subset hmem)
        have hdel := laws.accounts_delete e.1 r e.2 _ (hvalid e List.mem_cons_self) hfresh
          (by rw [StdReport.delete_check_eq_not_since, hs]; rfl)
          (by simpa [hc, hs] using h)
        have hstd := laws.std_delete e.1 r e.2
        have := ih (r := ops.delete_func e.1 r e.2) hrest hnd (by rwa [hstd]) (by rwa [hstd])
        rwa [hstd] at this
      · rw [laws.delete_old e.1 r e.2 (by simp [StdReport.delete_check_eq_not_since, hs])]
        exact ih hrest hnd hset (by simpa [hs] using h)
    · rw [if_neg hc]
      exact ih hrest hnd hset (by simpa [hc] using h)

/-- A report without a start accounts for nothing. `PINBA_REPORT_DELETE_CHECK`
    lets every record through then, and each one finds the report empty. -/
theorem accounts_expire_of_unset (hvalid : ∀ e ∈ entries, laws.Valid e.2)
    (h : laws.Accounts r []) : laws.Accounts (ops.delete_all entries r) [] := by
  unfold delete_all
  induction entries generalizing r with
  | nil => exact h
  | cons e entries ih =>
    rw [List.foldl_cons]
    apply ih fun x hx => hvalid x (List.mem_cons_of_mem _ hx)
    split
    · exact laws.delete_empty _ _ _ (hvalid e List.mem_cons_self) h
    · exact h

/-- An expiry pass that reaches the report shortens its window. -/
theorem accounts_expire (hvalid : ∀ e ∈ entries, laws.Valid e.2)
    (hnodup : ((entries ++ live).map Prod.fst).Nodup)
    (h : laws.Accounts r (accounted (ops.std r) (entries ++ live))) :
    let r' := ops.delete_all entries r
    laws.Accounts r' (accounted (ops.std r') live) := by
  simp only
  rw [laws.std_delete_all]
  by_cases hun : (ops.std r).unset
  · simp only [accounted, if_pos hun] at h ⊢
    exact laws.accounts_expire_of_unset hvalid h
  · exact laws.accounts_expire_of_set hvalid hnodup hun h

/-- An expiry pass that is not shown to the report has only records that do not
    matter to it. -/
theorem accounts_expire_idle (hwf : laws.WellFormed r) (hidle : ∀ e ∈ entries, laws.Idle e.2)
    (h : laws.Accounts r (accounted (ops.std r) (entries ++ live))) :
    laws.Accounts r (accounted (ops.std r) live) := by
  unfold accounted at *
  split
  · simpa [*] using h
  · next hset =>
    rw [if_neg hset, List.filter_append] at h
    induction entries with
    | nil => exact h
    | cons e entries ih =>
      have hrest : ∀ e ∈ entries, laws.Idle e.2 := fun x hx => hidle x (List.mem_cons_of_mem _ hx)
      apply ih hrest
      by_cases hp : ((ops.std r).since e.2 && (ops.std r).cond.check e.2.data) = true
      · rw [List.filter_cons_of_pos (p := fun e : Entry =>
          (ops.std r).since e.2 && (ops.std r).cond.check e.2.data) hp] at h
        exact (laws.accounts_idle r e.2 e.1 [] _ hwf (hidle e List.mem_cons_self)).mp h
      · rwa [List.filter_cons_of_neg (p := fun e : Entry =>
          (ops.std r).since e.2 && (ops.std r).cond.check e.2.data) hp] at h

end ReportLaws

end PinbaEngine
