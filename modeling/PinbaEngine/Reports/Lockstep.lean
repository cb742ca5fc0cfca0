import PinbaEngine.Accounting

/-! # Reports in lockstep

    Two report kinds that were written separately may still do the same thing to
    every record. If they do, two registered reports with the same parameters,
    filter and start have the same content in every state of every run, whatever
    the clock does: no accounting is needed, only that both see the same records.

    Reports of one family share a list (`tag_reports`, `rtag_reports`), so the
    argument is made for an arbitrary family over an arbitrary list. That two
    reports with equal starts have seen the same batches is `Started`: a start is
    the counter of a record, and counters are never given twice.
-/

namespace PinbaEngine

open ReportOps

/-- No timer carries a tag id twice and no request tag name occurs twice. Names
    are interned, so they are told apart by their pointers. -/
structure StatsRecord.Plain (record : StatsRecord) : Prop where
  timers : ∀ timer ∈ record.timers, timer.DistinctTags
  tags : (record.data.tags.map fun t => t.1.ptr).Nodup

/-- The same filter and the same start. -/
structure StdReport.SameStart (std std' : StdReport) : Prop where
  cond : std'.cond = std.cond
  start : std'.start = std.start
  request_pool_start_id : std'.request_pool_start_id = std.request_pool_start_id

theorem StdReport.SameStart.unset_iff {std std' : StdReport} (h : std.SameStart std') :
    std'.unset ↔ std.unset := by
  unfold unset
  rw [h.start]

/-! ## Section 1: Lockstep -/

/-- The parameters of the reports of a kind, which nothing changes. -/
structure ReportParams {R : Type*} (ops : ReportOps R) (P : Type*) where
  get : R → P
  get_with_std : ∀ r s, get (ops.with_std r s) = get r
  get_add : ∀ slot r rec, get (ops.add_func slot r rec) = get r
  get_delete : ∀ slot r rec, get (ops.delete_func slot r rec) = get r

/-- On records that are plain, the update functions of two kinds keep reports with
    the parameters `p` the same. -/
structure Lockstep {R R' P : Type*} {ops : ReportOps R} {ops' : ReportOps R'}
    (laws : ReportLaws ops) (laws' : ReportLaws ops') (params : ReportParams ops P)
    (params' : ReportParams ops' P) (p : P) where
  /-- The contents of the reports agree. -/
  Same : R → R' → Prop
  same_with_std : ∀ r r' s s', Same r r' → Same (ops.with_std r s) (ops'.with_std r' s')
  same_add : ∀ slot r r' rec, rec.Plain → params.get r = p → params'.get r' = p → Same r r' →
    Same (ops.add_func slot r rec) (ops'.add_func slot r' rec)
  same_delete : ∀ slot r r' rec, rec.Plain → params.get r = p → params'.get r' = p →
    (ops'.std r').delete_check rec = (ops.std r).delete_check rec → Same r r' →
    Same (ops.delete_func slot r rec) (ops'.delete_func slot r' rec)
  same_blank : ∀ r r', params.get r = p → params'.get r' = p → laws.Accounts r [] →
    laws'.Accounts r' [] → Same r r'

section params
variable {R P : Type*} {ops : ReportOps R} (params : ReportParams ops P)

theorem ReportParams.get_start_from (first : StatsRecord) (r : R) :
    params.get (ops.start_from first r) = params.get r := by
  unfold start_from
  split
  · exact params.get_with_std _ _
  · rfl

theorem ReportParams.get_add_job (first : StatsRecord) (entries : List Entry) (r : R) :
    params.get (Daemon.add_job ops first entries r) = params.get r := by
  unfold Daemon.add_job update_reports_func
  rw [if_pos rfl]
  refine ops.add_all_induct (P := fun r' => params.get r' = params.get r)
    (fun slot r' rec h => (params.get_add slot r' rec).trans h) entries ?_
  rw [params.get_start_from, params.get_start_from]

theorem ReportParams.get_delete_all (entries : List Entry) (r : R) :
    params.get (ops.delete_all entries r) = params.get r :=
  ops.delete_all_induct (P := fun r' => params.get r' = params.get r)
    (fun slot r' rec h => (params.get_delete slot r' rec).trans h) entries rfl

end params

namespace Lockstep

variable {R R' P : Type*} {ops : ReportOps R} {ops' : ReportOps R'} {laws : ReportLaws ops}
  {laws' : ReportLaws ops'} {params : ReportParams ops P} {params' : ReportParams ops' P} {p : P}
  (pair : Lockstep laws laws' params params' p) {r : R} {r' : R'} {entries : List Entry}
  {first : StatsRecord}

/-- Both reports are set to start at the record, or neither is. -/
theorem same_start_from (hstart : (ops.std r).SameStart (ops'.std r')) (h : pair.Same r r') :
    pair.Same (ops.start_from first r) (ops'.start_from first r') := by
  unfold start_from
  by_cases hun : (ops.std r).unset
  · rw [if_pos hun, if_pos (hstart.unset_iff.mpr hun)]
    exact pair.same_with_std _ _ _ _ h
  · rw [if_neg hun, if_neg (mt hstart.unset_iff.mp hun)]
    exact h

/-- The loop of the add job. -/
theorem same_add_all (hplain : ∀ e ∈ entries, e.2.Plain) (hp : params.get r = p)
    (hp' : params'.get r' = p) (hcond : (ops'.std r').cond = (ops.std r).cond)
    (h : pair.Same r r') : pair.Same (ops.add_all entries r) (ops'.add_all entries r') := by
  unfold add_all
  induction entries generalizing r r' with
  | nil => exact h
  | cons e entries ih =>
    have hrest : ∀ e ∈ entries, e.2.Plain := fun x hx => hplain x (List.mem_cons_of_mem _ hx)
    rw [List.foldl_cons, List.foldl_cons, hcond]
    by_cases hc : (ops.std r).cond.check e.2.data = true
    · rw [if_pos hc, if_pos hc]
      refine ih hrest ?_ ?_ ?_ (pair.same_add _ _ _ _ (hplain e List.mem_cons_self) hp hp' h)
      · rw [params.get_add, hp]
      · rw [params'.get_add, hp']
      · rw [laws.std_add, laws'.std_add, hcond]
    · rw [if_neg hc, if_neg hc]
      exact ih hrest hp hp' hcond h

/-- The loop of the delete job. -/
theorem same_delete_all (hplain : ∀ e ∈ entries, e.2.Plain) (hp : params.get r = p)
    (hp' : params'.get r' = p) (hstart : (ops.std r).SameStart (ops'.std r'))
    (h : pair.Same r r') : pair.Same (ops.delete_all entries r) (ops'.delete_all entries r') := by
  unfold delete_all
  induction entries generalizing r r' with
  | nil => exact h
  | cons e entries ih =>
    have hrest : ∀ e ∈ entries, e.2.Plain := fun x hx => hplain x (List.mem_cons_of_mem _ hx)
    have hcheck : (ops'.std r').delete_check e.2 = (ops.std r).delete_check e.2 := by
      unfold StdReport.delete_check
      rw [hstart.start, hstart.request_pool_start_id]
    rw [List.foldl_cons, List.foldl_cons, hstart.cond]
    by_cases hc : (ops.std r).cond.check e.2.data = true
    · rw [if_pos hc, if_pos hc]
      refine ih hrest ?_ ?_ ?_
        (pair.same_delete _ _ _ _ (hplain e List.mem_cons_self) hp hp' hcheck h)
      · rw [params.get_delete, hp]
      · rw [params'.get_delete, hp']
      · rw [laws.std_delete, laws'.std_delete]
        exact hstart
    · rw [if_neg hc, if_neg hc]
      exact ih hrest hp hp' hstart h

/-- A batch that is shown to both reports. -/
theorem same_add_job (hplain : ∀ e ∈ entries, e.2.Plain) (hp : params.get r = p)
    (hp' : params'.get r' = p) (hstart : (ops.std r).SameStart (ops'.std r'))
    (h : pair.Same r r') :
    pair.Same (Daemon.add_job ops first entries r) (Daemon.add_job ops' first entries r') := by
  -- the job sets the start twice; the second time changes nothing
  have honce : (ops.std (ops.start_from first r)).SameStart
      (ops'.std (ops'.start_from first r')) := by
    rw [laws.std_start_from, laws'.std_start_from]
    by_cases hun : (ops.std r).unset
    · rw [if_pos hun, if_pos (hstart.unset_iff.mpr hun)]
      exact ⟨hstart.cond, rfl, rfl⟩
    · rw [if_neg hun, if_neg (mt hstart.unset_iff.mp hun)]
      exact hstart
  unfold Daemon.add_job update_reports_func
  rw [if_pos rfl, if_pos rfl]
  refine pair.same_add_all hplain ?_ ?_ ?_
    (pair.same_start_from honce (pair.same_start_from hstart h))
  · rw [params.get_start_from, params.get_start_from, hp]
  · rw [params'.get_start_from, params'.get_start_from, hp']
  · have hcond : ∀ r, (ops.std (ops.start_from first r)).cond = (ops.std r).cond := by
      intro r
      rw [laws.std_start_from]
      split <;> rfl
    have hcond' : ∀ r, (ops'.std (ops'.start_from first r)).cond = (ops'.std r).cond := by
      intro r
      rw [laws'.std_start_from]
      split <;> rfl
    rw [hcond, hcond', hcond, hcond', hstart.cond]

end Lockstep

/-! ## Section 2: Starts -/

/-- A report without a start is empty; a start is the counter of a record that
    was admitted before. -/
structure Started {R : Type*} {ops : ReportOps R} (laws : ReportLaws ops) (counter : Nat) (r : R) :
    Prop where
  blank : (ops.std r).unset → laws.Accounts r []
  zero : (ops.std r).unset →
    (ops.std r).start = ⟨0, 0⟩ ∧ (ops.std r).request_pool_start_id = 0
  before : ¬ (ops.std r).unset → (ops.std r).request_pool_start_id < counter

namespace Started

variable {R : Type*} {ops : ReportOps R} {laws : ReportLaws ops} {r : R} {counter counter' : Nat}
  {entries : List Entry} {first : StatsRecord}

theorem later (h : Started laws counter r) (hle : counter ≤ counter') : Started laws counter' r :=
  ⟨h.blank, h.zero, fun hset => (h.before hset).trans_le hle⟩

theorem created (cond : Conditions) (buckets : BucketChoice)
    (hstd : ops.std r = .created cond buckets) (hacc : laws.Accounts r []) :
    Started laws counter r := by
  refine ⟨fun _ => hacc, ?_, ?_⟩
  · intro _
    rw [hstd]
    exact ⟨rfl, rfl⟩
  · intro hset
    rw [hstd] at hset
    exact absurd rfl hset

/-- After a batch every report has a start. -/
theorem add_job (h : Started laws counter r) (hfirst : first.counter = counter)
    (hsec : first.time.tv_sec ≠ 0) (hlt : counter < counter') :
    Started laws counter' (Daemon.add_job ops first entries r) := by
  have hstd := Tracked.std_add_job laws first entries r
  have hset : ¬ (ops.std (Daemon.add_job ops first entries r)).unset := by
    rw [hstd]
    split
    · exact hsec
    · assumption
  refine ⟨fun hun => absurd hun hset, fun hun => absurd hun hset, ?_⟩
  intro _
  rw [hstd]
  by_cases hun : (ops.std r).unset
  · rw [if_pos hun]
    show first.counter < counter'
    omega
  · rw [if_neg hun]
    have := h.before hun
    omega

theorem delete_all (h : Started laws counter r) (hvalid : ∀ e ∈ entries, laws.Valid e.2) :
    Started laws counter (ops.delete_all entries r) := by
  have hstd := laws.std_delete_all entries r
  refine ⟨?_, ?_, ?_⟩
  · rw [hstd]
    exact fun hun => laws.accounts_expire_of_unset hvalid (h.blank hun)
  · rw [hstd]
    exact h.zero
  · rw [hstd]
    exact h.before

end Started

namespace Lockstep

variable {R R' P : Type*} {ops : ReportOps R} {ops' : ReportOps R'} {laws : ReportLaws ops}
  {laws' : ReportLaws ops'} {params : ReportParams ops P} {params' : ReportParams ops' P} {p : P}
  (pair : Lockstep laws laws' params params' p) {r : R} {r' : R'} {counter : Nat}
  {first : StatsRecord} {entries : List Entry}

/-- Reports that have the same start after a batch had the same start before. -/
theorem sameStart_of_add_job (hr : Started laws counter r) (hr' : Started laws' counter r')
    (hfirst : first.counter = counter)
    (h : (ops.std (Daemon.add_job ops first entries r)).SameStart
      (ops'.std (Daemon.add_job ops' first entries r'))) :
    (ops.std r).SameStart (ops'.std r') := by
  rw [Tracked.std_add_job laws, Tracked.std_add_job laws'] at h
  by_cases hun : (ops.std r).unset
  · by_cases hun' : (ops'.std r').unset
    · rw [if_pos hun, if_pos hun'] at h
      refine ⟨h.cond, ?_, ?_⟩
      · rw [(hr.zero hun).1, (hr'.zero hun').1]
      · rw [(hr.zero hun).2, (hr'.zero hun').2]
    · -- only the first report takes its start from this batch
      rw [if_pos hun, if_neg hun'] at h
      have hid : (ops'.std r').request_pool_start_id = first.counter := h.request_pool_start_id
      have hlt := hr'.before hun'
      omega
  -- the other way round
  · by_cases hun' : (ops'.std r').unset
    · rw [if_neg hun, if_pos hun'] at h
      have hid : first.counter = (ops.std r).request_pool_start_id := h.request_pool_start_id
      have hlt := hr.before hun
      omega
    · rwa [if_neg hun, if_neg hun'] at h

end Lockstep

/-! ## Section 3: A family of reports -/

section family
variable {κ P : Type} {F : κ → Type} {ops : ∀ k, ReportOps (F k)} {laws : ∀ k, ReportLaws (ops k)}
  {params : ∀ k, ReportParams (ops k) P} {k k' : κ} {p : P} {reports : List (Σ k, F k)}
  {counter counter' : Nat} {first : StatsRecord} {entries : List Entry}

/-- The starts of a list of reports. -/
def AllStarted (laws : ∀ k, ReportLaws (ops k)) (counter : Nat) (reports : List (Σ k, F k)) : Prop :=
  ∀ r ∈ reports, Started (laws r.1) counter r.2

/-- Reports of two kinds with the parameters `p` that have the same filter and
    start are the same. -/
def InLockstep (pair : Lockstep (laws k) (laws k') (params k) (params k') p)
    (reports : List (Σ k, F k)) : Prop :=
  ∀ r r', ⟨k, r⟩ ∈ reports → ⟨k', r'⟩ ∈ reports → (params k).get r = p → (params k').get r' = p →
    ((ops k).std r).SameStart ((ops k').std r') → pair.Same r r'

theorem exists_of_mem_map (g : ∀ k, F k → F k) {r : F k}
    (h : ⟨k, r⟩ ∈ reports.map fun r => (⟨r.1, g r.1 r.2⟩ : Σ k, F k)) :
    ∃ r₀, ⟨k, r₀⟩ ∈ reports ∧ g k r₀ = r := by
  obtain ⟨⟨k₀, r₀⟩, hmem, heq⟩ := List.mem_map.mp h
  cases heq
  exact ⟨r₀, hmem, rfl⟩

theorem AllStarted.later (h : AllStarted laws counter reports) (hle : counter ≤ counter') :
    AllStarted laws counter' reports :=
  fun r hr => (h r hr).later hle

theorem AllStarted.add_job (h : AllStarted laws counter reports) (hfirst : first.counter = counter)
    (hsec : first.time.tv_sec ≠ 0) (hlt : counter < counter') :
    AllStarted laws counter'
      (reports.map fun r => ⟨r.1, Daemon.add_job (ops r.1) first entries r.2⟩) := by
  intro r hr
  obtain ⟨r₀, hmem, rfl⟩ := List.mem_map.mp hr
  exact (h r₀ hmem).add_job hfirst hsec hlt

theorem AllStarted.delete_all (h : AllStarted laws counter reports)
    (hvalid : ∀ k, ∀ e ∈ entries, (laws k).Valid e.2) :
    AllStarted laws counter (reports.map fun r => ⟨r.1, (ops r.1).delete_all entries r.2⟩) := by
  intro r hr
  obtain ⟨r₀, hmem, rfl⟩ := List.mem_map.mp hr
  exact (h r₀ hmem).delete_all (hvalid r₀.1)

section pair
variable {pair : Lockstep (laws k) (laws k') (params k) (params k') p}

/-- A batch that is shown to the family. -/
theorem inLockstep_add_job (hs : AllStarted laws counter reports) (h : InLockstep pair reports)
    (hfirst : first.counter = counter) (hplain : ∀ e ∈ entries, e.2.Plain) :
    InLockstep pair
      (reports.map fun r => ⟨r.1, Daemon.add_job (ops r.1) first entries r.2⟩) := by
  intro r r' hr hr' hp hp' hstart
  obtain ⟨r₀, hmem, rfl⟩ := exists_of_mem_map (fun k => Daemon.add_job (ops k) first entries) hr
  obtain ⟨r₀', hmem', rfl⟩ := exists_of_mem_map (fun k => Daemon.add_job (ops k) first entries) hr'
  rw [ReportParams.get_add_job] at hp hp'
  have hbefore := Lockstep.sameStart_of_add_job (hs ⟨k, r₀⟩ hmem) (hs ⟨k', r₀'⟩ hmem') hfirst hstart
  exact pair.same_add_job hplain hp hp' hbefore (h r₀ r₀' hmem hmem' hp hp' hbefore)

/-- An expiry pass that is shown to the family. -/
theorem inLockstep_delete_all (h : InLockstep pair reports) (hplain : ∀ e ∈ entries, e.2.Plain) :
    InLockstep pair (reports.map fun r => ⟨r.1, (ops r.1).delete_all entries r.2⟩) := by
  intro r r' hr hr' hp hp' hstart
  obtain ⟨r₀, hmem, rfl⟩ := exists_of_mem_map (fun k => (ops k).delete_all entries) hr
  obtain ⟨r₀', hmem', rfl⟩ := exists_of_mem_map (fun k => (ops k).delete_all entries) hr'
  rw [ReportParams.get_delete_all] at hp hp'
  rw [(laws k).std_delete_all, (laws k').std_delete_all] at hstart
  exact pair.same_delete_all hplain hp hp' hstart (h r₀ r₀' hmem hmem' hp hp' hstart)

/-- A new report has no start, so it can only agree with empty ones. -/
theorem inLockstep_register (hs : AllStarted laws counter reports) (h : InLockstep pair reports)
    {new : Σ k, F k} (hun : ((ops new.1).std new.2).unset)
    (hnew : Started (laws new.1) counter new.2) : InLockstep pair (reports ++ [new]) := by
  have hall : AllStarted laws counter (reports ++ [new]) := Daemon.forall_mem_snoc hs hnew
  -- two reports without a start are empty
  have hblank : ∀ r r', ⟨k, r⟩ ∈ reports ++ [new] → ⟨k', r'⟩ ∈ reports ++ [new] →
      (params k).get r = p → (params k').get r' = p →
      ((ops k).std r).SameStart ((ops k').std r') → ((ops k).std r).unset → pair.Same r r' := by
    intro r r' hr hr' hp hp' hstart hr₀
    exact pair.same_blank r r' hp hp' ((hall _ hr).blank hr₀)
      ((hall _ hr').blank (hstart.unset_iff.mpr hr₀))
  intro r r' hr hr' hp hp' hstart
  rcases List.mem_append.mp hr with hold | heq
  · rcases List.mem_append.mp hr' with hold' | heq'
    · exact h r r' hold hold' hp hp' hstart
    · have hun' : ((ops k').std r').unset := by
        cases List.mem_singleton.mp heq'
        exact hun
      exact hblank r r' hr hr' hp hp' hstart (hstart.unset_iff.mp hun')
  · have hun : ((ops k).std r).unset := by
      cases List.mem_singleton.mp heq
      exact hun
    exact hblank r r' hr hr' hp hp' hstart hun

end pair

end family

/-! ## Section 4: Runs of the daemon -/

namespace Daemon

variable {d : Daemon} {now : Timeval} {staged : List StagedRecord} {realloc_ok : Bool}

/-- Batches arrive after the first second of 1970, and their records are plain. -/
def Event.Plain : Event → Prop
  | .ingest now staged _ => now.tv_sec ≠ 0 ∧ ∀ r ∈ staged,
      (∀ timer ∈ r.timers, timer.DistinctTags) ∧ (r.data.tags.map fun t => t.1.ptr).Nodup
  | _ => True

/-- The states of the runs of a daemon whose events all meet a condition. -/
inductive Run (ok : Event → Prop) : Daemon → Prop
  | init (requests timers : Nat) : Run ok (init requests timers)
  | step {d : Daemon} (e : Event) (hd : Run ok d) (hok : ok e) : Run ok (d.step e)

/-- What every state of such a run knows. -/
structure RunInv (d : Daemon) : Prop where
  plain : ∀ e ∈ d.live, e.2.Plain
  tags : AllStarted tagLaws d.request_pool_counter d.tag_reports
  rtags : AllStarted rtagLaws d.request_pool_counter d.rtag_reports

theorem plain_new_entries (h : ∀ r ∈ staged,
      (∀ timer ∈ r.timers, timer.DistinctTags) ∧ (r.data.tags.map fun t => t.1.ptr).Nodup) :
    ∀ e ∈ d.new_entries now staged realloc_ok, e.2.Plain := by
  intro e he
  have hmem : e.2 ∈ d.new_records now staged realloc_ok := (List.of_mem_zip he).2
  unfold new_records at hmem
  simp only at hmem
  split at hmem
  · obtain ⟨-, -, -, s, hs, htimers, hdata⟩ := StagedRecord.mem_stamp hmem
    obtain ⟨hdistinct, hnodup⟩ := h s (List.mem_of_mem_take hs)
    exact ⟨by rwa [htimers], by rwa [hdata]⟩
  · obtain ⟨-, -, -, s, hs, htimers, hdata⟩ := StagedRecord.mem_stamp hmem
    obtain ⟨s', hs', rfl⟩ := List.mem_map.mp hs
    refine ⟨?_, ?_⟩
    · rw [htimers]
      exact fun timer ht => absurd ht List.not_mem_nil
    · rw [hdata]
      exact (h s' (List.mem_of_mem_take hs')).2

/-- The start that a batch gives is its first record. -/
theorem first_record_spec (hrecords : d.new_records now staged realloc_ok ≠ []) :
    (d.first_record now staged realloc_ok).counter = d.request_pool_counter ∧
      (d.first_record now staged realloc_ok).time = now := by
  obtain ⟨first, hfirst⟩ := exists_first_entry hrecords
  have hbatch : ReportLaws.BatchOf (d.new_entries now staged realloc_ok) now
      d.request_pool_counter := batchOf_new_entries
  rw [first_record_eq hfirst]
  exact ⟨hbatch.first_counter first hfirst, hbatch.time first (List.mem_of_head? hfirst)⟩

theorem counter_lt_of_records (hnil : staged ≠ [])
    (hrecords : d.new_records now staged realloc_ok ≠ []) :
    d.request_pool_counter < (d.ingest now staged realloc_ok).request_pool_counter := by
  rw [counter_ingest hnil]
  have := List.length_pos_of_ne_nil hrecords
  omega

/-- A batch that reaches the timer tag reports has records. -/
theorem tag_reports_ingest_cases (d : Daemon) (now : Timeval) (staged : List StagedRecord)
    (realloc_ok : Bool) : (d.ingest now staged realloc_ok).tag_reports = d.tag_reports ∨
      d.new_records now staged realloc_ok ≠ [] ∧ (d.ingest now staged realloc_ok).tag_reports =
        d.tag_reports.map fun r => ⟨r.1, add_job (tagOps r.1)
          (d.first_record now staged realloc_ok) (d.new_entries now staged realloc_ok) r.2⟩ := by
  by_cases hnil : staged = []
  · exact .inl (by rw [ingest_of_nil hnil])
  · rw [tag_reports_ingest hnil]
    split
    · exact .inl rfl
    · next htimers => exact .inr ⟨new_records_ne_nil_of_timers htimers, rfl⟩

/-- A batch that reaches the request tag reports has records. -/
theorem rtag_reports_ingest_cases (d : Daemon) (now : Timeval) (staged : List StagedRecord)
    (realloc_ok : Bool) : (d.ingest now staged realloc_ok).rtag_reports = d.rtag_reports ∨
      d.new_records now staged realloc_ok ≠ [] ∧ (d.ingest now staged realloc_ok).rtag_reports =
        d.rtag_reports.map fun r => ⟨r.1, add_job (rtagOps r.1)
          (d.first_record now staged realloc_ok) (d.new_entries now staged realloc_ok) r.2⟩ := by
  by_cases hnil : staged = []
  · exact .inl (by rw [ingest_of_nil hnil])
  · rw [rtag_reports_ingest hnil]
    split
    · exact .inl rfl
    · next htags => exact .inr ⟨new_records_ne_nil_of_rtags htags, rfl⟩

theorem runInv_ingest (h : RunInv d) (hplain : Event.Plain (.ingest now staged realloc_ok)) :
    RunInv (d.ingest now staged realloc_ok) := by
  by_cases hnil : staged = []
  · rw [ingest_of_nil hnil]
    exact h
  have hle : d.request_pool_counter ≤ (d.ingest now staged realloc_ok).request_pool_counter := by
    rw [counter_ingest hnil]
    exact Nat.le_add_right _ _
  -- the start that the reports get when they see records
  have hstart : d.new_records now staged realloc_ok ≠ [] →
      (d.first_record now staged realloc_ok).counter = d.request_pool_counter ∧
        (d.first_record now staged realloc_ok).time.tv_sec ≠ 0 := by
    intro hrecords
    obtain ⟨hcounter, htime⟩ := first_record_spec hrecords
    exact ⟨hcounter, by rw [htime]; exact hplain.1⟩
  refine ⟨?_, ?_, ?_⟩
  · rw [live_ingest hnil]
    intro e he
    rcases List.mem_append.mp he with hold | hnew
    · exact h.plain e hold
    · exact plain_new_entries hplain.2 e hnew
  · rcases tag_reports_ingest_cases d now staged realloc_ok with hsame | ⟨hrecords, hadded⟩
    · rw [hsame]
      exact h.tags.later hle
    · rw [hadded]
      exact h.tags.add_job (hstart hrecords).1 (hstart hrecords).2 (counter_lt_of_records hnil hrecords)
  · rcases rtag_reports_ingest_cases d now staged realloc_ok with hsame | ⟨hrecords, hadded⟩
    · rw [hsame]
      exact h.rtags.later hle
    · rw [hadded]
      exact h.rtags.add_job (hstart hrecords).1 (hstart hrecords).2 (counter_lt_of_records hnil hrecords)

theorem plain_delete_old (h : RunInv d) (from_ : Timeval) :
    ∀ e ∈ d.delete_old from_, e.2.Plain :=
  fun e he => h.plain e ((List.takeWhile_prefix _).subset he)

theorem runInv_expire (h : RunInv d) (from_ : Timeval) : RunInv (d.expire from_) := by
  have hplain := plain_delete_old h from_
  refine ⟨?_, ?_, ?_⟩
  · intro e he
    apply h.plain
    rw [d.live_expire from_]
    exact List.mem_append_right _ he
  · unfold expire
    simp only
    split
    · exact h.tags
    · exact h.tags.delete_all fun _ e he => (hplain e he).timers
  · unfold expire
    simp only
    split
    · exact h.rtags
    · exact h.rtags.delete_all fun _ _ _ => trivial

theorem started_tag_created (kind : TagKind) (cond : Conditions) (buckets : BucketChoice)
    (tag_id : List Int) (counter : Nat) :
    Started (tagLaws kind) counter (.created kind cond buckets tag_id) :=
  Started.created cond buckets rfl
    (TagReport.accounts_created kind cond buckets tag_id)

theorem started_rtag_created (kind : RtagKind) (cond : Conditions) (buckets : BucketChoice)
    (tags : List Word) (counter : Nat) :
    Started (rtagLaws kind) counter (.created kind cond buckets tags) :=
  Started.created cond buckets rfl
    (RtagReport.accounts_created kind cond buckets tags)

theorem runInv_of_run (h : Run Event.Plain d) : RunInv d := by
  induction h with
  | init requests timers =>
    have hlive : (init requests timers).live = [] := CircularBuffer.contents_blank _ _
    refine ⟨?_, fun r hr => absurd hr List.not_mem_nil, fun r hr => absurd hr List.not_mem_nil⟩
    rw [hlive]
    exact fun e he => absurd he List.not_mem_nil
  | step e _ hok ih =>
    cases e with
    | ingest now staged realloc_ok => exact runInv_ingest ih hok
    | expire from_ => exact runInv_expire ih from_
    | register_base kind cond buckets => exact ⟨ih.plain, ih.tags, ih.rtags⟩
    | register_rtag kind cond buckets tags =>
      exact ⟨ih.plain, ih.tags, forall_mem_snoc ih.rtags (started_rtag_created _ _ _ _ _)⟩
    | register_tag kind cond buckets tag_id =>
      exact ⟨ih.plain, forall_mem_snoc ih.tags (started_tag_created _ _ _ _ _), ih.rtags⟩

section pairs
variable {P : Type}

/-- In every run, timer tag reports of two kinds in lockstep agree. -/
theorem tag_reports_inLockstep (params : ∀ k, ReportParams (tagOps k) P) {k k' : TagKind} {p : P}
    (pair : Lockstep (tagLaws k) (tagLaws k') (params k) (params k') p) (h : Run Event.Plain d) :
    InLockstep pair d.tag_reports := by
  induction h with
  | init requests timers => exact fun r r' hr => absurd hr List.not_mem_nil
  | @step d e hd hok ih =>
    have hinv := runInv_of_run hd
    cases e with
    | ingest now staged realloc_ok =>
      show InLockstep pair (d.ingest now staged realloc_ok).tag_reports
      rcases tag_reports_ingest_cases d now staged realloc_ok with hsame | ⟨hrecords, hadded⟩
      · rw [hsame]
        exact ih
      · rw [hadded]
        exact inLockstep_add_job hinv.tags ih (first_record_spec hrecords).1 (plain_new_entries hok.2)
    | expire from_ =>
      show InLockstep pair (d.expire from_).tag_reports
      unfold expire
      simp only
      split
      · exact ih
      · exact inLockstep_delete_all ih (plain_delete_old hinv from_)
    | register_base | register_rtag => exact ih
    | register_tag kind cond buckets tag_id =>
      exact inLockstep_register hinv.tags ih rfl (started_tag_created _ _ _ _ _)

/-- In every run, request tag reports of two kinds in lockstep agree. -/
theorem rtag_reports_inLockstep (params : ∀ k, ReportParams (rtagOps k) P) {k k' : RtagKind} {p : P}
    (pair : Lockstep (rtagLaws k) (rtagLaws k') (params k) (params k') p)
    (h : Run Event.Plain d) : InLockstep pair d.rtag_reports := by
  induction h with
  | init requests timers => exact fun r r' hr => absurd hr List.not_mem_nil
  | @step d e hd hok ih =>
    have hinv := runInv_of_run hd
    cases e with
    | ingest now staged realloc_ok =>
      show InLockstep pair (d.ingest now staged realloc_ok).rtag_reports
      rcases rtag_reports_ingest_cases d now staged realloc_ok with hsame | ⟨hrecords, hadded⟩
      · rw [hsame]
        exact ih
      · rw [hadded]
        exact inLockstep_add_job hinv.rtags ih (first_record_spec hrecords).1 (plain_new_entries hok.2)
    | expire from_ =>
      show InLockstep pair (d.expire from_).rtag_reports
      unfold expire
      simp only
      split
      · exact ih
      · exact inLockstep_delete_all ih (plain_delete_old hinv from_)
    | register_base | register_tag => exact ih
    | register_rtag kind cond buckets tags =>
      exact inLockstep_register hinv.rtags ih rfl (started_rtag_created _ _ _ _ _)

end pairs

end Daemon

end PinbaEngine
