import PinbaEngine.Daemon
import PinbaEngine.Reports.Exact

/-! # Report accounting over whole runs

    Every report is, in every reachable state, the exact aggregation of the live
    records that were admitted since its start and that pass its filter and its
    grouping. For base reports this holds of every run in which no report without
    a start meets a batch that the full ring rejects as a whole (`SoundEvent`).

    The records are whole here: they keep the timers that were stored for them.
    When the timer tag reports of the code read the same timers is the subject of
    `PooledAccounting`.

    The invariant has a part about the ring (`RingInv`) and one for each report
    (`Tracked`). `Tracked` is stated for an arbitrary report family, and so are
    the lemmas about a batch and an expiry pass; the three families only supply
    their laws.
-/

namespace PinbaEngine

open ReportOps

/-! ## Section 1: Tracked reports -/

section tracked
variable {R : Type*} {ops : ReportOps R}

/-- The report accounts for the live entries since its start, and its start is
    not in the future of the ring. -/
structure Tracked (laws : ReportLaws ops) (r : R) (live : List Entry) (last : Timeval)
    (counter : Nat) : Prop where
  accounts : laws.Accounts r (accounted (ops.std r) live)
  start_time : ¬ (ops.std r).unset → last.lt (ops.std r).start = false
  start_counter : ¬ (ops.std r).unset → (ops.std r).request_pool_start_id ≤ counter
  wellFormed : laws.WellFormed r

/-- What the ring knows about its live entries. -/
structure LiveBefore (live : List Entry) (last : Timeval) (counter : Nat) : Prop where
  time : ∀ e ∈ live, last.lt e.2.time = false
  counter : ∀ e ∈ live, e.2.counter < counter

/-- A batch of new entries that follows the live ones. -/
structure NewBatch (laws : ReportLaws ops) (live entries : List Entry) (now : Timeval)
    (counter : Nat) : Prop where
  batch : ReportLaws.BatchOf entries now counter
  valid : ∀ e ∈ entries, laws.Valid e.2
  nodup : ((live ++ entries).map Prod.fst).Nodup

namespace Tracked

variable {laws : ReportLaws ops} {r : R} {live entries : List Entry} {last now : Timeval}
  {counter counter' : Nat}

omit laws in
theorem start_from_again (laws : ReportLaws ops) (first : StatsRecord) (r : R) :
    ops.std (ops.start_from first (ops.start_from first r)) =
      if (ops.std r).unset then (ops.std r).set_start first else ops.std r := by
  rw [laws.std_start_from, laws.std_start_from]
  by_cases hun : (ops.std r).unset
  · rw [if_pos hun]
    split <;> rfl
  · rw [if_neg hun, if_neg hun]

/-- The header of a report after an add job. -/
theorem std_add_job (laws : ReportLaws ops) (first : StatsRecord) (entries : List Entry) (r : R) :
    ops.std (Daemon.add_job ops first entries r) =
      if (ops.std r).unset then (ops.std r).set_start first else ops.std r := by
  unfold Daemon.add_job update_reports_func
  rw [if_pos rfl, laws.std_add_all, start_from_again laws]

theorem wf_add_job (h : laws.WellFormed r) (first : StatsRecord) (entries : List Entry) :
    laws.WellFormed (Daemon.add_job ops first entries r) := by
  unfold Daemon.add_job update_reports_func
  rw [if_pos rfl]
  exact laws.wf_add_all _ (laws.wf_start_from _ (laws.wf_start_from _ h))

/-- Time passes. -/
theorem later (h : Tracked laws r live last counter) (hnow : now.lt last = false)
    (hcounter : counter ≤ counter') : Tracked laws r live now counter' :=
  ⟨h.accounts, fun hset => Timeval.not_lt_trans (h.start_time hset) hnow,
    fun hset => (h.start_counter hset).trans hcounter, h.wellFormed⟩

/-- A batch with records that reaches the report. -/
theorem batch (h : Tracked laws r live last counter) (hlive : LiveBefore live last counter)
    (hnow : now.lt last = false) (hsec : now.tv_sec ≠ 0)
    (hnew : NewBatch laws live entries now counter) {first : Entry}
    (hfirst : entries.head? = some first) (hcounter : counter ≤ counter') :
    Tracked laws (Daemon.add_job ops first.2 entries r) (live ++ entries) now counter' := by
  have hready : ReportLaws.BatchReady (ops.std r) live now counter :=
    ⟨fun e he => Timeval.not_lt_trans (hlive.time e he) hnow, hlive.counter,
      fun hset => Timeval.not_lt_trans (h.start_time hset) hnow, h.start_counter⟩
  refine ⟨laws.accounts_batch hready hnew.batch hsec hnew.valid hnew.nodup hfirst h.accounts,
    ?_, ?_, wf_add_job h.wellFormed _ _⟩
  · rw [std_add_job laws]
    intro hset
    by_cases hun : (ops.std r).unset
    · rw [if_pos hun]
      show now.lt first.2.time = false
      rw [hnew.batch.time first (List.mem_of_head? hfirst)]
      exact Timeval.not_lt_self now
    · rw [if_neg hun]
      exact hready.start_time hun
  · rw [std_add_job laws]
    intro hset
    by_cases hun : (ops.std r).unset
    · rw [if_pos hun]
      show first.2.counter ≤ counter'
      rw [hnew.batch.first_counter first hfirst]
      exact hcounter
    · rw [if_neg hun]
      exact (h.start_counter hun).trans hcounter

/-- A batch that is not shown to the report. -/
theorem batch_idle (h : Tracked laws r live last counter) (hnow : now.lt last = false)
    (hidle : ∀ e ∈ entries, laws.Idle e.2) (hcounter : counter ≤ counter') :
    Tracked laws r (live ++ entries) now counter' := by
  have hlater := h.later hnow hcounter
  exact ⟨laws.accounts_batch_idle h.wellFormed hidle h.accounts, hlater.start_time,
    hlater.start_counter, h.wellFormed⟩

/-- A batch without records reaches the report: its start is taken from whatever
    slot `in` holds. -/
theorem batch_empty (h : Tracked laws r live last counter) (hnow : now.lt last = false)
    {first : StatsRecord} (hfirst : (ops.std r).unset → first.time.tv_sec = 0) :
    Tracked laws (Daemon.add_job ops first [] r) live now counter := by
  have hstd := std_add_job laws first [] r
  have hacc : laws.Accounts (Daemon.add_job ops first [] r) (accounted (ops.std r) live) :=
    laws.accounts_start_from _ (laws.accounts_start_from _ h.accounts)
  have hlater := h.later hnow (le_refl counter)
  by_cases hun : (ops.std r).unset
  · -- the start that was taken is still no start
    rw [if_pos hun] at hstd
    have hun' : (ops.std (Daemon.add_job ops first [] r)).unset := by
      rw [hstd]
      exact hfirst hun
    rw [accounted, if_pos hun] at hacc
    refine ⟨?_, fun hset => absurd hun' hset, fun hset => absurd hun' hset, wf_add_job h.wellFormed _ _⟩
    rwa [accounted, if_pos hun']
  · rw [if_neg hun] at hstd
    refine ⟨?_, ?_, ?_, wf_add_job h.wellFormed _ _⟩
    · rwa [hstd]
    · rw [hstd]
      exact hlater.start_time
    · rw [hstd]
      exact hlater.start_counter

/-- An expiry pass that reaches the report. -/
theorem expire (h : Tracked laws r (entries ++ live) last counter)
    (hvalid : ∀ e ∈ entries, laws.Valid e.2)
    (hnodup : ((entries ++ live).map Prod.fst).Nodup) :
    Tracked laws (ops.delete_all entries r) live last counter := by
  refine ⟨laws.accounts_expire hvalid hnodup h.accounts, ?_, ?_, laws.wf_delete_all _ h.wellFormed⟩
  · rw [laws.std_delete_all]
    exact h.start_time
  · rw [laws.std_delete_all]
    exact h.start_counter

/-- An expiry pass that is not shown to the report. -/
theorem expire_idle (h : Tracked laws r (entries ++ live) last counter)
    (hidle : ∀ e ∈ entries, laws.Idle e.2) : Tracked laws r live last counter :=
  ⟨laws.accounts_expire_idle h.wellFormed hidle h.accounts, h.start_time, h.start_counter,
    h.wellFormed⟩

/-- A report that was just created accounts for nothing. -/
theorem created (hacc : laws.Accounts r []) (hun : (ops.std r).unset) (hwf : laws.WellFormed r) :
    Tracked laws r live last counter := by
  refine ⟨?_, fun hset => absurd hun hset, fun hset => absurd hun hset, hwf⟩
  rwa [accounted, if_pos hun]

end Tracked

end tracked

/-! ## Section 2: The ring -/

namespace StagedRecord

variable {now : Timeval} {counter : Nat} {batch : List StagedRecord} {record : StatsRecord}

theorem mem_stamp (h : record ∈ stamp now counter batch) :
    record.time = now ∧ counter ≤ record.counter ∧ record.counter < counter + batch.length ∧
      ∃ staged ∈ batch, record.timers = staged.timers ∧ record.data = staged.data := by
  induction batch generalizing counter with
  | nil => exact absurd h List.not_mem_nil
  | cons staged batch ih =>
    rw [stamp, List.mem_cons] at h
    rw [List.length_cons]
    rcases h with rfl | h
    · exact ⟨rfl, le_refl _, by show counter < _; omega, staged, List.mem_cons_self, rfl, rfl⟩
    · obtain ⟨ht, hle, hlt, x, hx, htimers, hdata⟩ := ih h
      exact ⟨ht, by omega, by omega, x, List.mem_cons_of_mem _ hx, htimers, hdata⟩

theorem head_stamp (h : (stamp now counter batch).head? = some record) :
    record.counter = counter := by
  cases batch with
  | nil => exact absurd h (by simp [stamp])
  | cons staged batch =>
    rw [stamp, List.head?_cons, Option.some.injEq] at h
    rw [← h]
    rfl

end StagedRecord

namespace Daemon

variable {d : Daemon} {last now : Timeval} {staged : List StagedRecord} {realloc_ok : Bool}

/-- The live entries of the ring. -/
abbrev live (d : Daemon) : List Entry := d.request_pool.contents

/-- The new entries of a batch. -/
def new_entries (d : Daemon) (now : Timeval) (staged : List StagedRecord) (realloc_ok : Bool) :
    List Entry :=
  (d.request_pool.ahead (d.new_records now staged realloc_ok).length).zip
    (d.new_records now staged realloc_ok)

/-- The ring's part of the invariant. -/
structure RingInv (d : Daemon) (last : Timeval) : Prop where
  before : LiveBefore d.live last d.request_pool_counter
  distinct : ∀ e ∈ d.live, ∀ timer ∈ e.2.timers, timer.DistinctTags

theorem nodup_live (d : Daemon) : (d.live.map Prod.fst).Nodup := by
  rw [CircularBuffer.map_fst_contents]
  exact d.request_pool.nodup_live

theorem map_snd_new_entries :
    (d.new_entries now staged realloc_ok).map Prod.snd = d.new_records now staged realloc_ok :=
  List.map_snd_zip (by rw [CircularBuffer.length_ahead])

theorem nodup_new_entries :
    ((d.live ++ d.new_entries now staged realloc_ok).map Prod.fst).Nodup := by
  have hfst : (d.new_entries now staged realloc_ok).map Prod.fst =
      d.request_pool.ahead (d.new_records now staged realloc_ok).length :=
    List.map_fst_zip (by rw [CircularBuffer.length_ahead])
  rw [List.map_append, CircularBuffer.map_fst_contents, hfst]
  exact d.request_pool.nodup_live_append_ahead (d.new_records_fit now staged realloc_ok)

theorem mem_new_records {record : StatsRecord} (h : record ∈ d.new_records now staged realloc_ok) :
    record.time = now ∧ d.request_pool_counter ≤ record.counter ∧
      record.counter < d.request_pool_counter + (d.new_records now staged realloc_ok).length ∧
      ∃ s ∈ staged, record.timers = s.timers ∨ record.timers = [] := by
  rw [length_new_records]
  unfold new_records at h
  simp only at h
  split at h
  · obtain ⟨ht, hle, hlt, s, hs, htimers, -⟩ := StagedRecord.mem_stamp h
    exact ⟨ht, hle, hlt, s, List.mem_of_mem_take hs, .inl htimers⟩
  · obtain ⟨ht, hle, hlt, s, hs, htimers, -⟩ := StagedRecord.mem_stamp h
    rw [List.length_map] at hlt
    obtain ⟨s', hs', rfl⟩ := List.mem_map.mp hs
    exact ⟨ht, hle, hlt, s', List.mem_of_mem_take hs', .inr htimers⟩

theorem batchOf_new_entries :
    ReportLaws.BatchOf (d.new_entries now staged realloc_ok) now d.request_pool_counter := by
  have hmem : ∀ e ∈ d.new_entries now staged realloc_ok,
      e.2 ∈ d.new_records now staged realloc_ok := fun e he => (List.of_mem_zip he).2
  refine ⟨fun e he => (mem_new_records (hmem e he)).1, fun e he => (mem_new_records (hmem e he)).2.1, ?_⟩
  intro e he
  have hhead : (d.new_records now staged realloc_ok).head? = some e.2 := by
    rw [← map_snd_new_entries, List.head?_map, he]
    rfl
  unfold new_records at hhead
  exact StagedRecord.head_stamp hhead

theorem distinct_new_entries (h : ∀ r ∈ staged, ∀ timer ∈ r.timers, timer.DistinctTags) :
    ∀ e ∈ d.new_entries now staged realloc_ok, ∀ timer ∈ e.2.timers, timer.DistinctTags := by
  intro e he timer ht
  obtain ⟨-, -, -, s, hs, htimers | htimers⟩ := mem_new_records (List.of_mem_zip he).2
  · exact h s hs timer (htimers ▸ ht)
  · rw [htimers] at ht
    exact absurd ht List.not_mem_nil

/-- An empty batch changes nothing. -/
theorem ingest_of_nil (hnil : staged = []) : d.ingest now staged realloc_ok = d := if_pos hnil

theorem live_ingest (hne : staged ≠ []) :
    (d.ingest now staged realloc_ok).live = d.live ++ d.new_entries now staged realloc_ok := by
  unfold ingest
  rw [if_neg hne]
  exact d.request_pool.contents_append (d.new_records_fit now staged realloc_ok)

/-- A batch keeps what the ring knows. -/
theorem ringInv_ingest (h : RingInv d last) (hnow : now.lt last = false)
    (hdistinct : ∀ r ∈ staged, ∀ timer ∈ r.timers, timer.DistinctTags) :
    RingInv (d.ingest now staged realloc_ok) now := by
  by_cases hne : staged = []
  · rw [ingest_of_nil hne]
    exact ⟨⟨fun e he => Timeval.not_lt_trans (h.before.time e he) hnow, h.before.counter⟩, h.distinct⟩
  · have hcounter : (d.ingest now staged realloc_ok).request_pool_counter =
        d.request_pool_counter + (d.new_records now staged realloc_ok).length := by
      unfold ingest
      rw [if_neg hne]
    refine ⟨⟨?_, ?_⟩, ?_⟩
    all_goals
      rw [live_ingest hne]
      intro e he
      rcases List.mem_append.mp he with hold | hnew
    · exact Timeval.not_lt_trans (h.before.time e hold) hnow
    · rw [(mem_new_records (List.of_mem_zip hnew).2).1]
      exact Timeval.not_lt_self now
    · rw [hcounter]
      have := h.before.counter e hold
      omega
    · rw [hcounter]
      exact (mem_new_records (List.of_mem_zip hnew).2).2.2.1
    · exact h.distinct e hold
    · exact distinct_new_entries hdistinct e hnew

theorem live_expire (from_ : Timeval) :
    d.live = d.delete_old from_ ++ (d.expire from_).live := by
  have hdata : ∀ i ∈ d.request_pool.live.drop (d.delete_old from_).length,
      d.released (d.delete_old from_) i = d.request_pool.data i := by
    intro i hi
    unfold released
    apply if_neg
    rw [d.delete_old_eq_take, List.map_take, CircularBuffer.map_fst_contents]
    intro hmem
    have hnodup := d.request_pool.nodup_live
    rw [← List.take_append_drop (d.delete_old from_).length d.request_pool.live] at hnodup
    exact (List.nodup_append'.mp hnodup).2.2 hmem hi
  have hdrop : (d.expire from_).live = d.live.drop (d.delete_old from_).length :=
    d.request_pool.contents_setData_dropFront (d := d.released (d.delete_old from_))
      (d.length_delete_old from_) hdata
  rw [hdrop]
  conv_lhs => rw [← List.take_append_drop (d.delete_old from_).length d.live]
  rw [← d.delete_old_eq_take]

theorem ringInv_expire (h : RingInv d last) (from_ : Timeval) : RingInv (d.expire from_) last := by
  have hsub : ∀ e ∈ (d.expire from_).live, e ∈ d.live := by
    intro e he
    rw [d.live_expire from_]
    exact List.mem_append_right _ he
  exact ⟨⟨fun e he => h.before.time e (hsub e he), fun e he => h.before.counter e (hsub e he)⟩,
    fun e he => h.distinct e (hsub e he)⟩

/-! ## Section 3: Reports of the daemon -/

section family
variable {R : Type*} {ops : ReportOps R} {laws : ReportLaws ops} {r : R}

/-- What slot `in` holds when the reports are updated. -/
def first_record (d : Daemon) (now : Timeval) (staged : List StagedRecord) (realloc_ok : Bool) :
    StatsRecord :=
  (d.request_pool.write (d.new_records now staged realloc_ok)).data d.request_pool.inPos

theorem first_record_eq {first : Entry}
    (h : (d.new_entries now staged realloc_ok).head? = some first) :
    d.first_record now staged realloc_ok = first.2 := by
  have hhead : (d.new_records now staged realloc_ok).head? = some first.2 := by
    rw [← map_snd_new_entries, List.head?_map, h]
    rfl
  obtain ⟨rest, hrest⟩ := List.head?_eq_some_iff.mp hhead
  have hfit := d.new_records_fit now staged realloc_ok
  unfold first_record
  rw [hrest] at hfit ⊢
  exact d.request_pool.data_write_inPos hfit

theorem exists_first_entry (hrecords : d.new_records now staged realloc_ok ≠ []) :
    ∃ first, (d.new_entries now staged realloc_ok).head? = some first := by
  cases hentries : d.new_entries now staged realloc_ok with
  | nil =>
    have hmap : (d.new_entries now staged realloc_ok).map Prod.snd =
        d.new_records now staged realloc_ok := map_snd_new_entries
    rw [hentries] at hmap
    exact absurd hmap.symm hrecords
  | cons first rest => exact ⟨first, rfl⟩

/-- A report of the daemon is tracked. -/
abbrev Tracks (d : Daemon) (last : Timeval) (laws : ReportLaws ops) (r : R) : Prop :=
  Tracked laws r d.live last d.request_pool_counter

theorem counter_ingest (hne : staged ≠ []) : (d.ingest now staged realloc_ok).request_pool_counter =
    d.request_pool_counter + (d.new_records now staged realloc_ok).length := by
  unfold ingest
  rw [if_neg hne]

/-- A batch with records that is shown to the report. -/
theorem tracks_add_job (hring : RingInv d last) (h : d.Tracks last laws r) (hne : staged ≠ [])
    (hnow : now.lt last = false) (hsec : now.tv_sec ≠ 0)
    (hvalid : ∀ e ∈ d.new_entries now staged realloc_ok, laws.Valid e.2)
    (hrecords : d.new_records now staged realloc_ok ≠ []) :
    (d.ingest now staged realloc_ok).Tracks now laws
      (add_job ops (d.first_record now staged realloc_ok) (d.new_entries now staged realloc_ok) r) := by
  obtain ⟨first, hfirst⟩ := exists_first_entry hrecords
  unfold Tracks
  rw [live_ingest hne, counter_ingest hne, first_record_eq hfirst]
  exact h.batch hring.before hnow hsec ⟨batchOf_new_entries, hvalid, nodup_new_entries⟩ hfirst
    (Nat.le_add_right _ _)

/-- A batch that is not shown to the report. -/
theorem tracks_idle (h : d.Tracks last laws r) (hne : staged ≠ []) (hnow : now.lt last = false)
    (hidle : ∀ e ∈ d.new_entries now staged realloc_ok, laws.Idle e.2) :
    (d.ingest now staged realloc_ok).Tracks now laws r := by
  unfold Tracks
  rw [live_ingest hne, counter_ingest hne]
  exact h.batch_idle hnow hidle (Nat.le_add_right _ _)

/-- A batch that the full ring rejects as a whole, shown to the report. -/
theorem tracks_rejected (h : d.Tracks last laws r) (hne : staged ≠ []) (hnow : now.lt last = false)
    (hrecords : d.new_records now staged realloc_ok = [])
    (hfirst : (ops.std r).unset → (d.first_record now staged realloc_ok).time.tv_sec = 0) :
    (d.ingest now staged realloc_ok).Tracks now laws
      (add_job ops (d.first_record now staged realloc_ok) (d.new_entries now staged realloc_ok) r) := by
  have hentries : d.new_entries now staged realloc_ok = [] := by
    unfold new_entries
    rw [hrecords]
    exact List.zip_nil_right
  unfold Tracks
  rw [live_ingest hne, counter_ingest hne, hentries, hrecords, List.append_nil]
  exact h.batch_empty hnow hfirst

/-- No new batch. -/
theorem tracks_none (h : d.Tracks last laws r) (hnil : staged = []) (hnow : now.lt last = false) :
    (d.ingest now staged realloc_ok).Tracks now laws r := by
  rw [ingest_of_nil hnil]
  exact h.later hnow (le_refl _)

theorem tracks_delete_all (h : d.Tracks last laws r) (from_ : Timeval)
    (hvalid : ∀ e ∈ d.live, laws.Valid e.2) :
    (d.expire from_).Tracks last laws (ops.delete_all (d.delete_old from_) r) := by
  have hlive := d.live_expire from_
  have hnodup := d.nodup_live
  unfold Tracks at h ⊢
  rw [hlive] at h hnodup
  refine h.expire (fun e he => hvalid e ?_) hnodup
  rw [hlive]
  exact List.mem_append_left _ he

theorem tracks_expire_idle (h : d.Tracks last laws r) (from_ : Timeval)
    (hidle : ∀ e ∈ d.delete_old from_, laws.Idle e.2) : (d.expire from_).Tracks last laws r := by
  unfold Tracks at h ⊢
  rw [d.live_expire from_] at h
  exact h.expire_idle hidle

end family

theorem idle_of_timers_total {entries : List Entry} (h : timers_total (entries.map Prod.snd) = 0) :
    ∀ e ∈ entries, e.2.timers = [] := by
  intro e he
  unfold timers_total at h
  rw [List.map_map, List.sum_eq_zero_iff] at h
  exact List.eq_nil_of_length_eq_zero (h _ (List.mem_map_of_mem he))

theorem idle_of_rtags_total {entries : List Entry} (h : rtags_total (entries.map Prod.snd) = 0) :
    ∀ e ∈ entries, e.2.data.tags = [] := by
  intro e he
  unfold rtags_total at h
  rw [List.map_map, List.sum_eq_zero_iff] at h
  exact List.eq_nil_of_length_eq_zero (h _ (List.mem_map_of_mem he))

theorem new_records_ne_nil_of_timers
    (h : timers_total (d.new_records now staged realloc_ok) ≠ 0) :
    d.new_records now staged realloc_ok ≠ [] := by
  intro hnil
  rw [hnil] at h
  exact h rfl

theorem new_records_ne_nil_of_rtags
    (h : rtags_total (d.new_records now staged realloc_ok) ≠ 0) :
    d.new_records now staged realloc_ok ≠ [] := by
  intro hnil
  rw [hnil] at h
  exact h rfl

/-- The timer tag reports are tracked. -/
def TagsTracked (d : Daemon) (last : Timeval) : Prop :=
  ∀ r ∈ d.tag_reports, d.Tracks last (tagLaws r.1) r.2

theorem tag_reports_ingest (hnil : staged ≠ []) : (d.ingest now staged realloc_ok).tag_reports =
    if timers_total (d.new_records now staged realloc_ok) = 0 then d.tag_reports
    else d.tag_reports.map fun r => ⟨r.1, add_job (tagOps r.1)
      (d.first_record now staged realloc_ok) (d.new_entries now staged realloc_ok) r.2⟩ := by
  unfold ingest
  rw [if_neg hnil]
  rfl

theorem tagsTracked_ingest (hring : RingInv d last) (h : d.TagsTracked last)
    (hnow : now.lt last = false) (hsec : now.tv_sec ≠ 0)
    (hdistinct : ∀ r ∈ staged, ∀ timer ∈ r.timers, timer.DistinctTags) :
    (d.ingest now staged realloc_ok).TagsTracked now := by
  by_cases hnil : staged = []
  · intro r hr
    rw [ingest_of_nil hnil] at hr
    exact tracks_none (h r hr) hnil hnow
  · intro r hr
    rw [tag_reports_ingest hnil] at hr
    split at hr
    · next hzero =>
      rw [← map_snd_new_entries] at hzero
      exact tracks_idle (h r hr) hnil hnow (idle_of_timers_total hzero)
    · next htimers =>
      obtain ⟨r, hmem, rfl⟩ := List.mem_map.mp hr
      exact tracks_add_job hring (h r hmem) hnil hnow hsec (distinct_new_entries hdistinct)
        (new_records_ne_nil_of_timers htimers)

theorem tagsTracked_expire (hring : RingInv d last) (h : d.TagsTracked last) (from_ : Timeval) :
    (d.expire from_).TagsTracked last := by
  intro r hr
  unfold expire at hr
  simp only at hr
  split at hr
  · next hzero => exact tracks_expire_idle (h r hr) from_ (idle_of_timers_total hzero)
  · obtain ⟨r, hmem, rfl⟩ := List.mem_map.mp hr
    exact tracks_delete_all (h r hmem) from_ hring.distinct

theorem tags_add_job {k : RtagKind} (first : StatsRecord) (entries : List Entry)
    (report : RtagReport k) : (add_job (rtagOps k) first entries report).tags = report.tags := by
  have hstart : ∀ report : RtagReport k, ((rtagOps k).start_from first report).tags = report.tags := by
    intro report
    unfold start_from
    split <;> rfl
  have hadd : ∀ r : RtagReport k, ((rtagOps k).add_all entries r).tags = r.tags := fun r =>
    (rtagOps k).add_all_induct (P := fun r' => r'.tags = r.tags)
      (fun _ r' record h => (r'.tags_add_func record).trans h) entries rfl
  unfold add_job update_reports_func
  rw [if_pos rfl, hadd, hstart, hstart]

theorem tags_delete_all {k : RtagKind} (entries : List Entry) (report : RtagReport k) :
    ((rtagOps k).delete_all entries report).tags = report.tags :=
  (rtagOps k).delete_all_induct (P := fun r' => r'.tags = report.tags)
    (fun _ r' record h => (r'.tags_delete_func record).trans h) entries rfl

/-- The request tag reports with a tag are tracked. -/
def RtagsTracked (d : Daemon) (last : Timeval) : Prop :=
  ∀ r ∈ d.rtag_reports, r.2.tags ≠ [] → d.Tracks last (rtagLaws r.1) r.2

theorem rtag_reports_ingest (hnil : staged ≠ []) : (d.ingest now staged realloc_ok).rtag_reports =
    if rtags_total (d.new_records now staged realloc_ok) = 0 then d.rtag_reports
    else d.rtag_reports.map fun r => ⟨r.1, add_job (rtagOps r.1)
      (d.first_record now staged realloc_ok) (d.new_entries now staged realloc_ok) r.2⟩ := by
  unfold ingest
  rw [if_neg hnil]
  rfl

theorem rtagsTracked_ingest (hring : RingInv d last) (h : d.RtagsTracked last)
    (hnow : now.lt last = false) (hsec : now.tv_sec ≠ 0) :
    (d.ingest now staged realloc_ok).RtagsTracked now := by
  by_cases hnil : staged = []
  · intro r hr htag
    rw [ingest_of_nil hnil] at hr
    exact tracks_none (h r hr htag) hnil hnow
  · intro r hr htag
    rw [rtag_reports_ingest hnil] at hr
    split at hr
    · next hzero =>
      rw [← map_snd_new_entries] at hzero
      exact tracks_idle (h r hr htag) hnil hnow (idle_of_rtags_total hzero)
    · next htags =>
      obtain ⟨r, hmem, rfl⟩ := List.mem_map.mp hr
      rw [tags_add_job] at htag
      exact tracks_add_job hring (h r hmem htag) hnil hnow hsec (fun _ _ => trivial)
        (new_records_ne_nil_of_rtags htags)

theorem rtagsTracked_expire (h : d.RtagsTracked last) (from_ : Timeval) :
    (d.expire from_).RtagsTracked last := by
  intro r hr htag
  unfold expire at hr
  simp only at hr
  split at hr
  · next hzero => exact tracks_expire_idle (h r hr htag) from_ (idle_of_rtags_total hzero)
  · obtain ⟨r, hmem, rfl⟩ := List.mem_map.mp hr
    rw [tags_delete_all] at htag
    exact tracks_delete_all (h r hmem htag) from_ fun _ _ => trivial

/-- The base reports are tracked. -/
def BasesTracked (d : Daemon) (last : Timeval) : Prop :=
  ∀ r ∈ d.base_reports, d.Tracks last baseLaws r

/-- A batch does not give a base report without a start the time of a record
    that left the ring long ago: either some record of the batch fits in the
    ring, or every base report has a start, or slot `in` was never used. -/
def SoundBatch (d : Daemon) (staged : List StagedRecord) : Prop :=
  staged ≠ [] → d.request_pool.free = 0 → (∃ r ∈ d.base_reports, r.std.unset) →
    (d.request_pool.data d.request_pool.inPos).time.tv_sec = 0

theorem basesTracked_ingest (hring : RingInv d last) (h : d.BasesTracked last)
    (hnow : now.lt last = false) (hsec : now.tv_sec ≠ 0) (hsound : d.SoundBatch staged) :
    (d.ingest now staged realloc_ok).BasesTracked now := by
  by_cases hnil : staged = []
  · intro r hr
    rw [ingest_of_nil hnil] at hr
    exact tracks_none (h r hr) hnil hnow
  · intro r hr
    have hreports : (d.ingest now staged realloc_ok).base_reports = d.base_reports.map
        (add_job baseOps (d.first_record now staged realloc_ok)
          (d.new_entries now staged realloc_ok)) := by
      unfold ingest
      rw [if_neg hnil]
      rfl
    rw [hreports] at hr
    obtain ⟨r, hmem, rfl⟩ := List.mem_map.mp hr
    by_cases hrecords : d.new_records now staged realloc_ok = []
    · -- no record fits, so slot `in` still holds what it held before
      have hfree : d.request_pool.free = 0 := by
        have hlen := d.length_new_records now staged realloc_ok
        rw [hrecords, admitted, List.length_nil, List.length_take] at hlen
        have := List.length_pos_of_ne_nil hnil
        omega
      refine tracks_rejected (h r hmem) hnil hnow hrecords ?_
      intro hun
      unfold first_record
      rw [hrecords]
      exact hsound hnil hfree ⟨r, hmem, hun⟩
    · exact tracks_add_job hring (h r hmem) hnil hnow hsec (fun _ _ => trivial) hrecords

theorem basesTracked_expire (h : d.BasesTracked last) (from_ : Timeval) :
    (d.expire from_).BasesTracked last := by
  intro r hr
  obtain ⟨r, hmem, rfl⟩ := List.mem_map.mp hr
  exact tracks_delete_all (h r hmem) from_ fun _ _ => trivial

/-! ## Section 4: Whole runs -/

/-- The condition under which base reports stay exact: batches are sound. -/
def SoundEvent (d : Daemon) : Event → Prop
  | .ingest _ staged _ => d.SoundBatch staged
  | _ => True

variable {ok : Daemon → Event → Prop} {d₀ : Daemon} {last₀ : Timeval}

theorem ringInv_init (requests timers : Nat) (last : Timeval) :
    RingInv (init requests timers) last := by
  have hlive : (init requests timers).live = [] := CircularBuffer.contents_blank _ _
  refine ⟨⟨?_, ?_⟩, ?_⟩ <;> rw [hlive] <;> exact fun e he => absurd he List.not_mem_nil

theorem ringInv_steps (h₀ : RingInv d₀ last₀) (h : Steps ok d₀ last₀ d last) : RingInv d last := by
  induction h with
  | refl => exact h₀
  | step e _ hreg _ ih =>
    cases e with
    | ingest now staged realloc_ok => exact ringInv_ingest ih hreg.1 hreg.2.2
    | expire from_ => exact ringInv_expire ih from_
    | register_base | register_rtag | register_tag => exact ⟨ih.before, ih.distinct⟩

/-- A report that joins a family. -/
theorem forall_mem_snoc {α : Type*} {p : α → Prop} {l : List α} {a : α} (hl : ∀ x ∈ l, p x)
    (ha : p a) : ∀ x ∈ l ++ [a], p x := by
  intro x hx
  rcases List.mem_append.mp hx with hx | hx
  · exact hl x hx
  · rw [List.mem_singleton.mp hx]
    exact ha

theorem tagsTracked_steps (hring : RingInv d₀ last₀) (h₀ : d₀.TagsTracked last₀)
    (h : Steps ok d₀ last₀ d last) : d.TagsTracked last := by
  induction h with
  | refl => exact h₀
  | step e hd hreg _ ih =>
    have hring' := ringInv_steps hring hd
    cases e with
    | ingest now staged realloc_ok =>
      exact tagsTracked_ingest hring' ih hreg.1 hreg.2.1 hreg.2.2
    | expire from_ => exact tagsTracked_expire hring' ih from_
    | register_base | register_rtag => exact ih
    | register_tag kind cond buckets tag_id =>
      exact forall_mem_snoc ih
        (Tracked.created (TagReport.accounts_created kind cond buckets tag_id) rfl trivial)

theorem basesTracked_steps (hring : RingInv d₀ last₀) (h₀ : d₀.BasesTracked last₀)
    (h : Steps SoundEvent d₀ last₀ d last) : d.BasesTracked last := by
  induction h with
  | refl => exact h₀
  | step e hd hreg hok ih =>
    have hring' := ringInv_steps hring hd
    cases e with
    | ingest now staged realloc_ok => exact basesTracked_ingest hring' ih hreg.1 hreg.2.1 hok
    | expire from_ => exact basesTracked_expire ih from_
    | register_rtag | register_tag => exact ih
    | register_base kind cond buckets =>
      exact forall_mem_snoc ih
        (Tracked.created (BaseReport.accounts_created kind cond buckets) rfl trivial)

theorem rtagsTracked_steps (hring : RingInv d₀ last₀) (h₀ : d₀.RtagsTracked last₀)
    (h : Steps ok d₀ last₀ d last) : d.RtagsTracked last := by
  induction h with
  | refl => exact h₀
  | step e hd hreg _ ih =>
    have hring' := ringInv_steps hring hd
    cases e with
    | ingest now staged realloc_ok => exact rtagsTracked_ingest hring' ih hreg.1 hreg.2.1
    | expire from_ => exact rtagsTracked_expire ih from_
    | register_base | register_tag => exact ih
    | register_rtag kind cond buckets tags =>
      exact forall_mem_snoc ih
        fun htag => Tracked.created (RtagReport.accounts_created kind cond buckets tags) rfl htag

theorem tagsTracked_reachable (h : Reachable ok d last) : d.TagsTracked last := by
  obtain ⟨requests, timers, hsteps⟩ := h
  exact tagsTracked_steps (ringInv_init _ _ _) (fun r hr => absurd hr List.not_mem_nil) hsteps

theorem basesTracked_reachable (h : Reachable SoundEvent d last) : d.BasesTracked last := by
  obtain ⟨requests, timers, hsteps⟩ := h
  exact basesTracked_steps (ringInv_init _ _ _) (fun r hr => absurd hr List.not_mem_nil) hsteps

theorem rtagsTracked_reachable (h : Reachable ok d last) : d.RtagsTracked last := by
  obtain ⟨requests, timers, hsteps⟩ := h
  exact rtagsTracked_steps (ringInv_init _ _ _) (fun r hr => absurd hr List.not_mem_nil) hsteps

/-- A histogram with one bucket. -/
def one_bucket : BucketChoice := ⟨1, fun _ _ => 0, fun _ _ => Nat.zero_lt_one⟩

/-- A request with one timer that carries tag 1. -/
def one_timer : StagedRecord :=
  ⟨default, [⟨default, default, default, 1, [(1, default)]⟩], [default]⟩

theorem sound_of_free (hfree : d.request_pool.free ≠ 0) : d.SoundBatch staged :=
  fun _ h _ => absurd h hfree

section stale

/-- The events of a run are regular. -/
def AllRegular : Timeval → List Event → Prop
  | _, [] => True
  | last, e :: events => e.Regular last ∧ AllRegular (e.stamp last) events

theorem steps_run {events : List Event} (h : Steps (fun _ _ => True) d₀ last₀ d last)
    (hreg : AllRegular last events) :
    ∃ last', Steps (fun _ _ => True) d₀ last₀ (events.foldl step d) last' := by
  induction events generalizing d last with
  | nil => exact ⟨last, h⟩
  | cons e events ih => exact ih (.step e h hreg.1 trivial) hreg.2

/-- A request that took some seconds. -/
def request_of (seconds : Duration) : StagedRecord := ⟨{ (default : RequestData) with req_time := seconds }, [], []⟩

def slow : StagedRecord := request_of ⟨⟨1, 0⟩, by decide⟩

def quick : StagedRecord := request_of default

/-- Two buckets: below a second, and the rest. -/
def two_buckets : BucketChoice where
  histogram_size := 2
  slot time _ := if time.tv_sec = 0 then 0 else 1
  slot_lt time _ := by split <;> decide

/-- A ring of ten slots is filled, emptied and filled again, so that slot `in`
    holds a record of the first filling. A report is registered, and the next
    batch finds the ring full. -/
def stale_start : List Event :=
  [.ingest ⟨100, 0⟩ (List.replicate 9 slow) true,
    .expire ⟨150, 0⟩,
    .ingest ⟨200, 0⟩ [slow, slow] true,
    .ingest ⟨210, 0⟩ [slow] true,
    .ingest ⟨215, 0⟩ (List.replicate 6 slow) true,
    .register_base .report1 .none two_buckets,
    .ingest ⟨216, 0⟩ [slow] true]

/-- Two new requests are counted, and an older one, which never was, expires. -/
def stale_expiry : List Event :=
  [.expire ⟨205, 0⟩, .ingest ⟨220, 0⟩ [quick, quick] true, .expire ⟨212, 0⟩]

/-- The state after the run. -/
def stale_state : Daemon := (stale_start ++ stale_expiry).foldl step (init 9 2621439)

theorem stale_state_reachable : ∃ last, Reachable (fun _ _ => True) stale_state last := by
  have hstart : Steps (fun _ _ => True) (init 9 2621439) ⟨0, 0⟩ (init 9 2621439) ⟨0, 0⟩ := .refl
  obtain ⟨last, h⟩ := steps_run hstart (show AllRegular _ (stale_start ++ stale_expiry) from ⟨⟨by decide, by decide, by decide⟩, trivial,
    ⟨by decide, by decide, by decide⟩, ⟨by decide, by decide, by decide⟩,
    ⟨by decide, by decide, by decide⟩, trivial, ⟨by decide, by decide, by decide⟩, trivial,
    ⟨by decide, by decide, by decide⟩, trivial, trivial⟩)
  exact ⟨last, 9, 2621439, h⟩

/-- The only report and the only row: one request is left where eight are live
    since the start, and the bucket of the expired one went below zero. -/
theorem stale_row : ∃ r ∈ stale_state.base_reports, ∃ row,
    r.kind = .report1 ∧ r.results.rows.lookup [] = some row ∧ row.members = 1 ∧
    (group (fun q => some (report1_index q)) (dataOf (accounted r.std stale_state.live)) []).length = 8 ∧
    row.acc.histogram_data.lookup 1 = some (-1) := by
  have hrow : (stale_state.base_reports.head?.bind fun r =>
      (r.results.rows.lookup []).map fun row => (r.kind, row.members,
        (group (fun q => some (report1_index q)) (dataOf (accounted r.std stale_state.live)) []).length,
        row.acc.histogram_data.lookup 1)) = some (.report1, 1, 8, some (-1)) := by
    decide +kernel
  obtain ⟨r, hr, hmap⟩ := Option.bind_eq_some_iff.mp hrow
  obtain ⟨row, hlookup, heq⟩ := Option.map_eq_some_iff.mp hmap
  simp only [Prod.mk.injEq] at heq
  exact ⟨r, List.mem_of_head? hr, row, heq.1, hlookup, heq.2.1, heq.2.2.1, heq.2.2.2⟩

end stale

end Daemon

end PinbaEngine
