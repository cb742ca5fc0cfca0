import PinbaEngine.PooledDaemon

/-! # Runs of the daemon over its pools

    The daemon over its pools next to the daemon of whole records, through the
    same events.

    - `Follows`: the rings, the positions of the timer pool and the reports that
      do not read timers agree. This holds in every run.
    - `Shows`: the records also tile the timer pool and read back what was stored
      for them, so the timer tag reports agree too. A batch keeps this if it is
      safe (`SafeEvent`); nothing else needs a condition.
-/

namespace PinbaEngine

open Circular ReportOps StagedRequest

/-! ## Section 1: What does not read timers -/

/-- The record without its timers. -/
def StatsRecord.bare (record : StatsRecord) : StatsRecord := { record with timers := [] }

/-- The entries without their timers. -/
def bare_entries (entries : List Entry) : List Entry := entries.map fun e => (e.1, e.2.bare)

/-- The update functions of the family do not read timers. -/
structure ReportOps.IgnoresTimers {R : Type*} (ops : ReportOps R) : Prop where
  add : ∀ slot r record, ops.add_func slot r record = ops.add_func slot r record.bare
  delete : ∀ slot r record, ops.delete_func slot r record = ops.delete_func slot r record.bare

theorem ignoresTimers_base : baseOps.IgnoresTimers := by
  constructor
  · intro slot r record
    show r.add_func record = r.add_func record.bare
    unfold BaseReport.add_func
    cases r.kind <;> rfl
  · intro slot r record
    show r.delete_func record = r.delete_func record.bare
    unfold BaseReport.delete_func
    cases r.kind <;> rfl

theorem ignoresTimers_rtag (k : RtagKind) : (rtagOps k).IgnoresTimers := by
  constructor
  · intro slot r record
    show r.add_func record = r.add_func record.bare
    rw [RtagReport.add_func_eq]
    rfl
  · intro slot r record
    show r.delete_func record = r.delete_func record.bare
    rw [RtagReport.delete_func_eq]
    rfl

section family
variable {R : Type*} {ops : ReportOps R}

theorem add_all_bare (h : ops.IgnoresTimers) (entries : List Entry) (r : R) :
    ops.add_all entries r = ops.add_all (bare_entries entries) r := by
  unfold add_all bare_entries
  rw [List.foldl_map]
  congr 1
  funext r e
  rw [h.add]
  rfl

theorem delete_all_bare (h : ops.IgnoresTimers) (entries : List Entry) (r : R) :
    ops.delete_all entries r = ops.delete_all (bare_entries entries) r := by
  unfold delete_all bare_entries
  rw [List.foldl_map]
  congr 1
  funext r e
  rw [h.delete]
  rfl

/-- Of the first record a job takes the time and the counter only. -/
theorem add_job_first (first : StatsRecord) (entries : List Entry) (r : R) :
    Daemon.add_job ops first entries r = Daemon.add_job ops first.bare entries r := rfl

theorem add_job_bare (h : ops.IgnoresTimers) (first : StatsRecord) (entries : List Entry) (r : R) :
    Daemon.add_job ops first entries r =
      Daemon.add_job ops first.bare (bare_entries entries) r := by
  unfold Daemon.add_job ReportOps.update_reports_func
  rw [if_pos rfl, if_pos rfl, add_all_bare h]
  rfl

end family

theorem rtags_total_bare (records : List StatsRecord) :
    Daemon.rtags_total (records.map StatsRecord.bare) = Daemon.rtags_total records := by
  unfold Daemon.rtags_total
  rw [List.map_map]
  rfl

theorem accounted_bare (std : StdReport) (live : List Entry) :
    accounted std (bare_entries live) = bare_entries (accounted std live) := by
  unfold accounted bare_entries
  split
  · rfl
  · rw [List.filter_map]
    rfl

theorem dataOf_bare (entries : List Entry) : dataOf (bare_entries entries) = dataOf entries := by
  unfold dataOf bare_entries
  rw [List.map_map]
  rfl

theorem map_snd_bare (entries : List Entry) :
    (bare_entries entries).map Prod.snd = (entries.map Prod.snd).map StatsRecord.bare := by
  unfold bare_entries
  rw [List.map_map, List.map_map]
  rfl

theorem takeWhile_bare (entries : List Entry) (from_ : Timeval) :
    bare_entries (entries.takeWhile fun e => e.2.time.lt from_) =
      (bare_entries entries).takeWhile fun e => e.2.time.lt from_ := by
  unfold bare_entries
  rw [List.takeWhile_map]
  rfl

/-! ## Section 2: Agreement up to timers -/

namespace PooledDaemon

/-- The daemon of whole records is where the daemon over its pools is, as far as timers do not
    matter. -/
structure Follows (d : PooledDaemon) (a : Daemon) : Prop where
  size : a.request_pool.size = d.request_pool.size
  inPos : a.request_pool.inPos = d.request_pool.inPos
  outPos : a.request_pool.outPos = d.request_pool.outPos
  slots : ∀ i, (a.request_pool.data i).bare = (d.slots i).record []
  timers_cnt : ∀ i, (a.request_pool.data i).timers.length = (d.request_pool.data i).timers_cnt
  timer_pool : a.timer_pool = .ofPool d.timer_pool
  request_pool_counter : a.request_pool_counter = d.request_pool_counter
  base_reports : a.base_reports = d.base_reports
  rtag_reports : a.rtag_reports = d.rtag_reports

section follows
variable {d : PooledDaemon} {a : Daemon} {from_ : Timeval}

namespace Follows

variable (h : Follows d a)
include h

theorem live_slots : a.request_pool.live = d.request_pool.live := by
  unfold CircularBuffer.live CircularBuffer.count
  rw [h.size, h.inPos, h.outPos]

theorem free : a.request_pool.free = d.request_pool.free := by
  unfold CircularBuffer.free CircularBuffer.count
  rw [h.size, h.inPos, h.outPos]

theorem ahead (n : Nat) : a.request_pool.ahead n = d.request_pool.ahead n := by
  unfold CircularBuffer.ahead
  rw [h.size, h.inPos]

theorem live_bare : bare_entries a.live = bare_entries d.live := by
  have hlive : a.live = d.request_pool.live.map fun i => (i, a.request_pool.data i) := by
    rw [← h.live_slots]
    rfl
  unfold bare_entries
  rw [hlive, live_eq, List.map_map, List.map_map]
  apply List.map_congr_left
  intro i _
  show (i, (a.request_pool.data i).bare) = (i, (d.record i).bare)
  rw [h.slots i]
  rfl

theorem delete_old_bare (from_ : Timeval) :
    bare_entries (a.delete_old from_) = bare_entries (d.delete_old from_) := by
  have ha : bare_entries (a.delete_old from_) = _ := takeWhile_bare a.live from_
  have hd : bare_entries (d.delete_old from_) = _ := takeWhile_bare d.live from_
  rw [ha, hd, h.live_bare]

theorem length_delete_old (from_ : Timeval) :
    (a.delete_old from_).length = (d.delete_old from_).length := by
  have hlen := congrArg List.length (h.delete_old_bare from_)
  rwa [bare_entries, bare_entries, List.length_map, List.length_map] at hlen

/-- A part of the live records has as many timers on both sides. -/
theorem timers_total_take (n : Nat) :
    Daemon.timers_total ((a.live.take n).map Prod.snd) = d.deleted_timer_cnt n := by
  unfold Daemon.timers_total TimerState.deleted_timer_cnt TimerState.expired
  unfold Daemon.live CircularBuffer.contents
  rw [h.live_slots, List.map_map, List.map_map, ← List.map_take, ← List.map_take, List.map_map,
    List.map_map]
  congr 1
  apply List.map_congr_left
  intro i _
  exact h.timers_cnt i

end Follows

/-! ### A batch -/

theorem map_bare_stamp {f : StagedRequest → StagedRecord}
    (hf : ∀ r, (f r).data = r.data ∧ (f r).words = r.words) (now : Timeval) (counter : Nat)
    (batch : List StagedRequest) :
    (StagedRecord.stamp now counter (batch.map f)).map StatsRecord.bare =
      (StagedRequest.stamp now counter batch).map fun slot => slot.record [] := by
  induction batch generalizing counter with
  | nil => rfl
  | cons r batch ih =>
    have hone : ((f r).stamped now counter).bare = (r.slot now counter).record [] := by
      show (⟨(f r).data, now, counter, [], (f r).words⟩ : StatsRecord) =
        ⟨r.data, now, counter, [], r.words⟩
      rw [(hf r).1, (hf r).2]
    rw [List.map_cons, StagedRecord.stamp, List.map_cons, hone, ih, StagedRequest.stamp,
      List.map_cons]

theorem map_timers_stamp (now : Timeval) (counter : Nat) (batch : List StagedRecord) :
    (StagedRecord.stamp now counter batch).map StatsRecord.timers =
      batch.map StagedRecord.timers := by
  induction batch generalizing counter with
  | nil => rfl
  | cons r batch ih => rw [StagedRecord.stamp, List.map_cons, ih, List.map_cons]; rfl

theorem batch_timers_eq (shares : List (List StagedRequest)) :
    TimerState.batch_timers (timer_shares shares) =
      (shares.flatten.map StagedRequest.whole).map StagedRecord.timers := by
  rw [TimerState.batch_timers, flatten_timer_shares, List.map_map, List.map_map]
  rfl

theorem timers_added_eq (shares : List (List StagedRequest)) :
    ((shares.flatten.map StagedRequest.whole).map fun r => r.timers.length).sum =
      TimerState.timers_added (timer_shares shares) := by
  rw [TimerState.timers_added, flatten_timer_shares, List.map_map, List.map_map]
  congr 1
  apply List.map_congr_left
  intro r _
  exact length_stored_timers r.timers

namespace Follows

variable (h : Follows d a) (now : Timeval) (shares : List (List StagedRequest)) (realloc_ok : Bool)
include h

theorem admitted_whole : a.admitted (shares.flatten.map StagedRequest.whole) =
    (d.admitted shares).flatten.map StagedRequest.whole := by
  rw [Daemon.admitted, h.free, ← List.map_take, flatten_admitted]

/-- Both sides find room for the timers of a batch, or none does. -/
theorem reserve_timers_eq (timers : List (List (List RequestTimer))) :
    a.reserve_timers (TimerState.timers_added timers) realloc_ok =
      if TimerState.timers_added timers = 0 then some a.timer_pool
      else (d.reserved timers realloc_ok).map fun r => TimerCursor.ofPool r.2.1 := by
  unfold Daemon.reserve_timers
  split
  · rfl
  · rw [h.timer_pool, TimerCursor.add_ofPool d.timer_pool (d.copied timers).data]
    rfl

theorem new_records_bare :
    (a.new_records now (shares.flatten.map StagedRequest.whole) realloc_ok).map StatsRecord.bare =
      (stamp now d.request_pool_counter (d.admitted shares).flatten).map fun slot =>
        slot.record [] := by
  unfold Daemon.new_records
  simp only
  rw [h.admitted_whole, h.request_pool_counter]
  split
  · exact map_bare_stamp (fun _ => ⟨rfl, rfl⟩) _ _ _
  · rw [List.map_map]
    exact map_bare_stamp (fun _ => ⟨rfl, rfl⟩) _ _ _

/-- The records of a batch have the timers that the pool keeps. -/
theorem new_records_timers :
    (a.new_records now (shares.flatten.map StagedRequest.whole) realloc_ok).map StatsRecord.timers =
      d.kept_timers (timer_shares (d.admitted shares)) realloc_ok := by
  unfold Daemon.new_records
  simp only
  rw [h.admitted_whole, timers_added_eq, h.reserve_timers_eq, map_timers_stamp,
    TimerState.kept_timers_eq]
  by_cases hzero : TimerState.timers_added (timer_shares (d.admitted shares)) = 0
  · -- a batch without timers asks for no room
    have hnot : ¬ d.stores (timer_shares (d.admitted shares)) realloc_ok := fun hc => hc.1 hzero
    rw [if_pos hzero, if_neg hnot, ← TimerState.batch_timers_of_none hzero, batch_timers_eq]
    rfl
  · rw [if_neg hzero, Option.isSome_map]
    by_cases hroom : (d.reserved (timer_shares (d.admitted shares)) realloc_ok).isSome
    · have hstores : d.stores (timer_shares (d.admitted shares)) realloc_ok := ⟨hzero, hroom⟩
      rw [if_pos hroom, if_pos hstores, batch_timers_eq]
    · -- without room the records are bare
      have hnot : ¬ d.stores (timer_shares (d.admitted shares)) realloc_ok := fun hc => hroom hc.2
      rw [if_neg hroom, if_neg hnot, List.map_map, List.map_map, length_timer_shares,
        List.eq_replicate_iff]
      refine ⟨List.length_map _, ?_⟩
      intro timers htimers
      obtain ⟨r, -, rfl⟩ := List.mem_map.mp htimers
      rfl

theorem length_new_records :
    (a.new_records now (shares.flatten.map StagedRequest.whole) realloc_ok).length =
      (d.admitted shares).flatten.length := by
  rw [Daemon.length_new_records, h.admitted_whole, List.length_map]

end Follows

theorem ingest_of_nil {now : LaunchTime} {shares : List (List StagedRequest)} {realloc_ok : Bool}
    (hnil : shares.flatten = []) : d.ingest now shares realloc_ok = d := if_pos hnil

theorem toTimerState_ingest {now : LaunchTime} {shares : List (List StagedRequest)}
    {realloc_ok : Bool} (hne : shares.flatten ≠ []) :
    (d.ingest now shares realloc_ok).toTimerState = d.merged_pools shares realloc_ok := by
  unfold ingest
  rw [if_neg hne]

namespace Follows

variable (h : Follows d a) {now : LaunchTime} {shares : List (List StagedRequest)}
  {realloc_ok : Bool}
include h

/-- What a slot holds after a batch. -/
theorem slots_ingest (i : Nat) :
    (writeFrom a.request_pool.size a.request_pool.inPos
        (a.new_records now.toTimeval (shares.flatten.map StagedRequest.whole) realloc_ok)
        a.request_pool.data i).bare =
      (d.copied_slots now.toTimeval (d.admitted shares).flatten i).record [] := by
  have hslots : (fun j => (a.request_pool.data j).bare) = fun j => (d.slots j).record [] :=
    funext h.slots
  rw [apply_writeFrom StatsRecord.bare, h.new_records_bare, hslots, h.size, h.inPos, copied_slots,
    apply_writeFrom fun slot : RequestSlot => slot.record []]

theorem timers_cnt_ingest (i : Nat) :
    (writeFrom a.request_pool.size a.request_pool.inPos
        (a.new_records now.toTimeval (shares.flatten.map StagedRequest.whole) realloc_ok)
        a.request_pool.data i).timers.length =
      ((d.merged_pools shares realloc_ok).request_pool.data i).timers_cnt := by
  have hcnt : (fun j => (a.request_pool.data j).timers.length) =
      fun j => (d.request_pool.data j).timers_cnt := funext h.timers_cnt
  have hcounts : (a.new_records now.toTimeval (shares.flatten.map StagedRequest.whole)
      realloc_ok).map (fun record => record.timers.length) =
      d.kept_counts (timer_shares (d.admitted shares)) realloc_ok := by
    rw [TimerState.kept_counts, ← h.new_records_timers now.toTimeval, List.map_map]
    rfl
  rw [apply_writeFrom fun record : StatsRecord => record.timers.length, hcounts, hcnt, h.size,
    h.inPos]
  exact ((TimerState.published_ingest (d.admitted_fit shares)).timers_cnt i).symm

/-- The new entries, as the reports that do not read timers see them. -/
theorem new_entries_bare :
    bare_entries (a.new_entries now.toTimeval (shares.flatten.map StagedRequest.whole) realloc_ok) =
      d.copied_entries now.toTimeval (d.admitted shares).flatten := by
  have hentries := a.request_pool.map_ahead_write (a.new_records_fit now.toTimeval
    (shares.flatten.map StagedRequest.whole) realloc_ok)
  unfold Daemon.new_entries bare_entries copied_entries
  rw [← hentries, h.length_new_records, h.ahead, List.map_map]
  apply List.map_congr_left
  intro i _
  show (i, StatsRecord.bare _) = _
  rw [← h.slots_ingest]
  rfl

theorem first_record_bare :
    (a.first_record now.toTimeval (shares.flatten.map StagedRequest.whole) realloc_ok).bare =
      (d.copied_slots now.toTimeval (d.admitted shares).flatten
        d.request_pool.inPos).record [] := by
  rw [← h.slots_ingest, ← h.inPos]
  rfl

/-- The new records have tags on both sides, or on none. -/
theorem rtags_total_ingest :
    Daemon.rtags_total
        (a.new_records now.toTimeval (shares.flatten.map StagedRequest.whole) realloc_ok) =
      Daemon.rtags_total
        ((d.copied_entries now.toTimeval (d.admitted shares).flatten).map Prod.snd) := by
  rw [← h.new_entries_bare, map_snd_bare, rtags_total_bare, Daemon.map_snd_new_entries]

/-- Timers are stored on both sides, or on none. -/
theorem timers_total_ingest :
    Daemon.timers_total
        (a.new_records now.toTimeval (shares.flatten.map StagedRequest.whole) realloc_ok) =
      (d.kept_counts (timer_shares (d.admitted shares)) realloc_ok).sum := by
  rw [TimerState.kept_counts, ← h.new_records_timers now.toTimeval, List.map_map]
  rfl

theorem timer_pool_ingest :
    (a.reserve_timers (Daemon.timers_total
        (a.new_records now.toTimeval (shares.flatten.map StagedRequest.whole) realloc_ok))
        realloc_ok).getD a.timer_pool =
      .ofPool (d.merged_pools shares realloc_ok).timer_pool := by
  rw [h.timers_total_ingest, TimerState.kept_counts, TimerState.kept_timers_eq]
  by_cases hstores : d.stores (timer_shares (d.admitted shares)) realloc_ok
  · obtain ⟨⟨id, pool, records⟩, hr⟩ := Option.isSome_iff_exists.mp hstores.2
    have hsum : ((TimerState.batch_timers (timer_shares (d.admitted shares))).map List.length).sum =
        TimerState.timers_added (timer_shares (d.admitted shares)) := by
      rw [batch_timers_eq, List.map_map, ← timers_added_eq]
      rfl
    rw [if_pos hstores, hsum, h.reserve_timers_eq, if_neg hstores.1, hr, merged_pools,
      TimerState.ingest_of_stores _ _ hstores.1 hr]
    rfl
  · rw [if_neg hstores, List.map_replicate, List.sum_replicate, List.length_nil, smul_zero,
      Daemon.reserve_timers, if_pos rfl, merged_pools, TimerState.ingest_of_not_stores _ _ hstores]
    exact h.timer_pool

end Follows

/-- A batch is the same batch on both sides. -/
theorem follows_ingest (h : Follows d a) (now : LaunchTime) (shares : List (List StagedRequest))
    (realloc_ok : Bool) :
    Follows (d.ingest now shares realloc_ok)
      (a.ingest now.toTimeval (shares.flatten.map StagedRequest.whole) realloc_ok) := by
  by_cases hnil : shares.flatten = []
  · rw [ingest_of_nil hnil, Daemon.ingest_of_nil (by rw [hnil]; rfl)]
    exact h
  · have hne := map_whole_ne_nil hnil
    have hpub : d.Published _ (d.merged_pools shares realloc_ok) :=
      TimerState.published_ingest (d.admitted_fit shares)
    have hlen : (d.kept_counts (timer_shares (d.admitted shares)) realloc_ok).length =
        (d.admitted shares).flatten.length := by
      rw [TimerState.kept_counts, List.length_map, TimerState.length_kept_timers,
        length_timer_shares]
    unfold PooledDaemon.ingest Daemon.ingest
    rw [if_neg hnil, if_neg hne]
    refine
      { size := h.size.trans hpub.size.symm
        inPos := ?_
        outPos := h.outPos.trans hpub.outPos.symm
        slots := fun i => h.slots_ingest i
        timers_cnt := fun i => h.timers_cnt_ingest i
        timer_pool := h.timer_pool_ingest
        request_pool_counter := ?_
        base_reports := ?_
        rtag_reports := ?_ }
    · -- as many records enter both rings
      refine Eq.trans ?_ hpub.inPos.symm
      show advance a.request_pool.size a.request_pool.inPos _ = _
      rw [h.length_new_records, hlen, h.size, h.inPos]
    · show a.request_pool_counter + _ = d.request_pool_counter + _
      rw [h.length_new_records, h.request_pool_counter]
    · -- the jobs of the base reports see the same records without their timers
      show a.base_reports.map _ = d.base_reports.map _
      rw [h.base_reports]
      apply List.map_congr_left
      intro r _
      rw [add_job_bare ignoresTimers_base]
      exact congrArg₂ (fun first entries => Daemon.add_job baseOps first entries r)
        h.first_record_bare h.new_entries_bare
    · show (if _ then a.rtag_reports else a.rtag_reports.map _) =
        if _ then d.rtag_reports else d.rtag_reports.map _
      rw [h.rtag_reports, h.rtags_total_ingest]
      split
      · rfl
      · apply List.map_congr_left
        intro r _
        rw [add_job_bare (ignoresTimers_rtag r.1)]
        exact congrArg₂ (fun first entries =>
          (⟨r.1, Daemon.add_job (rtagOps r.1) first entries r.2⟩ : SomeRtagReport))
          h.first_record_bare h.new_entries_bare

/-! ### The other steps -/

theorem follows_init (requests timers : Nat) :
    Follows (init requests timers) (Daemon.init requests timers) :=
  ⟨rfl, rfl, rfl, fun _ => rfl, fun _ => rfl, rfl, rfl, rfl, rfl⟩

theorem bare_release_words (record : StatsRecord) :
    record.release_words.bare = record.bare.release_words := rfl

theorem map_fst_bare (entries : List Entry) :
    (bare_entries entries).map Prod.fst = entries.map Prod.fst := by
  unfold bare_entries
  rw [List.map_map]
  rfl

/-- A family that does not read timers loses the same records. -/
theorem Follows.delete_all_eq (h : Follows d a) {R : Type*} {ops : ReportOps R}
    (hops : ops.IgnoresTimers) (from_ : Timeval) (r : R) :
    ops.delete_all (a.delete_old from_) r = ops.delete_all (d.delete_old from_) r := by
  rw [delete_all_bare hops, h.delete_old_bare, ← delete_all_bare hops]

/-- An expiry pass removes as many timers on both sides. -/
theorem Follows.timers_total_expired (h : Follows d a) (from_ : Timeval) :
    Daemon.timers_total ((a.delete_old from_).map Prod.snd) =
      d.deleted_timer_cnt (d.delete_old from_).length := by
  rw [a.delete_old_eq_take, h.length_delete_old]
  exact h.timers_total_take _

theorem follows_expire (h : Follows d a) (from_ : Timeval) :
    Follows (d.expire from_) (a.expire from_) := by
  have hlen := h.length_delete_old from_
  have hfst : (a.delete_old from_).map Prod.fst = (d.delete_old from_).map Prod.fst := by
    rw [← map_fst_bare, h.delete_old_bare, map_fst_bare]
  have htags : Daemon.rtags_total ((a.delete_old from_).map Prod.snd) =
      Daemon.rtags_total ((d.delete_old from_).map Prod.snd) := by
    rw [← rtags_total_bare, ← map_snd_bare, h.delete_old_bare, map_snd_bare, rtags_total_bare]
  refine
    { size := h.size
      inPos := h.inPos
      outPos := ?_
      slots := ?_
      timers_cnt := ?_
      timer_pool := ?_
      request_pool_counter := h.request_pool_counter
      base_reports := ?_
      rtag_reports := ?_ }
  · show advance a.request_pool.size a.request_pool.outPos _ = advance _ _ _
    rw [h.size, h.outPos, hlen]
  · -- the same slots give their words back
    intro i
    show (a.released (a.delete_old from_) i).bare =
      (if i ∈ (d.delete_old from_).map Prod.fst then (d.slots i).release_words
        else d.slots i).record []
    unfold Daemon.released
    rw [hfst]
    split
    · rw [bare_release_words, h.slots i]
      rfl
    · exact h.slots i
  · intro i
    show (a.released (a.delete_old from_) i).timers.length = (d.request_pool.data i).timers_cnt
    rw [← h.timers_cnt i]
    unfold Daemon.released
    split <;> rfl
  · show a.timer_pool.release _ = _
    rw [h.timer_pool, h.timers_total_expired]
    rfl
  · show a.base_reports.map _ = d.base_reports.map _
    rw [h.base_reports]
    exact List.map_congr_left fun r _ => h.delete_all_eq ignoresTimers_base from_ r
  · show (if _ then a.rtag_reports else a.rtag_reports.map _) =
      if _ then d.rtag_reports else d.rtag_reports.map _
    rw [h.rtag_reports, htags]
    split
    · rfl
    · apply List.map_congr_left
      intro r _
      rw [h.delete_all_eq (ignoresTimers_rtag r.1)]

/-- The destructor of the ring finds as many timers on both sides. -/
theorem Follows.timers_total_live (h : Follows d a) :
    Daemon.timers_total (a.live.map Prod.snd) = d.timer_pool.count := by
  have hall := h.timers_total_take a.live.length
  rw [List.take_length] at hall
  have hlen : d.request_pool.contents.length ≤ a.live.length := by
    rw [CircularBuffer.length_contents, Daemon.live, CircularBuffer.length_contents,
      ← CircularBuffer.length_live, ← CircularBuffer.length_live, h.live_slots]
  rw [hall, ← d.deleted_timer_cnt_add a.live.length, List.drop_eq_nil_of_le hlen]
  rfl

theorem Follows.times (h : Follows d a) : ∀ e ∈ a.live, e.2.time.tv_sec ≠ 0 := by
  intro e he
  -- times survive the loss of the timers
  have hmem : (e.1, e.2.bare) ∈ bare_entries a.live := List.mem_map_of_mem he
  rw [h.live_bare] at hmem
  obtain ⟨x, hx, heq⟩ := List.mem_map.mp hmem
  have htime : e.2.time = x.2.time :=
    (congrArg (fun y : Entry => y.2.time) heq).symm
  rw [htime]
  exact d.times_view x hx

/-- Deleting all rows takes all live records out of the books. -/
theorem Follows.pinba_request_pool_dtor_eq (h : Follows d a) : a.pinba_request_pool_dtor =
    { a.without a.live with
      request_pool := a.request_pool.setData fun i => (a.request_pool.data i).release_words } := by
  have hout : a.timer_pool.outPos < a.timer_pool.size := by
    rw [h.timer_pool]
    exact d.timer_pool.out_lt
  have hlen : Daemon.timers_total (a.live.map Prod.snd) ≤ a.timer_pool.size := by
    rw [h.timers_total_live, h.timer_pool]
    exact d.timer_pool.count_lt.le
  unfold Daemon.pinba_request_pool_dtor
  rw [Daemon.foldl_record_dtor h.times hout hlen]
  rfl

theorem follows_delete_all_rows (h : Follows d a) :
    Follows d.delete_all_rows a.delete_all_rows := by
  unfold PooledDaemon.delete_all_rows Daemon.delete_all_rows
  rw [h.pinba_request_pool_dtor_eq]
  refine
    { size := congrArg (fun n => n - 1 + 1) h.size
      inPos := rfl
      outPos := rfl
      slots := fun _ => rfl
      timers_cnt := fun _ => rfl
      timer_pool := ?_
      request_pool_counter := ?_
      base_reports := ?_
      rtag_reports := ?_ }
  · -- giving up every timer brings `out` to `in`
    show a.timer_pool.release _ = _
    rw [h.timers_total_live, h.timer_pool]
    show (⟨_, _, advance d.timer_pool.size d.timer_pool.outPos d.timer_pool.count⟩ : TimerCursor) =
      ⟨_, _, d.view.pinba_request_pool_dtor.timer_pool.outPos⟩
    rw [outPos_dtor_view, advance_eq_mod d.timer_pool.out_lt d.timer_pool.count_lt.le,
      ← d.timer_pool.in_eq]
    rfl
  · show a.request_pool_counter = d.view.pinba_request_pool_dtor.request_pool_counter
    rw [pinba_request_pool_dtor_view]
    exact h.request_pool_counter
  · show a.base_reports.map _ = d.view.pinba_request_pool_dtor.base_reports
    rw [pinba_request_pool_dtor_view, h.base_reports]
    apply List.map_congr_left
    intro r _
    rw [delete_all_bare ignoresTimers_base, h.live_bare, ← delete_all_bare ignoresTimers_base]
  · show a.rtag_reports = d.view.pinba_request_pool_dtor.rtag_reports
    rw [pinba_request_pool_dtor_view]
    exact h.rtag_reports

theorem follows_step (h : Follows d a) (e : Event) : Follows (d.step e) (a.step e.whole) := by
  cases e with
  | ingest now shares realloc_ok => exact follows_ingest h now shares realloc_ok
  | expire from_ => exact follows_expire h from_
  | register_base kind cond buckets =>
    refine { h with base_reports := ?_ }
    show a.base_reports ++ _ = d.base_reports ++ _
    rw [h.base_reports]
  | register_rtag kind cond buckets tags =>
    refine { h with rtag_reports := ?_ }
    show a.rtag_reports ++ _ = d.rtag_reports ++ _
    rw [h.rtag_reports]
  | register_tag => exact { h with }

/-! ### Runs -/

variable {ok : PooledDaemon → Event → Prop} {d₀ : PooledDaemon} {a₀ : Daemon} {last₀ last : Timeval}

theorem follows_of_steps (h₀ : Follows d₀ a₀) (h : Steps ok d₀ a₀ last₀ d a last) :
    Follows d a := by
  induction h with
  | refl => exact h₀
  | step e _ _ _ ih => exact follows_step ih e

theorem follows_of_reachable (h : Reachable ok d a last) : Follows d a := by
  obtain ⟨requests, timers, -, hsteps⟩ := h
  exact follows_of_steps (follows_init requests timers) hsteps

/-- A regular event is a regular event for the daemon of whole records. -/
theorem Event.regular_whole {e : Event} (h : e.Regular last) : e.whole.Regular last := by
  cases e with
  | ingest now shares realloc_ok =>
    refine ⟨h.1, now.set, ?_⟩
    intro r hr
    obtain ⟨request, hrequest, rfl⟩ := List.mem_map.mp hr
    exact h.2 request hrequest
  | expire | register_base | register_rtag | register_tag => trivial

/-- A sound event is a sound event for the daemon of whole records. -/
theorem Follows.soundEvent (h : Follows d a) {e : Event} (hok : d.SoundEvent e) :
    a.SoundEvent e.whole := by
  cases e with
  | ingest now shares realloc_ok =>
    intro hne hfree hunset
    rw [h.free] at hfree
    rw [h.base_reports] at hunset
    have hslot := hok (by rintro hnil; exact hne (by rw [hnil]; rfl)) hfree hunset
    rw [h.inPos]
    have htime : (a.request_pool.data d.request_pool.inPos).time =
        (d.slots d.request_pool.inPos).time :=
      congrArg StatsRecord.time (h.slots d.request_pool.inPos)
    rwa [htime]
  | expire | register_base | register_rtag | register_tag => trivial

/-- The daemon of whole records goes through a run of its own. -/
theorem whole_steps (h : Steps ok d₀ a₀ last₀ d a last) :
    Daemon.Steps (fun _ _ => True) a₀ last₀ a last := by
  induction h with
  | refl => exact .refl
  | step e _ hreg _ ih => exact .step e.whole ih (Event.regular_whole hreg) trivial

theorem whole_sound_steps (h₀ : Follows d₀ a₀) (h : Steps SoundEvent d₀ a₀ last₀ d a last) :
    Daemon.Steps Daemon.SoundEvent a₀ last₀ a last := by
  induction h with
  | refl => exact .refl
  | step e hd hreg hok ih =>
    exact .step e.whole ih (Event.regular_whole hreg) ((follows_of_steps h₀ hd).soundEvent hok)

theorem whole_reachable (h : Reachable ok d a last) :
    Daemon.Reachable (fun _ _ => True) a last := by
  obtain ⟨requests, timers, -, hsteps⟩ := h
  exact ⟨requests, timers, whole_steps hsteps⟩

theorem whole_sound_reachable (h : Reachable SoundEvent d a last) :
    Daemon.Reachable Daemon.SoundEvent a last := by
  obtain ⟨requests, timers, -, hsteps⟩ := h
  exact ⟨requests, timers, whole_sound_steps (follows_init requests timers) hsteps⟩

theorem whole_history (h : History ok d a last) : Daemon.History a last := by
  induction h with
  | start requests timers => exact .start requests timers
  | step e _ hreg _ ih => exact .step e.whole ih (Event.regular_whole hreg)
  | delete_all_rows _ ih => exact .delete_all_rows ih

/-! ## Section 3: Agreement on timers -/

/-- The records of `a` tile the timer pool, and each finds there what was stored for it. -/
def Holds (d : PooledDaemon) (a : Daemon) : Prop :=
  d.Tiles (a.live.map fun e => e.2.timers)

/-- The daemon of whole records is where the daemon over its pools is. -/
structure Shows (d : PooledDaemon) (a : Daemon) : Prop extends Follows d a where
  holds : d.Holds a
  hits : ∀ e ∈ a.live, ∀ timer ∈ e.2.timers, timer.hit_count ≠ 0
  timertags_cnt : a.timertags_cnt = d.timertags_cnt
  tag_reports : a.tag_reports = d.tag_reports

/-- The records read the timers that were stored for them. -/
theorem Follows.timers_at_eq (h : Follows d a) (hholds : d.Holds a) :
    ∀ i ∈ d.request_pool.live, d.timers_at i = (a.request_pool.data i).timers := by
  have hreads := (TimerState.tiled_of_tiles hholds).reads
  unfold Daemon.live CircularBuffer.contents at hreads
  rw [List.map_map, List.map_map, h.live_slots] at hreads
  exact List.map_inj_left.mp hreads

theorem Follows.record_eq (h : Follows d a) {i : Nat}
    (ht : d.timers_at i = (a.request_pool.data i).timers) : d.record i = a.request_pool.data i := by
  have hbare := h.slots i
  rw [record, ht]
  -- all fields but the timers agree
  revert hbare
  cases a.request_pool.data i with
  | mk data time counter timers words =>
    intro hbare
    obtain ⟨rfl, rfl, rfl, -, rfl⟩ := StatsRecord.mk.inj hbare
    rfl

theorem Follows.live_eq (h : Follows d a) (hholds : d.Holds a) : d.live = a.live := by
  have ha : a.live = d.request_pool.live.map fun i => (i, a.request_pool.data i) := by
    rw [← h.live_slots]
    rfl
  rw [ha, PooledDaemon.live_eq]
  apply List.map_congr_left
  intro i hi
  rw [h.record_eq (h.timers_at_eq hholds i hi)]

namespace Shows

variable (h : Shows d a)
include h

theorem live_eq : d.live = a.live := h.toFollows.live_eq h.holds

theorem delete_old_eq (from_ : Timeval) : d.delete_old from_ = a.delete_old from_ := by
  show d.live.takeWhile _ = a.live.takeWhile _
  rw [h.live_eq]

end Shows

theorem shows_init (requests timers : Nat) :
    Shows (init requests timers) (Daemon.init requests timers) := by
  have hlive : (Daemon.init requests timers).live = [] := CircularBuffer.contents_blank _ _
  refine ⟨follows_init requests timers, ?_, ?_, rfl, rfl⟩
  · unfold Holds
    rw [hlive]
    exact TimerState.tiles_init requests timers
  · rw [hlive]
    exact fun e he => absurd he List.not_mem_nil

/-! ### A batch -/

section batch
variable (h : Shows d a) {now : LaunchTime} {shares : List (List StagedRequest)} {realloc_ok : Bool}
include h

theorem Shows.new_entries_timers :
    (a.new_entries now.toTimeval (shares.flatten.map StagedRequest.whole) realloc_ok).map
        (fun e => e.2.timers) =
      d.kept_timers (timer_shares (d.admitted shares)) realloc_ok := by
  rw [← h.new_records_timers now.toTimeval, ← Daemon.map_snd_new_entries, List.map_map]
  rfl

theorem Shows.holds_ingest (hsafe : d.SafeBatch (timer_shares (d.admitted shares)) realloc_ok) :
    (d.ingest now shares realloc_ok).Holds
      (a.ingest now.toTimeval (shares.flatten.map StagedRequest.whole) realloc_ok) := by
  by_cases hnil : shares.flatten = []
  · rw [ingest_of_nil hnil, Daemon.ingest_of_nil (by rw [hnil]; rfl)]
    exact h.holds
  · have hne := map_whole_ne_nil hnil
    unfold Holds
    rw [toTimerState_ingest hnil, Daemon.live_ingest hne, List.map_append, h.new_entries_timers]
    exact TimerState.tiles_ingest (d.admitted_fit shares) hsafe h.holds

/-- The new records, as the timer tag reports read them. -/
theorem Shows.merged_entries_eq (hne : shares.flatten ≠ [])
    (hsafe : d.SafeBatch (timer_shares (d.admitted shares)) realloc_ok) :
    d.merged_entries now.toTimeval shares realloc_ok =
      a.new_entries now.toTimeval (shares.flatten.map StagedRequest.whole) realloc_ok := by
  have hlive := (follows_ingest h.toFollows now shares realloc_ok).live_eq (h.holds_ingest hsafe)
  have hd : (d.ingest now shares realloc_ok).live =
      (d.request_pool.live.map fun i => (i, (d.ingest now shares realloc_ok).record i)) ++
        d.merged_entries now.toTimeval shares realloc_ok := by
    rw [PooledDaemon.live_eq, toTimerState_ingest hne, live_merged_pools, List.map_append]
    unfold ingest merged_entries
    rw [if_neg hne]
    rfl
  rw [Daemon.live_ingest (map_whole_ne_nil hne), hd] at hlive
  -- the new entries stand behind the old ones in both rings
  refine (List.append_inj hlive ?_).2
  rw [List.length_map, ← h.live_slots, CircularBuffer.length_live, Daemon.live,
    CircularBuffer.length_contents]

theorem Shows.stores_iff :
    d.stores (timer_shares (d.admitted shares)) realloc_ok ↔
      Daemon.timers_total
        (a.new_records now.toTimeval (shares.flatten.map StagedRequest.whole) realloc_ok) ≠ 0 := by
  rw [h.timers_total_ingest, TimerState.kept_counts, TimerState.kept_timers_eq]
  by_cases hstores : d.stores (timer_shares (d.admitted shares)) realloc_ok
  · rw [if_pos hstores]
    refine iff_of_true hstores ?_
    rw [batch_timers_eq, List.map_map]
    exact (timers_added_eq _).trans_ne hstores.1
  · rw [if_neg hstores]
    refine iff_of_false hstores ?_
    simp

theorem Shows.timertags_total_ingest :
    Daemon.timertags_total
        (a.new_records now.toTimeval (shares.flatten.map StagedRequest.whole) realloc_ok) =
      if d.stores (timer_shares (d.admitted shares)) realloc_ok then
        timertag_cnt (d.admitted shares).flatten else 0 := by
  have hsum : Daemon.timertags_total
      (a.new_records now.toTimeval (shares.flatten.map StagedRequest.whole) realloc_ok) =
      ((d.kept_timers (timer_shares (d.admitted shares)) realloc_ok).map fun timers =>
        (timers.map fun timer => timer.tags.length).sum).sum := by
    rw [← h.new_records_timers now.toTimeval, List.map_map]
    rfl
  rw [hsum, TimerState.kept_timers_eq]
  split
  · rw [batch_timers_eq, List.map_map, List.map_map]
    rfl
  · simp

theorem Shows.tag_reports_ingest (hne : shares.flatten ≠ [])
    (hsafe : d.SafeBatch (timer_shares (d.admitted shares)) realloc_ok) :
    (a.ingest now.toTimeval (shares.flatten.map StagedRequest.whole) realloc_ok).tag_reports =
      (d.ingest now shares realloc_ok).tag_reports := by
  have hne' := map_whole_ne_nil hne
  unfold PooledDaemon.ingest Daemon.ingest
  rw [if_neg hne, if_neg hne']
  show (if _ then a.tag_reports else a.tag_reports.map _) =
    if _ then d.tag_reports.map _ else d.tag_reports
  rw [h.tag_reports]
  by_cases hstores : d.stores (timer_shares (d.admitted shares)) realloc_ok
  · rw [if_neg (h.stores_iff.mp hstores), if_pos hstores]
    apply List.map_congr_left
    intro r _
    rw [h.merged_entries_eq hne hsafe, add_job_first]
    exact congrArg (fun first => (⟨r.1, Daemon.add_job (tagOps r.1) first _ r.2⟩ : SomeTagReport))
      h.first_record_bare
  · rw [if_pos (not_not.mp fun hc => hstores (h.stores_iff.mpr hc)), if_neg hstores]

theorem Shows.hits_new {e : Entry}
    (he : e ∈ a.new_entries now.toTimeval (shares.flatten.map StagedRequest.whole) realloc_ok) :
    ∀ timer ∈ e.2.timers, timer.hit_count ≠ 0 := by
  have hmem : e.2.timers ∈ d.kept_timers (timer_shares (d.admitted shares)) realloc_ok := by
    have htimers := @Shows.new_entries_timers _ _ h now shares realloc_ok
    rw [← htimers]
    exact List.mem_map_of_mem he
  rw [TimerState.kept_timers_eq] at hmem
  split at hmem
  · obtain ⟨timers, -, heq⟩ := List.mem_map.mp hmem
    rw [← heq]
    intro timer ht
    obtain ⟨t, hfilter, rfl⟩ := List.mem_map.mp ht
    -- a timer without hits is not stored
    have hkept := (List.mem_filter.mp hfilter).2
    intro hzero
    have hskip : t.skipped = true := by
      rw [RequestTimer.skipped, decide_eq_true (show t.hit_count = 0 from hzero), Bool.true_or]
    rw [hskip] at hkept
    exact absurd hkept (by simp)
  · rw [List.eq_of_mem_replicate hmem]
    exact fun timer ht => absurd ht List.not_mem_nil

end batch

/-- A safe batch. -/
theorem shows_ingest (h : Shows d a) (now : LaunchTime) (shares : List (List StagedRequest))
    (realloc_ok : Bool) (hsafe : d.SafeBatch (timer_shares (d.admitted shares)) realloc_ok) :
    Shows (d.ingest now shares realloc_ok)
      (a.ingest now.toTimeval (shares.flatten.map StagedRequest.whole) realloc_ok) := by
  by_cases hnil : shares.flatten = []
  · rw [ingest_of_nil hnil, Daemon.ingest_of_nil (by rw [hnil]; rfl)]
    exact h
  · have hne := map_whole_ne_nil hnil
    refine ⟨follows_ingest h.toFollows now shares realloc_ok, h.holds_ingest hsafe, ?_, ?_,
      h.tag_reports_ingest hnil hsafe⟩
    · rw [Daemon.live_ingest hne]
      intro e he
      rcases List.mem_append.mp he with hold | hnew
      · exact h.hits e hold
      · exact h.hits_new hnew
    · unfold PooledDaemon.ingest Daemon.ingest
      rw [if_neg hnil, if_neg hne]
      show a.timertags_cnt + _ = if _ then _ else d.timertags_cnt
      rw [h.timertags_total_ingest, h.timertags_cnt]
      split
      · rfl
      · exact add_zero _

/-! ### An expiry pass -/

/-- The positions that a pass clears. -/
def cleared_ids (d : PooledDaemon) (n : Nat) : List Nat :=
  (d.expired n).flatMap (timer_ids d.timer_pool)

theorem clear_oldest_eq_foldl (n : Nat) :
    d.clear_oldest n = (d.cleared_ids n).foldl clear_timer (d.timer_pool.data, 0) := by
  unfold clear_oldest cleared_ids
  rw [List.foldl_flatMap]
  congr 1
  funext s record
  exact clear_timers_eq d.timer_pool s record

/-- What is left of the timers does not depend on what is counted. -/
theorem data_expire (n : Nat) :
    TimerState.clear_record_timers_func d.timer_pool (d.expired n) = (d.clear_oldest n).1 := by
  refine @List.foldl_hom _ _ _ Prod.fst (clear_timers d.timer_pool) _ (d.expired n)
    (d.timer_pool.data, 0) ?_
  intro s record
  exact @List.foldl_hom _ _ _ Prod.fst _ _ (List.range record.timers_cnt) s fun _ _ => rfl

/-- The oldest records read the timers at the front of the pool. -/
theorem Shows.cleared_ids_eq (h : Shows d a) (n : Nat) :
    d.cleared_ids n = d.timer_pool.live.take (d.deleted_timer_cnt n) := by
  have hholds : d.Tiles _ := h.holds
  unfold cleared_ids TimerState.deleted_timer_cnt TimerState.expired
  rw [List.flatMap_map, List.map_map]
  refine Eq.trans ?_ (hholds.flatMap_take n)
  apply List.flatMap_congr
  intro e he
  exact hholds.timer_ids_eq (List.mem_of_mem_take he)

theorem Shows.clear_oldest_eq (h : Shows d a) (n : Nat) :
    d.clear_oldest n =
      (fun i => if i ∈ d.cleared_ids n then (d.timer_pool.data i).cleared else d.timer_pool.data i,
        ((d.cleared_ids n).map fun id => (d.timer_pool.data id).tag_num).sum) := by
  have hnodup : (d.cleared_ids n).Nodup := by
    rw [h.cleared_ids_eq]
    exact d.timer_pool.nodup_live.sublist (List.take_sublist _ _)
  rw [clear_oldest_eq_foldl, foldl_clear_timer hnodup, Nat.zero_add]

/-- The tags of the cleared timers are those of the records. -/
theorem tags_cleared (n : Nat) :
    ((d.cleared_ids n).map fun id => (d.timer_pool.data id).tag_num).sum =
      Daemon.timertags_total ((d.live.take n).map Prod.snd) := by
  unfold cleared_ids TimerState.expired CircularBuffer.contents Daemon.timertags_total
  rw [PooledDaemon.live_eq, ← List.map_take, ← List.map_take, List.map_map, List.map_map,
    List.map_map, List.flatMap_map, List.map_flatMap, List.flatMap_def, List.sum_flatten,
    List.map_map]
  congr 1
  apply List.map_congr_left
  intro i _
  show (((timer_ids d.timer_pool (d.request_pool.data i)).map _).sum : Nat) =
    ((d.timers_at i).map _).sum
  unfold timer_ids TimerState.timers_at
  rw [List.map_map, List.map_map]
  rfl

theorem shows_expire (h : Shows d a) (from_ : Timeval) :
    Shows (d.expire from_) (a.expire from_) := by
  have hfollows := follows_expire h.toFollows from_
  have hdrop : (a.expire from_).live = a.live.drop (a.delete_old from_).length := by
    have hsplit := a.live_expire from_
    conv_rhs => rw [hsplit]
    exact (List.drop_left' rfl).symm
  have htake : d.live.take (d.delete_old from_).length = a.delete_old from_ := by
    rw [h.delete_old_eq, h.live_eq]
    exact (a.delete_old_eq_take from_).symm
  refine ⟨hfollows, ?_, ?_, ?_, ?_⟩
  · unfold Holds
    rw [hdrop, List.map_drop, h.toFollows.length_delete_old]
    exact TimerState.tiles_expire (d.length_delete_old from_) h.holds
  · rw [hdrop]
    exact fun e he => h.hits e (List.mem_of_mem_drop he)
  · show a.timertags_cnt - _ =
      d.timertags_cnt - ((d.clear_oldest (d.delete_old from_).length).2 : Int)
    rw [h.clear_oldest_eq, tags_cleared, htake, h.timertags_cnt]
  · -- the delete functions read the timers that were stored
    show (if _ then a.tag_reports else a.tag_reports.map _) =
      if _ then d.tag_reports else d.tag_reports.map _
    rw [h.tag_reports, h.timers_total_expired, h.delete_old_eq]

/-! ### DELETE FROM request -/

theorem timer_pool_delete_all_rows : d.delete_all_rows.timer_pool.inPos =
    d.delete_all_rows.timer_pool.outPos := d.outPos_dtor_view.symm

theorem shows_delete_all_rows (h : Shows d a) : Shows d.delete_all_rows a.delete_all_rows := by
  have hring : d.delete_all_rows.request_pool.contents = [] := CircularBuffer.contents_blank _ _
  have hlive : a.delete_all_rows.live = [] := CircularBuffer.contents_blank _ _
  have hpool : d.delete_all_rows.timer_pool.live = [] := by
    rw [← List.length_eq_zero_iff, CircularBuffer.length_live, CircularBuffer.count,
      timer_pool_delete_all_rows]
    exact if_pos rfl
  refine ⟨follows_delete_all_rows h.toFollows, ?_, ?_, ?_, ?_⟩
  · unfold Holds
    rw [hlive]
    exact ⟨by rw [hring, hpool]; rfl, by rw [hring]; rfl, by rw [hring, hpool]; rfl⟩
  · rw [hlive]
    exact fun e he => absurd he List.not_mem_nil
  · show a.pinba_request_pool_dtor.timertags_cnt = d.view.pinba_request_pool_dtor.timertags_cnt
    rw [h.pinba_request_pool_dtor_eq, pinba_request_pool_dtor_view, h.live_eq]
    exact congrArg (· - _) h.timertags_cnt
  · show a.pinba_request_pool_dtor.tag_reports = d.view.pinba_request_pool_dtor.tag_reports
    rw [h.pinba_request_pool_dtor_eq, pinba_request_pool_dtor_view, h.live_eq]
    show a.tag_reports.map _ = d.tag_reports.map _
    rw [h.tag_reports]

/-! ### Runs -/

theorem shows_step (h : Shows d a) {e : Event} (hok : d.SafeEvent e) :
    Shows (d.step e) (a.step e.whole) := by
  cases e with
  | ingest now shares realloc_ok => exact shows_ingest h now shares realloc_ok hok
  | expire from_ => exact shows_expire h from_
  | register_base kind cond buckets =>
    exact ⟨follows_step h.toFollows (.register_base kind cond buckets), h.holds, h.hits,
      h.timertags_cnt, h.tag_reports⟩
  | register_rtag kind cond buckets tags =>
    exact ⟨follows_step h.toFollows (.register_rtag kind cond buckets tags), h.holds, h.hits,
      h.timertags_cnt, h.tag_reports⟩
  | register_tag kind cond buckets tag_id =>
    refine ⟨follows_step h.toFollows (.register_tag kind cond buckets tag_id), h.holds, h.hits,
      h.timertags_cnt, ?_⟩
    show a.tag_reports ++ _ = d.tag_reports ++ _
    rw [h.tag_reports]

theorem shows_of_steps (h₀ : Shows d₀ a₀) (h : Steps SafeEvent d₀ a₀ last₀ d a last) :
    Shows d a := by
  induction h with
  | refl => exact h₀
  | step e _ _ hok ih => exact shows_step ih hok

theorem shows_of_reachable (h : Reachable SafeEvent d a last) : Shows d a := by
  obtain ⟨requests, timers, -, hsteps⟩ := h
  exact shows_of_steps (shows_init requests timers) hsteps

theorem shows_of_history (h : History SafeEvent d a last) : Shows d a := by
  induction h with
  | start requests timers => exact shows_init requests timers
  | step e _ _ hok ih => exact shows_step ih hok
  | delete_all_rows _ ih => exact shows_delete_all_rows ih

end follows

end PooledDaemon

end PinbaEngine
