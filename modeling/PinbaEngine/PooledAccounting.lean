import PinbaEngine.PooledRuns

/-! # Report accounting over the pools

    What `Accounting` shows of whole records holds of the daemon over its pools
    as long as the records read what was stored for them: in every run of safe
    batches (`SafeEvent`). Base and request tag reports do not read timers, so
    they need no such condition.

    The condition cannot be dropped. When the pool grows past a record that the
    repair of `timer_pool_add` misses, this record reads a timer of another one,
    and when it expires, that timer is subtracted from the reports.
-/

namespace PinbaEngine

open Circular ReportOps StagedRequest

namespace PooledDaemon

variable {d : PooledDaemon} {a : Daemon} {last : Timeval}

/-! ## Section 1: Runs of safe batches -/

/-- A timer tag report accounts for the records as they are read. -/
theorem tag_report_accounts (h : Reachable SafeEvent d a last) {r : SomeTagReport}
    (hr : r ∈ d.tag_reports) : r.2.Accounts (accounted r.2.std d.live) := by
  have hshows := shows_of_reachable h
  rw [← hshows.tag_reports] at hr
  rw [hshows.live_eq]
  exact (Daemon.tagsTracked_reachable (whole_reachable h) r hr).accounts

/-- In every run of safe batches, every timer tag report is the exact aggregation of the matching
    timers of the live records since its start, and the records read the timers that were stored for
    them. -/
theorem tag_reports_exact (h : Reachable SafeEvent d a last) {k : TagKind} {report : TagReport k}
    (hr : ⟨k, report⟩ ∈ d.tag_reports) :
    d.live = a.live ∧ report.Exact (accounted report.std d.live) :=
  ⟨(shows_of_reachable h).live_eq, TagReport.exact_of_accounts (tag_report_accounts h hr)⟩

/-- The time of the first batch in the runs below. -/
def first_launch : LaunchTime := ⟨⟨100, 0⟩, by decide⟩

/-- A request with some timers. -/
def request_with (timers : List RequestTimer) : StagedRequest := ⟨default, timers, []⟩

theorem safe_of_not_full {now : LaunchTime} {shares : List (List StagedRequest)} {realloc_ok : Bool}
    (h : ¬ timer_pool_full d.timer_pool
      (TimerState.timers_added (timer_shares (d.admitted shares)))) :
    d.SafeEvent (.ingest now shares realloc_ok) := fun hgrows => absurd hgrows.1 h

/-- A timer tag report that has seen two requests of two threads. -/
theorem tag_reports_exact_two_requests :
    let batch := [[request_with [TimerState.tagged_timer]],
      [request_with [TimerState.untagged_timer, TimerState.tagged_timer]]]
    let d := ((init 9 2621439).step (.register_tag .tag_info .none Daemon.one_bucket [1])).step
      (.ingest first_launch batch true)
    ∃ r ∈ d.tag_reports, r.2.Exact (accounted r.2.std d.live) := by
  intro batch d
  have hreach : ∃ a last, Reachable SafeEvent d a last := ⟨_, _, 9, 2621439, by decide,
    .step (.ingest first_launch batch true)
      (.step (.register_tag .tag_info .none Daemon.one_bucket [1]) .refl trivial trivial)
      ⟨by decide, by decide⟩ (safe_of_not_full (by decide))⟩
  obtain ⟨a, last, hreach⟩ := hreach
  have hlen : 0 < d.tag_reports.length := by decide
  obtain ⟨r, hr⟩ := List.exists_mem_of_length_pos hlen
  exact ⟨r, hr, (tag_reports_exact hreach hr).2⟩

end PooledDaemon

/-! ## Section 2: A record that reads the timer of another -/

namespace TimerState

variable {s : TimerState}

/-- Requests with more timers than the smallest pool has room for. -/
def over_full_share : List (List RequestTimer) := full_share ++ [[tagged_timer]]

theorem flatten_over_full :
    [over_full_share].flatten = [full_share].flatten ++ [[tagged_timer]] := by
  simp [over_full_share]

theorem timers_added_over_full : timers_added [over_full_share] = 2621440 := by
  have hfull := timers_added_full
  rw [timers_added] at hfull ⊢
  rw [flatten_over_full, List.map_append, List.sum_append, hfull]
  rfl

theorem length_over_full : [over_full_share].flatten.length = 641 := by
  rw [flatten_over_full, List.length_append, length_full]
  rfl

theorem eq_tagged_of_mem {timers : List RequestTimer} (h : timers ∈ over_full_share) :
    ∀ timer ∈ timers, timer = tagged_timer := by
  unfold over_full_share full_share at h
  intro timer ht
  rcases List.mem_append.mp h with h | h
  · rcases List.mem_append.mp h with h | h
    · rw [List.eq_of_mem_replicate h] at ht
      exact List.eq_of_mem_replicate ht
    · rw [List.mem_singleton.mp h] at ht
      exact List.eq_of_mem_replicate ht
  · rw [List.mem_singleton.mp h] at ht
    exact List.mem_singleton.mp ht

theorem stored_over_full {timers : List RequestTimer} (h : timers ∈ over_full_share) :
    ∀ timer ∈ stored_timers timers, timer = tagged_timer.record := by
  intro timer ht
  obtain ⟨t, hfilter, rfl⟩ := List.mem_map.mp ht
  rw [eq_tagged_of_mem h t (List.mem_filter.mp hfilter).1]

section stranger
variable {shares : List (List (List RequestTimer))} {realloc_ok : Bool}

/-- A batch does not write to live slots of the ring. -/
theorem data_admit_timers (h : shares.flatten.length ≤ s.request_pool.free) {id : Nat}
    {pool : CircularBuffer PoolTimer} {records : Nat → TimerOwner}
    (hr : s.reserved shares realloc_ok = some (id, pool, records)) {slot : Nat}
    (hslot : slot ∈ s.request_pool.live) :
    (s.admit_timers realloc_ok h hr).request_pool.data slot = records slot := by
  have hnot : slot ∉ walk s.request_pool.size s.request_pool.inPos
      (s.merged shares id pool).1.length := by
    rw [s.length_merged h]
    exact (List.nodup_append'.mp (s.request_pool.nodup_live_append_ahead h)).2.2 hslot
  exact writeFrom_of_notMem hnot

/-- What is stored in the reserved part of the pool are the timers of the batch. -/
theorem timer_merged (h : shares.flatten.length ≤ s.request_pool.free)
    {pool : CircularBuffer PoolTimer} (hroom : timers_added shares ≤ pool.free) {i : Nat}
    (hi : i ∈ pool.ahead (timers_added shares)) :
    ∃ timers ∈ shares.flatten,
      ((s.merged shares pool.inPos (pool.publish (timers_added shares) hroom)).2 i).timer ∈
        stored_timers timers := by
  have hsize := pool.count_add_free
  have hin := pool.in_lt
  have hsum := share_timers_placed h
  obtain ⟨-, hdata⟩ := merge_shares_spec
    (show 0 + pool.inPos + share_timers (s.placed shares).flatten < 2 * pool.size by omega)
    (show share_timers (s.placed shares).flatten ≤ pool.size by omega) pool.data
  rw [Nat.zero_add, Nat.mod_eq_of_lt hin] at hdata
  have hmem : (s.merged shares pool.inPos (pool.publish (timers_added shares) hroom)).2 i ∈
      share_owned (s.placed shares).flatten := by
    have hlen : (share_owned (s.placed shares).flatten).length = timers_added shares := by
      rw [length_share_owned, hsum]
    unfold merged
    rw [show (pool.publish (timers_added shares) hroom).size = pool.size from rfl,
      show (pool.publish (timers_added shares) hroom).data = pool.data from rfl, hdata]
    refine writeFrom_mem hin (by omega) _ ?_
    rwa [hlen]
  obtain ⟨e, he, howned⟩ := List.mem_flatMap.mp hmem
  obtain ⟨timer, ht, heq⟩ := List.mem_map.mp howned
  rw [s.flatten_placed h] at he
  refine ⟨e.2, (List.of_mem_zip he).2, ?_⟩
  rw [← heq]
  exact ht

/-- The pool grows past the record without tags, and what this record reads after that was stored
    for another one. -/
theorem timers_at_stranger (hp : SmallPool s [[untagged_timer.record]] 0 2621439)
    (h : shares.flatten.length ≤ s.request_pool.free) (hadded : timers_added shares = 2621440)
    (htimers : ∀ timers ∈ shares.flatten, ∀ timer ∈ stored_timers timers,
      timer = tagged_timer.record) {slot : Nat} (hslot : slot ∈ s.request_pool.live) :
    (s.ingest shares h true).timers_at slot = [tagged_timer.record] := by
  obtain ⟨e, hentries, howner, hmoved⟩ := untagged_record hp
  have he : e ∈ s.request_pool.contents := by rw [hentries]; exact List.mem_singleton.mpr rfl
  obtain rfl : slot = e.1 := by
    rw [← CircularBuffer.map_fst_contents, hentries] at hslot
    exact List.mem_singleton.mp hslot
  have hfull : timer_pool_full s.timer_pool (timers_added shares) := by
    rw [timer_pool_full, hadded, hp.size, hp.count]
    decide
  obtain ⟨hroom, hr⟩ := reserved_of_grows ⟨hfull, rfl⟩
  rw [s.ingest_of_stores h (by omega) hr]
  -- the record keeps its start
  have hrecord : (s.admit_timers true h hr).request_pool.data e.1 = ⟨2621439, 1⟩ := by
    rw [data_admit_timers h hr hslot, timer_pool_grow_of_mem hp.tiles s.nodup_slots
      (fun e he => copied_of_mem h he) he, hmoved, if_neg fun hc => absurd hc.2 (by decide), howner]
  -- the timers of the batch fill the positions from 0 on
  have hsize : (s.timer_pool.grow (grow_amount (timers_added shares)) .zero).size = 5242880 := by
    rw [s.timer_pool.size_grow, hp.size, hadded]
    decide
  have hahead : 2621439 ∈ (s.timer_pool.grow (grow_amount (timers_added shares)) .zero).ahead
      (timers_added shares) := by
    unfold CircularBuffer.ahead
    rw [hsize, s.timer_pool.inPos_grow, hp.inPos_eq, hadded, walk_eq_map (by decide)]
    exact List.mem_map.mpr ⟨2621439, List.mem_range.mpr (by decide), by decide⟩
  obtain ⟨timers, hmem, hstored⟩ := timer_merged h hroom hahead
  rw [s.timer_pool.inPos_grow] at hstored
  unfold timers_at
  rw [hrecord]
  show [(record_get_timer _ _ 0).timer] = _
  have hid :
      record_get_timer_id (s.admit_timers true h hr).timer_pool ⟨2621439, 1⟩ 0 = 2621439 := by
    have hsize' : (s.admit_timers true h hr).timer_pool.size = 5242880 := hsize
    rw [record_get_timer_id, hsize']
    decide
  rw [record_get_timer, hid]
  exact congrArg (fun timer => [timer]) (htimers timers hmem _ hstored)

end stranger

end TimerState

namespace TagReport

/-- The row of all timers whose tag 1 has the empty value. -/
abbrev row_of (report : TagReport .tag_info) : Option TagRow := report.results.rows.lookup []

/-- A record whose timer matches takes this timer out of the row. -/
theorem row_of_delete {report : TagReport .tag_info} (hid : report.tag_id = [1])
    {record : StatsRecord} (hold : report.std.delete_check record = false)
    (htimers : record.timers = [TimerState.tagged_timer.record]) (slot : Nat) :
    (report.delete_func slot record).row_of =
      report.row_of.bind (SlotRow.remove (tagSums report.std.buckets) slot
        TimerState.tagged_timer.record) := by
  have hselect : TagKind.select .tag_info report.tag_id report.words TimerState.tagged_timer.record =
      (report.words, some [default]) := by
    rw [hid]
    rfl
  rw [delete_func_eq]
  unfold tag_delete tag_timer
  rw [if_neg (by rw [hold]; decide), if_neg (by exact Bool.false_ne_true), htimers, List.foldl_cons,
    List.foldl_nil, hselect]
  have hself := @Table.get_removeSample_self _ _ _ _ KeyedStore.flat (tagSums report.std.buckets) slot
    report.results ([], TimerState.tagged_timer.record)
  exact hself

/-- If such a record is not among those that a report is exact over, the report is not exact over
    them after the record was deleted. -/
theorem not_exact_of_delete {report : TagReport .tag_info} (hid : report.tag_id = [1])
    {record : StatsRecord} (hold : report.std.delete_check record = false)
    (htimers : record.timers = [TimerState.tagged_timer.record]) {slot : Nat} {w w' : List Entry}
    (hexact : report.Exact w) (hsame : report.timers_in w [] = report.timers_in w' [])
    (hsome : ∃ e ∈ w', TimerState.tagged_timer.record ∈ e.2.timers) :
    ¬ (report.delete_func slot record).Exact w' := by
  intro hexact'
  obtain ⟨e, he, hmem⟩ := hsome
  have hid' : (report.delete_func slot record).tag_id = report.tag_id :=
    (sameHeader_delete slot report record).tag_id
  -- the row is still there
  have hpresent : (report.delete_func slot record).row_of.isSome :=
    (hexact'.present []).mpr ⟨e, he, _, hmem, [default], by rw [hid', hid]; rfl, rfl⟩
  obtain ⟨row', hrow'⟩ := Option.isSome_iff_exists.mp hpresent
  have hdelete := row_of_delete hid hold htimers slot
  rw [hrow'] at hdelete
  obtain ⟨row, hrow, hremove⟩ := Option.bind_eq_some_iff.mp hdelete.symm
  -- but it has lost a hit
  have hhits := (hexact.sums [] row hrow).hit_count
  have hhits' := (hexact'.sums [] row' hrow').hit_count
  have hsame' : (report.delete_func slot record).timers_in w' [] = report.timers_in w' [] := by
    unfold timers_in
    rw [hid']
  have hlost : row'.acc.hit_count = row.acc.hit_count - 1 := by
    rw [SlotRow.acc_of_remove hremove]
    rfl
  rw [hsame', ← hsame, ← hhits, hlost] at hhits'
  omega

end TagReport

namespace PooledDaemon

variable {d : PooledDaemon} {a : Daemon} {last : Timeval}

/-! ### Batches that fit -/

theorem cut_shares_eq {shares : List (List StagedRequest)} {n : Nat}
    (h : shares.flatten.length ≤ n) : cut_shares n shares = shares := by
  induction shares generalizing n with
  | nil => rfl
  | cons share shares ih =>
    rw [List.flatten_cons, List.length_append] at h
    have htake : share.take n = share := List.take_of_length_le (by omega)
    rw [cut_shares, htake, ih (by omega)]

theorem admitted_of_fits {shares : List (List StagedRequest)}
    (h : shares.flatten.length ≤ d.request_pool.free) : d.admitted shares = shares := by
  rw [admitted, Nat.min_eq_left h]
  exact cut_shares_eq le_rfl

/-- One thread has staged requests with these timers. -/
def requests_of (timers : List (List RequestTimer)) : List (List StagedRequest) :=
  [timers.map request_with]

theorem timer_shares_requests_of (timers : List (List RequestTimer)) :
    timer_shares (requests_of timers) = [timers] := by
  have hone : StagedRequest.timers ∘ request_with = id := rfl
  rw [timer_shares, requests_of, List.map_singleton, List.map_map, hone, List.map_id]

theorem length_requests_of (timers : List (List RequestTimer)) :
    (requests_of timers).flatten.length = timers.length := by
  rw [requests_of, List.flatten_cons, List.flatten_nil, List.append_nil, List.length_map]

theorem requests_of_ne_nil {timers : List (List RequestTimer)} (h : timers ≠ []) :
    (requests_of timers).flatten ≠ [] := by
  intro hnil
  have hlen := length_requests_of timers
  rw [hnil] at hlen
  exact h (List.eq_nil_of_length_eq_zero hlen.symm)

/-- A tiled state of a run on the smallest pool, with the positions of the pool. -/
structure Small (d : PooledDaemon) (a : Daemon) (last : Timeval) (stored : List (List TimerRecord))
    (inPos outPos : Nat) : Prop where
  reach : Reachable SafeEvent d a last
  pool : d.SmallPool stored inPos outPos
  times : ∀ e ∈ a.live, e.2.time = last

section small
variable {stored : List (List TimerRecord)} {inPos outPos added : Nat} {now : LaunchTime}
  {timers : List (List RequestTimer)}

theorem toTimerState_ingest_of (hne : timers ≠ []) (hfits : timers.length ≤ d.request_pool.free)
    (h : [timers].flatten.length ≤ d.request_pool.free) :
    (d.ingest now (requests_of timers) true).toTimerState =
      d.toTimerState.ingest [timers] h true := by
  have hlen := length_requests_of timers
  have hshares : timer_shares (d.admitted (requests_of timers)) = [timers] := by
    rw [admitted_of_fits (by omega), timer_shares_requests_of]
  rw [toTimerState_ingest (requests_of_ne_nil hne)]
  unfold merged_pools
  simp only [hshares]

theorem step_reachable {ok : PooledDaemon → Event → Prop} (h : Reachable ok d a last) (e : Event)
    (hreg : e.Regular last) (hok : ok d e) :
    Reachable ok (d.step e) (a.step e.whole) (e.whole.stamp last) := by
  obtain ⟨requests, timers, hpool, hsteps⟩ := h
  exact ⟨requests, timers, hpool, .step e hsteps hreg hok⟩

theorem regular_requests_of (hnow : now.toTimeval.lt last = false) {realloc_ok : Bool}
    (hdistinct : ∀ t ∈ timers, ∀ timer ∈ stored_timers t, timer.DistinctTags) :
    (Event.ingest now (requests_of timers) realloc_ok).Regular last := by
  refine ⟨hnow, ?_⟩
  intro r hr
  rw [requests_of, List.flatten_cons, List.flatten_nil, List.append_nil] at hr
  obtain ⟨t, ht, rfl⟩ := List.mem_map.mp hr
  exact hdistinct t ht

/-- A batch that fits into an empty ring. -/
theorem Small.ingest (h : Small d a last [] inPos outPos) (hne : timers ≠ [])
    (hfits : timers.length ≤ 999) (hadded : TimerState.timers_added [timers] = added)
    (hpos : 0 < added) (hroom : occupancy 2621440 inPos outPos + added < 2621440)
    (hnow : now.toTimeval.lt last = false)
    (hdistinct : ∀ t ∈ timers, ∀ timer ∈ stored_timers t, timer.DistinctTags) :
    Small (d.step (.ingest now (requests_of timers) true))
      (a.step (Event.whole (.ingest now (requests_of timers) true))) now.toTimeval
      (TimerState.batch_timers [timers]) (advance 2621440 inPos added) outPos := by
  have hfree : d.request_pool.free = 999 := h.pool.free
  have hfits' : [timers].flatten.length ≤ d.request_pool.free := by simpa [hfree] using hfits
  have hsafe : d.SafeEvent (.ingest now (requests_of timers) true) := by
    apply safe_of_not_full
    rw [admitted_of_fits (by rw [length_requests_of]; omega), timer_shares_requests_of, hadded,
      timer_pool_full, h.pool.size, h.pool.count]
    omega
  -- no record is left from before
  have hempty : a.live = [] := by
    have hlen := h.pool.tiles.length_eq
    have hfollows := follows_of_reachable h.reach
    rw [CircularBuffer.length_contents, ← CircularBuffer.length_live, ← hfollows.live_slots,
      CircularBuffer.length_live, ← CircularBuffer.length_contents] at hlen
    exact List.eq_nil_of_length_eq_zero hlen
  refine ⟨step_reachable h.reach _ (regular_requests_of hnow hdistinct) hsafe, ?_, ?_⟩
  · have hpool := h.pool.ingest hfits' hadded hpos hroom
    have hsame : (d.ingest now (requests_of timers) true).toTimerState = _ :=
      toTimerState_ingest_of hne (by omega) hfits'
    rw [← hsame] at hpool
    exact hpool
  · intro e he
    have hlive : (a.ingest now.toTimeval _ true).live = _ :=
      Daemon.live_ingest (map_whole_ne_nil (requests_of_ne_nil hne))
    change e ∈ (a.ingest now.toTimeval _ true).live at he
    rw [hlive, hempty, List.nil_append] at he
    exact (Daemon.mem_new_records (List.of_mem_zip he).2).1

/-- All records expire. -/
theorem Small.expire (h : Small d a last stored inPos outPos) {from_ : Timeval}
    (hlater : last.lt from_ = true) :
    Small (d.step (.expire from_)) (a.step (.expire from_)) last [] inPos inPos := by
  have hshows := shows_of_reachable h.reach
  -- all records have one time, and the cut-off is later
  have hall : d.delete_old from_ = d.live := by
    rw [hshows.delete_old_eq, hshows.live_eq]
    refine List.takeWhile_eq_self_iff.mpr ?_
    intro e he
    rw [h.times e he]
    exact hlater
  have hlen : stored.length = (d.delete_old from_).length := by
    rw [hall, PooledDaemon.live_eq, List.length_map, CircularBuffer.length_live,
      ← CircularBuffer.length_contents, h.pool.tiles.length_eq]
  refine ⟨step_reachable h.reach (.expire from_) trivial trivial,
    h.pool.expire (d.length_delete_old from_) hlen, ?_⟩
  intro e he
  apply h.times e
  rw [a.live_expire from_]
  exact List.mem_append_right _ he

/-- The records hold the timers that the state says. -/
theorem Small.timers_eq (h : Small d a last stored inPos outPos) :
    a.live.map (fun e => e.2.timers) = stored :=
  (TimerState.tiled_of_tiles (shows_of_reachable h.reach).holds).reads.symm.trans
    (TimerState.tiled_of_tiles h.pool.tiles).reads

end small

/-! ### The only report -/

theorem tag_id_add_job {k : TagKind} (first : StatsRecord) (entries : List Entry)
    (r : TagReport k) : (Daemon.add_job (tagOps k) first entries r).tag_id = r.tag_id := by
  have hstart : ∀ r : TagReport k, ((tagOps k).start_from first r).tag_id = r.tag_id := by
    intro r
    unfold start_from
    split <;> rfl
  unfold Daemon.add_job ReportOps.update_reports_func
  rw [if_pos rfl]
  refine (tagOps k).add_all_induct (P := fun r' => r'.tag_id = r.tag_id) ?_ entries ?_
  · intro slot r' record heq
    exact (TagReport.sameHeader_add slot r' record).tag_id.trans heq
  · rw [hstart, hstart]

/-- The only timer tag report of the daemon is `r`, a `tag_info` report over tag 1. -/
structure Watched (d : PooledDaemon) (r : TagReport .tag_info) : Prop where
  only : d.tag_reports = [⟨.tag_info, r⟩]
  tag_id : r.tag_id = [1]
  cond : r.std.cond = .none

theorem Watched.mem {r : TagReport .tag_info} (h : Watched d r) :
    (⟨.tag_info, r⟩ : SomeTagReport) ∈ d.tag_reports := by
  rw [h.only]
  exact List.mem_singleton_self _

section watched
variable {r : TagReport .tag_info} {now : LaunchTime} {shares : List (List StagedRequest)}
  {realloc_ok : Bool}

/-- A batch with timers reaches the report. -/
theorem Watched.ingest (h : Watched d r) (hne : shares.flatten ≠ [])
    (hstores : d.stores (timer_shares (d.admitted shares)) realloc_ok) :
    ∃ r', Watched (d.ingest now shares realloc_ok) r' ∧ r'.std =
      if r.std.unset then r.std.set_start
        ((d.copied_slots now.toTimeval (d.admitted shares).flatten d.request_pool.inPos).record [])
      else r.std := by
  have hreports : (d.ingest now shares realloc_ok).tag_reports = d.tag_reports.map fun r =>
      (⟨r.1, Daemon.add_job (tagOps r.1)
        ((d.copied_slots now.toTimeval (d.admitted shares).flatten d.request_pool.inPos).record [])
        (d.merged_entries now.toTimeval shares realloc_ok) r.2⟩ : SomeTagReport) := by
    unfold PooledDaemon.ingest
    rw [if_neg hne]
    exact if_pos hstores
  rw [h.only, List.map_singleton] at hreports
  have hstd := Tracked.std_add_job (tagLaws .tag_info)
    ((d.copied_slots now.toTimeval (d.admitted shares).flatten d.request_pool.inPos).record [])
    (d.merged_entries now.toTimeval shares realloc_ok) r
  refine ⟨_, ⟨hreports, (tag_id_add_job _ _ r).trans h.tag_id, ?_⟩, hstd⟩
  show ((tagOps .tag_info).std _).cond = _
  rw [hstd]
  split <;> exact h.cond

/-- So does an expiry pass. -/
theorem Watched.expire (h : Watched d r) {from_ : Timeval}
    (hcnt : d.deleted_timer_cnt (d.delete_old from_).length ≠ 0) :
    Watched (d.expire from_) ((tagOps .tag_info).delete_all (d.delete_old from_) r) := by
  have hreports : (d.expire from_).tag_reports = d.tag_reports.map fun r =>
      (⟨r.1, (tagOps r.1).delete_all (d.delete_old from_) r.2⟩ : SomeTagReport) := if_neg hcnt
  rw [h.only, List.map_singleton] at hreports
  refine ⟨hreports, ?_, ?_⟩
  · refine (tagOps .tag_info).delete_all_induct (P := fun r' => r'.tag_id = [1]) ?_ _ h.tag_id
    intro slot r' record heq
    exact (TagReport.sameHeader_delete slot r' record).tag_id.trans heq
  · have hstd := (tagLaws .tag_info).std_delete_all (d.delete_old from_) r
    exact (congrArg StdReport.cond hstd).trans h.cond

/-- The first record of a batch has the time of the batch. -/
theorem first_time {batch : List StagedRequest} (hne : batch ≠ [])
    (hfits : batch.length ≤ d.request_pool.free) :
    (d.copied_slots now.toTimeval batch d.request_pool.inPos).time = now.toTimeval := by
  have hsize := d.request_pool.count_add_free
  obtain ⟨n, hn⟩ := Nat.exists_eq_succ_of_ne_zero (List.length_pos_of_ne_nil hne).ne'
  refine time_of_mem_stamp (writeFrom_mem d.request_pool.in_lt ?_ _ ?_)
  · rw [length_stamp]
    omega
  · rw [length_stamp, hn]
    exact List.mem_cons_self

/-- An expiry pass does not change what the report is about. -/
theorem Watched.expire_any (h : Watched d r) (from_ : Timeval) :
    ∃ r', Watched (d.expire from_) r' ∧ r'.std = r.std := by
  by_cases hcnt : d.deleted_timer_cnt (d.delete_old from_).length = 0
  · have hreports : (d.expire from_).tag_reports = d.tag_reports := if_pos hcnt
    exact ⟨r, ⟨hreports.trans h.only, h.tag_id, h.cond⟩, rfl⟩
  · exact ⟨_, h.expire hcnt, (tagLaws .tag_info).std_delete_all _ r⟩

theorem stores_of_added {s : TimerState} {timers : List (List (List RequestTimer))}
    (h : TimerState.timers_added timers ≠ 0) : s.stores timers true :=
  ⟨h, TimerState.reserved_isSome_iff.mpr fun hc => absurd hc.2 (by decide)⟩

end watched

/-! ### The run -/

section run

theorem distinct_over_full : ∀ t ∈ TimerState.over_full_share, ∀ timer ∈ stored_timers t,
    timer.DistinctTags := by
  intro t ht timer htimer
  rw [TimerState.stored_over_full ht timer htimer]
  decide

/-- A batch that fits into an empty ring reaches the report. -/
theorem watched_batch {r : TagReport .tag_info} {now : LaunchTime}
    {timers : List (List RequestTimer)} {inPos outPos added : Nat}
    (h : Small d a last [] inPos outPos) (hw : Watched d r) (hne : timers ≠ [])
    (hfits : timers.length ≤ 999) (hadded : TimerState.timers_added [timers] = added)
    (hpos : 0 < added) (hroom : occupancy 2621440 inPos outPos + added < 2621440)
    (hnow : now.toTimeval.lt last = false)
    (hdistinct : ∀ t ∈ timers, ∀ timer ∈ stored_timers t, timer.DistinctTags) :
    ∃ d' a', ∃ r' : TagReport .tag_info,
      Small d' a' now.toTimeval (TimerState.batch_timers [timers]) (advance 2621440 inPos added)
        outPos ∧ Watched d' r' ∧
      r'.std.start = if r.std.unset then now.toTimeval else r.std.start := by
  have hfree : d.request_pool.free = 999 := h.pool.free
  have hlen := length_requests_of timers
  have hne' := requests_of_ne_nil hne
  have hadmitted : d.admitted (requests_of timers) = requests_of timers :=
    admitted_of_fits (by omega)
  obtain ⟨r', hw', hstd⟩ := @Watched.ingest d r now (requests_of timers) true hw hne' (by
    rw [hadmitted, timer_shares_requests_of]
    exact stores_of_added (by omega))
  refine ⟨_, _, r', h.ingest hne hfits hadded hpos hroom hnow hdistinct, hw', ?_⟩
  rw [hstd, hadmitted]
  split
  · exact first_time hne' (by omega)
  · rfl

theorem length_full_share : TimerState.full_share.length = 640 := by
  have hlen := TimerState.length_full
  rwa [List.flatten_cons, List.flatten_nil, List.append_nil] at hlen

theorem watched_start : ∃ d a, ∃ r : TagReport .tag_info,
    Small d a ⟨0, 0⟩ [] 0 0 ∧ Watched d r ∧ r.std.unset := by
  refine ⟨(init 999 2621439).step (.register_tag .tag_info .none Daemon.one_bucket [1]),
    (Daemon.init 999 2621439).step (.register_tag .tag_info .none Daemon.one_bucket [1]),
    .created .tag_info .none Daemon.one_bucket [1],
    ⟨⟨999, 2621439, by decide, .step (.register_tag .tag_info .none Daemon.one_bucket [1])
      .refl trivial trivial⟩, TimerState.SmallPool.start, ?_⟩, ⟨rfl, rfl, rfl⟩, rfl⟩
  have hlive : (Daemon.init 999 2621439).live = [] := CircularBuffer.contents_blank _ _
  intro e he
  change e ∈ (Daemon.init 999 2621439).live at he
  rw [hlive] at he
  exact absurd he List.not_mem_nil

/-- A report is registered, the pool is filled but for one timer and emptied again, and a request
    whose timer has no tags gets the last position. -/
theorem exists_untagged : ∃ d a, ∃ r : TagReport .tag_info,
    Small d a ⟨200, 0⟩ [[TimerState.untagged_timer.record]] 0 2621439 ∧ Watched d r ∧
      r.std.start = ⟨100, 0⟩ := by
  obtain ⟨d₀, a₀, r₀, hstart, hw₀, hunset⟩ := watched_start
  have hne : TimerState.full_share ≠ [] :=
    List.ne_nil_of_length_pos (by rw [length_full_share]; decide)
  have hdistinct : ∀ t ∈ TimerState.full_share, ∀ timer ∈ stored_timers t, timer.DistinctTags :=
    fun t ht => distinct_over_full t (List.mem_append_left _ ht)
  -- all positions but the last are filled
  obtain ⟨d₁, a₁, r₁, hfilled, hw₁, hs₁⟩ := @watched_batch _ _ _ r₀ first_launch _ _ _ _
    hstart hw₀ hne (by rw [length_full_share]; decide) TimerState.timers_added_full (by decide)
    (by decide) (by decide) hdistinct
  rw [if_pos hunset] at hs₁
  -- the pool is emptied, and the report keeps its start
  have hempty := @Small.expire _ _ _ _ _ _ hfilled ⟨150, 0⟩ (by decide)
  obtain ⟨r₂, hw₂, hs₂⟩ := hw₁.expire_any ⟨150, 0⟩
  have hset : ¬ r₂.std.unset := by
    rw [hs₂, StdReport.unset, hs₁]
    decide
  -- the last position, after which `in` wraps around
  obtain ⟨d₃, a₃, r₃, hlast, hw₃, hs₃⟩ := @watched_batch _ _ _ r₂ ⟨⟨200, 0⟩, by decide⟩
    [[TimerState.untagged_timer]] _ _ _ hempty hw₂ (by decide) (by decide) rfl (by decide)
    (by decide) (by decide) (by decide)
  rw [if_neg hset, hs₂, hs₁] at hs₃
  exact ⟨d₃, a₃, r₃, hlast, hw₃, hs₃⟩

theorem Steps.mono {ok ok' : PooledDaemon → Event → Prop} {d₀ : PooledDaemon} {a₀ : Daemon}
    {last₀ : Timeval} (h : Steps ok d₀ a₀ last₀ d a last) (hok : ∀ d e, ok d e → ok' d e) :
    Steps ok' d₀ a₀ last₀ d a last := by
  induction h with
  | refl => exact .refl
  | step e _ hreg hstep ih => exact .step e ih hreg (hok _ e hstep)

theorem Reachable.mono {ok ok' : PooledDaemon → Event → Prop} (h : Reachable ok d a last)
    (hok : ∀ d e, ok d e → ok' d e) : Reachable ok' d a last := by
  obtain ⟨requests, timers, hpool, hsteps⟩ := h
  exact ⟨requests, timers, hpool, hsteps.mono hok⟩

/-- A report that started at 100 has to account for records of 200 and 300. -/
theorem not_delete_check {std : StdReport} (hstart : std.start = ⟨100, 0⟩) {record : StatsRecord}
    (htime : record.time = ⟨200, 0⟩ ∨ record.time = ⟨300, 0⟩) :
    std.delete_check record = false := by
  unfold StdReport.delete_check
  rw [hstart]
  rcases htime with htime | htime <;> rw [htime] <;> rfl

theorem accounted_eq_self {std : StdReport} {live : List Entry} (hstart : std.start = ⟨100, 0⟩)
    (hcond : std.cond = .none) (htime : ∀ e ∈ live, e.2.time = ⟨200, 0⟩ ∨ e.2.time = ⟨300, 0⟩) :
    accounted std live = live := by
  have hset : ¬ std.unset := by
    rw [StdReport.unset, hstart]
    decide
  unfold accounted
  rw [if_neg hset, List.filter_eq_self]
  intro e he
  rw [hcond, Conditions.check_none, Bool.and_true, StdReport.since,
    not_delete_check hstart (htime e he)]
  rfl

/-- The record without tags and the records of the batch that makes the pool grow. -/
structure Grown (d : PooledDaemon) (a : Daemon) (r : TagReport .tag_info) (u : Entry)
    (new : List Entry) : Prop where
  reach : Reachable (fun _ _ => True) d a ⟨300, 0⟩
  watched : Watched d r
  start : r.std.start = ⟨100, 0⟩
  live : a.live = u :: new
  time : u.2.time = ⟨200, 0⟩
  untagged : u.2.timers = [TimerState.untagged_timer.record]
  times : ∀ e ∈ new, e.2.time = ⟨300, 0⟩
  tagged : ∃ e ∈ new, TimerState.tagged_timer.record ∈ e.2.timers
  /-- What the record without tags reads now. -/
  reads : d.timers_at u.1 = [TimerState.tagged_timer.record]

theorem exists_grown : ∃ d a r u new, Grown d a r u new := by
  obtain ⟨d, a, r, hsmall, hw, hs⟩ := exists_untagged
  have hshows := shows_of_reachable hsmall.reach
  have hfree : d.request_pool.free = 998 := hsmall.pool.free
  have hlen : TimerState.over_full_share.length = 641 := by
    have hlen := TimerState.length_over_full
    rwa [List.flatten_cons, List.flatten_nil, List.append_nil] at hlen
  have hne : TimerState.over_full_share ≠ [] := List.ne_nil_of_length_pos (by omega)
  have hreqs := length_requests_of TimerState.over_full_share
  have hne' := requests_of_ne_nil hne
  have hadmitted : d.admitted (requests_of TimerState.over_full_share) =
      requests_of TimerState.over_full_share := admitted_of_fits (by omega)
  have hstores : d.stores [TimerState.over_full_share] true :=
    stores_of_added (by rw [TimerState.timers_added_over_full]; decide)
  -- the only live record
  obtain ⟨u, hu⟩ : ∃ u, a.live = [u] := by
    apply List.length_eq_one_iff.mp
    have hone := congrArg List.length hsmall.timers_eq
    rwa [List.length_map] at hone
  have huntagged : u.2.timers = [TimerState.untagged_timer.record] := by
    have hone := hsmall.timers_eq
    rw [hu] at hone
    exact List.cons.inj hone |>.1
  -- the batch
  obtain ⟨r', hw', hs'⟩ := @Watched.ingest d r ⟨⟨300, 0⟩, by decide⟩
    (requests_of TimerState.over_full_share) true hw hne' (by
      rw [hadmitted, timer_shares_requests_of]
      exact hstores)
  have hset : ¬ r.std.unset := by
    rw [StdReport.unset, hs]
    decide
  rw [if_neg hset] at hs'
  have htimers := @Shows.new_entries_timers d a hshows ⟨⟨300, 0⟩, by decide⟩
    (requests_of TimerState.over_full_share) true
  rw [hadmitted, timer_shares_requests_of, TimerState.kept_timers_eq, if_pos hstores] at htimers
  refine ⟨_, _, r', u, a.new_entries ⟨300, 0⟩
    ((requests_of TimerState.over_full_share).flatten.map StagedRequest.whole) true,
    step_reachable (hsmall.reach.mono fun _ _ _ => trivial)
      (.ingest ⟨⟨300, 0⟩, by decide⟩ (requests_of TimerState.over_full_share) true)
      (regular_requests_of (by decide) distinct_over_full) trivial,
    hw', ?_, ?_, ?_, huntagged, ?_, ?_, ?_⟩
  · rw [hs', hs]
  · exact (Daemon.live_ingest (map_whole_ne_nil hne')).trans (by rw [hu]; rfl)
  · exact hsmall.times u (by rw [hu]; exact List.mem_singleton_self u)
  · intro e he
    exact (Daemon.mem_new_records (List.of_mem_zip he).2).1
  · have hmem : [TimerState.tagged_timer.record] ∈
        TimerState.batch_timers [TimerState.over_full_share] := by
      unfold TimerState.batch_timers
      rw [TimerState.flatten_over_full, List.map_append]
      exact List.mem_append_right _ (List.mem_singleton_self _)
    rw [← htimers] at hmem
    obtain ⟨e, he, heq⟩ := List.mem_map.mp hmem
    exact ⟨e, he, by rw [heq]; exact List.mem_singleton_self _⟩
  · have hslot : u.1 ∈ d.request_pool.live := by
      rw [← hshows.live_slots, ← CircularBuffer.map_fst_contents]
      exact List.mem_map_of_mem (f := Prod.fst) (by
        show u ∈ a.live
        rw [hu]
        exact List.mem_singleton_self u)
    have hfits : [TimerState.over_full_share].flatten.length ≤ d.request_pool.free := by
      rw [TimerState.length_over_full]
      omega
    show (d.ingest _ _ _).toTimerState.timers_at u.1 = _
    rw [toTimerState_ingest_of hne (by omega) hfits]
    refine TimerState.timers_at_stranger hsmall.pool hfits TimerState.timers_added_over_full ?_
      hslot
    intro timers hmem
    rw [List.flatten_cons, List.flatten_nil, List.append_nil] at hmem
    exact TimerState.stored_over_full hmem

section grown
variable {r : TagReport .tag_info} {u : Entry} {new : List Entry} (h : Grown d a r u new)
include h

theorem Grown.expired_whole : a.delete_old ⟨250, 0⟩ = [u] := by
  unfold Daemon.delete_old
  have hcontents : a.request_pool.contents = u :: new := h.live
  have hnew : new.takeWhile (fun e => e.2.time.lt ⟨250, 0⟩) = [] := by
    rw [List.takeWhile_eq_nil_iff]
    intro hpos
    rw [h.times _ (List.get_mem new ⟨0, hpos⟩)]
    decide
  rw [hcontents, List.takeWhile_cons_of_pos (by rw [h.time]; decide), hnew]

/-- Only the record without tags expires, and it is read with the timer of another. -/
theorem Grown.expired : ∃ x : Entry, d.delete_old ⟨250, 0⟩ = [x] ∧ x.2.time = ⟨200, 0⟩ ∧
    x.2.timers = [TimerState.tagged_timer.record] := by
  have hbare := (follows_of_reachable h.reach).delete_old_bare ⟨250, 0⟩
  rw [h.expired_whole] at hbare
  obtain ⟨x, hx⟩ : ∃ x, d.delete_old ⟨250, 0⟩ = [x] := by
    apply List.length_eq_one_iff.mp
    have hlen := congrArg List.length hbare
    rw [bare_entries, bare_entries, List.length_map, List.length_map] at hlen
    exact hlen.symm
  have hone : (u.1, u.2.bare) = (x.1, x.2.bare) := by
    rw [hx] at hbare
    exact (List.cons.inj hbare).1
  obtain ⟨hslot, hrecord⟩ := Prod.mk.inj hone
  have hmem : x ∈ d.live := by
    have hprefix := List.takeWhile_prefix (l := d.live) fun e : Entry => e.2.time.lt ⟨250, 0⟩
    have hold : x ∈ d.delete_old ⟨250, 0⟩ := by
      rw [hx]
      exact List.mem_singleton_self x
    exact hprefix.subset hold
  obtain ⟨i, -, heq⟩ := List.mem_map.mp hmem
  have hread : x.2 = d.record x.1 := by rw [← heq]; rfl
  refine ⟨x, hx, ?_, ?_⟩
  · have htime : u.2.bare.time = x.2.bare.time := congrArg StatsRecord.time hrecord
    exact htime.symm.trans h.time
  · rw [hread, ← hslot]
    exact h.reads

theorem Grown.live_after : (a.expire ⟨250, 0⟩).live = new := by
  have hsplit := a.live_expire ⟨250, 0⟩
  rw [h.expired_whole, h.live] at hsplit
  exact (List.cons.inj hsplit).2.symm

end grown

/-- A timer tag report that is not the aggregation of the live records: the record without tags has
    taken the timer of another one along. -/
theorem untagged_growth_breaks_accounting : ∃ d a last, Reachable (fun _ _ => True) d a last ∧
    ∃ r ∈ d.tag_reports, ¬ r.2.Exact (accounted r.2.std a.live) := by
  obtain ⟨d, a, r, u, new, h⟩ := exists_grown
  by_contra hall
  have hexact : ∀ d a last, Reachable (fun _ _ => True) d a last →
      ∀ r ∈ d.tag_reports, r.2.Exact (accounted r.2.std a.live) := by
    intro d a last hreach r hr
    by_contra hnot
    exact hall ⟨d, a, last, hreach, r, hr, hnot⟩
  obtain ⟨x, hx, htime, htimers⟩ := h.expired
  have hold : r.std.delete_check x.2 = false := not_delete_check h.start (.inl htime)
  -- the pass reaches the report
  have hcnt : d.deleted_timer_cnt (d.delete_old ⟨250, 0⟩).length ≠ 0 := by
    rw [← (follows_of_reachable h.reach).timers_total_expired, h.expired_whole, Daemon.timers_total,
      List.map_singleton, List.map_singleton, h.untagged]
    decide
  have hafter := h.watched.expire hcnt
  have hdelete :
      (tagOps .tag_info).delete_all (d.delete_old ⟨250, 0⟩) r = r.delete_func x.1 x.2 := by
    have hcheck : r.std.cond.check x.2.data = true := by rw [h.watched.cond, Conditions.check_none]
    rw [hx]
    exact if_pos hcheck
  rw [hdelete] at hafter
  have hstd : (r.delete_func x.1 x.2).std = r.std := (TagReport.sameHeader_delete x.1 r x.2).std
  have hreach := step_reachable h.reach (.expire ⟨250, 0⟩) trivial trivial
  -- the report would be exact before the pass and after it
  have hbefore := hexact _ _ _ h.reach ⟨.tag_info, r⟩ h.watched.mem
  have hthen := hexact _ _ _ hreach ⟨.tag_info, r.delete_func x.1 x.2⟩ hafter.mem
  have hnew : ∀ e ∈ new, e.2.time = ⟨200, 0⟩ ∨ e.2.time = ⟨300, 0⟩ :=
    fun e he => .inr (h.times e he)
  have hall' : ∀ e ∈ u :: new, e.2.time = ⟨200, 0⟩ ∨ e.2.time = ⟨300, 0⟩ := by
    intro e he
    rcases List.mem_cons.mp he with rfl | he
    · exact .inl h.time
    · exact hnew e he
  rw [h.live, accounted_eq_self h.start h.watched.cond hall'] at hbefore
  have hlive : (a.step (Event.whole (.expire ⟨250, 0⟩))).live = new := h.live_after
  rw [hlive, hstd, accounted_eq_self h.start h.watched.cond hnew] at hthen
  refine TagReport.not_exact_of_delete h.watched.tag_id hold htimers hbefore ?_ h.tagged hthen
  -- the record without tags has no part in the row
  have hnone : TagReport.samples .tag_info r.tag_id u.2 = [] := by
    unfold TagReport.samples
    rw [h.untagged, h.watched.tag_id]
    rfl
  unfold TagReport.timers_in
  rw [List.flatMap_cons, hnone]
  rfl

end run

/-! ## Section 3: Histograms -/

/-- Reports that do not read timers account for the same requests. -/
theorem Follows.dataOf_accounted (h : Follows d a) (std : StdReport) :
    dataOf (accounted std d.live) = dataOf (accounted std a.live) := by
  rw [← dataOf_bare, ← accounted_bare, ← h.live_bare, accounted_bare, dataOf_bare]

/-- The events of a run are regular. -/
def AllRegular : Timeval → List Event → Prop
  | _, [] => True
  | last, e :: events => e.Regular last ∧ AllRegular (e.whole.stamp last) events

theorem steps_run {events : List Event} {d₀ : PooledDaemon} {a₀ : Daemon} {last₀ : Timeval}
    (h : Steps (fun _ _ => True) d₀ a₀ last₀ d a last) (hreg : AllRegular last events) :
    ∃ last', Steps (fun _ _ => True) d₀ a₀ last₀ (events.foldl step d)
      ((events.map Event.whole).foldl Daemon.step a) last' := by
  induction events generalizing d a last with
  | nil => exact ⟨last, h⟩
  | cons e events ih => exact ih (.step e h hreg.1 trivial) hreg.2

/-- A request that took some seconds and has no timers. -/
def timed_request (seconds : Duration) : StagedRequest :=
  ⟨{ (default : RequestData) with req_time := seconds }, [], []⟩

/-- The requests of `Daemon.slow` and `Daemon.quick`, as the daemon gets them. -/
def slow_request : StagedRequest := timed_request Daemon.slow.data.req_time

def quick_request : StagedRequest := timed_request default

/-- The run of `Daemon.stale_state`. -/
def stale_events : List Event :=
  [.ingest first_launch [List.replicate 9 slow_request] true,
    .expire ⟨150, 0⟩,
    .ingest ⟨⟨200, 0⟩, by decide⟩ [[slow_request, slow_request]] true,
    .ingest ⟨⟨210, 0⟩, by decide⟩ [[slow_request]] true,
    .ingest ⟨⟨215, 0⟩, by decide⟩ [List.replicate 6 slow_request] true,
    .register_base .report1 .none Daemon.two_buckets,
    .ingest ⟨⟨216, 0⟩, by decide⟩ [[slow_request]] true,
    .expire ⟨205, 0⟩,
    .ingest ⟨⟨220, 0⟩, by decide⟩ [[quick_request, quick_request]] true,
    .expire ⟨212, 0⟩]

end PooledDaemon

end PinbaEngine
