import Mathlib.Data.List.TakeWhile
import PinbaEngine.Accounting

/-! # DELETE FROM request

    `ha_pinba::delete_all_rows` destroys the request ring and initialises it
    again. The destructor of the ring is a second, hand-written copy of the
    expiry path: it walks over the live records, subtracts each of them from the
    reports, moves the read position of the timer pool and releases the words.

    It subtracts from base reports and timer tag reports but not from request tag
    reports. The module shows what it leaves in the books of the daemon of whole
    records; how it compares with an expiry pass over the pools is the subject of
    `PooledDelete`.
-/

namespace PinbaEngine

open ReportOps Circular

/-! ## Section 1: The destructor of the request ring -/

/-- The body of the loop in `pinba_update_delete`, for one report. -/
def ReportOps.pinba_update_delete {R : Type*} (ops : ReportOps R) (e : Entry) (report : R) : R :=
  if (ops.std report).cond.check e.2.data then ops.delete_func e.1 report e.2 else report

/-- Give up the timer at the read position of the timer pool. -/
def TimerCursor.pass_timer (c : TimerCursor) : TimerCursor :=
  { c with outPos := if c.outPos + 1 = c.size then 0 else c.outPos + 1 }

namespace Daemon

/-- `pinba_stats_record_dtor`. -/
def pinba_stats_record_dtor (d : Daemon) (e : Entry) : Daemon :=
  if e.2.time.tv_sec = 0 then d
  else
    let d := { d with base_reports := d.base_reports.map (baseOps.pinba_update_delete e) }
    if e.2.timers = [] then d
    else
      { d with
        tag_reports := d.tag_reports.map fun r => ⟨r.1, (tagOps r.1).pinba_update_delete e r.2⟩
        timer_pool := e.2.timers.foldl (fun c _ => c.pass_timer) d.timer_pool
        timertags_cnt := e.2.timers.foldl (fun cnt timer => cnt - timer.tags.length) d.timertags_cnt }

/-- `pinba_request_pool_dtor`: all live records, then the words of all slots. -/
def pinba_request_pool_dtor (d : Daemon) : Daemon :=
  let d := d.live.foldl pinba_stats_record_dtor d
  { d with
    request_pool := d.request_pool.setData fun i => (d.request_pool.data i).release_words }

/-- `ha_pinba::delete_all_rows`: the ring is destroyed and initialised with its
    old size. -/
def delete_all_rows (d : Daemon) : Daemon :=
  let d := d.pinba_request_pool_dtor
  { d with request_pool := .blank (d.request_pool.size - 1) default }

/-- The references that `delete_all_rows` gives back to the dictionary. -/
def deleted_words (d : Daemon) : List Word :=
  (List.range d.request_pool.size).flatMap fun i => (d.request_pool.data i).dictionary_words

/-- The references that an expiry pass gives back. -/
def expired_words (d : Daemon) (from_ : Timeval) : List Word :=
  (d.delete_old from_).flatMap fun e => e.2.dictionary_words

/-- The states of the runs in which rows may be deleted as well. -/
inductive History : Daemon → Timeval → Prop
  | start (requests timers : Nat) : History (init requests timers) ⟨0, 0⟩
  | step {d : Daemon} {last : Timeval} (e : Event) (hd : History d last) (hreg : e.Regular last) :
    History (d.step e) (e.stamp last)
  | delete_all_rows {d : Daemon} {last : Timeval} (hd : History d last) :
    History d.delete_all_rows last

end Daemon

/-! ## Section 2: The destructor in one step -/

namespace TimerCursor

variable {c : TimerCursor} {m n : Nat}

theorem release_release (hout : c.outPos < c.size) (hn : m + n ≤ c.size) :
    (c.release m).release n = c.release (m + n) := by
  unfold release advance
  simp only [TimerCursor.mk.injEq, true_and]
  split <;> split <;> split <;> omega

theorem pass_timer_eq_release (hout : c.outPos < c.size) : c.pass_timer = c.release 1 := by
  unfold pass_timer release advance
  simp only [TimerCursor.mk.injEq, true_and]
  split <;> split <;> omega

theorem release_zero (hout : c.outPos < c.size) : c.release 0 = c := by
  unfold release advance
  rw [if_neg (by omega)]
  rfl

theorem out_release_lt (hout : c.outPos < c.size) (hn : n ≤ c.size) :
    (c.release n).outPos < (c.release n).size := advance_lt hout hn

/-- The timer loop gives up as many timers as the record has. -/
theorem foldl_pass_timer {timers : List TimerRecord} (hout : c.outPos < c.size)
    (hn : timers.length ≤ c.size) :
    timers.foldl (fun c _ => c.pass_timer) c = c.release timers.length := by
  induction timers generalizing c with
  | nil => exact (release_zero hout).symm
  | cons timer timers ih =>
    rw [List.length_cons] at hn
    have hlt : (c.release 1).outPos < (c.release 1).size := out_release_lt hout (by omega)
    rw [List.foldl_cons, pass_timer_eq_release hout, ih hlt (by show _ ≤ c.size; omega),
      release_release hout (by omega), List.length_cons, Nat.add_comm 1]

end TimerCursor

theorem TagReport.delete_func_no_timers {k : TagKind} (report : TagReport k) (slot : Nat)
    {record : StatsRecord} (h : record.timers = []) : report.delete_func slot record = report := by
  rw [TagReport.delete_func_eq]
  unfold tag_delete
  rw [h]
  split
  · rfl
  · split <;> rfl

namespace Daemon

variable {d : Daemon} {last now from_ : Timeval} {entries : List Entry}

theorem update_delete_no_timers {k : TagKind} (report : TagReport k) {e : Entry}
    (h : e.2.timers = []) : (tagOps k).pinba_update_delete e report = report := by
  unfold ReportOps.pinba_update_delete
  split
  · exact report.delete_func_no_timers e.1 h
  · rfl

/-- Records without timers do not change a timer tag report. -/
theorem delete_all_no_timers {k : TagKind} (report : TagReport k)
    (h : ∀ e ∈ entries, e.2.timers = []) : (tagOps k).delete_all entries report = report := by
  induction entries with
  | nil => rfl
  | cons e entries ih =>
    have hhead : (tagOps k).delete_all (e :: entries) report =
        (tagOps k).delete_all entries ((tagOps k).pinba_update_delete e report) := rfl
    rw [hhead, update_delete_no_timers report (h e List.mem_cons_self)]
    exact ih fun x hx => h x (List.mem_cons_of_mem _ hx)

theorem foldl_tag_num (timers : List TimerRecord) (cnt : Int) :
    timers.foldl (fun (cnt : Int) timer => cnt - timer.tags.length) cnt =
      cnt - ((timers.map fun timer => timer.tags.length).sum : Nat) := by
  induction timers generalizing cnt with
  | nil => simp
  | cons timer timers ih =>
    rw [List.foldl_cons, ih, List.map_cons, List.sum_cons]
    omega

/-- What is left of the daemon after some records were subtracted. -/
def without (d : Daemon) (entries : List Entry) : Daemon :=
  { d with
    base_reports := d.base_reports.map (baseOps.delete_all entries)
    tag_reports := d.tag_reports.map fun r => ⟨r.1, (tagOps r.1).delete_all entries r.2⟩
    timer_pool := d.timer_pool.release (timers_total (entries.map Prod.snd))
    timertags_cnt := d.timertags_cnt - timertags_total (entries.map Prod.snd) }

theorem timers_total_cons (e : Entry) (entries : List Entry) :
    timers_total ((e :: entries).map Prod.snd) =
      e.2.timers.length + timers_total (entries.map Prod.snd) := rfl

theorem timertags_total_cons (e : Entry) (entries : List Entry) :
    timertags_total ((e :: entries).map Prod.snd) =
      (e.2.timers.map fun timer => timer.tags.length).sum +
        timertags_total (entries.map Prod.snd) := rfl

/-- One record. -/
theorem record_dtor_eq {e : Entry} (htime : e.2.time.tv_sec ≠ 0)
    (hout : d.timer_pool.outPos < d.timer_pool.size)
    (hlen : e.2.timers.length ≤ d.timer_pool.size) :
    d.pinba_stats_record_dtor e = d.without [e] := by
  unfold pinba_stats_record_dtor without
  rw [if_neg htime]
  have htotal : timers_total ([e].map Prod.snd) = e.2.timers.length := Nat.add_zero _
  have htags : timertags_total ([e].map Prod.snd) =
      (e.2.timers.map fun timer => timer.tags.length).sum := Nat.add_zero _
  rw [htotal, htags]
  by_cases hnil : e.2.timers = []
  · have hsame : (d.tag_reports.map fun r =>
        (⟨r.1, (tagOps r.1).delete_all [e] r.2⟩ : SomeTagReport)) = d.tag_reports := by
      conv_rhs => rw [← List.map_id d.tag_reports]
      apply List.map_congr_left
      intro r _
      rw [delete_all_no_timers r.2 (by simpa using hnil)]
      rfl
    rw [if_pos hnil, hsame, hnil]
    simp only [List.length_nil, TimerCursor.release_zero hout, List.map_nil, List.sum_nil,
      Nat.cast_zero, sub_zero]
    rfl
  · rw [if_neg hnil]
    simp only
    rw [TimerCursor.foldl_pass_timer hout hlen, foldl_tag_num]
    rfl

/-- Without records nothing goes. -/
theorem without_nil (hout : d.timer_pool.outPos < d.timer_pool.size) : d.without [] = d := by
  have hbase : baseOps.delete_all ([] : List Entry) = id := rfl
  have htag : (d.tag_reports.map fun r =>
      (⟨r.1, (tagOps r.1).delete_all ([] : List Entry) r.2⟩ : SomeTagReport)) = d.tag_reports :=
    List.map_id d.tag_reports
  have hpool : d.timer_pool.release (timers_total (([] : List Entry).map Prod.snd)) =
      d.timer_pool := TimerCursor.release_zero hout
  have hcnt : d.timertags_cnt - (timertags_total (([] : List Entry).map Prod.snd) : Nat) =
      d.timertags_cnt := sub_zero _
  unfold without
  rw [hbase, List.map_id, htag, hpool, hcnt]

/-- One record goes, then the others. -/
theorem without_cons {e : Entry} (hout : d.timer_pool.outPos < d.timer_pool.size)
    (hlen : timers_total ((e :: entries).map Prod.snd) ≤ d.timer_pool.size) :
    (d.without [e]).without entries = d.without (e :: entries) := by
  rw [timers_total_cons] at hlen
  have hrel : (d.timer_pool.release (timers_total ([e].map Prod.snd))).release
      (timers_total (entries.map Prod.snd)) =
      d.timer_pool.release (timers_total ((e :: entries).map Prod.snd)) := by
    rw [timers_total_cons]
    exact TimerCursor.release_release hout hlen
  have hcnt : d.timertags_cnt - (timertags_total ([e].map Prod.snd) : Nat) -
      (timertags_total (entries.map Prod.snd) : Nat) =
      d.timertags_cnt - (timertags_total ((e :: entries).map Prod.snd) : Nat) := by
    rw [timertags_total_cons, timertags_total_cons]
    simp only [List.map_nil]
    show _ - ((_ + 0 : Nat) : Int) - _ = _
    omega
  unfold without
  simp only [List.map_map]
  rw [hrel, hcnt]
  rfl

/-- All records. -/
theorem foldl_record_dtor (htime : ∀ e ∈ entries, e.2.time.tv_sec ≠ 0)
    (hout : d.timer_pool.outPos < d.timer_pool.size)
    (hlen : timers_total (entries.map Prod.snd) ≤ d.timer_pool.size) :
    entries.foldl pinba_stats_record_dtor d = d.without entries := by
  induction entries generalizing d with
  | nil => exact (without_nil hout).symm
  | cons e entries ih =>
    have hsum := hlen
    rw [timers_total_cons] at hsum
    have hone : d.pinba_stats_record_dtor e = d.without [e] :=
      record_dtor_eq (htime e List.mem_cons_self) hout (by omega)
    have hpool : (d.without [e]).timer_pool = d.timer_pool.release e.2.timers.length := rfl
    have hlt : (d.without [e]).timer_pool.outPos < (d.without [e]).timer_pool.size := by
      rw [hpool]
      exact TimerCursor.out_release_lt hout (by omega)
    rw [List.foldl_cons, hone, ih (fun x hx => htime x (List.mem_cons_of_mem _ hx)) hlt
      (by show _ ≤ d.timer_pool.size; omega)]
    exact without_cons hout hlen

end Daemon

/-! ## Section 3: What every state knows -/

namespace RtagReport

variable {k : RtagKind} {report : RtagReport k}

/-- `results_cnt` is the number of rows. -/
def RowsCounted (report : RtagReport k) : Prop :=
  report.results.rowCount = (rowStore RequestRow k.nested).size report.results.rows

theorem rowsCounted_add_func (h : report.RowsCounted) (record : StatsRecord) :
    (report.add_func record).RowsCounted := by
  rw [add_func_eq]
  unfold rtag_add
  split
  · exact h
  · exact Table.rowCount_insertOne h

theorem rowsCounted_delete_func (h : report.RowsCounted) (record : StatsRecord) :
    (report.delete_func record).RowsCounted := by
  rw [delete_func_eq]
  unfold rtag_delete
  split
  · exact h
  · split
    · exact h
    · split
      · exact h
      · exact Table.rowCount_removeOne h

/-- The report holds nothing. -/
structure Blank (report : RtagReport k) : Prop where
  results_cnt : report.results.rowCount = 0
  totals : report.totals = .zero

theorem accounts_of_blank (hcount : report.RowsCounted) (h : report.Blank) :
    report.Accounts [] := by
  refine ⟨by rw [h.totals]; exact RequestSums.of_zero, ?_, hcount⟩
  intro key
  cases hrow : (rowStore RequestRow k.nested).get report.results.rows key with
  | none => rfl
  | some row =>
    have hsize := (rowStore RequestRow k.nested).size_del _ _ _ hrow
    have hzero := h.results_cnt
    rw [hcount] at hzero
    omega

theorem blank_of_exact (h : report.Exact []) : report.Blank := by
  refine ⟨?_, ?_⟩
  · rw [h.rows.results_cnt, (rowStore RequestRow k.nested).size_eq_zero, Nat.cast_zero]
    intro key
    have hkey := h.rows.present key
    cases hrow : (rowStore RequestRow k.nested).get report.results.rows key with
    | none => rfl
    | some row =>
      rw [hrow] at hkey
      obtain ⟨r, hr, -⟩ := hkey.mp rfl
      exact absurd hr List.not_mem_nil
  · have hzero : ∀ {time : Timeval} {f : RequestData → Duration}, ExactTime time f [] →
        time = ⟨0, 0⟩ := fun htime =>
      Timeval.eq_of_micros_eq htime.normalised Timeval.normalised_zero htime.micros
    obtain ⟨htime, hutime, hstime, hkbytes, hmemory⟩ := h.totals
    cases htotals : report.totals with
    | mk time_total ru_utime_total ru_stime_total kbytes_total memory_footprint =>
      rw [htotals] at htime hutime hstime hkbytes hmemory
      rw [RequestSums.zero, RequestSums.mk.injEq]
      exact ⟨hzero htime, hzero hutime, hzero hstime, hkbytes, hmemory⟩

end RtagReport

/-- The start of a report is not in the future of the ring. -/
def StdReport.StartedBefore (std : StdReport) (last : Timeval) (counter : Nat) : Prop :=
  ¬ std.unset → last.lt std.start = false ∧ std.request_pool_start_id ≤ counter

theorem StdReport.StartedBefore.later {std : StdReport} {last now : Timeval}
    {counter counter' : Nat} (h : std.StartedBefore last counter) (hnow : now.lt last = false)
    (hcounter : counter ≤ counter') : std.StartedBefore now counter' := by
  intro hset
  obtain ⟨htime, hid⟩ := h hset
  exact ⟨Timeval.not_lt_trans htime hnow, hid.trans hcounter⟩

namespace Daemon

variable {d : Daemon} {last now from_ : Timeval} {staged : List StagedRecord} {realloc_ok : Bool}

/-- What holds of a request tag report whatever it accounts for. -/
structure RtagBooks (d : Daemon) (last : Timeval) (r : SomeRtagReport) : Prop where
  counted : r.2.RowsCounted
  started : r.2.std.StartedBefore last d.request_pool_counter

/-- The timer pool holds the timers of the live records. -/
def TimerBooks (d : Daemon) : Prop :=
  ∃ pool : CircularBuffer PoolTimer, d.timer_pool = .ofPool pool ∧
    pool.count = timers_total (d.live.map Prod.snd)

/-- What holds in every state, whether or not rows were deleted. -/
structure Books (d : Daemon) (last : Timeval) : Prop where
  ring : RingInv d last
  tags : d.TagsTracked last
  rtags : ∀ r ∈ d.rtag_reports, d.RtagBooks last r
  times : ∀ e ∈ d.live, e.2.time.tv_sec ≠ 0
  timers : d.TimerBooks
  timertags : d.timertags_cnt = timertags_total (d.live.map Prod.snd)
  words : ∀ slot, slot ∉ d.request_pool.live → (d.request_pool.data slot).dictionary_words = []

theorem timers_total_append (xs ys : List StatsRecord) :
    timers_total (xs ++ ys) = timers_total xs + timers_total ys := by
  simp [timers_total]

theorem timertags_total_append (xs ys : List StatsRecord) :
    timertags_total (xs ++ ys) = timertags_total xs + timertags_total ys := by
  simp [timertags_total]

theorem timers_total_stamp (counter : Nat) (batch : List StagedRecord) :
    timers_total (StagedRecord.stamp now counter batch) =
      (batch.map fun r => r.timers.length).sum := by
  induction batch generalizing counter with
  | nil => rfl
  | cons r batch ih =>
    have hcons : timers_total (StagedRecord.stamp now counter (r :: batch)) =
        r.timers.length + timers_total (StagedRecord.stamp now (counter + 1) batch) := rfl
    rw [hcons, ih, List.map_cons, List.sum_cons]

/-- The timers of the records that were admitted have found room. -/
theorem reserve_new_records : (d.reserve_timers
    (timers_total (d.new_records now staged realloc_ok)) realloc_ok).isSome := by
  unfold new_records
  simp only
  by_cases hroom : (d.reserve_timers ((d.admitted staged).map fun r => r.timers.length).sum
      realloc_ok).isSome
  · rw [if_pos hroom, timers_total_stamp]
    exact hroom
  · rw [if_neg hroom, timers_total_stamp, List.map_map]
    have hzero : ((d.admitted staged).map
        ((fun r => r.timers.length) ∘ StagedRecord.without_timers)).sum = 0 := by
      rw [List.sum_eq_zero_iff]
      simp [StagedRecord.without_timers]
    rw [hzero, reserve_timers, if_pos rfl]
    rfl

theorem timerBooks_ingest (h : d.TimerBooks) (hne : staged ≠ []) :
    (d.ingest now staged realloc_ok).TimerBooks := by
  obtain ⟨pool, hpool, hcount⟩ := h
  have hroom : (d.reserve_timers (timers_total (d.new_records now staged realloc_ok))
      realloc_ok).isSome := reserve_new_records
  have htotal : timers_total ((d.ingest now staged realloc_ok).live.map Prod.snd) =
      pool.count + timers_total (d.new_records now staged realloc_ok) := by
    rw [live_ingest hne, List.map_append, timers_total_append, map_snd_new_entries, hcount]
  have hcursor : (d.ingest now staged realloc_ok).timer_pool = (d.reserve_timers
      (timers_total (d.new_records now staged realloc_ok)) realloc_ok).getD d.timer_pool := by
    unfold ingest
    rw [if_neg hne]
  unfold TimerBooks
  rw [hcursor, htotal]
  generalize timers_total (d.new_records now staged realloc_ok) = total at hroom ⊢
  unfold reserve_timers at hroom ⊢
  by_cases hzero : total = 0
  · rw [if_pos hzero, hzero]
    exact ⟨pool, hpool, rfl⟩
  · rw [if_neg hzero] at hroom ⊢
    rw [hpool, TimerCursor.add_ofPool pool (fun _ => ⟨0, 0⟩)] at hroom ⊢
    cases hadd : timer_pool_add pool (fun _ => ⟨0, 0⟩) total realloc_ok with
    | none =>
      rw [hadd] at hroom
      exact absurd hroom (by simp)
    | some r =>
      obtain ⟨id, pool', records'⟩ := r
      exact ⟨pool', rfl, (timer_pool_add_count hadd).1⟩

theorem timerBooks_expire (h : d.TimerBooks) (from_ : Timeval) :
    (d.expire from_).TimerBooks := by
  obtain ⟨pool, hpool, hcount⟩ := h
  rw [d.live_expire from_, List.map_append, timers_total_append] at hcount
  have hle : timers_total ((d.delete_old from_).map Prod.snd) ≤ pool.count := by omega
  refine ⟨pool.dropFront _ hle, ?_, ?_⟩
  · show d.timer_pool.release _ = _
    rw [hpool]
    rfl
  · rw [CircularBuffer.count_dropFront]
    omega

theorem rowsCounted_add_job {k : RtagKind} {report : RtagReport k} (h : report.RowsCounted)
    (first : StatsRecord) (entries : List Entry) :
    (add_job (rtagOps k) first entries report).RowsCounted := by
  have hstart : ∀ {r : RtagReport k}, r.RowsCounted →
      ((rtagOps k).start_from first r).RowsCounted := by
    intro r hr
    unfold start_from
    split <;> exact hr
  unfold add_job update_reports_func
  rw [if_pos rfl]
  exact (rtagOps k).add_all_induct (P := RtagReport.RowsCounted)
    (fun _ _ record hr => RtagReport.rowsCounted_add_func hr record) entries (hstart (hstart h))

theorem rtagBooks_ingest (h : ∀ r ∈ d.rtag_reports, d.RtagBooks last r)
    (hne : staged ≠ []) (hnow : now.lt last = false) :
    ∀ r ∈ (d.ingest now staged realloc_ok).rtag_reports,
      (d.ingest now staged realloc_ok).RtagBooks now r := by
  have hcounter : d.request_pool_counter ≤
      (d.ingest now staged realloc_ok).request_pool_counter := by
    rw [counter_ingest hne]
    exact Nat.le_add_right _ _
  intro r hr
  rw [rtag_reports_ingest hne] at hr
  split at hr
  · exact ⟨(h r hr).counted, (h r hr).started.later hnow hcounter⟩
  · next htags =>
    obtain ⟨r, hmem, rfl⟩ := List.mem_map.mp hr
    obtain ⟨first, hfirst⟩ := exists_first_entry (new_records_ne_nil_of_rtags htags)
    refine ⟨rowsCounted_add_job (h r hmem).counted _ _, ?_⟩
    have hstd := Tracked.std_add_job (rtagLaws r.1) (d.first_record now staged realloc_ok)
      (d.new_entries now staged realloc_ok) r.2
    show ((rtagOps r.1).std _).StartedBefore _ _
    rw [hstd, first_record_eq hfirst]
    by_cases hun : ((rtagOps r.1).std r.2).unset
    · -- the start is that of the first new record
      rw [if_pos hun]
      intro _
      have htime := batchOf_new_entries.time first (List.mem_of_head? hfirst)
      have hid := batchOf_new_entries.first_counter first hfirst
      refine ⟨?_, ?_⟩
      · show now.lt first.2.time = false
        rw [htime]
        exact Timeval.not_lt_self now
      · show first.2.counter ≤ _
        rw [hid]
        exact hcounter
    · rw [if_neg hun]
      exact (h r hmem).started.later hnow hcounter

theorem rtagBooks_expire (h : ∀ r ∈ d.rtag_reports, d.RtagBooks last r) (from_ : Timeval) :
    ∀ r ∈ (d.expire from_).rtag_reports, (d.expire from_).RtagBooks last r := by
  intro r hr
  unfold expire at hr
  simp only at hr
  split at hr
  · exact ⟨(h r hr).counted, (h r hr).started⟩
  · obtain ⟨r, hmem, rfl⟩ := List.mem_map.mp hr
    refine ⟨?_, ?_⟩
    · exact (rtagOps r.1).delete_all_induct (P := RtagReport.RowsCounted)
        (fun _ _ record hr => RtagReport.rowsCounted_delete_func hr record) _ (h r hmem).counted
    · show ((rtagOps r.1).std _).StartedBefore _ _
      rw [(rtagLaws r.1).std_delete_all]
      exact (h r hmem).started

theorem words_ingest (h : ∀ slot, slot ∉ d.request_pool.live →
      (d.request_pool.data slot).dictionary_words = []) (hne : staged ≠ []) :
    ∀ slot, slot ∉ (d.ingest now staged realloc_ok).request_pool.live →
      ((d.ingest now staged realloc_ok).request_pool.data slot).dictionary_words = [] := by
  have hring : (d.ingest now staged realloc_ok).request_pool =
      d.request_pool.append (d.new_records now staged realloc_ok)
        (d.new_records_fit now staged realloc_ok) := by
    unfold ingest
    rw [if_neg hne]
  have hlive : (d.ingest now staged realloc_ok).request_pool.live =
      d.request_pool.live ++ d.request_pool.ahead (d.new_records now staged realloc_ok).length := by
    rw [hring]
    exact (d.request_pool.write _).live_publish _
  intro slot hslot
  rw [hlive, List.mem_append, not_or] at hslot
  have hdata : (d.ingest now staged realloc_ok).request_pool.data slot = d.request_pool.data slot := by
    rw [hring]
    exact writeFrom_of_notMem hslot.2
  rw [hdata]
  exact h slot hslot.1

theorem words_expire (h : ∀ slot, slot ∉ d.request_pool.live →
      (d.request_pool.data slot).dictionary_words = []) (from_ : Timeval) :
    ∀ slot, slot ∉ (d.expire from_).request_pool.live →
      ((d.expire from_).request_pool.data slot).dictionary_words = [] := by
  have hlive : (d.expire from_).request_pool.live =
      d.request_pool.live.drop (d.delete_old from_).length :=
    (d.request_pool.setData _).live_dropFront (d.length_delete_old from_)
  have hexpired : (d.delete_old from_).map Prod.fst =
      d.request_pool.live.take (d.delete_old from_).length := by
    conv_lhs => rw [d.delete_old_eq_take]
    rw [List.map_take, CircularBuffer.map_fst_contents]
  intro slot hslot
  show (d.released (d.delete_old from_) slot).dictionary_words = []
  unfold released
  split
  · rfl
  · next hkept =>
    refine h slot fun hmem => ?_
    -- a live slot is either released or still live
    rw [← List.take_append_drop (d.delete_old from_).length d.request_pool.live] at hmem
    rcases List.mem_append.mp hmem with htake | hdrop
    · exact hkept (hexpired ▸ htake)
    · exact hslot (hlive ▸ hdrop)

theorem books_init (requests timers : Nat) (last : Timeval) : Books (init requests timers) last := by
  have hlive : (init requests timers).live = [] := CircularBuffer.contents_blank _ _
  refine ⟨ringInv_init _ _ _, fun r hr => absurd hr List.not_mem_nil,
    fun r hr => absurd hr List.not_mem_nil, ?_, ?_, ?_, fun _ _ => rfl⟩
  · rw [hlive]
    exact fun e he => absurd he List.not_mem_nil
  · refine ⟨.blank timers .zero, rfl, ?_⟩
    rw [hlive, CircularBuffer.count_blank]
    rfl
  · rw [hlive]
    rfl

theorem books_ingest (h : Books d last) (hnow : now.lt last = false) (hsec : now.tv_sec ≠ 0)
    (hdistinct : ∀ r ∈ staged, ∀ timer ∈ r.timers, timer.DistinctTags) :
    Books (d.ingest now staged realloc_ok) now := by
  have hring : RingInv (d.ingest now staged realloc_ok) now := ringInv_ingest h.ring hnow hdistinct
  have htags : (d.ingest now staged realloc_ok).TagsTracked now :=
    tagsTracked_ingest h.ring h.tags hnow hsec hdistinct
  by_cases hnil : staged = []
  · rw [ingest_of_nil hnil] at hring htags ⊢
    exact ⟨hring, htags, fun r hr => ⟨(h.rtags r hr).counted,
      (h.rtags r hr).started.later hnow (le_refl _)⟩, h.times, h.timers, h.timertags, h.words⟩
  · refine ⟨hring, htags, rtagBooks_ingest h.rtags hnil hnow, ?_,
      timerBooks_ingest h.timers hnil, ?_, words_ingest h.words hnil⟩
    · rw [live_ingest hnil]
      intro e he
      rcases List.mem_append.mp he with hold | hnew
      · exact h.times e hold
      · rw [(mem_new_records (List.of_mem_zip hnew).2).1]
        exact hsec
    · rw [live_ingest hnil, List.map_append, timertags_total_append, map_snd_new_entries]
      have hcnt : (d.ingest now staged realloc_ok).timertags_cnt =
          d.timertags_cnt + timertags_total (d.new_records now staged realloc_ok) := by
        unfold ingest
        rw [if_neg hnil]
      rw [hcnt, h.timertags, Nat.cast_add]

theorem books_expire (h : Books d last) (from_ : Timeval) : Books (d.expire from_) last := by
  refine ⟨ringInv_expire h.ring from_, tagsTracked_expire h.ring h.tags from_,
    rtagBooks_expire h.rtags from_, ?_, timerBooks_expire h.timers from_, ?_,
    words_expire h.words from_⟩
  · intro e he
    exact h.times e (by rw [d.live_expire from_]; exact List.mem_append_right _ he)
  · have hcnt := h.timertags
    rw [d.live_expire from_, List.map_append, timertags_total_append] at hcnt
    show d.timertags_cnt - _ = _
    omega

/-- The destructor takes all live records out of the books. -/
theorem delete_all_rows_eq (h : Books d last) : d.delete_all_rows =
    { d.without d.live with request_pool := .blank (d.request_pool.size - 1) default } := by
  obtain ⟨pool, hpool, hcount⟩ := h.timers
  have hout : d.timer_pool.outPos < d.timer_pool.size := by
    rw [hpool]
    exact pool.out_lt
  have hlen : timers_total (d.live.map Prod.snd) ≤ d.timer_pool.size := by
    rw [← hcount, hpool]
    exact pool.count_lt.le
  unfold delete_all_rows pinba_request_pool_dtor
  rw [foldl_record_dtor h.times hout hlen]
  rfl

/-- An expiry pass that is later than every record takes the same records out,
    and also looks at the request tag reports. -/
theorem expire_all_eq (hlater : ∀ e ∈ d.live, e.2.time.lt from_ = true) :
    d.delete_old from_ = d.live :=
  List.takeWhile_eq_self_iff.mpr hlater

theorem live_delete_all_rows (h : Books d last) : d.delete_all_rows.live = [] := by
  rw [delete_all_rows_eq h]
  exact CircularBuffer.contents_blank _ _

theorem tag_reports_delete_all (h : Books d last) :
    d.delete_all_rows.tag_reports =
      d.tag_reports.map fun r => ⟨r.1, (tagOps r.1).delete_all d.live r.2⟩ := by
  rw [delete_all_rows_eq h]
  rfl

theorem base_reports_delete_all (h : Books d last) :
    d.delete_all_rows.base_reports = d.base_reports.map (baseOps.delete_all d.live) := by
  rw [delete_all_rows_eq h]
  rfl

/-- A report that was tracked accounts for nothing once all live entries were
    taken out of it. -/
theorem tracked_delete_all {R : Type*} {ops : ReportOps R} {laws : ReportLaws ops} {r : R}
    (h : d.Tracks last laws r) (hvalid : ∀ e ∈ d.live, laws.Valid e.2) :
    Tracked laws (ops.delete_all d.live r) [] last d.request_pool_counter := by
  have hnodup := d.nodup_live
  unfold Tracks at h
  rw [← List.append_nil d.live] at h hnodup
  exact h.expire hvalid hnodup

theorem tagsTracked_delete_all_rows (h : Books d last) : d.delete_all_rows.TagsTracked last := by
  intro r hr
  rw [tag_reports_delete_all h] at hr
  obtain ⟨r, hmem, rfl⟩ := List.mem_map.mp hr
  unfold Tracks
  rw [live_delete_all_rows h, delete_all_rows_eq h]
  exact tracked_delete_all (h.tags r hmem) h.ring.distinct

theorem basesTracked_delete_all_rows (h : Books d last) (hbases : d.BasesTracked last) :
    d.delete_all_rows.BasesTracked last := by
  intro r hr
  rw [base_reports_delete_all h] at hr
  obtain ⟨r, hmem, rfl⟩ := List.mem_map.mp hr
  unfold Tracks
  rw [live_delete_all_rows h, delete_all_rows_eq h]
  exact tracked_delete_all (hbases r hmem) fun _ _ => trivial

theorem ringInv_of_no_live (h : d.live = []) : RingInv d last := by
  refine ⟨⟨?_, ?_⟩, ?_⟩ <;> rw [h] <;> exact fun e he => absurd he List.not_mem_nil

/-- The timer pool is empty, at the position where an expiry pass leaves it. -/
theorem timer_pool_delete_all (h : Books d last) :
    ∃ pool : CircularBuffer PoolTimer, d.delete_all_rows.timer_pool = .ofPool pool ∧
      pool.count = 0 := by
  obtain ⟨pool, hpool, hcount⟩ := h.timers
  refine ⟨pool.dropFront (timers_total (d.live.map Prod.snd)) hcount.ge, ?_, ?_⟩
  · rw [delete_all_rows_eq h]
    show d.timer_pool.release _ = _
    rw [hpool]
    rfl
  · rw [CircularBuffer.count_dropFront, hcount, Nat.sub_self]

theorem timertags_delete_all (h : Books d last) : d.delete_all_rows.timertags_cnt = 0 := by
  rw [delete_all_rows_eq h]
  show d.timertags_cnt - _ = 0
  rw [h.timertags, sub_self]

theorem books_delete_all_rows (h : Books d last) : Books d.delete_all_rows last := by
  have hlive := live_delete_all_rows h
  refine ⟨ringInv_of_no_live hlive, tagsTracked_delete_all_rows h, ?_, ?_, ?_, ?_, ?_⟩
  · intro r hr
    rw [delete_all_rows_eq h] at hr ⊢
    exact ⟨(h.rtags r hr).counted, (h.rtags r hr).started⟩
  · rw [hlive]
    exact fun e he => absurd he List.not_mem_nil
  · obtain ⟨pool, hpool, hcount⟩ := timer_pool_delete_all h
    exact ⟨pool, hpool, by rw [hcount, hlive]; rfl⟩
  · rw [timertags_delete_all h, hlive]
    rfl
  · intro slot _
    rw [delete_all_rows_eq h]
    rfl

theorem books_of_history (h : History d last) : Books d last := by
  induction h with
  | start requests timers => exact books_init requests timers _
  | delete_all_rows _ ih => exact books_delete_all_rows ih
  | step e _ hreg ih =>
    cases e with
    | ingest now staged realloc_ok => exact books_ingest ih hreg.1 hreg.2.1 hreg.2.2
    | expire from_ => exact books_expire ih from_
    | register_base => exact ⟨⟨ih.ring.before, ih.ring.distinct⟩, ih.tags, fun r hr =>
        ⟨(ih.rtags r hr).counted, (ih.rtags r hr).started⟩, ih.times, ih.timers, ih.timertags,
        ih.words⟩
    | register_tag kind cond buckets tag_id =>
      refine ⟨⟨ih.ring.before, ih.ring.distinct⟩, ?_, fun r hr =>
        ⟨(ih.rtags r hr).counted, (ih.rtags r hr).started⟩, ih.times, ih.timers, ih.timertags,
        ih.words⟩
      exact forall_mem_snoc ih.tags
        (Tracked.created (TagReport.accounts_created kind cond buckets tag_id) rfl trivial)
    | register_rtag kind cond buckets tags =>
      refine ⟨⟨ih.ring.before, ih.ring.distinct⟩, ih.tags, ?_, ih.times, ih.timers, ih.timertags,
        ih.words⟩
      refine forall_mem_snoc (fun r hr => ⟨(ih.rtags r hr).counted, (ih.rtags r hr).started⟩) ?_
      exact ⟨(RtagReport.accounts_created kind cond buckets tags).rows.count,
        fun hset => absurd rfl hset⟩

/-! ## Section 4: Deleting all rows as an expiry pass -/

/-- Every slot gives its references back once, and those that are not live have
    none. -/
theorem deleted_words_perm (h : Books d last) (hlater : ∀ e ∈ d.live, e.2.time.lt from_ = true) :
    d.deleted_words.Perm (d.expired_words from_) := by
  have hlt : ∀ slot ∈ d.request_pool.live, slot < d.request_pool.size :=
    fun slot hslot => mem_walk_lt d.request_pool.out_lt hslot
  have hsplit : (List.range d.request_pool.size).Perm (d.request_pool.live ++
      (List.range d.request_pool.size).filter fun slot => slot ∉ d.request_pool.live) := by
    rw [List.perm_ext_iff_of_nodup List.nodup_range]
    · intro slot
      rw [List.mem_append, List.mem_filter, List.mem_range]
      by_cases hslot : slot ∈ d.request_pool.live
      · simp [hslot, hlt slot hslot]
      · simp [hslot]
    · refine List.nodup_append'.mpr ⟨d.request_pool.nodup_live, List.nodup_range.filter _, ?_⟩
      intro slot hlive hrest
      simp [hlive] at hrest
  have hrest : (((List.range d.request_pool.size).filter fun slot => slot ∉ d.request_pool.live).flatMap
      fun slot => (d.request_pool.data slot).dictionary_words) = [] := by
    rw [List.flatMap_eq_nil_iff]
    intro slot hslot
    exact h.words slot (by simpa using (List.mem_filter.mp hslot).2)
  have hperm := hsplit.flatMap_right fun slot => (d.request_pool.data slot).dictionary_words
  rw [List.flatMap_append, hrest, List.append_nil] at hperm
  unfold deleted_words expired_words
  rw [expire_all_eq hlater]
  unfold live CircularBuffer.contents
  rwa [List.flatMap_map]

/-- The books of two daemons agree. -/
structure SameBooks (a b : Daemon) : Prop where
  live : a.live = b.live
  request_pool_counter : a.request_pool_counter = b.request_pool_counter
  base_reports : a.base_reports = b.base_reports
  rtag_reports : a.rtag_reports = b.rtag_reports
  tag_reports : a.tag_reports = b.tag_reports
  timer_pool : a.timer_pool = b.timer_pool
  timertags_cnt : a.timertags_cnt = b.timertags_cnt

theorem accounted_nil (std : StdReport) : accounted std [] = [] := by
  unfold accounted
  split <;> rfl

/-- Request tag reports that hold nothing are not changed by an expiry pass. -/
theorem rtag_reports_expire_blank (h : Books d last) (hblank : ∀ r ∈ d.rtag_reports, r.2.Blank) :
    (d.expire from_).rtag_reports = d.rtag_reports := by
  unfold expire
  simp only
  split
  · rfl
  · conv_rhs => rw [← List.map_id d.rtag_reports]
    apply List.map_congr_left
    intro r hr
    have hacc := RtagReport.accounts_of_blank (h.rtags r hr).counted (hblank r hr)
    have hsame : (rtagOps r.1).delete_all (d.delete_old from_) r.2 = r.2 :=
      (rtagOps r.1).delete_all_induct (P := fun r' => r' = r.2)
        (fun _ r' record heq => by subst heq; exact RtagReport.delete_empty hacc) _ rfl
    rw [hsame]
    rfl

theorem tag_reports_expire_all (hlater : ∀ e ∈ d.live, e.2.time.lt from_ = true) :
    (d.expire from_).tag_reports =
      d.tag_reports.map fun r => ⟨r.1, (tagOps r.1).delete_all d.live r.2⟩ := by
  unfold expire
  simp only
  rw [expire_all_eq hlater]
  split
  · next hzero =>
    conv_lhs => rw [← List.map_id d.tag_reports]
    apply List.map_congr_left
    intro r _
    rw [delete_all_no_timers r.2 (idle_of_timers_total hzero)]
    rfl
  · rfl

/-- Deleting all rows keeps the books as an expiry pass that is later than every record does, if no
    request tag report holds anything. -/
theorem sameBooks_of_blank (h : Books d last) (hblank : ∀ r ∈ d.rtag_reports, r.2.Blank)
    (hlater : ∀ e ∈ d.live, e.2.time.lt from_ = true) :
    SameBooks d.delete_all_rows (d.expire from_) := by
  have hexpired := expire_all_eq hlater
  have hlive : (d.expire from_).live = [] := by
    have hsplit := d.live_expire from_
    rw [hexpired] at hsplit
    exact List.self_eq_append_right.mp hsplit
  refine ⟨by rw [live_delete_all_rows h, hlive], ?_, ?_, ?_, ?_, ?_, ?_⟩
  · rw [delete_all_rows_eq h]
    rfl
  · rw [base_reports_delete_all h, ← hexpired]
    rfl
  · rw [rtag_reports_expire_blank h hblank, delete_all_rows_eq h]
    rfl
  · rw [tag_reports_delete_all h, tag_reports_expire_all hlater]
  · rw [delete_all_rows_eq h]
    show _ = d.timer_pool.release (timers_total ((d.delete_old from_).map Prod.snd))
    rw [hexpired]
    rfl
  · rw [delete_all_rows_eq h]
    show _ = d.timertags_cnt - (timertags_total ((d.delete_old from_).map Prod.snd) : Nat)
    rw [hexpired]
    rfl

theorem rtagsTracked_of_blank (h : Books d last) (hblank : ∀ r ∈ d.rtag_reports, r.2.Blank) :
    d.delete_all_rows.RtagsTracked last := by
  intro r hr htags
  have hreports : d.delete_all_rows.rtag_reports = d.rtag_reports := by
    rw [delete_all_rows_eq h]
    rfl
  rw [hreports] at hr
  have hbooks := h.rtags r hr
  unfold Tracks
  rw [live_delete_all_rows h, delete_all_rows_eq h]
  refine ⟨?_, fun hset => (hbooks.started hset).1, fun hset => (hbooks.started hset).2, htags⟩
  rw [accounted_nil]
  exact RtagReport.accounts_of_blank hbooks.counted (hblank r hr)

end Daemon

end PinbaEngine
