import PinbaEngine.PooledAccounting

/-! # DELETE FROM request over the pools

    The destructor of the ring reads the timers of the records as an expiry pass
    does, so it needs the same condition on the batches before. It differs from
    a pass that removes every record in two ways: the request tag reports are
    forgotten, and the timers are given up without being cleared. Both passes
    leave the same state exactly if there is nothing to forget and nothing to
    clear.
-/

namespace PinbaEngine

open Circular ReportOps StagedRequest

namespace PooledDaemon

variable {d : PooledDaemon} {a : Daemon} {last from_ : Timeval}

/-! ## Section 1: The view -/

/-- The records as they are read now make a daemon of whole records. -/
theorem follows_view (d : PooledDaemon) : Follows d d.view :=
  ⟨rfl, rfl, rfl, fun _ => rfl, fun i => d.length_timers_at i, rfl, rfl, rfl, rfl⟩

/-- Without live records nothing can be misread. -/
theorem shows_view (hlive : d.live = []) (hpool : d.timer_pool.live = []) : Shows d d.view := by
  have hring : d.request_pool.contents = [] := by
    have hslots : d.request_pool.live = [] := List.map_eq_nil_iff.mp hlive
    rw [CircularBuffer.contents, hslots]
    rfl
  refine ⟨follows_view d, ?_, ?_, rfl, rfl⟩
  · unfold Holds
    rw [show d.view.live = [] from hlive]
    exact ⟨by rw [hring, hpool]; rfl, by rw [hring]; rfl, by rw [hring, hpool]; rfl⟩
  · rw [show d.view.live = [] from hlive]
    exact fun e he => absurd he List.not_mem_nil

namespace Shows

variable (h : Shows d a)
include h

theorem ringInv_view (hring : a.RingInv last) : d.view.RingInv last := by
  obtain ⟨⟨htime, hcounter⟩, hdistinct⟩ := hring
  refine ⟨⟨?_, ?_⟩, ?_⟩
  all_goals rw [show d.view.live = a.live from h.live_eq]
  · exact htime
  · rw [show d.view.request_pool_counter = a.request_pool_counter from h.request_pool_counter.symm]
    exact hcounter
  · exact hdistinct

/-- A report is tracked on one side if it is on the other. -/
theorem tracks_view {R : Type*} {ops : ReportOps R} {laws : ReportLaws ops} {r : R} :
    d.view.Tracks last laws r ↔ a.Tracks last laws r := by
  unfold Daemon.Tracks
  rw [show d.view.live = a.live from h.live_eq,
    show d.view.request_pool_counter = a.request_pool_counter from h.request_pool_counter.symm]

theorem basesTracked_view : d.view.BasesTracked last ↔ a.BasesTracked last := by
  unfold Daemon.BasesTracked
  rw [show d.view.base_reports = a.base_reports from h.base_reports.symm]
  exact forall₂_congr fun r _ => h.tracks_view

theorem tagsTracked_view : d.view.TagsTracked last ↔ a.TagsTracked last := by
  unfold Daemon.TagsTracked
  rw [show d.view.tag_reports = a.tag_reports from h.tag_reports.symm]
  exact forall₂_congr fun r _ => h.tracks_view

theorem rtagsTracked_view : d.view.RtagsTracked last ↔ a.RtagsTracked last := by
  unfold Daemon.RtagsTracked
  rw [show d.view.rtag_reports = a.rtag_reports from h.rtag_reports.symm]
  exact forall₂_congr fun r _ => imp_congr_right fun _ => h.tracks_view

/-- The references of a slot. -/
theorem words_slot (i : Nat) :
    (d.slots i).dictionary_words = (a.request_pool.data i).dictionary_words :=
  congrArg StatsRecord.dictionary_words (h.slots i).symm

theorem deleted_words_view : d.view.deleted_words = a.deleted_words := by
  unfold Daemon.deleted_words
  rw [h.size]
  exact List.flatMap_congr fun i _ => h.words_slot i

theorem expired_words_view : d.view.expired_words from_ = a.expired_words from_ := by
  unfold Daemon.expired_words
  rw [show d.view.delete_old from_ = a.delete_old from_ from h.delete_old_eq from_]

end Shows

/-! ## Section 2: What is left -/

/-- Two daemons are in the same state: the live records, the reports, and the timer pool with
    everything that its slots hold. -/
structure SameState (p q : PooledDaemon) : Prop where
  live : p.live = q.live
  request_pool_counter : p.request_pool_counter = q.request_pool_counter
  base_reports : p.base_reports = q.base_reports
  rtag_reports : p.rtag_reports = q.rtag_reports
  tag_reports : p.tag_reports = q.tag_reports
  timer_pool : p.timer_pool = q.timer_pool
  timertags_cnt : p.timertags_cnt = q.timertags_cnt

/-- Deleting all rows acts as an expiry pass that is later than every record. Base reports are
    emptied if they were exact before. -/
structure DeletesLikeExpiry (d : PooledDaemon) (last : Timeval) : Prop where
  same : ∀ from_, (∀ e ∈ d.live, e.2.time.lt from_ = true) →
    SameState d.delete_all_rows (d.expire from_) ∧
      d.view.deleted_words.Perm (d.view.expired_words from_)
  ring : d.delete_all_rows.live = []
  base_reports : d.view.BasesTracked last → ∀ r ∈ d.delete_all_rows.base_reports, r.Exact []
  rtag_reports : ∀ r ∈ d.delete_all_rows.rtag_reports, r.2.Exact []
  tag_reports : ∀ r ∈ d.delete_all_rows.tag_reports, r.2.Exact []
  timer_pool : d.delete_all_rows.timer_pool.inPos = d.delete_all_rows.timer_pool.outPos
  timertags_cnt : d.delete_all_rows.timertags_cnt = 0
  words : ∀ slot, (d.delete_all_rows.slots slot).dictionary_words = []
  /-- Later steps keep the accounting exact. -/
  later : ∀ d' a' last',
    Steps SafeEvent d.delete_all_rows d.delete_all_rows.view last d' a' last' →
    (∀ r ∈ d'.tag_reports, r.2.Exact (accounted r.2.std d'.live)) ∧
    (∀ r ∈ d'.rtag_reports, r.2.tags ≠ [] → r.2.Exact (accounted r.2.std d'.live))
  later_base : d.view.BasesTracked last → ∀ d' a' last',
    Steps SoundEvent d.delete_all_rows d.delete_all_rows.view last d' a' last' →
    ∀ r ∈ d'.base_reports, r.Exact (accounted r.std d'.live)

theorem rtag_reports_delete_all_rows : d.delete_all_rows.rtag_reports = d.rtag_reports := by
  show d.view.pinba_request_pool_dtor.rtag_reports = _
  rw [pinba_request_pool_dtor_view]
  rfl

/-- Two pools with the same positions and the same timers are the same. -/
theorem pool_ext {p q : CircularBuffer PoolTimer} (hpos : TimerCursor.ofPool p = .ofPool q)
    (hdata : p.data = q.data) : p = q := by
  cases p
  cases q
  obtain ⟨rfl, rfl, rfl⟩ := TimerCursor.mk.inj hpos
  obtain rfl : _ = _ := hdata
  rfl

/-- A pass that is later than every record clears the timers of every record. -/
theorem mem_cleared_ids (hlater : ∀ e ∈ d.live, e.2.time.lt from_ = true) {i : Nat}
    (hi : i ∈ d.request_pool.live) {id : Nat}
    (hid : id ∈ timer_ids d.timer_pool (d.request_pool.data i)) :
    id ∈ d.cleared_ids (d.delete_old from_).length := by
  have hall : d.delete_old from_ = d.live := Daemon.expire_all_eq hlater
  have hlen : d.request_pool.contents.length ≤ (d.delete_old from_).length := by
    rw [hall, PooledDaemon.live_eq, List.length_map, CircularBuffer.contents, List.length_map]
  unfold cleared_ids TimerState.expired
  rw [List.take_of_length_le hlen]
  exact List.mem_flatMap.mpr ⟨_, List.mem_map_of_mem (f := Prod.snd)
    (List.mem_map_of_mem (f := fun i => (i, d.request_pool.data i)) hi), hid⟩

section left
variable (h : Shows d a) (hbooks : a.Books last)
include h

theorem Shows.live_delete_all_rows : d.delete_all_rows.live = [] :=
  (shows_delete_all_rows h).live_eq.trans (CircularBuffer.contents_blank _ _)

/-- An expiry pass clears the timers of its records and no others. -/
theorem Shows.timer_data_expire : (d.expire from_).timer_pool.data = fun i =>
    if i ∈ d.cleared_ids (d.delete_old from_).length then (d.timer_pool.data i).cleared
    else d.timer_pool.data i := by
  have hexpire : (d.expire from_).timer_pool.data = (d.clear_oldest (d.delete_old from_).length).1 :=
    data_expire _
  rw [hexpire, h.clear_oldest_eq]

/-- If both passes leave the same timers, no record has any: those of a record are cleared by the
    expiry pass only. -/
theorem Shows.no_timers_of_same (hlater : ∀ e ∈ d.live, e.2.time.lt from_ = true)
    (hsame : d.delete_all_rows.timer_pool = (d.expire from_).timer_pool) :
    ∀ e ∈ d.live, e.2.timers = [] := by
  intro e he
  by_contra hne
  obtain ⟨i, hi, rfl⟩ := List.mem_map.mp he
  obtain ⟨timer, ht⟩ := List.exists_mem_of_ne_nil _ hne
  have hhits : timer.hit_count ≠ 0 := h.hits _ (by rw [← h.live_eq]; exact he) timer ht
  obtain ⟨j, hj, rfl⟩ := List.mem_map.mp ht
  have hid : record_get_timer_id d.timer_pool (d.request_pool.data i) j ∈
      timer_ids d.timer_pool (d.request_pool.data i) := List.mem_map_of_mem hj
  -- the pass clears the timer, and the destructor leaves it
  have hcleared : (d.expire from_).timer_pool.data
      (record_get_timer_id d.timer_pool (d.request_pool.data i) j) =
      (record_get_timer d.timer_pool (d.request_pool.data i) j).cleared := by
    rw [h.timer_data_expire]
    exact if_pos (mem_cleared_ids hlater hi hid)
  rw [← hsame] at hcleared
  exact hhits (congrArg (fun t => t.timer.hit_count) hcleared)

/-- Without timers nothing is cleared. -/
theorem Shows.data_expire_bare (hbare : ∀ e ∈ d.live, e.2.timers = []) :
    (d.expire from_).timer_pool.data = d.timer_pool.data := by
  -- the live timers are those of the live records
  have hempty : d.timer_pool.live = [] := by
    rw [← List.length_eq_zero_iff, CircularBuffer.length_live, ← timers_total_view,
      Daemon.timers_total, List.sum_eq_zero_iff]
    intro n hn
    obtain ⟨record, hrecord, rfl⟩ := List.mem_map.mp hn
    obtain ⟨e, he, rfl⟩ := List.mem_map.mp hrecord
    rw [hbare e he]
    rfl
  have hids : d.cleared_ids (d.delete_old from_).length = [] := by
    rw [h.cleared_ids_eq, hempty, List.take_nil]
  rw [h.timer_data_expire, hids]
  funext i
  exact if_neg List.not_mem_nil

include hbooks

theorem Shows.sameState (hblank : ∀ r ∈ d.rtag_reports, r.2.Blank)
    (hbare : ∀ e ∈ d.live, e.2.timers = []) (hlater : ∀ e ∈ d.live, e.2.time.lt from_ = true) :
    SameState d.delete_all_rows (d.expire from_) := by
  have hdelete := shows_delete_all_rows h
  have hexpire := shows_expire h from_
  obtain ⟨hlive, hcounter, hbase, hrtag, htag, hpool, htags⟩ := Daemon.sameBooks_of_blank hbooks
    (by rwa [h.rtag_reports]) (by rwa [← h.live_eq])
  refine
    { live := by rw [hdelete.live_eq, hexpire.live_eq, hlive]
      request_pool_counter := by
        rw [← hdelete.request_pool_counter, ← hexpire.request_pool_counter, hcounter]
      base_reports := by rw [← hdelete.base_reports, ← hexpire.base_reports, hbase]
      rtag_reports := by rw [← hdelete.rtag_reports, ← hexpire.rtag_reports, hrtag]
      tag_reports := by rw [← hdelete.tag_reports, ← hexpire.tag_reports, htag]
      timer_pool := ?_
      timertags_cnt := by rw [← hdelete.timertags_cnt, ← hexpire.timertags_cnt, htags] }
  apply pool_ext
  · rw [← hdelete.timer_pool, ← hexpire.timer_pool, hpool]
  · exact (h.data_expire_bare hbare).symm

end left

/-! ## Section 3: Deleting all rows as an expiry pass -/

/-- A cut-off that is later than every record. -/
theorem exists_later (live : List Entry) : ∃ from_ : Timeval,
    ∀ e ∈ live, e.2.time.lt from_ = true := by
  refine ⟨⟨((live.map fun e => e.2.time.tv_sec.toNat + 1).sum : Nat), 0⟩, ?_⟩
  intro e he
  have hle : e.2.time.tv_sec.toNat + 1 ≤ (live.map fun e => e.2.time.tv_sec.toNat + 1).sum :=
    List.le_sum_of_mem (List.mem_map_of_mem (f := fun e : Entry => e.2.time.tv_sec.toNat + 1) he)
  unfold Timeval.lt
  simp only
  rw [if_neg (by omega), decide_eq_true_eq]
  omega

section later
variable (h : Shows d a) (hbooks : a.Books last)
include h hbooks

/-- The accounting of later runs. -/
theorem Shows.later_exact (hblank : ∀ r ∈ d.rtag_reports, r.2.Blank) {d' : PooledDaemon}
    {a' : Daemon} {last' : Timeval}
    (hsteps : Steps SafeEvent d.delete_all_rows d.delete_all_rows.view last d' a' last') :
    (∀ r ∈ d'.tag_reports, r.2.Exact (accounted r.2.std d'.live)) ∧
    (∀ r ∈ d'.rtag_reports, r.2.tags ≠ [] → r.2.Exact (accounted r.2.std d'.live)) := by
  have hdelete := shows_delete_all_rows h
  have hafter := Daemon.books_delete_all_rows hbooks
  have hpool : d.delete_all_rows.timer_pool.live = [] := by
    rw [← List.length_eq_zero_iff, CircularBuffer.length_live, CircularBuffer.count,
      timer_pool_delete_all_rows]
    exact if_pos rfl
  -- later runs start without records, so nothing can be misread
  have hview := shows_of_steps (shows_view h.live_delete_all_rows hpool) hsteps
  have hrun := whole_steps hsteps
  have hring := hdelete.ringInv_view hafter.ring
  have htags := Daemon.tagsTracked_steps hring (hdelete.tagsTracked_view.mpr hafter.tags) hrun
  have hrtags := Daemon.rtagsTracked_steps hring (hdelete.rtagsTracked_view.mpr
    (Daemon.rtagsTracked_of_blank hbooks (by rwa [h.rtag_reports]))) hrun
  rw [← hview.tag_reports, ← hview.rtag_reports, hview.live_eq]
  exact ⟨fun r hr => TagReport.exact_of_accounts (htags r hr).accounts,
    fun r hr htag => RtagReport.exact_of_accounts (hrtags r hr htag).accounts⟩

/-- Base reports do not need safe batches. -/
theorem Shows.later_base_exact (hbases : d.view.BasesTracked last) {d' : PooledDaemon} {a' : Daemon}
    {last' : Timeval}
    (hsteps : Steps SoundEvent d.delete_all_rows d.delete_all_rows.view last d' a' last') :
    ∀ r ∈ d'.base_reports, r.Exact (accounted r.std d'.live) := by
  have hdelete := shows_delete_all_rows h
  have hafter := Daemon.books_delete_all_rows hbooks
  have hfollows := follows_of_steps (follows_view d.delete_all_rows) hsteps
  have hbases' := Daemon.basesTracked_steps (hdelete.ringInv_view hafter.ring)
    (hdelete.basesTracked_view.mpr (Daemon.basesTracked_delete_all_rows hbooks
      (h.basesTracked_view.mp hbases))) (whole_sound_steps (follows_view d.delete_all_rows) hsteps)
  rw [← hfollows.base_reports]
  intro r hr
  exact BaseReport.exact_congr (hfollows.dataOf_accounted r.std).symm
    (BaseReport.exact_of_accounts (hbases' r hr).accounts)

end later

theorem start_history {ok : PooledDaemon → Event → Prop} :
    History ok (init 9 2621439) (.init 9 2621439) ⟨0, 0⟩ := .start 9 2621439 (by decide)

/-- A request with a request tag. -/
def tagged_request (tag value : Word) : StagedRequest :=
  ⟨{ (default : RequestData) with tags := [(tag, value)] }, [], [tag, value]⟩

/-- A word at an address of its own. -/
def tag_word : Word := { (default : Word) with ptr := 1 }

/-- A daemon with reports of all families and two requests without timers, of which one has a request
    tag that no report asks for. -/
def bare_state : PooledDaemon :=
  ((((init 9 2621439).step (.register_base .report1 .none Daemon.one_bucket)).step
    (.register_tag .tag_info .none Daemon.one_bucket [1])).step
    (.register_rtag .rtag_info .none Daemon.one_bucket [default])).step
    (.ingest first_launch [[request_with []], [tagged_request tag_word default]] true)

/-- A daemon with a request tag report that has seen one request. -/
def tagged_state : PooledDaemon :=
  ((init 9 2621439).step (.register_rtag .rtag_info .none Daemon.one_bucket [tag_word])).step
    (.ingest first_launch [[tagged_request tag_word default]] true)

end PooledDaemon

end PinbaEngine
