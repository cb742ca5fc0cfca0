import Mathlib
import PinbaEngine.Lib.Accumulator

/-! # Records, timers and time values

    The data that the daemon stores for one request, as declared in
    `pinba_types.h` and `pinba_limits.h`.

    - Fixed character arrays are C strings that fit their array, terminator
      included (`CString`). The bound and the absence of NUL bytes are part of
      the type, so comparing two strings with `strcmp` compares their bytes.
    - `pinba_timeval` is kept as the pair of seconds and microseconds that the
      code adds and subtracts with explicit carries.
    - A dictionary word is a pointer and the string behind it. Code that
      compares words compares pointers, so the pointer is kept.
    - `doc_size` and `memory_footprint` are exact rationals.
-/

namespace PinbaEngine

/-! ## Section 1: Limits -/

@[simp] def PINBA_HOSTNAME_SIZE : Nat := 65
@[simp] def PINBA_SERVER_NAME_SIZE : Nat := 65
@[simp] def PINBA_SCRIPT_NAME_SIZE : Nat := 129
@[simp] def PINBA_STATUS_SIZE : Nat := 33
@[simp] def PINBA_SCHEMA_SIZE : Nat := 17
@[simp] def PINBA_TAG_NAME_SIZE : Nat := 65
@[simp] def PINBA_TAG_VALUE_SIZE : Nat := 65

def USHRT_MAX : Nat := 65535
def INT_MAX : Nat := 2147483647
def UINT_MAX : Nat := 4294967295

/-! ## Section 2: Strings -/

abbrev Bytes := List UInt8

/-- A C string stored in a character array of `size` bytes. -/
@[ext] structure CString (size : Nat) where
  bytes : Bytes
  length_lt : bytes.length < size
  nul_free : 0 ∉ bytes
deriving DecidableEq

instance {size : Nat} [NeZero size] : Inhabited (CString size) :=
  ⟨⟨[], Nat.pos_of_ne_zero (NeZero.ne size), by simp⟩⟩

/-- An interned word: its address and its text (`pinba_word`). -/
structure Word where
  ptr : Nat
  str : CString PINBA_TAG_VALUE_SIZE
deriving DecidableEq

instance : Inhabited Word := ⟨⟨0, ⟨[], by decide, by simp⟩⟩⟩

/-! ## Section 3: Time values -/

/-- `pinba_timeval`, that is `struct timeval`. -/
@[ext] structure Timeval where
  tv_sec : Int
  tv_usec : Int
deriving DecidableEq, Inhabited

namespace Timeval

def zero : Timeval := ⟨0, 0⟩

/-- `pinba_timeradd`. -/
def pinba_timeradd (a b : Timeval) : Timeval :=
  let tv_sec := a.tv_sec + b.tv_sec
  let tv_usec := a.tv_usec + b.tv_usec
  if tv_usec ≥ 1000000 then ⟨tv_sec + 1, tv_usec - 1000000⟩ else ⟨tv_sec, tv_usec⟩

/-- `pinba_timersub`. -/
def pinba_timersub (a b : Timeval) : Timeval :=
  let tv_sec := a.tv_sec - b.tv_sec
  let tv_usec := a.tv_usec - b.tv_usec
  if tv_usec < 0 then ⟨tv_sec - 1, tv_usec + 1000000⟩ else ⟨tv_sec, tv_usec⟩

/-- `pinba_timercmp(a, b, <)`. -/
def lt (a b : Timeval) : Bool :=
  if a.tv_sec = b.tv_sec then a.tv_usec < b.tv_usec else a.tv_sec < b.tv_sec

/-- `pinba_timercmp(a, b, ==)`. -/
def eq (a b : Timeval) : Bool :=
  if a.tv_sec = b.tv_sec then a.tv_usec = b.tv_usec else a.tv_sec = b.tv_sec

/-- The value in microseconds. -/
def micros (a : Timeval) : Int := a.tv_sec * 1000000 + a.tv_usec

/-- The microsecond part is a proper fraction of a second. -/
def Normalised (a : Timeval) : Prop := 0 ≤ a.tv_usec ∧ a.tv_usec < 1000000

instance (a : Timeval) : Decidable a.Normalised := inferInstanceAs (Decidable (_ ∧ _))

variable {a b c : Timeval}

theorem normalised_zero : zero.Normalised := by decide

theorem normalised_timeradd (ha : a.Normalised) (hb : b.Normalised) :
    (pinba_timeradd a b).Normalised := by
  unfold Normalised at *
  unfold pinba_timeradd
  simp only
  split <;> simp only <;> omega

theorem normalised_timersub (ha : a.Normalised) (hb : b.Normalised) :
    (pinba_timersub a b).Normalised := by
  unfold Normalised at *
  unfold pinba_timersub
  simp only
  split <;> simp only <;> omega

@[simp] theorem micros_timeradd (a b : Timeval) :
    (pinba_timeradd a b).micros = a.micros + b.micros := by
  unfold pinba_timeradd micros
  simp only
  split <;> simp only <;> omega

@[simp] theorem micros_timersub (a b : Timeval) :
    (pinba_timersub a b).micros = a.micros - b.micros := by
  unfold pinba_timersub micros
  simp only
  split <;> simp only <;> omega

/-- A normalised value is determined by its microseconds. -/
theorem eq_of_micros_eq (ha : a.Normalised) (hb : b.Normalised) (h : a.micros = b.micros) :
    a = b := by
  unfold Normalised at *
  unfold micros at h
  have hs : a.tv_sec = b.tv_sec := by omega
  have hu : a.tv_usec = b.tv_usec := by omega
  exact Timeval.ext hs hu

@[simp] theorem eq_iff : eq a b = true ↔ a = b := by
  unfold eq
  rw [Timeval.ext_iff]
  split <;> simp_all

theorem lt_iff : lt a b = true ↔
    a.tv_sec < b.tv_sec ∨ (a.tv_sec = b.tv_sec ∧ a.tv_usec < b.tv_usec) := by
  unfold lt
  split <;> simp <;> omega

theorem not_lt_self (a : Timeval) : lt a a = false := by
  simp [lt]

theorem lt_of_not_lt_of_ne (h : lt b a = false) (hne : a ≠ b) : lt a b = true := by
  rw [lt_iff]
  have h' := mt lt_iff.mpr (Bool.eq_false_iff.mp h)
  by_contra hcon
  exact hne (Timeval.ext (by omega) (by omega))

theorem not_lt_trans (hab : lt b a = false) (hbc : lt c b = false) : lt c a = false := by
  have h1 := mt lt_iff.mpr (Bool.eq_false_iff.mp hab)
  have h2 := mt lt_iff.mpr (Bool.eq_false_iff.mp hbc)
  apply Bool.eq_false_iff.mpr
  intro h
  rw [lt_iff] at h
  omega

end Timeval

/-- A normalised time value, as `float_to_timeval` makes it from a sanitised
    number of seconds. -/
structure Duration extends Timeval where
  normalised : toTimeval.Normalised
deriving DecidableEq

instance : Inhabited Duration := ⟨⟨⟨0, 0⟩, by decide⟩⟩

/-- Running sums of durations, as normalised time values. -/
def timevalSum {X : Type*} (f : X → Duration) : Accumulator X Timeval where
  zero := .zero
  single x := (f x).toTimeval
  add x a := a.pinba_timeradd (f x).toTimeval
  sub x a := a.pinba_timersub (f x).toTimeval
  Rep a m := a.Normalised ∧ a.micros = (m.map fun x => (f x).micros).sum
  rep_zero := ⟨Timeval.normalised_zero, rfl⟩
  rep_single x := ⟨(f x).normalised, by simp⟩
  rep_add x a m h := by
    refine ⟨Timeval.normalised_timeradd h.1 (f x).normalised, ?_⟩
    rw [Timeval.micros_timeradd, h.2, Multiset.map_cons, Multiset.sum_cons, add_comm]
  rep_sub x a m h := by
    refine ⟨Timeval.normalised_timersub h.1 (f x).normalised, ?_⟩
    rw [Timeval.micros_timersub, h.2, Multiset.map_cons, Multiset.sum_cons]
    exact add_sub_cancel_left _ _

/-! ## Section 4: Timers and requests -/

/-- One stored timer (`pinba_timer_record`). `tags` lists the first `tag_num`
    entries of `tag_ids` and `tag_values`. -/
structure TimerRecord where
  value : Duration
  ru_utime : Duration
  ru_stime : Duration
  hit_count : Nat
  tags : List (Int × Word)
deriving DecidableEq

/-- No tag id occurs twice in the timer. -/
def TimerRecord.DistinctTags (timer : TimerRecord) : Prop := (timer.tags.map Prod.fst).Nodup

instance (timer : TimerRecord) : Decidable timer.DistinctTags :=
  inferInstanceAs (Decidable (List.Nodup _))

/-- The `data` part of `pinba_stats_record` that reports read. `tags` pairs the
    first `tags_cnt` entries of `tag_names` and `tag_values`. -/
structure RequestData where
  script_name : CString PINBA_SCRIPT_NAME_SIZE
  server_name : CString PINBA_SERVER_NAME_SIZE
  hostname : CString PINBA_HOSTNAME_SIZE
  schema : CString PINBA_SCHEMA_SIZE
  req_time : Duration
  ru_utime : Duration
  ru_stime : Duration
  doc_size : ℚ
  memory_footprint : ℚ
  tags : List (Word × Word)
  status : UInt16
deriving DecidableEq

instance : Inhabited RequestData :=
  ⟨⟨⟨[], by decide, by simp⟩, ⟨[], by decide, by simp⟩, ⟨[], by decide, by simp⟩,
    ⟨[], by decide, by simp⟩, default, default, default, 0, 0, [], 0⟩⟩

/-- One slot of the request pool (`pinba_stats_record`), with the timers that
    `record_get_timer` yields for it. -/
structure StatsRecord where
  data : RequestData
  time : Timeval
  counter : Nat
  timers : List TimerRecord
  dictionary_words : List Word
deriving DecidableEq

/-- A zeroed slot. -/
instance : Inhabited StatsRecord := ⟨⟨default, ⟨0, 0⟩, 0, [], []⟩⟩

end PinbaEngine
