import Mathlib
import PinbaEngine.Types

/-! # Request validation

    `pinba_request_validation.h`: a decoded datagram is a tree of requests, each of
    which carries several arrays that refer to each other by position and by
    dictionary index. `pinba_validate_request` is the only check before the arrays
    are indexed. The result of this module is what an accepted request looks like.
-/

namespace PinbaEngine

/-! ## Section 1: Requests -/

/-- The arrays of a `Pinba__Request` that validation looks at. -/
structure Request where
  timer_hit_count : List Nat
  /-- `n_timer_value`; the values themselves are not checked. -/
  n_timer_value : Nat
  timer_tag_count : List Nat
  timer_tag_name : List Nat
  timer_tag_value : List Nat
  tag_name : List Nat
  tag_value : List Nat
  n_dictionary : Nat

/-- `pinba_request_error`. -/
inductive RequestError where
  | none
  | timer_arrays
  | flattened_tags
  | dictionary_index
  | representation_limit
deriving DecidableEq

/-- A request with the requests nested in it. -/
inductive RequestTree where
  | node (request : Request) (requests : List RequestTree)

/-! ## Section 2: The check -/

/-- The loop over the timers, on pairs of `timer_tag_count` and
    `timer_hit_count`. It gives the number of tags of all timers. -/
def check_timers (n_timer_tag_name : Nat) : List (Nat × Nat) → Nat → Except RequestError Nat
  | [], total => .ok total
  | (tags, hits) :: timers, total =>
    if USHRT_MAX < tags ∨ INT_MAX < hits then .error .representation_limit
    else if n_timer_tag_name - total < tags then .error .flattened_tags
    else check_timers n_timer_tag_name timers (total + tags)

/-- Both dictionary indices of every pair are in range. -/
def check_indices (n_dictionary : Nat) (names values : List Nat) : Bool :=
  (names.zip values).all fun e => decide (e.1 < n_dictionary) && decide (e.2 < n_dictionary)

/-- `pinba_validate_request`. -/
def pinba_validate_request (request : Request) : RequestError :=
  let timers := request.timer_hit_count.length
  if timers ≠ request.n_timer_value ∨ timers ≠ request.timer_tag_count.length ∨
      request.tag_name.length ≠ request.tag_value.length then .timer_arrays
  else if USHRT_MAX < timers ∨ UINT_MAX < request.tag_name.length then .representation_limit
  else if request.timer_tag_name.length ≠ request.timer_tag_value.length then .flattened_tags
  else if request.n_dictionary = 0 ∧ (timers ≠ 0 ∨ request.tag_name.length ≠ 0) then
    .dictionary_index
  else
    match check_timers request.timer_tag_name.length
        (request.timer_tag_count.zip request.timer_hit_count) 0 with
    | .error e => e
    | .ok total =>
      if total ≠ request.timer_tag_name.length then .flattened_tags
      else if !check_indices request.n_dictionary request.timer_tag_name
          request.timer_tag_value then .dictionary_index
      else if !check_indices request.n_dictionary request.tag_name request.tag_value then
        .dictionary_index
      else .none

/-! ## Section 3: What is accepted -/

/-- A request whose arrays fit together. -/
structure Request.WellFormed (request : Request) : Prop where
  values : request.n_timer_value = request.timer_hit_count.length
  counts : request.timer_tag_count.length = request.timer_hit_count.length
  timers : request.timer_hit_count.length ≤ USHRT_MAX
  tags : request.tag_value.length = request.tag_name.length ∧ request.tag_name.length ≤ UINT_MAX
  flattened : request.timer_tag_name.length = request.timer_tag_count.sum ∧
    request.timer_tag_value.length = request.timer_tag_count.sum
  tag_counts : ∀ tags ∈ request.timer_tag_count, tags ≤ USHRT_MAX
  hit_counts : ∀ hits ∈ request.timer_hit_count, hits ≤ INT_MAX
  indices : ∀ i ∈ request.timer_tag_name ++ request.timer_tag_value ++ request.tag_name ++
    request.tag_value, i < request.n_dictionary
  dictionary : request.n_dictionary = 0 →
    request.timer_hit_count.length = 0 ∧ request.tag_name.length = 0

/-- The loop succeeds if every count fits and all tags are there. -/
theorem check_timers_eq_ok {n : Nat} (timers : List (Nat × Nat)) {total total' : Nat}
    (htotal : total ≤ n) :
    check_timers n timers total = .ok total' ↔
      total' = total + (timers.map Prod.fst).sum ∧ total' ≤ n ∧
        ∀ e ∈ timers, e.1 ≤ USHRT_MAX ∧ e.2 ≤ INT_MAX := by
  induction timers generalizing total with
  | nil =>
    simp only [check_timers, List.map_nil, List.sum_nil, add_zero, Except.ok.injEq]
    constructor
    · rintro rfl
      exact ⟨rfl, htotal, fun e he => absurd he List.not_mem_nil⟩
    · rintro ⟨rfl, -, -⟩
      rfl
  | cons e timers ih =>
    obtain ⟨tags, hits⟩ := e
    rw [check_timers]
    by_cases hlimit : USHRT_MAX < tags ∨ INT_MAX < hits
    · rw [if_pos hlimit]
      refine ⟨fun h => absurd h (by simp), ?_⟩
      rintro ⟨-, -, hall⟩
      have hfits := hall (tags, hits) List.mem_cons_self
      simp only at hfits
      omega
    · rw [if_neg hlimit]
      by_cases hroom : n - total < tags
      · rw [if_pos hroom]
        refine ⟨fun h => absurd h (by simp), ?_⟩
        rintro ⟨rfl, hle, -⟩
        rw [List.map_cons, List.sum_cons] at hle
        omega
      · rw [if_neg hroom, ih (by omega), List.map_cons, List.sum_cons, ← add_assoc,
          List.forall_mem_cons]
        have hfits : tags ≤ USHRT_MAX ∧ hits ≤ INT_MAX := by omega
        constructor
        · rintro ⟨hsum, hle, hall⟩
          exact ⟨hsum, hle, hfits, hall⟩
        · rintro ⟨hsum, hle, -, hall⟩
          exact ⟨hsum, hle, hall⟩

/-- Checking two arrays of one length side by side checks each of them. -/
theorem forall_mem_zip {xs ys : List Nat} {P Q : Nat → Prop} (hlength : xs.length = ys.length) :
    (∀ e ∈ xs.zip ys, P e.1 ∧ Q e.2) ↔ (∀ x ∈ xs, P x) ∧ ∀ y ∈ ys, Q y := by
  constructor
  · intro hall
    constructor
    · intro x hx
      rw [← List.map_fst_zip hlength.le] at hx
      obtain ⟨e, he, rfl⟩ := List.mem_map.mp hx
      exact (hall e he).1
    · intro y hy
      rw [← List.map_snd_zip hlength.ge] at hy
      obtain ⟨e, he, rfl⟩ := List.mem_map.mp hy
      exact (hall e he).2
  · rintro ⟨hxs, hys⟩ e he
    obtain ⟨hx, hy⟩ := List.of_mem_zip he
    exact ⟨hxs e.1 hx, hys e.2 hy⟩

theorem check_indices_iff {n : Nat} {names values : List Nat}
    (hlength : names.length = values.length) :
    check_indices n names values = true ↔ (∀ i ∈ names, i < n) ∧ ∀ i ∈ values, i < n := by
  unfold check_indices
  simp only [List.all_eq_true, Bool.and_eq_true, decide_eq_true_eq]
  exact forall_mem_zip (P := fun i => i < n) (Q := fun i => i < n) hlength

/-- The timers of a request pass the loop exactly if their counts fit and add up. -/
theorem check_timers_of_request {request : Request} {total : Nat}
    (hcounts : request.timer_tag_count.length = request.timer_hit_count.length) :
    check_timers request.timer_tag_name.length
        (request.timer_tag_count.zip request.timer_hit_count) 0 = .ok total ↔
      total = request.timer_tag_count.sum ∧ total ≤ request.timer_tag_name.length ∧
        (∀ tags ∈ request.timer_tag_count, tags ≤ USHRT_MAX) ∧
        ∀ hits ∈ request.timer_hit_count, hits ≤ INT_MAX := by
  rw [check_timers_eq_ok _ (Nat.zero_le _), List.map_fst_zip hcounts.le, zero_add,
    forall_mem_zip (P := fun tags => tags ≤ USHRT_MAX) (Q := fun hits => hits ≤ INT_MAX) hcounts]

/-- The loop itself only fails with an error. -/
theorem check_timers_ne_none {n : Nat} (timers : List (Nat × Nat)) (total : Nat) :
    check_timers n timers total ≠ .error .none := by
  induction timers generalizing total with
  | nil => simp [check_timers]
  | cons e timers ih =>
    rw [check_timers]
    split
    · simp
    · split
      · simp
      · exact ih _

/-- Exactly the requests whose arrays fit together are accepted. -/
theorem validate_eq_none_iff (request : Request) :
    pinba_validate_request request = .none ↔ request.WellFormed := by
  unfold pinba_validate_request
  by_cases h₁ : request.timer_hit_count.length ≠ request.n_timer_value ∨
      request.timer_hit_count.length ≠ request.timer_tag_count.length ∨
      request.tag_name.length ≠ request.tag_value.length
  · rw [if_pos h₁]
    refine ⟨fun h => absurd h (by simp), fun h => ?_⟩
    have := h.values
    have := h.counts
    have := h.tags.1
    omega
  rw [if_neg h₁]
  by_cases h₂ : USHRT_MAX < request.timer_hit_count.length ∨ UINT_MAX < request.tag_name.length
  · rw [if_pos h₂]
    refine ⟨fun h => absurd h (by simp), fun h => ?_⟩
    have := h.timers
    have := h.tags.2
    omega
  rw [if_neg h₂]
  by_cases h₃ : request.timer_tag_name.length ≠ request.timer_tag_value.length
  · rw [if_pos h₃]
    refine ⟨fun h => absurd h (by simp), fun h => ?_⟩
    have := h.flattened
    omega
  rw [if_neg h₃]
  have hcounts : request.timer_tag_count.length = request.timer_hit_count.length := by omega
  have htag : request.tag_name.length = request.tag_value.length := by omega
  have hflat : request.timer_tag_name.length = request.timer_tag_value.length := by omega
  by_cases h₄ : request.n_dictionary = 0 ∧
      (request.timer_hit_count.length ≠ 0 ∨ request.tag_name.length ≠ 0)
  · rw [if_pos h₄]
    refine ⟨fun h => absurd h (by simp), fun h => ?_⟩
    have := h.dictionary h₄.1
    omega
  rw [if_neg h₄]
  cases hloop : check_timers request.timer_tag_name.length
      (request.timer_tag_count.zip request.timer_hit_count) 0 with
  | error e =>
    have hne : e ≠ .none := by
      rintro rfl
      exact check_timers_ne_none _ _ hloop
    refine ⟨fun h => absurd h hne, fun h => ?_⟩
    have hok := (check_timers_of_request hcounts).mpr
      ⟨rfl, h.flattened.1.ge, h.tag_counts, h.hit_counts⟩
    rw [hloop] at hok
    exact absurd hok (by simp)
  | ok total =>
    obtain ⟨rfl, -, htags, hhits⟩ := (check_timers_of_request hcounts).mp hloop
    have hall : (∀ i ∈ request.timer_tag_name ++ request.timer_tag_value ++ request.tag_name ++
        request.tag_value, i < request.n_dictionary) ↔
        check_indices request.n_dictionary request.timer_tag_name request.timer_tag_value = true ∧
          check_indices request.n_dictionary request.tag_name request.tag_value = true := by
      rw [check_indices_iff hflat, check_indices_iff htag]
      simp only [List.forall_mem_append]
      tauto
    -- what is left are the number of tags and the two index checks
    constructor
    · intro h
      by_cases hsum : request.timer_tag_count.sum = request.timer_tag_name.length
      · refine ⟨by omega, hcounts, by omega, by omega, by omega, htags, hhits, hall.mpr ?_, by omega⟩
        simp only [hsum, ne_eq, not_true_eq_false, if_false] at h
        cases hnames : check_indices request.n_dictionary request.timer_tag_name
            request.timer_tag_value with
        | false => simp [hnames] at h
        | true =>
          cases hvalues : check_indices request.n_dictionary request.tag_name request.tag_value with
          | false => simp [hnames, hvalues] at h
          | true => exact ⟨rfl, rfl⟩
      · simp only [ne_eq, hsum, not_false_eq_true, if_true] at h
        exact absurd h (by simp)
    · intro h
      obtain ⟨hnames, hvalues⟩ := hall.mp h.indices
      simp [h.flattened.1, hnames, hvalues]

end PinbaEngine
