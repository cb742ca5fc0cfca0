import Mathlib.Algebra.Order.BigOperators.Group.Multiset
import PinbaEngine.Lib.KeyedSum
import PinbaEngine.Types

/-! # Histograms

    A row keeps its histogram in a map from bucket numbers to unsigned counts
    (`pinba_lmap`). The map is created by the first sample, a bucket that falls
    to zero is erased, and the update adds a signed weight. Counts are integers
    here, so a counter that the code would wrap to a huge value shows as a
    negative number.

    The bucket of a sample depends on its time and weight through floating
    point arithmetic that is not modelled: `BucketChoice` is any function of
    the two that stays below `histogram_size`.
-/

namespace PinbaEngine

/-- The bucket arithmetic of `pinba_update_histogram` for one report. -/
structure BucketChoice where
  histogram_size : Nat
  /-- The bucket for a time and the absolute value of the weight. -/
  slot : Timeval → Nat → Nat
  slot_lt : ∀ time count, slot time count < histogram_size

/-- `histogram_data`; the empty map stands for the null pointer as well. -/
abbrev Histogram := AList fun _ : Nat => Int

/-- `pinba_update_histogram`. -/
def pinba_update_histogram (report : BucketChoice) (histogram_data : Histogram) (time : Timeval)
    (add : Int) : Histogram :=
  let slot_num := report.slot time add.natAbs
  let value := (histogram_data.lookup slot_num).getD 0 + add
  if value = 0 then histogram_data.erase slot_num
  else histogram_data.insert slot_num value

namespace Histogram

/-- Sum of all bucket counts. -/
def mass (h : Histogram) : Int := (h.entries.map fun e => e.2).sum

/-- What a bucket with count `v` looks like in the map. -/
def cell (v : Int) : Option Int := if v = 0 then none else some v

@[simp] theorem getD_cell (v : Int) : (cell v).getD 0 = v := by
  unfold cell
  split <;> simp_all

variable {report : BucketChoice} {h : Histogram} {time : Timeval} {add : Int} {b : Nat}

theorem lookup_update_self :
    (pinba_update_histogram report h time add).lookup (report.slot time add.natAbs) =
      cell ((h.lookup (report.slot time add.natAbs)).getD 0 + add) := by
  unfold pinba_update_histogram cell
  simp only
  split <;> simp

theorem lookup_update_ne (hb : b ≠ report.slot time add.natAbs) :
    (pinba_update_histogram report h time add).lookup b = h.lookup b := by
  unfold pinba_update_histogram
  simp only
  split
  · exact AList.lookup_erase_ne hb
  · exact AList.lookup_insert_ne hb

theorem mass_erase (h : Histogram) (k : Nat) :
    mass (h.erase k) + (h.lookup k).getD 0 = mass h := by
  have hold : (h.lookup k).getD 0 = (h.lookup k).elim 0 id := by
    cases h.lookup k <;> rfl
  rw [hold]
  exact keyedSum_erase id h k

theorem mass_insert (h : Histogram) (k : Nat) (v : Int) :
    mass (h.insert k v) = v + mass (h.erase k) :=
  keyedSum_insert_erase id h k v

/-- An update changes the total by exactly its weight. -/
theorem mass_update : mass (pinba_update_histogram report h time add) = mass h + add := by
  have he := mass_erase h (report.slot time add.natAbs)
  unfold pinba_update_histogram
  simp only
  split
  · omega
  · rw [mass_insert]
    omega

end Histogram

/-! ## The histogram as a summary of samples -/

section summary
variable {X : Type*} (report : BucketChoice) (time : X → Timeval) (count : X → Nat)

/-- The weight of the samples that belong in bucket `b`. -/
def bucketMass (m : Multiset X) (b : Nat) : Int :=
  ((m.filter fun x => report.slot (time x) (count x) = b).map fun x => (count x : Int)).sum

theorem bucketMass_cons (x : X) (m : Multiset X) (b : Nat) :
    bucketMass report time count (x ::ₘ m) b =
      (if report.slot (time x) (count x) = b then (count x : Int) else 0) +
        bucketMass report time count m b := by
  unfold bucketMass
  split
  · next hb => simp [hb]
  · next hb => simp [hb]

/-- The map is exactly the multiset of buckets of the samples: every bucket
    holds the weight of its samples, empty buckets are not stored, and the
    total is the weight of all samples. -/
structure HistogramOf (h : Histogram) (m : Multiset X) : Prop where
  bucket : ∀ b, h.lookup b = Histogram.cell (bucketMass report time count m b)
  mass : Histogram.mass h = (m.map fun x => (count x : Int)).sum

variable {report time count} {h : Histogram} {x : X} {m : Multiset X}

/-- Moving a bucket count by a signed weight, seen bucket by bucket. -/
theorem lookup_update_of_bucket (add : Int) (hadd : add.natAbs = count x)
    (m' : Multiset X)
    (hb : ∀ b, h.lookup b = Histogram.cell (bucketMass report time count m b))
    (hm : ∀ b, bucketMass report time count m' b =
      bucketMass report time count m b +
        (if report.slot (time x) (count x) = b then add else 0)) (b : Nat) :
    (pinba_update_histogram report h (time x) add).lookup b =
      Histogram.cell (bucketMass report time count m' b) := by
  by_cases hs : b = report.slot (time x) (count x)
  · subst hs
    have hself : (pinba_update_histogram report h (time x) add).lookup _ = _ :=
      Histogram.lookup_update_self
    rw [hadd] at hself
    rw [hself, hb, Histogram.getD_cell, hm, if_pos rfl]
  · have hne : (pinba_update_histogram report h (time x) add).lookup b = h.lookup b :=
      Histogram.lookup_update_ne (by rw [hadd]; exact hs)
    rw [hne, hb, hm, if_neg (Ne.symm hs), add_zero]

theorem histogramOf_empty : HistogramOf report time count ∅ 0 :=
  ⟨fun _ => rfl, rfl⟩

theorem histogramOf_add (hh : HistogramOf report time count h m) :
    HistogramOf report time count (pinba_update_histogram report h (time x) (count x))
      (x ::ₘ m) := by
  constructor
  · apply lookup_update_of_bucket (count x : Int) (Int.natAbs_natCast _) _ hh.bucket
    intro b
    rw [bucketMass_cons, add_comm]
  · rw [Histogram.mass_update, hh.mass, Multiset.map_cons, Multiset.sum_cons, add_comm]

theorem histogramOf_sub (hh : HistogramOf report time count h (x ::ₘ m)) :
    HistogramOf report time count (pinba_update_histogram report h (time x) (-(count x : Int)))
      m := by
  constructor
  · apply lookup_update_of_bucket (-(count x : Int)) (by simp) _ hh.bucket
    intro b
    rw [bucketMass_cons]
    split <;> omega
  · rw [Histogram.mass_update, hh.mass, Multiset.map_cons, Multiset.sum_cons]
    omega

/-- Only buckets of samples are stored, and with a positive count. -/
theorem HistogramOf.mem {b : Nat} {v : Int} (hh : HistogramOf report time count h m)
    (hv : h.lookup b = some v) : b < report.histogram_size ∧ 0 < v := by
  rw [hh.bucket b] at hv
  unfold Histogram.cell at hv
  split at hv
  · exact absurd hv (by simp)
  · next h0 =>
    have hnonneg : 0 ≤ bucketMass report time count m b := by
      apply Multiset.sum_nonneg
      intro y hy
      obtain ⟨x, _, rfl⟩ := Multiset.mem_map.mp hy
      exact Int.natCast_nonneg _
    obtain rfl : bucketMass report time count m b = v := by simpa using hv
    refine ⟨?_, by omega⟩
    -- a stored bucket has a sample, and the sample chose it
    have hne : (m.filter fun x => report.slot (time x) (count x) = b) ≠ 0 := by
      intro hz
      exact h0 (by simp [bucketMass, hz])
    obtain ⟨x, hx⟩ := Multiset.exists_mem_of_ne_zero hne
    rw [← (Multiset.mem_filter.mp hx).2]
    exact report.slot_lt _ _

end summary

end PinbaEngine
