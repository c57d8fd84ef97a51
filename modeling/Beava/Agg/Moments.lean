/-
The moments that the operators keep are those of two passes over the numbers.

The variance, the spread of places and the gaps between arrivals each take one
number at a time into a count, a mean and a sum of squared deviations.
-/

import Beava.Agg.Exact
import Beava.Agg.Readings
import Beava.Agg.TwoPaths
import Beava.Lib.Welford

namespace Beava.Agg

open Beava.Core Beava.Apply

variable {kernel : Kernel} {K : Type} [Field K] (exact : Exact kernel K)

def VarianceState.moments (state : VarianceState kernel) : Welford.Moments K :=
  ⟨state.n,exact.value state.mean,exact.value state.m2⟩

theorem VarianceState.moments_add (number : kernel.Num) (state : VarianceState kernel) :
    (state.add number).moments exact = (state.moments exact).add (exact.value number) := by
  simp only [VarianceState.add,moments,Welford.Moments.add,exact.add,exact.sub,exact.mul,
    exact.div,exact.ofNat]

def GeoSpreadState.latMoments (state : GeoSpreadState kernel) : Welford.Moments K :=
  ⟨state.n,exact.value state.meanLat,exact.value state.m2Lat⟩

def GeoSpreadState.lonMoments (state : GeoSpreadState kernel) : Welford.Moments K :=
  ⟨state.n,exact.value state.meanLon,exact.value state.m2Lon⟩

theorem GeoSpreadState.latMoments_apply (place : kernel.Num × kernel.Num)
    (state : GeoSpreadState kernel) :
    (state.apply place).latMoments exact = (state.latMoments exact).add (exact.value place.1) := by
  simp only [GeoSpreadState.apply,latMoments,Welford.Moments.add,exact.add,exact.sub,
    exact.mul,exact.div,exact.one,exact.ofNat,mul_one_div]

theorem GeoSpreadState.lonMoments_apply (place : kernel.Num × kernel.Num)
    (state : GeoSpreadState kernel) :
    (state.apply place).lonMoments exact = (state.lonMoments exact).add (exact.value place.2) := by
  simp only [GeoSpreadState.apply,lonMoments,Welford.Moments.add,exact.add,exact.sub,
    exact.mul,exact.div,exact.one,exact.ofNat,mul_one_div]

section Runs

variable [CharZero K]

theorem VarianceState.foldl_add (numbers : List kernel.Num) :
    Welford.Summarises (numbers.map exact.value)
      ((numbers.foldl (fun state number => VarianceState.add number state) .default).moments
        exact) := by
  induction numbers using List.reverseRecOn with
  | nil =>
      have start : (VarianceState.default : VarianceState kernel).moments exact =
          Welford.Moments.empty := by
        simp only [VarianceState.moments,VarianceState.default,exact.zero,Welford.Moments.empty]
      rw [List.foldl_nil,start]
      exact Welford.summarises_empty
  | append_singleton numbers number ih =>
      rw [List.foldl_concat,VarianceState.moments_add,List.map_append,List.map_singleton]
      exact ih.add _

theorem GeoSpreadState.foldl_apply (latField lonField : String)
    (places : List (kernel.Num × kernel.Num)) :
    Welford.Summarises (places.map fun place => exact.value place.1)
        ((places.foldl (fun state place => GeoSpreadState.apply place state)
          (.withFields latField lonField)).latMoments exact) ∧
      Welford.Summarises (places.map fun place => exact.value place.2)
        ((places.foldl (fun state place => GeoSpreadState.apply place state)
          (.withFields latField lonField)).lonMoments exact) := by
  induction places using List.reverseRecOn with
  | nil =>
      have lat : (GeoSpreadState.withFields latField lonField : GeoSpreadState kernel).latMoments
          exact = Welford.Moments.empty := by
        simp only [latMoments,withFields,exact.zero,Welford.Moments.empty]
      have lon : (GeoSpreadState.withFields latField lonField : GeoSpreadState kernel).lonMoments
          exact = Welford.Moments.empty := by
        simp only [lonMoments,withFields,exact.zero,Welford.Moments.empty]
      rw [List.foldl_nil,lat,lon]
      exact ⟨Welford.summarises_empty,Welford.summarises_empty⟩
  | append_singleton places place ih =>
      rw [List.foldl_concat,latMoments_apply,lonMoments_apply,List.map_append,List.map_append]
      exact ⟨ih.1.add _,ih.2.add _⟩

end Runs

/-- The milliseconds from each time to the next, none where the next is earlier. -/
def gapsOf : List Int64 → List Int
  | [] => []
  | [_] => []
  | first :: second :: rest => (elapsedMs second first).toInt :: gapsOf (second :: rest)

/-- A time comes in where the predicate holds. -/
def InterArrivalStatsState.arrive (nowMs : Int64) (state : InterArrivalStatsState kernel) :
    InterArrivalStatsState kernel :=
  if state.initialized then
    { state with
      gaps := state.gaps.add (kernel.ofInt (elapsedMs nowMs state.lastT).toInt)
      lastT := nowMs }
  else { state with lastT := nowMs, initialized := true }

theorem InterArrivalStatsState.foldl_arrive_initialized (times : List Int64) (last : Int64)
    (gaps : VarianceState kernel) :
    (times.foldl (fun state time => InterArrivalStatsState.arrive time state)
        ⟨last,true,gaps⟩).gaps =
      ((gapsOf (last :: times)).map kernel.ofInt).foldl
        (fun state number => VarianceState.add number state) gaps := by
  induction times generalizing last gaps with
  | nil => rfl
  | cons time times ih => exact ih time _

theorem InterArrivalStatsState.foldl_arrive (times : List Int64) :
    (times.foldl (fun state time => InterArrivalStatsState.arrive time state)
        (InterArrivalStatsState.default : InterArrivalStatsState kernel)).gaps =
      ((gapsOf times).map kernel.ofInt).foldl
        (fun state number => VarianceState.add number state) .default := by
  cases times with
  | nil => rfl
  | cons time times => exact foldl_arrive_initialized times time .default

section Operators

variable (updates : List LifetimeUpdate)

theorem variance_after :
    (.variance .default : LifetimeOp kernel).after updates =
      .variance ((numbersOf updates).foldl
        (fun state number => VarianceState.add number state) .default) := by
  refine @after_eq_foldl kernel _ _ VarianceState.add (fun _ => True) .variance
    (LifetimeUpdate.reading numeric) ?_ (fun _ _ _ => trivial) updates _ trivial
  intro update state _
  cases update with
  | update => exact congrArg LifetimeOp.variance (updateField_eq_feed ..)
  | updateWithExtracted => exact congrArg LifetimeOp.variance (updateValue_eq_feed ..)

theorem geoSpread_after (latField lonField : String) :
    (.geoSpread (.withFields latField lonField) : LifetimeOp kernel).after updates =
      .geoSpread ((placesIn updates latField lonField).foldl
        (fun state place => GeoSpreadState.apply place state) (.withFields latField lonField)) := by
  refine @after_eq_foldl kernel _ _ GeoSpreadState.apply
    (fun state => state.latField = latField ∧ state.lonField = lonField) .geoSpread
    (LifetimeUpdate.placeReading latField lonField) ?_ (fun _ _ named => named) updates _
    ⟨rfl,rfl⟩
  intro update state named
  obtain ⟨rfl,rfl⟩ := named
  cases update with
  | update => exact congrArg LifetimeOp.geoSpread (updatePlace_eq_feed ..)
  | updateWithExtracted preVal nowMs row field extracted latIdx lonIdx whereMatched =>
      simp only [LifetimeUpdate.apply,LifetimeOp.updateWithExtractedNoWhere,
        LifetimeUpdate.placeReading,LifetimeUpdate.ifMatched,LifetimeUpdate.placeIn]
      split
      · exact congrArg LifetimeOp.geoSpread (updatePlace_eq_feed ..)
      · exact congrArg LifetimeOp.geoSpread (updatePlace_eq_feed ..)

theorem interArrivalStats_after :
    (.interArrivalStats .default : LifetimeOp kernel).after updates =
      .interArrivalStats ((arrivals updates).foldl
        (fun state time => InterArrivalStatsState.arrive time state) .default) := by
  refine @after_eq_foldl kernel _ _ InterArrivalStatsState.arrive (fun _ => True)
    .interArrivalStats LifetimeUpdate.arrival ?_ (fun _ _ _ => trivial) updates _ trivial
  intro update state _
  cases update with
  | update _ _ _ whereMatched => cases whereMatched <;> rfl
  | updateWithExtracted _ _ _ _ _ _ _ whereMatched => cases whereMatched <;> rfl

end Operators

/-- The moments after the updates, and what the variance reports. -/
structure TwoPasses (exact : Exact kernel ℚ) (latField lonField : String)
    (updates : List LifetimeUpdate) : Prop where
  variance : ∃ state : VarianceState kernel,
    (.variance .default : LifetimeOp kernel).after updates = .variance state ∧
      Welford.Summarises ((numbersOf updates).map exact.value) (state.moments exact) ∧
      0 ≤ exact.value state.m2
  report (queryTimeMs : Int64) :
    ((.variance .default : LifetimeOp kernel).after updates).query queryTimeMs =
      if (numbersOf updates : List kernel.Num).length < 2 then .null
      else exact.report (Welford.variance ((numbersOf updates).map exact.value))
  unordered (queryTimeMs : Int64) (others : List LifetimeUpdate)
    (same : (numbersOf others : List kernel.Num).Perm (numbersOf updates)) :
    ((.variance .default : LifetimeOp kernel).after others).query queryTimeMs =
      ((.variance .default : LifetimeOp kernel).after updates).query queryTimeMs
  geoSpread : ∃ state : GeoSpreadState kernel,
    (.geoSpread (.withFields latField lonField) : LifetimeOp kernel).after updates =
        .geoSpread state ∧
      Welford.Summarises
        ((placesIn updates latField lonField).map fun place => exact.value place.1)
        (state.latMoments exact) ∧
      Welford.Summarises
        ((placesIn updates latField lonField).map fun place => exact.value place.2)
        (state.lonMoments exact)
  interArrivalStats : ∃ state : InterArrivalStatsState kernel,
    (.interArrivalStats .default : LifetimeOp kernel).after updates = .interArrivalStats state ∧
      Welford.Summarises
        ((gapsOf (arrivals updates)).map fun gap : Int => (gap : ℚ))
        (state.gaps.moments exact)

theorem report_eq (exact : Exact kernel ℚ) (updates : List LifetimeUpdate) (queryTimeMs : Int64) :
    ((.variance .default : LifetimeOp kernel).after updates).query queryTimeMs =
      if (numbersOf updates : List kernel.Num).length < 2 then .null
      else exact.report (Welford.variance ((numbersOf updates).map exact.value)) := by
  have summarises := VarianceState.foldl_add exact (numbersOf updates)
  have count := summarises.count
  rw [variance_after,LifetimeOp.query,VarianceState.queryVariance]
  rw [List.length_map] at count
  change VarianceState.n _ = _ at count
  rw [count]
  split
  · rfl
  · apply exact.report_value
    rw [exact.div,exact.ofNat,Welford.variance,List.length_map,← summarises.m2]
    rfl

/-- Welford's step gives the moments of two passes. -/
theorem twoPasses_after (exact : Exact kernel ℚ) (latField lonField : String)
    (updates : List LifetimeUpdate) : TwoPasses exact latField lonField updates where
  variance := by
    have summarises := VarianceState.foldl_add exact (numbersOf updates)
    refine ⟨_,variance_after updates,summarises,?_⟩
    have nonneg := Welford.deviation_nonneg ((numbersOf updates).map exact.value)
    rwa [← summarises.m2] at nonneg
  report := report_eq exact updates
  unordered queryTimeMs others same := by
    rw [report_eq exact,report_eq exact,same.length_eq,
      Welford.variance_perm (same.map exact.value)]
  geoSpread := by
    have summarises := GeoSpreadState.foldl_apply exact latField lonField
      (placesIn updates latField lonField)
    exact ⟨_,geoSpread_after updates latField lonField,summarises.1,summarises.2⟩
  interArrivalStats := by
    refine ⟨_,interArrivalStats_after updates,?_⟩
    have numbers : ((gapsOf (arrivals updates)).map kernel.ofInt).map exact.value =
        (gapsOf (arrivals updates)).map fun gap : Int => (gap : ℚ) := by
      rw [List.map_map]
      exact List.map_congr_left fun gap _ => exact.ofInt gap
    rw [InterArrivalStatsState.foldl_arrive,← numbers]
    exact VarianceState.foldl_add exact _

def sampleAmounts : List LifetimeUpdate :=
  [.update ⟨[("amount",.i64 1)]⟩ 10 (some "amount") true,
    .updateWithExtracted (some (.i64 2)) 30 ⟨[("amount",.i64 2)]⟩ (some "amount") [] 255 255 true,
    .update ⟨[("amount",.i64 6)]⟩ 40 (some "amount") true]

theorem twoPasses_sampleAmounts : TwoPasses rationalExact "lat" "lon" sampleAmounts :=
  twoPasses_after rationalExact "lat" "lon" sampleAmounts

end Beava.Agg
