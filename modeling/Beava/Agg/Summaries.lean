/-
The operators with a window as summaries.

Each kind that can be wrapped keeps a summary of what it reads, and the fold over
the buckets of a window merges the summaries.  A kind is connected to its summary
by four equations: what a new operator is, what an update does, what a query
answers, and what the fold over operators is.
-/

import Beava.Agg.EntropyCounts
import Beava.Agg.Extremes
import Beava.Agg.Moments
import Beava.Agg.Sketches
import Beava.Lib.Mergeable
import Mathlib.Data.String.Basic

namespace Beava.Agg

open Beava.Core Beava.Apply Beava.Sketch Mergeable

variable (params : SketchParams)
variable {value : Value}

section Kinds

variable {α σ : Type} {kernel : Kernel}

structure Keeps (kind : AggKind) (params : SketchParams) (summary : Summary α σ Value)
    (start : Summary.Start) (reading : LifetimeUpdate → Option α)
    (wrap : σ → LifetimeOp kernel) : Prop where
  new : LifetimeOp.newLifetime kind params = wrap summary.empty
  step : ∀ update state,
    LifetimeUpdate.apply (wrap state) update = wrap (feed summary.add (reading update) state)
  query : ∀ state queryTimeMs, (wrap state).query queryTimeMs = summary.answer state
  fold : ∀ states, WindowedOp.foldBuckets kind (states.map wrap) = summary.total start states

variable {kind : AggKind} {params : SketchParams} {summary : Summary α σ Value}
  {start : Summary.Start} {reading : LifetimeUpdate → Option α} {wrap : σ → LifetimeOp kernel}

theorem Keeps.after_eq (keeps : Keeps kind params summary start reading wrap)
    (updates : List LifetimeUpdate) :
    (LifetimeOp.newLifetime kind params : LifetimeOp kernel).after updates =
      wrap (summary.after (updates.filterMap reading)) := by
  rw [keeps.new]
  exact after_eq_foldl (fun _ => True) (fun update state _ => keeps.step update state)
    (fun _ _ _ => trivial) updates trivial

/-- The fold over the operators of the groups answers what the operator of the
whole list does. -/
theorem Keeps.foldBuckets_same (keeps : Keeps kind params summary start reading wrap)
    {Fits : List α → Prop} {Represents : List α → σ → Prop} {Same : Value → Value → Prop}
    (lawful : summary.Lawful Fits Represents Same) {groups : List (List LifetimeUpdate)}
    {updates : List LifetimeUpdate} (together : groups.flatten.Perm updates)
    (fits : Fits (updates.filterMap reading)) (queryTimeMs : Int64) :
    Same
      (WindowedOp.foldBuckets kind
        (groups.map (LifetimeOp.newLifetime kind params : LifetimeOp kernel).after))
      (((LifetimeOp.newLifetime kind params : LifetimeOp kernel).after updates).query
        queryTimeMs) := by
  have ops : groups.map (LifetimeOp.newLifetime kind params : LifetimeOp kernel).after =
      ((groups.map (List.filterMap reading)).map summary.after).map wrap := by
    rw [List.map_map,List.map_map]
    exact List.map_congr_left fun group _ => keeps.after_eq group
  have readings : (groups.map (List.filterMap reading)).flatten.Perm
      (updates.filterMap reading) := by
    rw [← List.filterMap_flatten]
    exact together.filterMap reading
  rw [ops,keeps.fold,keeps.after_eq,keeps.query]
  exact lawful.total_after start fits readings

end Kinds

theorem feed_wrap {α σ τ : Type} {change : α → σ → σ} {wrapped : α → τ → τ} {wrap : σ → τ}
    (same : ∀ seen state, wrapped seen (wrap state) = wrap (change seen state)) (seen : Option α)
    (state : σ) : feed wrapped seen (wrap state) = wrap (feed change seen state) := by
  cases seen with
  | none => rfl
  | some seen => exact same seen state

theorem foldl_part {σ τ : Type} {part : σ → τ} {merge : σ → σ → σ} {step : τ → σ → τ}
    (same : ∀ state other, part (merge state other) = step (part state) other) (states : List σ)
    (state : σ) : part (states.foldl merge state) = states.foldl step (part state) := by
  induction states generalizing state with
  | nil => rfl
  | cons other states ih => rw [List.foldl_cons,List.foldl_cons,ih,same]

variable {kernel : Kernel}

def countSummary : Summary Unit CountState Value where
  empty := .default
  add _ state := ⟨state.n + 1⟩
  merge state other := ⟨state.n + other.n⟩
  answer := CountState.query

/-- A count reads that the predicate holds. -/
def matchedReading : LifetimeUpdate → Option Unit := LifetimeUpdate.ifMatched fun _ => some ()

theorem count_lawful :
    countSummary.Lawful (fun _ => True) (fun items state => state.n = items.length) Eq where
  fits _ _ := trivial
  empty := rfl
  add item _ represents := by
    rw [List.length_append,List.length_singleton,← represents]
    rfl
  merge _ represents otherRepresents := by
    rw [List.length_append,← represents,← otherRepresents]
    rfl
  answer _ same represents otherRepresents := by
    show CountState.query _ = CountState.query _
    rw [CountState.query,CountState.query,represents,otherRepresents,same.length_eq]

theorem count_keeps :
    Keeps .count params countSummary .fromEmpty matchedReading
      (LifetimeOp.count : CountState → LifetimeOp kernel) where
  new := rfl
  step update state := by
    cases update with
    | update _ _ _ whereMatched => cases whereMatched <;> rfl
    | updateWithExtracted _ _ _ _ _ _ _ whereMatched => cases whereMatched <;> rfl
  query _ _ := rfl
  fold states := by
    have unwrapped : WindowedOp.counts
        (states.map (LifetimeOp.count : CountState → LifetimeOp kernel)) = states := by
      rw [WindowedOp.counts,List.filterMap_map]
      exact List.filterMap_some
    have total : (states.foldl countSummary.merge .default).n =
        states.foldl (fun total state => total + state.n) 0 :=
      foldl_part (fun _ _ => rfl) states .default
    rw [WindowedOp.foldBuckets,unwrapped,← total]
    rfl

def ratioSummary (kernel : Kernel) : Summary Bool RatioState Value where
  empty := .default
  add := RatioState.update
  merge state other := ⟨state.matching + other.matching,state.total + other.total⟩
  answer := RatioState.query kernel

def predicateReading (update : LifetimeUpdate) : Option Bool := some update.whereMatched

theorem ratio_lawful (kernel : Kernel) :
    (ratioSummary kernel).Lawful (fun _ => True)
      (fun items state => state.matching = items.count true ∧ state.total = items.length) Eq where
  fits _ _ := trivial
  empty := ⟨rfl,rfl⟩
  add item _ represents := by
    rw [List.count_append,List.length_append,List.length_singleton,← represents.1,
      ← represents.2]
    cases item
    · exact ⟨rfl,rfl⟩
    · exact ⟨rfl,rfl⟩
  merge _ represents otherRepresents := by
    rw [List.count_append,List.length_append,← represents.1,← represents.2,
      ← otherRepresents.1,← otherRepresents.2]
    exact ⟨rfl,rfl⟩
  answer _ same represents otherRepresents := by
    show RatioState.query kernel _ = RatioState.query kernel _
    rw [RatioState.query,RatioState.query,represents.1,represents.2,otherRepresents.1,
      otherRepresents.2,same.length_eq,same.count_eq]

theorem ratio_keeps :
    Keeps .ratio params (ratioSummary kernel) .fromEmpty predicateReading
      (LifetimeOp.ratio : RatioState → LifetimeOp kernel) where
  new := rfl
  step update state := by cases update <;> rfl
  query _ _ := rfl
  fold states := by
    have unwrapped : WindowedOp.ratios
        (states.map (LifetimeOp.ratio : RatioState → LifetimeOp kernel)) = states := by
      rw [WindowedOp.ratios,List.filterMap_map]
      exact List.filterMap_some
    have matching : (states.foldl (ratioSummary kernel).merge .default).matching =
        states.foldl (fun matching state => matching + state.matching) 0 :=
      foldl_part (fun _ _ => rfl) states .default
    have total : (states.foldl (ratioSummary kernel).merge .default).total =
        states.foldl (fun total state => total + state.total) 0 :=
      foldl_part (fun _ _ => rfl) states .default
    rw [WindowedOp.foldBuckets,unwrapped,WindowedOp.foldRatios,← matching,← total]
    rfl

/-! ### Sums and averages -/

section Exact

variable {K : Type} [Field K] (exact : Exact kernel K)

/-- A bucket without numbers is skipped. -/
def sumSummary (kernel : Kernel) : Summary kernel.Num (SumState kernel) Value where
  empty := .default
  add := SumState.add
  merge state other := if 0 < other.n then ⟨state.total + other.total,state.n + other.n⟩ else state
  answer := SumState.query

def avgSummary (kernel : Kernel) : Summary kernel.Num (AvgState kernel) Value where
  empty := .default
  add := AvgState.add
  merge state other := ⟨state.sum + other.sum,state.n + other.n⟩
  answer := AvgState.query

def CountAndSum (items : List kernel.Num) (n : Nat) (total : kernel.Num) : Prop :=
  n = items.length ∧ exact.value total = (items.map exact.value).sum

section CountAndSum

variable {exact} {items others : List kernel.Num} {n m : Nat} {total other : kernel.Num}

theorem countAndSum_empty : CountAndSum exact [] 0 kernel.zero := by
  refine ⟨rfl,?_⟩
  rw [exact.zero,List.map_nil,List.sum_nil]

theorem CountAndSum.add (totals : CountAndSum exact items n total) (item : kernel.Num) :
    CountAndSum exact (items ++ [item]) (n + 1) (total + item) := by
  refine ⟨?_,?_⟩
  · rw [List.length_append,List.length_singleton,← totals.1]
  · rw [exact.add,totals.2,List.map_append,List.sum_append,List.map_singleton,
      List.sum_singleton]

theorem CountAndSum.merge (totals : CountAndSum exact items n total)
    (otherTotals : CountAndSum exact others m other) :
    CountAndSum exact (items ++ others) (n + m) (total + other) := by
  refine ⟨?_,?_⟩
  · rw [List.length_append,← totals.1,← otherTotals.1]
  · rw [exact.add,totals.2,otherTotals.2,List.map_append,List.sum_append]

theorem CountAndSum.append_none (totals : CountAndSum exact items n total)
    (otherTotals : CountAndSum exact others m other) (none : ¬ 0 < m) :
    CountAndSum exact (items ++ others) n total := by
  have empty : others = [] := by
    apply List.eq_nil_of_length_eq_zero
    rw [← otherTotals.1]
    exact Nat.eq_zero_of_not_pos none
  rw [empty,List.append_nil]
  exact totals

theorem CountAndSum.unique (totals : CountAndSum exact items n total)
    (otherTotals : CountAndSum exact others m other) (same : items.Perm others) :
    n = m ∧ total = other := by
  refine ⟨?_,exact.value.injective ?_⟩
  · rw [totals.1,otherTotals.1,same.length_eq]
  · rw [totals.2,otherTotals.2]
    exact (same.map exact.value).sum_eq

end CountAndSum

theorem sum_lawful :
    (sumSummary kernel).Lawful (fun _ => True)
      (fun items state => CountAndSum exact items state.n state.total) Eq where
  fits _ _ := trivial
  empty := countAndSum_empty
  add item _ represents := represents.add item
  merge := by
    intro items others state other _ represents otherRepresents
    simp only [sumSummary]
    split
    · exact represents.merge otherRepresents
    · rename_i none
      exact represents.append_none otherRepresents none
  answer := by
    intro items others state other _ same represents otherRepresents
    obtain ⟨sameCount,sameTotal⟩ := represents.unique otherRepresents same
    show SumState.query _ = SumState.query _
    rw [SumState.query,SumState.query,sameCount,sameTotal]

theorem avg_lawful :
    (avgSummary kernel).Lawful (fun _ => True)
      (fun items state => CountAndSum exact items state.n state.sum) Eq where
  fits _ _ := trivial
  empty := countAndSum_empty
  add item _ represents := represents.add item
  merge _ represents otherRepresents := represents.merge otherRepresents
  answer := by
    intro items others state other _ same represents otherRepresents
    obtain ⟨sameCount,sameTotal⟩ := represents.unique otherRepresents same
    show AvgState.query _ = AvgState.query _
    rw [AvgState.query,AvgState.query,sameCount,sameTotal]

theorem foldl_sums (states : List (SumState kernel)) (state : SumState kernel) :
    (states.foldl (sumSummary kernel).merge state).total =
        (states.filter fun state => 0 < state.n).foldl (fun total state => total + state.total)
          state.total ∧
      ((states.foldl (sumSummary kernel).merge state).n = 0 ↔
        state.n = 0 ∧ (states.filter fun state => 0 < state.n) = []) := by
  induction states generalizing state with
  | nil => exact ⟨rfl,(and_iff_left rfl).symm⟩
  | cons other states ih =>
      rw [List.foldl_cons]
      by_cases filled : 0 < other.n
      · have kept : (other :: states).filter (fun state : SumState kernel => 0 < state.n) =
            other :: states.filter fun state => 0 < state.n :=
          List.filter_cons_of_pos (decide_eq_true filled)
        have merged : (sumSummary kernel).merge state other =
            ⟨state.total + other.total,state.n + other.n⟩ := if_pos filled
        rw [kept,merged,(ih _).1,(ih _).2]
        refine ⟨rfl,iff_of_false ?_ ?_⟩
        · intro both
          have none : state.n + other.n = 0 := both.1
          omega
        · intro both
          cases both.2
      · have dropped : (other :: states).filter (fun state : SumState kernel => 0 < state.n) =
            states.filter fun state => 0 < state.n :=
          List.filter_cons_of_neg (by rw [decide_eq_false filled]; exact Bool.false_ne_true)
        have merged : (sumSummary kernel).merge state other = state := if_neg filled
        rw [dropped,merged]
        exact ih state

theorem sum_keeps :
    Keeps .sum params (sumSummary kernel) .fromEmpty (LifetimeUpdate.reading numeric)
      (LifetimeOp.sum : SumState kernel → LifetimeOp kernel) where
  new := rfl
  step update state := by
    cases update with
    | update => exact congrArg LifetimeOp.sum (updateField_eq_feed ..)
    | updateWithExtracted => exact congrArg LifetimeOp.sum (updateValue_eq_feed ..)
  query _ _ := rfl
  fold states := by
    have unwrapped : WindowedOp.sums
        (states.map (LifetimeOp.sum : SumState kernel → LifetimeOp kernel)) = states := by
      rw [WindowedOp.sums,List.filterMap_map]
      exact List.filterMap_some
    obtain ⟨total,empty⟩ := foldl_sums states .default
    have isEmpty : (states.foldl (sumSummary kernel).merge .default).n = 0 ↔
        (states.filter fun state => 0 < state.n).isEmpty = true := by
      rw [empty,List.isEmpty_iff]
      exact and_iff_right rfl
    rw [WindowedOp.foldBuckets,unwrapped,WindowedOp.foldSums]
    show _ = SumState.query (states.foldl (sumSummary kernel).merge .default)
    rw [SumState.query,total]
    simp only [isEmpty]
    rfl

theorem avg_keeps :
    Keeps .avg params (avgSummary kernel) .fromEmpty (LifetimeUpdate.reading numeric)
      (LifetimeOp.avg : AvgState kernel → LifetimeOp kernel) where
  new := rfl
  step update state := by
    cases update with
    | update => exact congrArg LifetimeOp.avg (updateField_eq_feed ..)
    | updateWithExtracted => exact congrArg LifetimeOp.avg (updateValue_eq_feed ..)
  query _ _ := rfl
  fold states := by
    have unwrapped : WindowedOp.avgs
        (states.map (LifetimeOp.avg : AvgState kernel → LifetimeOp kernel)) = states := by
      rw [WindowedOp.avgs,List.filterMap_map]
      exact List.filterMap_some
    have count : (states.foldl (avgSummary kernel).merge .default).n =
        states.foldl (fun n state => n + state.n) 0 :=
      foldl_part (fun _ _ => rfl) states .default
    have total : (states.foldl (avgSummary kernel).merge .default).sum =
        states.foldl (fun sum state => sum + state.sum) kernel.zero :=
      foldl_part (fun _ _ => rfl) states .default
    rw [WindowedOp.foldBuckets,unwrapped,WindowedOp.foldAvgs,← count,← total]
    rfl

/-- The variance, and its root where the root is taken. -/
def varianceSummary (kernel : Kernel) (finish : kernel.Num → kernel.Num) :
    Summary kernel.Num (VarianceState kernel) Value where
  empty := .default
  add := VarianceState.add
  merge := WindowedOp.mergeVariance
  answer state :=
    if state.n < 2 then .null
    else kernel.report (finish (state.m2 / kernel.ofInt (state.n - 1 : Nat)))

theorem moments_mergeVariance {state other : VarianceState kernel} (filled : other.n ≠ 0) :
    (WindowedOp.mergeVariance state other).moments exact =
      (state.moments exact).merge (other.moments exact) := by
  rw [WindowedOp.mergeVariance,if_neg filled]
  simp only [VarianceState.moments,Welford.Moments.merge,exact.add,exact.sub,exact.mul,
    exact.div,exact.ofNat]

theorem variance_lawful [CharZero K] (finish : kernel.Num → kernel.Num) :
    (varianceSummary kernel finish).Lawful (fun _ => True)
      (fun items state =>
        Welford.Summarises (items.map exact.value) (state.moments exact)) Eq where
  fits _ _ := trivial
  empty := by
    have empty : (VarianceState.default : VarianceState kernel).moments exact =
        Welford.Moments.empty := by
      simp only [VarianceState.moments,VarianceState.default,exact.zero,Welford.Moments.empty]
    exact empty.symm ▸ Welford.summarises_empty
  add := by
    intro items state item _ represents
    rw [List.map_append]
    have next := represents.add (exact.value item)
    rw [← VarianceState.moments_add] at next
    exact next
  merge := by
    intro items others state other _ represents otherRepresents
    have count : other.n = (others.map exact.value).length := otherRepresents.count
    rw [List.length_map] at count
    by_cases empty : other.n = 0
    · have none : others = [] := List.eq_nil_of_length_eq_zero (by rw [← count,empty])
      have kept : (varianceSummary kernel finish).merge state other = state := if_pos empty
      rw [none,List.append_nil,kept]
      exact represents
    · have nonempty : others.map exact.value ≠ [] := by
        intro none
        rw [List.map_eq_nil_iff] at none
        rw [none] at count
        exact empty count
      have merged := represents.merge otherRepresents nonempty
      rw [← moments_mergeVariance exact empty,← List.map_append] at merged
      exact merged
  answer := by
    intro items others state other _ same represents otherRepresents
    have count : state.n = other.n := by
      have own : state.n = (items.map exact.value).length := represents.count
      have theirs : other.n = (others.map exact.value).length := otherRepresents.count
      rw [own,theirs,List.length_map,List.length_map,same.length_eq]
    have m2 : state.m2 = other.m2 := by
      have own : exact.value state.m2 = Welford.deviation (items.map exact.value) := represents.m2
      have theirs : exact.value other.m2 = Welford.deviation (others.map exact.value) :=
        otherRepresents.m2
      apply exact.value.injective
      rw [own,theirs,Welford.deviation_perm (same.map exact.value)]
    simp only [varianceSummary,count,m2]

theorem variance_keeps :
    Keeps .variance params (varianceSummary kernel id) .fromEmpty (LifetimeUpdate.reading numeric)
      (LifetimeOp.variance : VarianceState kernel → LifetimeOp kernel) where
  new := rfl
  step update state := by
    cases update with
    | update => exact congrArg LifetimeOp.variance (updateField_eq_feed ..)
    | updateWithExtracted => exact congrArg LifetimeOp.variance (updateValue_eq_feed ..)
  query _ _ := rfl
  fold states := by
    have unwrapped : WindowedOp.variances
        (states.map (LifetimeOp.variance : VarianceState kernel → LifetimeOp kernel)) = states := by
      rw [WindowedOp.variances,List.filterMap_map]
      exact List.filterMap_some
    rw [WindowedOp.foldBuckets,unwrapped]
    rfl

theorem stdDev_keeps :
    Keeps .stdDev params (varianceSummary kernel kernel.sqrt) .fromEmpty
      (LifetimeUpdate.reading numeric)
      (LifetimeOp.stdDev : VarianceState kernel → LifetimeOp kernel) where
  new := rfl
  step update state := by
    cases update with
    | update => exact congrArg LifetimeOp.stdDev (updateField_eq_feed ..)
    | updateWithExtracted => exact congrArg LifetimeOp.stdDev (updateValue_eq_feed ..)
  query _ _ := rfl
  fold states := by
    have unwrapped : WindowedOp.variances
        (states.map (LifetimeOp.stdDev : VarianceState kernel → LifetimeOp kernel)) = states := by
      rw [WindowedOp.variances,List.filterMap_map]
      exact List.filterMap_some
    rw [WindowedOp.foldBuckets,unwrapped]
    rfl

end Exact

/-! ### Extremes -/

/-- The variants whose values can be less than one another. -/
inductive OrderedVariant where
  | i64
  | f64
  | str
  | datetime
  deriving DecidableEq

def orderedVariant : Value → Option OrderedVariant
  | .i64 _ => some .i64
  | .f64 number => if number.isNaN then none else some .f64
  | .str _ => some .str
  | .datetime _ => some .datetime
  | _ => none

def OneVariant (values : List Value) : Prop :=
  ∃ variant, ∀ value ∈ values, orderedVariant value = some variant

/-- The values are the same, or numbers that are equal. -/
def SameValue (first second : Value) : Prop :=
  first = second ∨
    ∃ one other, first = .f64 one ∧ second = .f64 other ∧ one.partialCmp other = some .eq

variable {variant : OrderedVariant}

theorem orderedVariant_f64 {number : F64} (ordered : orderedVariant (.f64 number) = some variant) :
    number.isNaN = false ∧ variant = .f64 := by
  simp only [orderedVariant] at ordered
  split at ordered
  · cases ordered
  · rename_i isNumber
    exact ⟨eq_false_of_ne_true isNumber,(Option.some.inj ordered).symm⟩

/-! The places of the values of one variant. -/

def i64Place : Value → Int
  | .i64 number => number.toInt
  | _ => 0

def f64Place : Value → Int
  | .f64 number => number.orderKey
  | _ => 0

def strPlace : Value → String
  | .str text => text
  | _ => ""

def datetimePlace : Value → Int
  | .datetime timeMs => timeMs.toInt
  | _ => 0

theorem ordered_line (variant : OrderedVariant) :
    ∃ (Line : Type) (_ : LinearOrder Line) (key : Value → Line),
      ∀ first second, orderedVariant first = some variant → orderedVariant second = some variant →
        (valueLt first second = true ↔ key first < key second) ∧
          (key first = key second → SameValue first second) := by
  cases variant with
  | i64 =>
      refine ⟨Int,inferInstance,i64Place,?_⟩
      intro first second isFirst isSecond
      cases first with
      | i64 one => cases second with
        | i64 other =>
            refine ⟨?_,fun same => .inl (congrArg Value.i64 (Int64.toInt_inj.mp same))⟩
            rw [valueLt,decide_eq_true_eq,Int64.lt_iff_toInt_lt]
            rfl
        | f64 => cases (orderedVariant_f64 isSecond).2
        | _ => cases isSecond
      | f64 => cases (orderedVariant_f64 isFirst).2
      | _ => cases isFirst
  | f64 =>
      refine ⟨Int,inferInstance,f64Place,?_⟩
      intro first second isFirst isSecond
      cases first with
      | f64 one => cases second with
        | f64 other =>
            have compared : one.partialCmp other = some (compare one.orderKey other.orderKey) := by
              rw [F64.partialCmp,(orderedVariant_f64 isFirst).1,(orderedVariant_f64 isSecond).1]
              rfl
            refine ⟨?_,fun same => .inr ⟨one,other,rfl,rfl,?_⟩⟩
            · rw [valueLt,decide_eq_true_eq,compared,Option.some.injEq,compare_lt_iff_lt]
              rfl
            · rw [compared,Option.some.injEq,compare_eq_iff_eq]
              exact same
        | _ => cases isSecond
      | _ => cases isFirst
  | str =>
      refine ⟨String,inferInstance,strPlace,?_⟩
      intro first second isFirst isSecond
      cases first with
      | str one => cases second with
        | str other =>
            refine ⟨?_,fun same => .inl (congrArg Value.str same)⟩
            rw [valueLt,decide_eq_true_eq]
            rfl
        | f64 => cases (orderedVariant_f64 isSecond).2
        | _ => cases isSecond
      | f64 => cases (orderedVariant_f64 isFirst).2
      | _ => cases isFirst
  | datetime =>
      refine ⟨Int,inferInstance,datetimePlace,?_⟩
      intro first second isFirst isSecond
      cases first with
      | datetime one => cases second with
        | datetime other =>
            refine ⟨?_,fun same => .inl (congrArg Value.datetime (Int64.toInt_inj.mp same))⟩
            rw [valueLt,decide_eq_true_eq,Int64.lt_iff_toInt_lt]
            rfl
        | f64 => cases (orderedVariant_f64 isSecond).2
        | _ => cases isSecond
      | f64 => cases (orderedVariant_f64 isFirst).2
      | _ => cases isFirst

namespace Extreme

theorem replaces_line (extreme : Extreme) (variant : OrderedVariant) :
    ∃ (Line : Type) (_ : LinearOrder Line) (key : Value → Line),
      ∀ first second, orderedVariant first = some variant → orderedVariant second = some variant →
        (extreme.replaces first second = true ↔ key first < key second) ∧
          (key first = key second → SameValue first second) := by
  obtain ⟨Line,order,key,line⟩ := ordered_line variant
  cases extreme with
  | min => exact ⟨Line,order,key,line⟩
  | max =>
      refine ⟨Lineᵒᵈ,inferInstance,fun value => OrderDual.toDual (key value),?_⟩
      intro first second isFirst isSecond
      refine ⟨?_,fun same => (line first second isFirst isSecond).2 (OrderDual.toDual.injective same)⟩
      rw [OrderDual.toDual_lt_toDual]
      exact (line second first isSecond isFirst).1

def summary (extreme : Extreme) : Summary Value (Option Value) Value where
  empty := none
  add := extreme.step
  merge current other :=
    match other with
    | none => current
    | some value => extreme.step value current
  answer current := current.getD .null

def Elected (extreme : Extreme) (items : List Value) (current : Option Value) : Prop :=
  match current with
  | none => items = []
  | some best => best ∈ items ∧ ∀ item ∈ items, extreme.replaces item best = false

variable {extreme : Extreme} {items others : List Value} {best challenger : Value}

theorem elected_step (fits : OneVariant (items ++ others))
    (elected : extreme.Elected items (some best))
    (otherElected : extreme.Elected others (some challenger)) :
    extreme.Elected (items ++ others) (extreme.step challenger (some best)) := by
  obtain ⟨variant,ordered⟩ := fits
  obtain ⟨Line,order,key,line⟩ := extreme.replaces_line variant
  have own : ∀ item ∈ items, orderedVariant item = some variant :=
    fun item member => ordered item (List.mem_append_left _ member)
  have theirs : ∀ item ∈ others, orderedVariant item = some variant :=
    fun item member => ordered item (List.mem_append_right _ member)
  have bestOrdered := own best elected.1
  have challengerOrdered := theirs challenger otherElected.1
  have notBelow : ∀ {first second : Value}, orderedVariant first = some variant →
      orderedVariant second = some variant →
      (extreme.replaces first second = false ↔ key second ≤ key first) := by
    intro first second isFirst isSecond
    rw [← Bool.not_eq_true,(line first second isFirst isSecond).1,not_lt]
  have overOwn : ∀ item ∈ items, key best ≤ key item := fun item member =>
    (notBelow (own item member) bestOrdered).mp (elected.2 item member)
  have overTheirs : ∀ item ∈ others, key challenger ≤ key item := fun item member =>
    (notBelow (theirs item member) challengerOrdered).mp (otherElected.2 item member)
  by_cases wins : extreme.replaces challenger best = true
  · have below := (line challenger best challengerOrdered bestOrdered).1.mp wins
    rw [step,if_pos wins]
    refine ⟨List.mem_append_right _ otherElected.1,?_⟩
    intro item member
    rw [notBelow (ordered item member) challengerOrdered]
    rcases List.mem_append.mp member with inOwn | inTheirs
    · exact le_trans (le_of_lt below) (overOwn item inOwn)
    · exact overTheirs item inTheirs
  · have above := (notBelow challengerOrdered bestOrdered).mp (eq_false_of_ne_true wins)
    rw [step,if_neg wins]
    refine ⟨List.mem_append_left _ elected.1,?_⟩
    intro item member
    rw [notBelow (ordered item member) bestOrdered]
    rcases List.mem_append.mp member with inOwn | inTheirs
    · exact overOwn item inOwn
    · exact le_trans above (overTheirs item inTheirs)

theorem elected_singleton {item : Value} (fits : OneVariant [item]) :
    extreme.Elected [item] (some item) := by
  obtain ⟨variant,ordered⟩ := fits
  obtain ⟨Line,order,key,line⟩ := extreme.replaces_line variant
  have isOrdered := ordered item List.mem_cons_self
  refine ⟨List.mem_cons_self,?_⟩
  intro other member
  rw [List.mem_singleton.mp member,← Bool.not_eq_true,(line item item isOrdered isOrdered).1]
  exact lt_irrefl _

theorem elected_unique {current other : Option Value} (fits : OneVariant others)
    (same : items.Perm others) (elected : extreme.Elected items current)
    (otherElected : extreme.Elected others other) :
    SameValue (current.getD .null) (other.getD .null) := by
  cases current with
  | none =>
      have none : items = [] := elected
      subst none
      cases other with
      | none => exact .inl rfl
      | some best =>
          have member := otherElected.1
          rw [List.nil_perm.mp same] at member
          cases member
  | some best => cases other with
    | none =>
        have none : others = [] := otherElected
        subst none
        have member := elected.1
        rw [List.perm_nil.mp same] at member
        cases member
    | some rival =>
        obtain ⟨variant,ordered⟩ := fits
        obtain ⟨Line,order,key,line⟩ := extreme.replaces_line variant
        have bestOrdered := ordered best (same.mem_iff.mp elected.1)
        have rivalOrdered := ordered rival otherElected.1
        have oneWay := elected.2 rival (same.mem_iff.mpr otherElected.1)
        have otherWay := otherElected.2 best (same.mem_iff.mp elected.1)
        rw [← Bool.not_eq_true,(line rival best rivalOrdered bestOrdered).1,not_lt] at oneWay
        rw [← Bool.not_eq_true,(line best rival bestOrdered rivalOrdered).1,not_lt] at otherWay
        exact (line best rival bestOrdered rivalOrdered).2 (le_antisymm oneWay otherWay)

theorem OneVariant.sublist {items others : List Value} (fits : OneVariant items)
    (sub : ∀ item ∈ others, item ∈ items) : OneVariant others := by
  obtain ⟨variant,ordered⟩ := fits
  exact ⟨variant,fun value member => ordered value (sub value member)⟩

theorem lawful (extreme : Extreme) :
    extreme.summary.Lawful OneVariant extreme.Elected SameValue where
  fits fits sub := OneVariant.sublist fits fun _ member => sub.subset member
  empty := rfl
  add := by
    intro items current item fits elected
    cases current with
    | none =>
        have none : items = [] := elected
        subst none
        exact elected_singleton fits
    | some best =>
        have alone := @elected_singleton extreme item
          (OneVariant.sublist fits fun _ member => List.mem_append_right _ member)
        exact elected_step fits elected alone
  merge := by
    intro items others current other fits elected otherElected
    cases other with
    | none =>
        have none : others = [] := otherElected
        rw [none,List.append_nil]
        exact elected
    | some challenger => cases current with
      | none =>
          have none : items = [] := elected
          rw [none,List.nil_append]
          exact otherElected
      | some best => exact elected_step fits elected otherElected
  answer fits same elected otherElected := elected_unique fits same elected otherElected

theorem keeps (extreme : Extreme) (params : SketchParams) :
    Keeps extreme.kind params extreme.summary .fromEmpty (LifetimeUpdate.reading notNull)
      (extreme.op : Option Value → LifetimeOp kernel) where
  new := by cases extreme <;> rfl
  step update current := by
    cases extreme with
    | min =>
        have wrapped := fun seen => @feed_wrap _ _ _ min.step MinState.lower MinState.mk
          lower_eq seen current
        cases update with
        | update => exact congrArg LifetimeOp.min ((updateField_eq_feed ..).trans (wrapped _))
        | updateWithExtracted =>
            exact congrArg LifetimeOp.min ((updateValue_eq_feed ..).trans (wrapped _))
    | max =>
        have wrapped := fun seen => @feed_wrap _ _ _ max.step MaxState.raise MaxState.mk
          raise_eq seen current
        cases update with
        | update => exact congrArg LifetimeOp.max ((updateField_eq_feed ..).trans (wrapped _))
        | updateWithExtracted =>
            exact congrArg LifetimeOp.max ((updateValue_eq_feed ..).trans (wrapped _))
  query current queryTimeMs := query_op extreme current queryTimeMs
  fold states := by
    have merged : states.foldl extreme.summary.merge none =
        extreme.currentOf (states.filterMap id) := by
      rw [currentOf]
      generalize (none : Option Value) = current
      induction states generalizing current with
      | nil => rfl
      | cons state states ih =>
          rw [List.foldl_cons,ih]
          cases state <;> rfl
    show _ = (states.foldl extreme.summary.merge none).getD .null
    rw [merged]
    cases extreme with
    | min =>
        have each : WindowedOp.leasts
            (states.map (min.op : Option Value → LifetimeOp kernel)) = states.filterMap id := by
          rw [WindowedOp.leasts,List.filterMap_map]
          rfl
        show MinState.query (List.foldl _ _ (WindowedOp.leasts _)) = _
        rw [each,foldl_lower]
        rfl
    | max =>
        have each : WindowedOp.greatests
            (states.map (max.op : Option Value → LifetimeOp kernel)) = states.filterMap id := by
          rw [WindowedOp.greatests,List.filterMap_map]
          rfl
        show MaxState.query (List.foldl _ _ (WindowedOp.greatests _)) = _
        rw [each,foldl_raise]
        rfl

end Extreme

/-- The values have one variant. -/
def SameVariant (values : List Value) : Prop :=
  ∀ first ∈ values, ∀ second ∈ values, first.ctorIdx = second.ctorIdx

/-- Any two of the values are the same, or one is less than the other. -/
def Comparable (values : List Value) : Prop :=
  ∀ first ∈ values, ∀ second ∈ values,
    valueLt first second = true ∨ valueLt second first = true ∨ SameValue first second

/-- The value is less than no other, and no other is less. -/
def Isolated (value : Value) : Prop :=
  ∀ other, valueLt value other = false ∧ valueLt other value = false

theorem isolated_of_unordered (unordered : orderedVariant value = none) : Isolated value := by
  intro other
  cases value with
  | i64 | str | datetime => cases unordered
  | f64 number =>
      have isNaN : number.isNaN = true := by
        by_contra isNumber
        rw [orderedVariant,if_neg isNumber] at unordered
        cases unordered
      cases other with
      | f64 => simp [valueLt,F64.partialCmp,isNaN]
      | _ => exact ⟨rfl,rfl⟩
  | _ => cases other <;> exact ⟨rfl,rfl⟩

def OrderedVariant.index : OrderedVariant → Nat
  | .str => 1
  | .i64 => 2
  | .f64 => 3
  | .datetime => 6

theorem ctorIdx_of_ordered (ordered : orderedVariant value = some variant) :
    value.ctorIdx = variant.index := by
  cases value with
  | f64 number => rw [(orderedVariant_f64 ordered).2]; rfl
  | i64 | str | datetime => cases ordered; rfl
  | _ => cases ordered

theorem ordered_unique {first second : Value} {other : OrderedVariant}
    (isFirst : orderedVariant first = some variant) (isSecond : orderedVariant second = some other)
    (same : first.ctorIdx = second.ctorIdx) : other = variant := by
  rw [ctorIdx_of_ordered isFirst,ctorIdx_of_ordered isSecond] at same
  cases variant <;> cases other <;> first | rfl | cases same

/-- Numbers that are equal are less than the same values. -/
theorem valueLt_of_eq {one other : F64} (same : one.partialCmp other = some .eq) (third : Value) :
    valueLt (.f64 one) third = valueLt (.f64 other) third ∧
      valueLt third (.f64 one) = valueLt third (.f64 other) := by
  unfold F64.partialCmp at same
  split at same
  · cases same
  · rename_i numbers
    rw [Option.some.injEq,compare_eq_iff_eq] at same
    cases third with
    | f64 number => simp_all [valueLt,F64.partialCmp]
    | _ => exact ⟨rfl,rfl⟩

/-- An isolated value is no value that is less than another or than which another is less. -/
theorem Isolated.not_same {best third : Value} (isolated : Isolated value)
    (compared : valueLt best third = true ∨ valueLt third best = true) :
    ¬SameValue value best ∧ ¬SameValue best value := by
  have differs : value ≠ best := by
    rintro rfl
    rw [(isolated third).1,(isolated third).2] at compared
    exact compared.elim Bool.false_ne_true Bool.false_ne_true
  have notEqual : ∀ one other, value = .f64 one → best = .f64 other →
      (∀ third, valueLt (.f64 one) third = valueLt (.f64 other) third ∧
        valueLt third (.f64 one) = valueLt third (.f64 other)) → False := by
    rintro one other rfl rfl alike
    rw [← (alike third).1,← (alike third).2,(isolated third).1,(isolated third).2] at compared
    exact compared.elim Bool.false_ne_true Bool.false_ne_true
  constructor
  · rintro (same | ⟨one,other,isOne,isOther,equal⟩)
    · exact differs same
    · exact notEqual one other isOne isOther (valueLt_of_eq equal)
  · rintro (same | ⟨one,other,isOne,isOther,equal⟩)
    · exact differs same.symm
    · exact notEqual other one isOther isOne fun third =>
        ⟨(valueLt_of_eq equal third).1.symm,(valueLt_of_eq equal third).2.symm⟩

theorem isolated_of_incomparable {first second : Value}
    (same : first.ctorIdx = second.ctorIdx) (notLess : valueLt first second = false)
    (notGreater : valueLt second first = false) (differ : ¬SameValue first second) :
    Isolated first ∨ Isolated second := by
  cases isFirst : orderedVariant first with
  | none => exact .inl (isolated_of_unordered isFirst)
  | some variant => cases isSecond : orderedVariant second with
    | none => exact .inr (isolated_of_unordered isSecond)
    | some other =>
        rw [ordered_unique isFirst isSecond same] at isSecond
        obtain ⟨Line,order,key,line⟩ := ordered_line variant
        exfalso
        rcases lt_trichotomy (key first) (key second) with less | equal | greater
        · rw [(line first second isFirst isSecond).1.mpr less] at notLess
          cases notLess
        · exact differ ((line first second isFirst isSecond).2 equal)
        · rw [(line second first isSecond isFirst).1.mpr greater] at notGreater
          cases notGreater

/-- Values of one variant that can be compared are of an ordered one, or all the same. -/
theorem comparable_cases {values : List Value} (sameVariant : SameVariant values)
    (comparable : Comparable values) :
    OneVariant values ∨ ∃ value, Isolated value ∧ ∀ other ∈ values, other = value := by
  have sameOf : ∀ {first second}, orderedVariant first = none ∨ orderedVariant second = none →
      first ∈ values → second ∈ values → second = first := by
    intro first second unordered inFirst inSecond
    have isolated : Isolated first ∨ Isolated second :=
      unordered.imp isolated_of_unordered isolated_of_unordered
    rcases comparable first inFirst second inSecond with less | greater | same | equal
    · rcases isolated with alone | alone
      · rw [(alone second).1] at less
        cases less
      · rw [(alone first).2] at less
        cases less
    · rcases isolated with alone | alone
      · rw [(alone second).2] at greater
        cases greater
      · rw [(alone first).1] at greater
        cases greater
    · exact same.symm
    · obtain ⟨one,other,rfl,rfl,equal⟩ := equal
      unfold F64.partialCmp at equal
      split at equal
      · cases equal
      · rename_i numbers
        simp only [orderedVariant] at unordered
        simp_all
  cases values with
  | nil => exact .inl ⟨.i64,fun value member => nomatch member⟩
  | cons head rest =>
      cases isHead : orderedVariant head with
      | none =>
          exact .inr ⟨head,isolated_of_unordered isHead,fun other member =>
            sameOf (.inl isHead) List.mem_cons_self member⟩
      | some variant =>
          refine .inl ⟨variant,fun value member => ?_⟩
          cases isValue : orderedVariant value with
          | none =>
              have same := sameOf (.inr isValue) List.mem_cons_self member
              rw [same,isHead] at isValue
              cases isValue
          | some other =>
              rw [ordered_unique isHead isValue (sameVariant _ List.mem_cons_self _ member)]

namespace Extreme

variable {extreme : Extreme}
variable {value : Value}

theorem not_replaces (isolated : Isolated value) (other : Value) :
    extreme.replaces other value = false := by
  cases extreme with
  | min => exact (isolated other).2
  | max => exact (isolated other).1

theorem currentOf_isolated (isolated : Isolated value) (rest : List Value) :
    extreme.currentOf (value :: rest) = some value := by
  unfold currentOf
  rw [List.foldl_cons]
  show rest.foldl _ (some value) = some value
  induction rest with
  | nil => rfl
  | cons other rest ih =>
      rw [List.foldl_cons,step,if_neg (by rw [not_replaces isolated]; exact Bool.false_ne_true)]
      exact ih

/-- The current value is the first one, or one that was compared with another. -/
theorem currentOf_cons (start : Value) (rest : List Value) :
    ∃ best, extreme.currentOf (start :: rest) = some best ∧
      (best = start ∨ ∃ other, valueLt best other = true ∨ valueLt other best = true) := by
  unfold currentOf
  rw [List.foldl_cons]
  show ∃ best, rest.foldl _ (some start) = some best ∧ _
  induction rest using List.reverseRecOn with
  | nil => exact ⟨start,rfl,.inl rfl⟩
  | append_singleton rest value ih =>
      obtain ⟨best,held,origin⟩ := ih
      rw [List.foldl_concat,held,step]
      by_cases replaced : extreme.replaces value best = true
      · rw [if_pos replaced]
        refine ⟨value,rfl,.inr ⟨best,?_⟩⟩
        cases extreme with
        | min => exact .inl replaced
        | max => exact .inr replaced
      · rw [if_neg replaced]
        exact ⟨best,rfl,origin⟩

/-- What comes first decides between values that cannot be compared. -/
theorem comparable_of_agreeing {values : List Value} (sameVariant : SameVariant values)
    (agreeing : ∀ first ∈ values, ∀ second ∈ values, ∃ rest others,
      SameValue ((extreme.currentOf (first :: rest)).getD .null)
        ((extreme.currentOf (second :: others)).getD .null)) :
    Comparable values := by
  intro first inFirst second inSecond
  by_contra incomparable
  rw [not_or,not_or,Bool.not_eq_true,Bool.not_eq_true] at incomparable
  obtain ⟨notLess,notGreater,differ⟩ := incomparable
  obtain ⟨rest,others,same⟩ := agreeing first inFirst second inSecond
  rcases isolated_of_incomparable (sameVariant first inFirst second inSecond) notLess notGreater
    differ with alone | alone
  · obtain ⟨best,isBest,origin⟩ := @currentOf_cons extreme second others
    rw [currentOf_isolated alone,isBest] at same
    rcases origin with rfl | ⟨third,compared⟩
    · exact differ same
    · exact (alone.not_same compared).1 same
  · obtain ⟨best,isBest,origin⟩ := @currentOf_cons extreme first rest
    rw [currentOf_isolated alone,isBest] at same
    rcases origin with rfl | ⟨third,compared⟩
    · exact differ same
    · exact (alone.not_same compared).2 same

theorem currentOf_alike (isolated : Isolated value) {values : List Value}
    (alike : ∀ other ∈ values, other = value) :
    extreme.currentOf values = if values.isEmpty then none else some value := by
  cases values with
  | nil => rfl
  | cons head rest =>
      rw [alike head List.mem_cons_self,currentOf_isolated isolated]
      rfl

/-- Groups of one isolated value elect it, if there is any. -/
theorem currentOf_groups_alike (isolated : Isolated value) {groups : List (List Value)}
    (alike : ∀ other ∈ groups.flatten, other = value) :
    extreme.currentOf (groups.filterMap extreme.currentOf) = extreme.currentOf groups.flatten := by
  have each : ∀ group ∈ groups, ∀ other ∈ group, other = value := fun group isGroup other member =>
    alike other (List.mem_flatten.mpr ⟨group,isGroup,member⟩)
  have elected : ∀ best ∈ groups.filterMap extreme.currentOf, best = value := by
    intro best member
    obtain ⟨group,isGroup,isBest⟩ := List.mem_filterMap.mp member
    rw [currentOf_alike isolated (each group isGroup)] at isBest
    split at isBest
    · cases isBest
    · exact (Option.some.inj isBest).symm
  rw [currentOf_alike isolated elected,currentOf_alike isolated alike]
  have empty : (groups.filterMap extreme.currentOf).isEmpty = groups.flatten.isEmpty := by
    rw [Bool.eq_iff_iff,List.isEmpty_iff,List.isEmpty_iff,List.filterMap_eq_nil_iff,
      List.flatten_eq_nil_iff]
    refine forall₂_congr fun group isGroup => ?_
    rw [currentOf_alike isolated (each group isGroup)]
    cases group <;> simp
  rw [empty]

end Extreme

/-! ### Categories -/

/-- The cap of a histogram and of its operator are the same. -/
def categorySummary {β : Type} (answer : EntropyHistogram → β) :
    Summary String EntropyHistogram β where
  empty := .new 1024
  add category histogram :=
    (EntropyStateWrap.insertGuarded category ⟨histogram,1024⟩).inner
  merge := EntropyHistogram.merge
  answer := answer

theorem insertGuarded_wrap {β : Type} (answer : EntropyHistogram → β) (category : String)
    (histogram : EntropyHistogram) :
    EntropyStateWrap.insertGuarded category ⟨histogram,1024⟩ =
      ⟨(categorySummary answer).add category histogram,1024⟩ := by
  show _ = (⟨(EntropyStateWrap.insertGuarded category ⟨histogram,1024⟩).inner,1024⟩ :
    EntropyStateWrap)
  rw [EntropyStateWrap.insertGuarded]
  split <;> rfl

theorem insertAll_wrap {β : Type} (answer : EntropyHistogram → β) (categories : List String) :
    (EntropyStateWrap.new 1024).insertAll categories =
      ⟨(categorySummary answer).after categories,1024⟩ :=
  List.foldl_hom (fun histogram => (⟨histogram,1024⟩ : EntropyStateWrap))
    fun histogram category => insertGuarded_wrap answer category histogram

def entropySummary (kernel : Kernel) : Summary String EntropyHistogram Value :=
  categorySummary fun histogram => kernel.report (histogram.entropyBits kernel)

/-- The name that stands for the others is no category, or the only one. -/
def Unreserved (categories : List String) : Prop :=
  EntropyHistogram.spillKey ∈ categories →
    ∀ category ∈ categories, category = EntropyHistogram.spillKey

/-- At most as many categories as the cap. -/
def FewCategories (categories : List String) : Prop :=
  categories.toFinset.card ≤ 1024 ∧ Unreserved categories

structure CountsCategories (categories : List String) (histogram : EntropyHistogram) : Prop where
  tallies : Tally.Tallies 0 categories histogram.counts
  total : histogram.total = min categories.length (2 ^ 64 - 1)
  cap : histogram.cap = 1024

theorem countsCategories_add {categories : List String} {histogram : EntropyHistogram}
    {category : String} (fits : FewCategories (categories ++ [category]))
    (counts : CountsCategories categories histogram) :
    CountsCategories (categories ++ [category])
      (EntropyStateWrap.insertGuarded category ⟨histogram,1024⟩).inner := by
  have each : CountsEach categories ⟨histogram,1024⟩ := ⟨counts.cap.ge,counts.tallies,counts.total⟩
  have reservedLast : category ∈ categories ∨ EntropyHistogram.spillKey ∉ categories := by
    by_cases reserved : EntropyHistogram.spillKey ∈ categories
    · left
      rw [fits.2 (List.mem_append_left _ reserved) category
        (List.mem_append_right _ (List.mem_singleton_self category))]
      exact reserved
    · exact .inr reserved
  obtain ⟨next,-⟩ := each.insertGuarded fits.1 reservedLast
  exact ⟨next.tallies,next.total,(insertGuarded_cap _ category).trans counts.cap⟩

theorem countsCategories_merge {categories others : List String}
    {histogram other : EntropyHistogram} (counts : CountsCategories categories histogram)
    (otherCounts : CountsCategories others other) :
    CountsCategories (categories ++ others) (histogram.merge other) where
  tallies := by
    have merged := counts.tallies.merge otherCounts.tallies
    simp only [Tally.addAll,Nat.mod_zero] at merged
    exact merged
  total := by
    rw [List.length_append]
    show min (histogram.total + other.total) (2 ^ 64 - 1) = _
    rw [counts.total,otherCounts.total]
    omega
  cap := counts.cap

theorem category_lawful {β : Type} {answer : EntropyHistogram → β}
    (ofCounts : ∀ {first second : EntropyHistogram}, first.counts = second.counts →
      first.total = second.total → answer first = answer second) :
    (categorySummary answer).Lawful FewCategories CountsCategories Eq where
  fits := by
    intro items others fits sub
    refine ⟨few_of_subset fits.1 fun item member => sub.subset member,?_⟩
    intro reserved category member
    exact fits.2 (sub.subset reserved) category (sub.subset member)
  empty := ⟨Tally.tallies_empty,rfl,rfl⟩
  add _ fits counts := countsCategories_add fits counts
  merge _ counts otherCounts := countsCategories_merge counts otherCounts
  answer := by
    intro items others state other _ same counts otherCounts
    refine ofCounts (counts.tallies.unique otherCounts.tallies same) ?_
    rw [counts.total,otherCounts.total,same.length_eq]

theorem entropyBits_congr (kernel : Kernel) {first second : EntropyHistogram}
    (sameCounts : first.counts = second.counts) (sameTotal : first.total = second.total) :
    kernel.report (first.entropyBits kernel) = kernel.report (second.entropyBits kernel) := by
  rw [EntropyHistogram.entropyBits,EntropyHistogram.entropyBits,sameTotal,sameCounts]

theorem entropy_lawful (kernel : Kernel) :
    (entropySummary kernel).Lawful FewCategories CountsCategories Eq :=
  category_lawful (entropyBits_congr kernel)

theorem entropy_keeps :
    Keeps .entropy params (entropySummary kernel) .fromFirst
      (LifetimeUpdate.reading (valueToKeyString kernel))
      (fun histogram => (.entropy ⟨histogram,1024⟩ : LifetimeOp kernel)) where
  new := rfl
  step update histogram := by
    have wrapped := fun seen => @feed_wrap _ _ _ (entropySummary kernel).add
      EntropyStateWrap.insertGuarded (fun state => ⟨state,1024⟩) (insertGuarded_wrap _) seen
      histogram
    cases update with
    | update => exact congrArg LifetimeOp.entropy ((updateField_eq_feed ..).trans (wrapped _))
    | updateWithExtracted =>
        exact congrArg LifetimeOp.entropy ((updateValue_eq_feed ..).trans (wrapped _))
  query _ _ := rfl
  fold states := by
    have unwrapped : WindowedOp.entropies
        (states.map fun histogram => (.entropy ⟨histogram,1024⟩ : LifetimeOp kernel)) =
          states := by
      rw [WindowedOp.entropies,List.filterMap_map]
      exact List.filterMap_some
    rw [WindowedOp.foldBuckets,unwrapped]
    cases states <;> rfl

def distinctSummary (kernel : Kernel) : Summary Value kernel.CountDistinct Value where
  empty := kernel.newCountDistinct
  add value := kernel.addHash (kernel.hashValue value)
  merge := kernel.mergeCountDistinct
  answer state := Kernel.reportCount (kernel.estimate state)

theorem distinct_keeps (none : kernel.estimate kernel.newCountDistinct = 0) :
    Keeps .countDistinct params (distinctSummary kernel) .fromFirst (LifetimeUpdate.reading notNull)
      (fun state => (.countDistinct ⟨state⟩ : LifetimeOp kernel)) where
  new := rfl
  step update state := by
    have wrapped := fun seen => @feed_wrap _ _ _ (distinctSummary kernel).add
      CountDistinctStateWrap.insert CountDistinctStateWrap.mk (fun _ _ => rfl) seen state
    cases update with
    | update => exact congrArg LifetimeOp.countDistinct ((updateField_eq_feed ..).trans (wrapped _))
    | updateWithExtracted =>
        exact congrArg LifetimeOp.countDistinct ((updateValue_eq_feed ..).trans (wrapped _))
  query _ _ := rfl
  fold states := by
    have unwrapped : WindowedOp.distincts
        (states.map fun state => (.countDistinct ⟨state⟩ : LifetimeOp kernel)) = states := by
      rw [WindowedOp.distincts,List.filterMap_map]
      exact List.filterMap_some
    rw [WindowedOp.foldBuckets,unwrapped]
    cases states with
    | nil => exact congrArg Kernel.reportCount none.symm
    | cons first rest => rfl

def percentileSummary (kernel : Kernel) (q : kernel.Num) :
    Summary kernel.Num kernel.Percentile Value where
  empty := kernel.newPercentile
  add := kernel.insertPercentile
  merge := kernel.mergePercentile
  answer state := ((kernel.quantile q state).map kernel.report).getD .null

def quantileIn (kernel : Kernel) (params : SketchParams) : kernel.Num :=
  (params.percentileQ.map kernel.ofF64).getD kernel.half

theorem percentile_keeps
    (none : kernel.quantile (quantileIn kernel params) kernel.newPercentile = none) :
    Keeps .percentile params (percentileSummary kernel (quantileIn kernel params)) .fromFirst
      (LifetimeUpdate.reading numeric)
      (fun state => (.percentile ⟨state,quantileIn kernel params⟩ : LifetimeOp kernel)) where
  new := rfl
  step update state := by
    have wrapped := fun seen => @feed_wrap _ _ _
      (percentileSummary kernel (quantileIn kernel params)).add PercentileStateWrap.insert
      (fun state => ⟨state,quantileIn kernel params⟩) (fun _ _ => rfl) seen state
    cases update with
    | update => exact congrArg LifetimeOp.percentile ((updateField_eq_feed ..).trans (wrapped _))
    | updateWithExtracted =>
        exact congrArg LifetimeOp.percentile ((updateValue_eq_feed ..).trans (wrapped _))
  query _ _ := rfl
  fold states := by
    have unwrapped : WindowedOp.percentiles
        (states.map fun state =>
          (.percentile ⟨state,quantileIn kernel params⟩ : LifetimeOp kernel)) =
            states.map fun state => ⟨state,quantileIn kernel params⟩ := by
      rw [WindowedOp.percentiles,List.filterMap_map]
      exact congrFun List.filterMap_eq_map states
    have inner : (states.map fun state =>
        (⟨state,quantileIn kernel params⟩ : PercentileStateWrap kernel)).map
          PercentileStateWrap.inner = states := by
      rw [List.map_map]
      exact List.map_id states
    rw [WindowedOp.foldBuckets,unwrapped,WindowedOp.foldPercentiles,inner]
    cases states with
    | nil =>
        show Value.null = ((kernel.quantile _ kernel.newPercentile).map kernel.report).getD .null
        rw [none]
        rfl
    | cons first rest =>
        rw [List.getLast?_map,List.getLast?_cons]
        rfl

def topKSummary (kernel : Kernel) (k : Nat) : Summary TopKValue kernel.TopK Value where
  empty := kernel.newTopK k
  add := kernel.insertTopK
  merge := kernel.mergeTopK
  answer state := .json (.array (kernel.topEntries state))

def entriesIn (params : SketchParams) : Nat := Nat.max (params.topKK.getD 10) 1

theorem topK_keeps (none : kernel.topEntries (kernel.newTopK (entriesIn params)) = []) :
    Keeps .topK params (topKSummary kernel (entriesIn params)) .fromFirst
      (LifetimeUpdate.reading topKValueOf)
      (fun state => (.topK ⟨state⟩ : LifetimeOp kernel)) where
  new := rfl
  step update state := by
    have wrapped := fun seen => @feed_wrap _ _ _ (topKSummary kernel (entriesIn params)).add
      TopKStateWrap.insert TopKStateWrap.mk (fun _ _ => rfl) seen state
    cases update with
    | update => exact congrArg LifetimeOp.topK ((updateField_eq_feed ..).trans (wrapped _))
    | updateWithExtracted =>
        exact congrArg LifetimeOp.topK ((updateValue_eq_feed ..).trans (wrapped _))
  query _ _ := rfl
  fold states := by
    have unwrapped : WindowedOp.topKs
        (states.map fun state => (.topK ⟨state⟩ : LifetimeOp kernel)) = states := by
      rw [WindowedOp.topKs,List.filterMap_map]
      exact List.filterMap_some
    rw [WindowedOp.foldBuckets,unwrapped]
    cases states with
    | nil => exact congrArg (fun entries => Value.json (.array entries)) none.symm
    | cons first rest => rfl

end Beava.Agg
