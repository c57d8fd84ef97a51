/-
Operators with a window.

A windowed operator keeps one operator without a window per bucket of time, for
the latest buckets, and folds the buckets of the window when it is asked.  The
kinds that can be wrapped are listed apart from the kinds that a registration
refuses a window for.
-/

import Beava.Agg.Op
import Beava.Lib.LatestKeys

namespace Beava.Agg

open Beava.Core Beava.Apply

variable {kernel : Kernel} {Expr : Type}

instance linearOrderInt64 : LinearOrder Int64 where
  le_refl := Int64.le_refl
  le_trans _ _ _ := Int64.le_trans
  le_antisymm _ _ := Int64.le_antisymm
  le_total := Int64.le_total
  lt_iff_le_not_ge _ _ := by
    rw [Int64.lt_iff_toInt_lt,Int64.le_iff_toInt_le,Int64.le_iff_toInt_le]
    exact lt_iff_le_not_ge
  toDecidableLE := inferInstance
  toDecidableEq := inferInstance

/-- `evaluate_where_predicate`, with no predicate holding always. -/
def evaluateWhere (env : Env Expr) (whereExpr : Option Expr) (row : Row) : Bool :=
  match whereExpr with
  | none => true
  | some ast => (env.eval ast row).isTrue

/-- `update_with_row` of an operator without a window. -/
def LifetimeOp.updateWithRow (env : Env Expr) (row : Row) (nowMs : Int64) (field : Option String)
    (whereExpr : Option Expr) : LifetimeOp kernel → LifetimeOp kernel :=
  LifetimeOp.update row nowMs field (evaluateWhere env whereExpr row)

/-! ### Buckets -/

structure WindowedOp (kernel : Kernel) where
  innerKind : AggKind
  bucketMs : Nat
  windowMs : Nat
  buckets : List (Int64 × LifetimeOp kernel)
  maxBuckets : Nat
  sketchParams : SketchParams

namespace WindowedOp

variable {α : Type}

def bucketMsOf (windowMs : Nat) : Nat := (windowMs + 63) / 64

def newWithParams (kind : AggKind) (windowMs : Nat) (params : SketchParams) : WindowedOp kernel :=
  { innerKind := kind
    bucketMs := bucketMsOf windowMs
    windowMs := windowMs
    buckets := []
    maxBuckets := 64
    sketchParams := params }

/-- The start of the bucket of a time, for buckets of some width. -/
def epochOf (bucketMs : Nat) (nowMs : Int64) : Int64 :=
  let width := (Int64.ofNat bucketMs).toInt
  Int64.ofInt (nowMs.toInt / width * width)

/-- `bucket_epoch`. -/
def bucketEpoch (op : WindowedOp kernel) (nowMs : Int64) : Int64 := epochOf op.bucketMs nowMs

/-- The bucket of the time is changed; it is made, and the oldest bucket dropped at
the cap, when it is not there. -/
def route (nowMs : Int64) (change : LifetimeOp kernel → LifetimeOp kernel)
    (op : WindowedOp kernel) : WindowedOp kernel :=
  { op with
    buckets := LatestKeys.touch op.maxBuckets (.newLifetime op.innerKind op.sketchParams)
      (op.bucketEpoch nowMs) change op.buckets }

def update (row : Row) (nowMs : Int64) (field : Option String) (whereMatched : Bool) :
    WindowedOp kernel → WindowedOp kernel :=
  route nowMs (.update row nowMs field whereMatched)

def updateWithRow (env : Env Expr) (row : Row) (nowMs : Int64) (field : Option String)
    (whereExpr : Option Expr) : WindowedOp kernel → WindowedOp kernel :=
  route nowMs (.updateWithRow env row nowMs field whereExpr)

/-- `update_at`: the bucket gets no row and no name. -/
def updateAt (preVal : Option Value) (extracted : ExtractedFields) (latIdx lonIdx : UInt8)
    (nowMs : Int64) (whereMatched : Bool) : WindowedOp kernel → WindowedOp kernel :=
  route nowMs
    (.updateWithExtractedNoWhere preVal nowMs Row.new none extracted latIdx lonIdx whereMatched)

theorem foldl_route {δ : Type} (timeOf : δ → Int64)
    (step : δ → LifetimeOp kernel → LifetimeOp kernel) (op : WindowedOp kernel) (items : List δ) :
    items.foldl (fun op item => op.route (timeOf item) (step item)) op =
      { op with
        buckets := (items.map fun item => (op.bucketEpoch (timeOf item),item)).foldl
          (fun buckets item =>
            LatestKeys.touch op.maxBuckets (.newLifetime op.innerKind op.sketchParams) item.1
              (step item.2) buckets)
          op.buckets } := by
  induction items generalizing op with
  | nil => rfl
  | cons item rest ih => exact ih _

/-! ### The fold over the buckets -/

def active (windowMs : Nat) (queryTimeMs epoch : Int64) : Bool :=
  let age := queryTimeMs - epoch
  0 ≤ age && age < Int64.ofNat windowMs

def activeOps (op : WindowedOp kernel) (queryTimeMs : Int64) : List (LifetimeOp kernel) :=
  (op.buckets.filter fun bucket => active op.windowMs queryTimeMs bucket.1).map Prod.snd

def counts (ops : List (LifetimeOp kernel)) : List CountState :=
  ops.filterMap fun | .count state => some state | _ => none

def sums (ops : List (LifetimeOp kernel)) : List (SumState kernel) :=
  ops.filterMap fun | .sum state => some state | _ => none

def avgs (ops : List (LifetimeOp kernel)) : List (AvgState kernel) :=
  ops.filterMap fun | .avg state => some state | _ => none

def leasts (ops : List (LifetimeOp kernel)) : List Value :=
  ops.filterMap fun | .min state => state.current | _ => none

def greatests (ops : List (LifetimeOp kernel)) : List Value :=
  ops.filterMap fun | .max state => state.current | _ => none

def variances (ops : List (LifetimeOp kernel)) : List (VarianceState kernel) :=
  ops.filterMap fun | .variance state => some state | .stdDev state => some state | _ => none

def ratios (ops : List (LifetimeOp kernel)) : List RatioState :=
  ops.filterMap fun | .ratio state => some state | _ => none

def distincts (ops : List (LifetimeOp kernel)) : List kernel.CountDistinct :=
  ops.filterMap fun | .countDistinct state => some state.inner | _ => none

def percentiles (ops : List (LifetimeOp kernel)) : List (PercentileStateWrap kernel) :=
  ops.filterMap fun | .percentile state => some state | _ => none

def topKs (ops : List (LifetimeOp kernel)) : List kernel.TopK :=
  ops.filterMap fun | .topK state => some state.inner | _ => none

def entropies (ops : List (LifetimeOp kernel)) : List EntropyHistogram :=
  ops.filterMap fun | .entropy state => some state.inner | _ => none

/-- The first state with the others merged into it. -/
def combined {α : Type} (merge : α → α → α) : List α → Option α
  | [] => none
  | first :: rest => some (rest.foldl merge first)

/-- Welford's merge of two states; an empty one changes nothing. -/
def mergeVariance (sofar next : VarianceState kernel) : VarianceState kernel :=
  if next.n = 0 then sofar
  else
    let delta := next.mean - sofar.mean
    let n := sofar.n + next.n
    { n := n
      mean := sofar.mean + delta * kernel.ofInt next.n / kernel.ofInt n
      m2 := sofar.m2 + next.m2 +
        delta * delta * kernel.ofInt sofar.n * kernel.ofInt next.n / kernel.ofInt n }

def foldSums (states : List (SumState kernel)) : Value :=
  let filled := states.filter fun state => 0 < state.n
  if filled.isEmpty then .null
  else kernel.report (filled.foldl (fun total state => total + state.total) kernel.zero)

def foldAvgs (states : List (AvgState kernel)) : Value :=
  let n : Nat := states.foldl (fun n state => n + state.n) 0
  if n = 0 then .null
  else
    kernel.report
      (states.foldl (fun sum state => sum + state.sum) kernel.zero / kernel.ofInt n)

def foldVariances (finish : kernel.Num → kernel.Num) (states : List (VarianceState kernel)) :
    Value :=
  let merged := states.foldl mergeVariance .default
  if merged.n < 2 then .null
  else kernel.report (finish (merged.m2 / kernel.ofInt (merged.n - 1 : Nat)))

def foldRatios (kernel : Kernel) (states : List RatioState) : Value :=
  let matching : Nat := states.foldl (fun matching state => matching + state.matching) 0
  let total : Nat := states.foldl (fun total state => total + state.total) 0
  if total = 0 then .null
  else kernel.report (kernel.ofInt matching / kernel.ofInt total)

def foldPercentiles (states : List (PercentileStateWrap kernel)) : Value :=
  let q := (states.getLast?.map PercentileStateWrap.q).getD kernel.half
  match combined kernel.mergePercentile (states.map PercentileStateWrap.inner) with
  | some merged => ((kernel.quantile q merged).map kernel.report).getD .null
  | none => .null

def foldBuckets (kind : AggKind) (ops : List (LifetimeOp kernel)) : Value :=
  match kind with
  | .count => Kernel.reportCount ((counts ops).foldl (fun total state => total + state.n) 0)
  | .sum => foldSums (sums ops)
  | .avg => foldAvgs (avgs ops)
  | .min => ((leasts ops).foldl (fun state value => state.lower value) MinState.default).query
  | .max => ((greatests ops).foldl (fun state value => state.raise value) MaxState.default).query
  | .variance => foldVariances id (variances ops)
  | .stdDev => foldVariances kernel.sqrt (variances ops)
  | .ratio => foldRatios kernel (ratios ops)
  | .countDistinct =>
      Kernel.reportCount
        (((combined kernel.mergeCountDistinct (distincts ops)).map kernel.estimate).getD 0)
  | .percentile => foldPercentiles (percentiles ops)
  | .topK =>
      .json (.array
        (((combined kernel.mergeTopK (topKs ops)).map kernel.topEntries).getD []))
  | .entropy =>
      kernel.report
        (((combined EntropyHistogram.merge (entropies ops)).map
          (EntropyHistogram.entropyBits kernel)).getD kernel.zero)
  | .bloomMember => .bool false
  | _ => .null

def query (op : WindowedOp kernel) (queryTimeMs : Int64) : Value :=
  foldBuckets op.innerKind (op.activeOps queryTimeMs)

/-! ### Buckets that hold nothing -/

/-- Whether the operator of a bucket holds something for the fold.  A bucket holds
nothing when no event that reached it matched the predicate and had a value. -/
def holding : LifetimeOp kernel → Bool
  | .count state => state.n ≠ 0
  | .sum state => 0 < state.n
  | .min state => state.current.isSome
  | .max state => state.current.isSome
  | .variance state => state.n ≠ 0
  | .stdDev state => state.n ≠ 0
  | .ratio state => state.matching ≠ 0 || state.total ≠ 0
  | _ => true

theorem filterMap_holding (pick : LifetimeOp kernel → Option α) (kept : α → Bool)
    (each : ∀ op, ∀ state ∈ pick op, holding op = kept state) (ops : List (LifetimeOp kernel)) :
    (ops.filter holding).filterMap pick = (ops.filterMap pick).filter kept := by
  rw [List.filterMap_filter,List.filter_filterMap]
  refine List.filterMap_congr fun op _ => ?_
  cases picked : pick op with
  | none => exact ite_self none
  | some state => simp only [each op state picked,Option.filter_some]

theorem filterMap_holding_all (pick : LifetimeOp kernel → Option α)
    (each : ∀ op, ∀ state ∈ pick op, holding op = true) (ops : List (LifetimeOp kernel)) :
    (ops.filter holding).filterMap pick = ops.filterMap pick := by
  rw [filterMap_holding pick (fun _ => true) each,List.filter_true]

theorem foldl_skip {β : Type} (step : β → α → β) (kept : α → Bool)
    (skips : ∀ state item, kept item = false → step state item = state) (items : List α)
    (start : β) : (items.filter kept).foldl step start = items.foldl step start := by
  rw [List.foldl_filter]
  refine List.foldl_ext _ _ _ fun state item _ => ?_
  split
  · rfl
  · rename_i skipped
    exact (skips state item (Bool.eq_false_iff.mpr skipped)).symm

theorem foldVariances_holding (finish : kernel.Num → kernel.Num) (ops : List (LifetimeOp kernel)) :
    foldVariances finish (variances (ops.filter holding)) =
      foldVariances finish (variances ops) := by
  have held : variances (ops.filter holding) = (variances ops).filter fun state => state.n ≠ 0 := by
    refine filterMap_holding _ _ (fun op state picked => ?_) ops
    split at picked <;> cases picked <;> rfl
  rw [foldVariances,held,foldl_skip]
  · rfl
  · intro sofar next empty
    exact if_pos (by simpa using empty)

theorem foldBuckets_holding (kind : AggKind) (ops : List (LifetimeOp kernel)) :
    foldBuckets kind (ops.filter holding) = foldBuckets kind ops := by
  cases kind with
  | count =>
      have held : counts (ops.filter holding) = (counts ops).filter fun state => state.n ≠ 0 := by
        refine filterMap_holding _ _ (fun op state picked => ?_) ops
        split at picked <;> cases picked
        rfl
      rw [foldBuckets,held,foldl_skip]
      · rfl
      · intro total state nothing
        rw [show state.n = 0 by simpa using nothing,Nat.add_zero]
  | sum =>
      have held : sums (ops.filter holding) = (sums ops).filter fun state => 0 < state.n := by
        refine filterMap_holding _ _ (fun op state picked => ?_) ops
        split at picked <;> cases picked
        rfl
      rw [foldBuckets,held,foldSums,List.filter_filter]
      simp only [Bool.and_self]
      rfl
  | ratio =>
      have held : ratios (ops.filter holding) =
          (ratios ops).filter fun state => state.matching ≠ 0 || state.total ≠ 0 := by
        refine filterMap_holding _ _ (fun op state picked => ?_) ops
        split at picked <;> cases picked
        rfl
      rw [foldBuckets,held,foldRatios,foldl_skip,foldl_skip]
      · rfl
      · intro matching state nothing
        rw [show state.matching = 0 by simp at nothing; exact nothing.1,Nat.add_zero]
      · intro total state nothing
        rw [show state.total = 0 by simp at nothing; exact nothing.2,Nat.add_zero]
  | variance => exact foldVariances_holding id ops
  | stdDev => exact foldVariances_holding kernel.sqrt ops
  | min | max =>
      simp only [foldBuckets,leasts,greatests]
      rw [filterMap_holding_all]
      intro op state picked
      split at picked
      · exact Option.isSome_of_mem picked
      · cases picked
  | avg | countDistinct | percentile | topK | entropy =>
      simp only [foldBuckets,avgs,distincts,percentiles,topKs,entropies]
      rw [filterMap_holding_all]
      intro op state picked
      split at picked <;> cases picked
      rfl
  | _ => rfl

end WindowedOp

/-- `supports_windowed_wrap`. -/
def supportsWindowedWrap (kind : AggKind) : Bool :=
  kind ∈ [.count,.sum,.avg,.min,.max,.variance,.stdDev,.ratio,.countDistinct,.percentile,
    .topK,.entropy]

inductive AggOp (kernel : Kernel) where
  | lifetime (op : LifetimeOp kernel)
  | windowed (op : WindowedOp kernel)

namespace AggOp

def new (descriptor : AggOpDescriptor Expr) : AggOp kernel :=
  match descriptor.windowMs with
  | none => .lifetime (.newLifetimeFull descriptor)
  | some windowMs =>
      if descriptor.kind = .firstSeenInWindow then
        .lifetime (.firstSeenInWindow (.new windowMs))
      else if supportsWindowedWrap descriptor.kind then
        .windowed (.newWithParams descriptor.kind windowMs
          (descriptor.sketchParams.getD ⟨none,none,none,none⟩))
      else .lifetime (.newLifetimeFull descriptor)

theorem new_windowed {descriptor : AggOpDescriptor Expr} {windowMs : Nat}
    (windowed : descriptor.windowMs = some windowMs)
    (wraps : supportsWindowedWrap descriptor.kind = true) :
    (new descriptor : AggOp kernel) =
      .windowed (.newWithParams descriptor.kind windowMs
        (descriptor.sketchParams.getD ⟨none,none,none,none⟩)) := by
  have notFirstSeen : descriptor.kind ≠ .firstSeenInWindow := by
    intro isFirstSeen
    rw [isFirstSeen] at wraps
    cases wraps
  rw [new,windowed]
  dsimp only
  rw [if_neg notFirstSeen,if_pos wraps]

theorem new_unwrapped {descriptor : AggOpDescriptor Expr}
    (notFirstSeen : descriptor.kind ≠ .firstSeenInWindow)
    (unwrapped : supportsWindowedWrap descriptor.kind = false) :
    (new descriptor : AggOp kernel) = .lifetime (.newLifetimeFull descriptor) := by
  unfold new
  split
  · rfl
  · rw [if_neg notFirstSeen,if_neg (by rw [unwrapped]; exact Bool.false_ne_true)]

/-- `update_with_row`. -/
def updateWithRow (env : Env Expr) (row : Row) (nowMs : Int64) (field : Option String)
    (whereExpr : Option Expr) : AggOp kernel → AggOp kernel
  | .lifetime op => .lifetime (op.updateWithRow env row nowMs field whereExpr)
  | .windowed op => .windowed (op.updateWithRow env row nowMs field whereExpr)

/-- `update_with_extracted`: the predicate is evaluated once. -/
def updateWithExtracted (env : Env Expr) (preVal : Option Value) (nowMs : Int64)
    (whereExpr : Option Expr) (row : Row) (field : Option String) (extracted : ExtractedFields)
    (latIdx lonIdx : UInt8) : AggOp kernel → AggOp kernel
  | .lifetime op =>
      .lifetime (op.updateWithExtractedNoWhere preVal nowMs row field extracted latIdx lonIdx
        (evaluateWhere env whereExpr row))
  | .windowed op =>
      .windowed (op.updateAt preVal extracted latIdx lonIdx nowMs
        (evaluateWhere env whereExpr row))

def query (queryTimeMs : Int64) : AggOp kernel → Value
  | .lifetime op => op.query queryTimeMs
  | .windowed op => op.query queryTimeMs

end AggOp

end Beava.Agg
