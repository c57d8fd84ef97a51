/-
The states of the decay and velocity operators.

They are lifetime states: a step depends on the time since the last event and on
statistics over all events so far.
-/

import Beava.Agg.State

namespace Beava.Agg

open Beava.Core

variable {kernel : Kernel}

/-! ### Decay -/

def saturatingSub (first second : Int64) : Int64 := saturate (first.toInt - second.toInt)

def ln2 (kernel : Kernel) : kernel.Num := kernel.ofF64 ⟨0x3FE62E42FEFA39EF⟩

/-- `decay_alpha`: no weight for an event that is not later. -/
def decayAlpha (kernel : Kernel) (nowMs lastNowMs : Int64) (halfLifeMs : Nat) :
    Option kernel.Num :=
  if halfLifeMs = 0 then none
  else
    let dt := saturatingSub nowMs lastNowMs
    if dt ≤ 0 then none
    else
      let lambda := ln2 kernel / kernel.ofInt halfLifeMs
      some (kernel.one - kernel.exp (-(kernel.ofInt dt.toInt) * lambda))

def decayFactor (kernel : Kernel) (nowMs lastNowMs : Int64) (halfLifeMs : Nat) : kernel.Num :=
  if halfLifeMs = 0 then kernel.one
  else
    let dt := kernel.ofInt (max (saturatingSub nowMs lastNowMs).toInt 0)
    let lambda := ln2 kernel / kernel.ofInt halfLifeMs
    kernel.exp (-dt * lambda)

structure EwmaState (kernel : Kernel) where
  value : kernel.Num
  lastNowMs : Int64
  initialized : Bool

namespace EwmaState

def default : EwmaState kernel := ⟨kernel.zero,0,false⟩

def add (nowMs : Int64) (halfLifeMs : Nat) (number : kernel.Num) (state : EwmaState kernel) :
    EwmaState kernel :=
  if state.initialized then
    match decayAlpha kernel nowMs state.lastNowMs halfLifeMs with
    | some alpha =>
        { state with
          value := alpha * number + (kernel.one - alpha) * state.value
          lastNowMs := nowMs }
    | none => { state with value := kernel.half * number + kernel.half * state.value }
  else ⟨number,nowMs,true⟩

def update (row : Row) (nowMs : Int64) (field : Option String) (whereMatched : Bool)
    (halfLifeMs : Nat) : EwmaState kernel → EwmaState kernel :=
  updateField numeric (add nowMs halfLifeMs) row field whereMatched

def query (state : EwmaState kernel) : Value :=
  if state.initialized then kernel.report state.value else .null

end EwmaState

structure EwVarState (kernel : Kernel) where
  mean : kernel.Num
  m2 : kernel.Num
  lastNowMs : Int64
  initialized : Bool
  lastValue : kernel.Num

namespace EwVarState

def default : EwVarState kernel := ⟨kernel.zero,kernel.zero,0,false,kernel.zero⟩

def add (nowMs : Int64) (halfLifeMs : Nat) (number : kernel.Num) (state : EwVarState kernel) :
    EwVarState kernel :=
  if state.initialized then
    let alpha := (decayAlpha kernel nowMs state.lastNowMs halfLifeMs).getD kernel.zero
    let delta := number - state.mean
    let mean := state.mean + alpha * delta
    let delta2 := number - mean
    { mean := mean
      m2 := (kernel.one - alpha) * state.m2 + alpha * delta * delta2
      lastNowMs := if kernel.lt kernel.zero alpha then nowMs else state.lastNowMs
      initialized := true
      lastValue := number }
  else ⟨number,kernel.zero,nowMs,true,number⟩

def update (row : Row) (nowMs : Int64) (field : Option String) (whereMatched : Bool)
    (halfLifeMs : Nat) : EwVarState kernel → EwVarState kernel :=
  updateField numeric (add nowMs halfLifeMs) row field whereMatched

def queryVariance (state : EwVarState kernel) : Value :=
  if state.initialized then kernel.report (kernel.max state.m2 kernel.zero) else .null

end EwVarState

structure EwZScoreState (kernel : Kernel) where
  inner : EwVarState kernel

namespace EwZScoreState

def default : EwZScoreState kernel := ⟨.default⟩

def update (row : Row) (nowMs : Int64) (field : Option String) (whereMatched : Bool)
    (halfLifeMs : Nat) (state : EwZScoreState kernel) : EwZScoreState kernel :=
  ⟨state.inner.update row nowMs field whereMatched halfLifeMs⟩

def query (state : EwZScoreState kernel) : Value :=
  if state.inner.initialized then
    let variance := kernel.max state.inner.m2 kernel.zero
    if kernel.eq variance kernel.zero then .null
    else kernel.report ((state.inner.lastValue - state.inner.mean) / kernel.sqrt variance)
  else .null

end EwZScoreState

/-- The later of two times. -/
def laterMs (nowMs lastNowMs : Int64) : Int64 := if lastNowMs < nowMs then nowMs else lastNowMs

structure DecayedSumState (kernel : Kernel) where
  total : kernel.Num
  lastNowMs : Int64
  initialized : Bool

namespace DecayedSumState

def default : DecayedSumState kernel := ⟨kernel.zero,0,false⟩

def add (nowMs : Int64) (halfLifeMs : Nat) (number : kernel.Num) (state : DecayedSumState kernel) :
    DecayedSumState kernel :=
  if state.initialized then
    { state with
      total := state.total * decayFactor kernel nowMs state.lastNowMs halfLifeMs + number
      lastNowMs := laterMs nowMs state.lastNowMs }
  else ⟨number,nowMs,true⟩

def update (row : Row) (nowMs : Int64) (field : Option String) (whereMatched : Bool)
    (halfLifeMs : Nat) : DecayedSumState kernel → DecayedSumState kernel :=
  updateField numeric (add nowMs halfLifeMs) row field whereMatched

def query (state : DecayedSumState kernel) : Value :=
  if state.initialized then kernel.report state.total else .null

end DecayedSumState

structure DecayedCountState (kernel : Kernel) where
  total : kernel.Num
  lastNowMs : Int64
  initialized : Bool

namespace DecayedCountState

def default : DecayedCountState kernel := ⟨kernel.zero,0,false⟩

def update (nowMs : Int64) (whereMatched : Bool) (halfLifeMs : Nat)
    (state : DecayedCountState kernel) : DecayedCountState kernel :=
  if whereMatched then
    if state.initialized then
      { state with
        total := state.total * decayFactor kernel nowMs state.lastNowMs halfLifeMs + kernel.one
        lastNowMs := laterMs nowMs state.lastNowMs }
    else ⟨kernel.one,nowMs,true⟩
  else state

def query (state : DecayedCountState kernel) : Value :=
  if state.initialized then kernel.report state.total else .null

end DecayedCountState

structure TwaState (kernel : Kernel) where
  sumVDt : kernel.Num
  sumDt : kernel.Num
  lastV : kernel.Num
  lastT : Int64
  initialized : Bool

namespace TwaState

def default : TwaState kernel := ⟨kernel.zero,kernel.zero,kernel.zero,0,false⟩

def add (nowMs : Int64) (number : kernel.Num) (state : TwaState kernel) : TwaState kernel :=
  if state.initialized then
    let dt := kernel.ofInt (elapsedMs nowMs state.lastT).toInt
    let moved := kernel.lt kernel.zero dt
    { state with
      sumVDt := if moved then state.sumVDt + state.lastV * dt else state.sumVDt
      sumDt := if moved then state.sumDt + dt else state.sumDt
      lastV := number
      lastT := nowMs }
  else { state with lastV := number, lastT := nowMs, initialized := true }

def update (row : Row) (nowMs : Int64) (field : Option String) (whereMatched : Bool) :
    TwaState kernel → TwaState kernel :=
  updateField numeric (add nowMs) row field whereMatched

def query (state : TwaState kernel) : Value :=
  if state.initialized then
    if kernel.eq state.sumDt kernel.zero then kernel.report state.lastV
    else kernel.report (state.sumVDt / state.sumDt)
  else .null

end TwaState

/-! ### Velocity -/

structure RateOfChangeState (kernel : Kernel) where
  lastValue : kernel.Num
  lastT : Int64
  currentRate : kernel.Num
  initialized : Bool
  hasRate : Bool

namespace RateOfChangeState

def default : RateOfChangeState kernel := ⟨kernel.zero,0,kernel.zero,false,false⟩

def add (nowMs : Int64) (number : kernel.Num) (state : RateOfChangeState kernel) :
    RateOfChangeState kernel :=
  if state.initialized then
    let dt := nowMs - state.lastT
    { state with
      currentRate :=
        if 0 < dt then (number - state.lastValue) / kernel.ofInt dt.toInt else state.currentRate
      hasRate := state.hasRate || 0 < dt
      lastValue := number
      lastT := nowMs }
  else { state with lastValue := number, lastT := nowMs, initialized := true }

def update (row : Row) (nowMs : Int64) (field : Option String) (whereMatched : Bool) :
    RateOfChangeState kernel → RateOfChangeState kernel :=
  updateField numeric (add nowMs) row field whereMatched

def query (state : RateOfChangeState kernel) : Value :=
  if state.hasRate then kernel.report state.currentRate else .null

end RateOfChangeState

structure InterArrivalStatsState (kernel : Kernel) where
  lastT : Int64
  initialized : Bool
  gaps : VarianceState kernel

namespace InterArrivalStatsState

def default : InterArrivalStatsState kernel := ⟨0,false,.default⟩

/-- The gaps go through Welford's step. -/
def update (nowMs : Int64) (whereMatched : Bool) (state : InterArrivalStatsState kernel) :
    InterArrivalStatsState kernel :=
  if whereMatched then
    if state.initialized then
      { state with
        gaps := state.gaps.add (kernel.ofInt (elapsedMs nowMs state.lastT).toInt)
        lastT := nowMs }
    else { state with lastT := nowMs, initialized := true }
  else state

def query (state : InterArrivalStatsState kernel) : Value :=
  if state.gaps.n = 0 then .null else kernel.report state.gaps.mean

end InterArrivalStatsState

structure BurstCountState where
  buckets : List Nat
  bucketEpoch : List Int64
  maxSeen : Nat
  initialized : Bool
  deriving DecidableEq

namespace BurstCountState

def default : BurstCountState :=
  ⟨List.replicate 64 0,List.replicate 64 Int64.minValue,0,false⟩

/-- The buckets are made again when they do not have their length. -/
def repaired (state : BurstCountState) : BurstCountState :=
  { state with
    buckets := if state.buckets.length = 64 then state.buckets else List.replicate 64 0
    bucketEpoch :=
      if state.bucketEpoch.length = 64 then state.bucketEpoch
      else List.replicate 64 Int64.minValue }

def update (nowMs : Int64) (whereMatched : Bool) (subWindowMs : Nat) (state : BurstCountState) :
    BurstCountState :=
  if !whereMatched || subWindowMs = 0 then state
  else
    let state := state.repaired
    let width := (Int64.ofNat subWindowMs).toInt
    let epoch := Int64.ofInt (nowMs.toInt / width * width)
    let idx := (nowMs.toInt / width % 64).toNat
    let held := if state.bucketEpoch.getD idx 0 = epoch then state.buckets.getD idx 0 else 0
    { buckets := state.buckets.set idx (held + 1)
      bucketEpoch := state.bucketEpoch.set idx epoch
      maxSeen := max state.maxSeen (held + 1)
      initialized := true }

def query (state : BurstCountState) : Value :=
  if state.initialized then Kernel.reportCount state.maxSeen else .i64 0

end BurstCountState

structure DeltaFromPrevState (kernel : Kernel) where
  lastValue : kernel.Num
  currentDelta : kernel.Num
  initialized : Bool
  hasDelta : Bool

namespace DeltaFromPrevState

def default : DeltaFromPrevState kernel := ⟨kernel.zero,kernel.zero,false,false⟩

def add (number : kernel.Num) (state : DeltaFromPrevState kernel) : DeltaFromPrevState kernel :=
  if state.initialized then ⟨number,number - state.lastValue,true,true⟩
  else { state with lastValue := number, initialized := true }

def update (row : Row) (field : Option String) (whereMatched : Bool) :
    DeltaFromPrevState kernel → DeltaFromPrevState kernel :=
  updateField numeric add row field whereMatched

def query (state : DeltaFromPrevState kernel) : Value :=
  if state.hasDelta then kernel.report state.currentDelta else .null

end DeltaFromPrevState

structure TrendState (kernel : Kernel) where
  n : Nat
  sumX : kernel.Num
  sumY : kernel.Num
  sumXx : kernel.Num
  sumXy : kernel.Num
  initialized : Bool

namespace TrendState

def default : TrendState kernel :=
  ⟨0,kernel.zero,kernel.zero,kernel.zero,kernel.zero,false⟩

def add (nowMs : Int64) (y : kernel.Num) (state : TrendState kernel) : TrendState kernel :=
  let x := kernel.ofInt nowMs.toInt
  { n := state.n + 1
    sumX := state.sumX + x
    sumY := state.sumY + y
    sumXx := state.sumXx + x * x
    sumXy := state.sumXy + x * y
    initialized := true }

def update (row : Row) (nowMs : Int64) (field : Option String) (whereMatched : Bool) :
    TrendState kernel → TrendState kernel :=
  updateField numeric (add nowMs) row field whereMatched

def slope (state : TrendState kernel) : Option kernel.Num :=
  if state.n < 2 then none
  else
    let n := kernel.ofInt state.n
    let denom := n * state.sumXx - state.sumX * state.sumX
    if kernel.eq denom kernel.zero then none
    else some ((n * state.sumXy - state.sumX * state.sumY) / denom)

def intercept (state : TrendState kernel) : Option kernel.Num :=
  state.slope.map fun slope => (state.sumY - slope * state.sumX) / kernel.ofInt state.n

def query (state : TrendState kernel) : Value := (state.slope.map kernel.report).getD .null

end TrendState

structure TrendResidualState (kernel : Kernel) where
  trend : TrendState kernel
  lastValue : kernel.Num
  lastT : Int64
  initialized : Bool

namespace TrendResidualState

def default : TrendResidualState kernel := ⟨.default,kernel.zero,0,false⟩

def add (nowMs : Int64) (y : kernel.Num) (state : TrendResidualState kernel) :
    TrendResidualState kernel :=
  ⟨state.trend.add nowMs y,y,nowMs,true⟩

def update (row : Row) (nowMs : Int64) (field : Option String) (whereMatched : Bool) :
    TrendResidualState kernel → TrendResidualState kernel :=
  updateField numeric (add nowMs) row field whereMatched

def query (state : TrendResidualState kernel) : Value :=
  if state.initialized then
    match state.trend.slope, state.trend.intercept with
    | some slope, some intercept =>
        kernel.report
          (state.lastValue - (slope * kernel.ofInt state.lastT.toInt + intercept))
    | _, _ => .null
  else .null

end TrendResidualState

structure OutlierCountState (kernel : Kernel) where
  baseline : VarianceState kernel
  outliers : Nat

namespace OutlierCountState

def default : OutlierCountState kernel := ⟨.default,0⟩

def minBaselineN : Nat := 5

/-- Whether the number is far from the mean of the numbers before it. -/
def isOutlier (sigma number : kernel.Num) (state : OutlierCountState kernel) : Bool :=
  if minBaselineN ≤ state.baseline.n then
    let variance :=
      if 1 < state.baseline.n then state.baseline.m2 / kernel.ofInt (state.baseline.n - 1 : Nat)
      else kernel.zero
    kernel.lt kernel.zero variance &&
      kernel.lt (sigma * kernel.sqrt variance) (kernel.abs (number - state.baseline.mean))
  else false

def add (sigma number : kernel.Num) (state : OutlierCountState kernel) :
    OutlierCountState kernel :=
  { baseline := state.baseline.add number
    outliers := if state.isOutlier sigma number then state.outliers + 1 else state.outliers }

def update (row : Row) (field : Option String) (whereMatched : Bool) (sigma : kernel.Num) :
    OutlierCountState kernel → OutlierCountState kernel :=
  updateField numeric (add sigma) row field whereMatched

def query (state : OutlierCountState kernel) : Value := Kernel.reportCount state.outliers

end OutlierCountState

structure ValueChangeCountState where
  lastValue : Option Value
  changes : Nat

namespace ValueChangeCountState

def default : ValueChangeCountState := ⟨none,0⟩

def observe (value : Value) (state : ValueChangeCountState) : ValueChangeCountState :=
  match state.lastValue with
  | none => { state with lastValue := some value }
  | some last => if last.partialEq value then state else ⟨some value,state.changes + 1⟩

def update (row : Row) (field : Option String) (whereMatched : Bool) :
    ValueChangeCountState → ValueChangeCountState :=
  updateField notNull observe row field whereMatched

def query (state : ValueChangeCountState) : Value := Kernel.reportCount state.changes

end ValueChangeCountState

structure ZScoreState (kernel : Kernel) where
  seen : VarianceState kernel
  lastValue : kernel.Num
  initialized : Bool

namespace ZScoreState

def default : ZScoreState kernel := ⟨.default,kernel.zero,false⟩

def add (number : kernel.Num) (state : ZScoreState kernel) : ZScoreState kernel :=
  ⟨state.seen.add number,number,true⟩

def update (row : Row) (field : Option String) (whereMatched : Bool) :
    ZScoreState kernel → ZScoreState kernel :=
  updateField numeric add row field whereMatched

def query (state : ZScoreState kernel) : Value :=
  if !state.initialized || state.seen.n < 2 then .null
  else
    let variance := state.seen.m2 / kernel.ofInt (state.seen.n - 1 : Nat)
    if kernel.le variance kernel.zero then .null
    else kernel.report ((state.lastValue - state.seen.mean) / kernel.sqrt variance)

end ZScoreState

end Beava.Agg
