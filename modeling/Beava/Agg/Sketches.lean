/-
The sketches of the operators.

A kernel leaves the inside of its sketches open.  Here they are the states of the
program: a distinct count, a percentile and a list of the most frequent values
start exact and change their mode at a threshold.  What stays open are the
estimates of the registers and the sketch of a percentile beyond the threshold.
-/

import Beava.Agg.Kernel
import Beava.Sketch.CountDistinct
import Beava.Sketch.TopK

namespace Beava.Agg

open Beava.Core Beava.Sketch

structure SketchParts (kernel : Kernel) where
  /-- `TopKValue::hash64`. -/
  hash64 : TopKValue → UInt64
  /-- `Hll::estimate`. -/
  estimateHll : Hll → Nat
  /-- `floor() as usize`. -/
  floorIndex : kernel.Num → Nat
  /-- `ceil() as usize`. -/
  ceilIndex : kernel.Num → Nat
  UDDSketch : Type
  /-- From `alpha0` and the largest number of buckets. -/
  newUDDSketch : kernel.Num → Nat → UDDSketch
  insertUDDSketch : kernel.Num → UDDSketch → UDDSketch
  mergeUDDSketch : UDDSketch → UDDSketch → UDDSketch
  quantileUDDSketch : kernel.Num → UDDSketch → Option kernel.Num

inductive PercentileState (kernel : Kernel) (parts : SketchParts kernel) where
  | exact (values : List kernel.Num) (threshold : Nat) (alpha0 : kernel.Num)
  | sketch (sketch : parts.UDDSketch)

namespace PercentileState

variable {kernel : Kernel} {parts : SketchParts kernel}

def new (kernel : Kernel) (parts : SketchParts kernel) : PercentileState kernel parts :=
  .exact [] 256 (kernel.ofF64 ⟨0x3F847AE147AE147B⟩)

def insertAll (values : List kernel.Num) (sketch : parts.UDDSketch) : parts.UDDSketch :=
  values.foldl (fun sketch value => parts.insertUDDSketch value sketch) sketch

def promoteToSketch : PercentileState kernel parts → PercentileState kernel parts
  | .exact values _ alpha0 => .sketch (insertAll values (parts.newUDDSketch alpha0 2048))
  | .sketch inner => .sketch inner

def keepOrPromote (values : List kernel.Num) (threshold : Nat) (alpha0 : kernel.Num) :
    PercentileState kernel parts :=
  if threshold < values.length then promoteToSketch (.exact values threshold alpha0)
  else .exact values threshold alpha0

def insert (number : kernel.Num) (state : PercentileState kernel parts) :
    PercentileState kernel parts :=
  if kernel.isFinite number then
    match state with
    | .exact values threshold alpha0 => keepOrPromote (values ++ [number]) threshold alpha0
    | .sketch inner => .sketch (parts.insertUDDSketch number inner)
  else state

def merge (state other : PercentileState kernel parts) : PercentileState kernel parts :=
  match state, other with
  | .exact values threshold alpha0, .exact theirs _ _ =>
      keepOrPromote (values ++ theirs) threshold alpha0
  | .exact values _ alpha0, .sketch theirs =>
      .sketch (parts.mergeUDDSketch (insertAll values (parts.newUDDSketch alpha0 2048)) theirs)
  | .sketch inner, .sketch theirs => .sketch (parts.mergeUDDSketch inner theirs)
  | .sketch inner, .exact theirs _ _ => .sketch (insertAll theirs inner)

/-- The value at a share of the sorted values, between two of them in proportion; a
share is at most one, so that the positions are in the list. -/
def quantileOf (parts : SketchParts kernel) (q : kernel.Num) (values : List kernel.Num) :
    Option kernel.Num :=
  if values.isEmpty then none
  else
    let sorted := values.mergeSort kernel.le
    let position := q * (kernel.ofInt sorted.length - kernel.one)
    let low := parts.floorIndex position
    let high := parts.ceilIndex position
    if low = high then sorted[low]?
    else
      let share := position - kernel.ofInt low
      match sorted[low]?, sorted[high]? with
      | some below, some above => some (below * (kernel.one - share) + above * share)
      | _, _ => none

def quantile (q : kernel.Num) : PercentileState kernel parts → Option kernel.Num
  | .exact values _ _ => quantileOf parts q values
  | .sketch inner => parts.quantileUDDSketch q inner

end PercentileState

namespace OrderedFloat

def toF64 (number : OrderedFloat) : F64 :=
  if 0 ≤ number.place then ⟨UInt64.ofNat number.place.toNat⟩
  else ⟨UInt64.ofNat (2 ^ 63 - number.place).toNat⟩

def isFinite (number : OrderedFloat) : Bool :=
  number.place.natAbs < 0x7FF0000000000000

end OrderedFloat

def topKValueToJson : TopKValue → Json
  | .str text => .string text
  | .int number =>
      if 0 ≤ number then .number (.posInt number.toUInt64) else .number (.negInt number)
  | .float number => if OrderedFloat.isFinite number then
      .number (.float (OrderedFloat.toF64 number)) else .null
  | .bool flag => .bool flag

def topEntry (entry : TopKValue × Nat) : Json :=
  .object [("count",.number (.posInt (UInt64.ofNat entry.2))),("value",topKValueToJson entry.1)]

namespace Kernel

abbrev withSketches (kernel : Kernel) (parts : SketchParts kernel) : Kernel :=
  { kernel with
    CountDistinct := CountDistinctState
    newCountDistinct := CountDistinctState.new
    addHash := CountDistinctState.addHash
    mergeCountDistinct := CountDistinctState.merge
    estimate := CountDistinctState.estimate parts.estimateHll
    Percentile := PercentileState kernel parts
    newPercentile := PercentileState.new kernel parts
    insertPercentile := PercentileState.insert
    mergePercentile := PercentileState.merge
    quantile := PercentileState.quantile
    TopK := TopKState defaultShape
    newTopK := fun k => TopKState.new defaultShape k 1024
    insertTopK := fun value state => state.insert parts.hash64 value
    mergeTopK := TopKState.merge parts.hash64
    topEntries := fun state => state.top.map topEntry }

end Kernel

end Beava.Agg
