/-
A sketch of quantiles.

The sketch counts its values in buckets whose bounds grow by a factor.  When there
are too many buckets, neighbours are joined in pairs, and the factor is squared.
The arithmetic is left open, so that what is proved here holds for the arithmetic of
the machine and for real numbers.
-/

import Beava.Core.Expr
import Beava.Lib.OrderedCounts

namespace Beava.Core

namespace F64

def abs (number : F64) : F64 := ⟨number.bits &&& 0x7FFFFFFFFFFFFFFF⟩

def isFinite (number : F64) : Bool := number.abs.bits < 0x7FF0000000000000

/-- `number > 0.0`, for a number that is not a NaN. -/
def isPositive (number : F64) : Bool := 0 < number.orderKey

end F64

end Beava.Core

namespace Beava.Sketch

open Beava.Core OrderedCounts

structure LogArith where
  Num : Type
  ofF64 : F64 → Num
  ofInt : Int → Num
  add : Num → Num → Num
  sub : Num → Num → Num
  mul : Num → Num → Num
  div : Num → Num → Num
  neg : Num → Num
  ln : Num → Num
  exp : Num → Num
  /-- `<`. -/
  lt : Num → Num → Bool
  /-- `floor() as i32`. -/
  floorI32 : Num → Int
  /-- `floor() as u64`. -/
  floorU64 : Num → Nat
  /-- `clamp(0.0, 1.0)`. -/
  clampUnit : Num → Num

namespace LogArith

variable (arith : LogArith)

instance : Add arith.Num := ⟨arith.add⟩
instance : Sub arith.Num := ⟨arith.sub⟩
instance : Mul arith.Num := ⟨arith.mul⟩
instance : Div arith.Num := ⟨arith.div⟩
instance : Neg arith.Num := ⟨arith.neg⟩

def zero : arith.Num := arith.ofInt 0

def one : arith.Num := arith.ofInt 1

def two : arith.Num := arith.ofInt 2

end LogArith

def u64Max : Nat := 2 ^ 64 - 1

def u32Max : Nat := 2 ^ 32 - 1

structure UDDSketch (arith : LogArith) where
  alpha0 : arith.Num
  currentAlpha : arith.Num
  lnGamma : arith.Num
  numCollapses : Nat
  maxBuckets : Nat
  posBuckets : List (Int × Nat)
  negBuckets : List (Int × Nat)
  zeroCount : Nat
  totalCount : Nat

namespace UDDSketch

variable {arith : LogArith}

def fresh (alpha0 : arith.Num) (maxBuckets : Nat) : UDDSketch arith where
  alpha0 := alpha0
  currentAlpha := alpha0
  lnGamma := arith.ln ((arith.one + alpha0) / (arith.one - alpha0))
  numCollapses := 0
  maxBuckets := maxBuckets
  posBuckets := []
  negBuckets := []
  zeroCount := 0
  totalCount := 0

def new (alpha0 : arith.Num) (maxBuckets : Nat) : Option (UDDSketch arith) :=
  if arith.lt arith.zero alpha0 && arith.lt alpha0 arith.one && 16 ≤ maxBuckets then
    some (fresh alpha0 maxBuckets)
  else none

def bucketKey (value : arith.Num) (sketch : UDDSketch arith) : Int :=
  arith.floorI32 (arith.ln value / sketch.lnGamma)

/-- Pairs of neighbours become one bucket; `/` rounds down. -/
def collapse (sketch : UDDSketch arith) : UDDSketch arith :=
  { sketch with
    currentAlpha := (arith.two * sketch.currentAlpha) /
      (arith.one + sketch.currentAlpha * sketch.currentAlpha)
    lnGamma := sketch.lnGamma * arith.two
    numCollapses := min (sketch.numCollapses + 1) u32Max
    posBuckets := coarsen u64Max (· / 2) sketch.posBuckets
    negBuckets := coarsen u64Max (· / 2) sketch.negBuckets }

def collapseIfFull (sketch : UDDSketch arith) : UDDSketch arith :=
  if sketch.maxBuckets < sketch.posBuckets.length + sketch.negBuckets.length then sketch.collapse
  else sketch

def bumpBucket (positive : Bool) (key : Int) (sketch : UDDSketch arith) : UDDSketch arith :=
  if positive then { sketch with posBuckets := bump u64Max key sketch.posBuckets }
  else { sketch with negBuckets := bump u64Max key sketch.negBuckets }

def insert (value : F64) (sketch : UDDSketch arith) : UDDSketch arith :=
  if value.isFinite then
    let counted := { sketch with totalCount := min (sketch.totalCount + 1) u64Max }
    if value.isZero then { counted with zeroCount := min (counted.zeroCount + 1) u64Max }
    else
      (counted.bumpBucket value.isPositive
        (counted.bucketKey (arith.ofF64 value.abs))).collapseIfFull
  else sketch

def collapseTimes : Nat → UDDSketch arith → UDDSketch arith
  | 0, sketch => sketch
  | times + 1, sketch => collapseTimes times sketch.collapse

/-- `while num_collapses < level`: each round raises the number by one. -/
def collapseTo (level : Nat) (sketch : UDDSketch arith) : UDDSketch arith :=
  sketch.collapseTimes (level - sketch.numCollapses)

def merge (sketch other : UDDSketch arith) : UDDSketch arith :=
  let sketch := sketch.collapseTo other.numCollapses
  let other := other.collapseTo sketch.numCollapses
  collapseIfFull { sketch with
    posBuckets := OrderedCounts.merge u64Max sketch.posBuckets other.posBuckets
    negBuckets := OrderedCounts.merge u64Max sketch.negBuckets other.negBuckets
    zeroCount := min (sketch.zeroCount + other.zeroCount) u64Max
    totalCount := min (sketch.totalCount + other.totalCount) u64Max }

/-- `key + 1` on `i32`, which a release build wraps around. -/
def nextKey (key : Int) : Int := Int.bmod (key + 1) (2 ^ 32)

def bucketCenter (key : Int) (sketch : UDDSketch arith) : arith.Num :=
  let lower := arith.exp (arith.ofInt key * sketch.lnGamma)
  let upper := arith.exp (arith.ofInt (nextKey key) * sketch.lnGamma)
  (lower + upper) / arith.two

/-- The key of the bucket that reaches the rank, or the count of all buckets. -/
def walk (rank : Nat) : Nat → List (Int × Nat) → Except Nat Int
  | cumul, [] => .error cumul
  | cumul, (key,count) :: rest =>
      if rank < cumul + count then .ok key else walk rank (cumul + count) rest

def lastCenter (sketch : UDDSketch arith) : arith.Num :=
  match sketch.posBuckets.getLast? with
  | some (key,_) => sketch.bucketCenter key
  | none =>
      match sketch.negBuckets.head? with
      | some (key,_) => -sketch.bucketCenter key
      | none => arith.zero

/-- The value of a rank: the values below zero from the largest size down, the zeros,
and the values above zero. -/
def valueAt (rank : Nat) (sketch : UDDSketch arith) : arith.Num :=
  match walk rank 0 sketch.negBuckets.reverse with
  | .ok key => -sketch.bucketCenter key
  | .error cumul =>
      if 0 < sketch.zeroCount ∧ rank < cumul + sketch.zeroCount then arith.zero
      else
        match walk rank (cumul + sketch.zeroCount) sketch.posBuckets with
        | .ok key => sketch.bucketCenter key
        | .error _ => sketch.lastCenter

def targetRank (q : arith.Num) (sketch : UDDSketch arith) : Nat :=
  arith.floorU64 (arith.clampUnit q * arith.ofInt (sketch.totalCount - 1))

def quantile (q : arith.Num) (sketch : UDDSketch arith) : Option arith.Num :=
  if sketch.totalCount = 0 then none else some (sketch.valueAt (sketch.targetRank q))

inductive Tree (arith : LogArith) where
  | new (alpha0 : arith.Num)
  | insert (value : F64) (tree : Tree arith)
  | merge (tree other : Tree arith)

namespace Tree

def sketch (maxBuckets : Nat) : Tree arith → UDDSketch arith
  | .new alpha0 => fresh alpha0 maxBuckets
  | .insert value tree => (tree.sketch maxBuckets).insert value
  | .merge tree other => (tree.sketch maxBuckets).merge (other.sketch maxBuckets)

def values : Tree arith → List F64
  | .new _ => []
  | .insert value tree => tree.values ++ [value]
  | .merge tree other => tree.values ++ other.values

def Always (maxBuckets : Nat) (property : UDDSketch arith → Prop) : Tree arith → Prop
  | .new alpha0 => property (fresh alpha0 maxBuckets)
  | .insert value tree =>
      tree.Always maxBuckets property ∧ property ((Tree.insert value tree).sketch maxBuckets)
  | .merge tree other =>
      tree.Always maxBuckets property ∧ other.Always maxBuckets property ∧
        property ((Tree.merge tree other).sketch maxBuckets)

end Tree

end UDDSketch

end Beava.Sketch
