/-
What the operator states are computed with.

The states are built from numbers in the binary format and from sketches.  The
model leaves the arithmetic and the inside of the sketches open: `Kernel` lists
the operations the states use, so that what is proved here holds for the
arithmetic of the machine and for exact arithmetic.
-/

import Beava.Core.ValueText
import Beava.Sketch.TopKHeap

namespace Beava.Agg

open Beava.Core Beava.Sketch

structure Kernel where
  Num : Type
  ofF64 : F64 → Num
  toF64 : Num → F64
  /-- `as f64`. -/
  ofInt : Int → Num
  /-- `as i64`. -/
  toInt64 : Num → Int64
  add : Num → Num → Num
  sub : Num → Num → Num
  mul : Num → Num → Num
  div : Num → Num → Num
  neg : Num → Num
  /-- `f64::max`. -/
  max : Num → Num → Num
  abs : Num → Num
  sqrt : Num → Num
  exp : Num → Num
  log2 : Num → Num
  cos : Num → Num
  toRadians : Num → Num
  fract : Num → Num
  isFinite : Num → Bool
  /-- `<`. -/
  lt : Num → Num → Bool
  /-- `<=`. -/
  le : Num → Num → Bool
  /-- `==`. -/
  eq : Num → Num → Bool
  display : Num → String
  debugF64 : F64 → String
  haversineKm : Num × Num → Num × Num → Num
  /-- `hash_value_for_hll`. -/
  hashValue : Value → UInt64
  CountDistinct : Type
  newCountDistinct : CountDistinct
  addHash : UInt64 → CountDistinct → CountDistinct
  mergeCountDistinct : CountDistinct → CountDistinct → CountDistinct
  estimate : CountDistinct → Nat
  Percentile : Type
  newPercentile : Percentile
  insertPercentile : Num → Percentile → Percentile
  mergePercentile : Percentile → Percentile → Percentile
  quantile : Num → Percentile → Option Num
  TopK : Type
  newTopK : Nat → TopK
  insertTopK : TopKValue → TopK → TopK
  mergeTopK : TopK → TopK → TopK
  /-- The entries of `top`, as they are reported. -/
  topEntries : TopK → List Json
  Bloom : Type
  newBloom : Nat → Num → Bloom
  insertBloom : String → Bloom → Bloom

namespace Kernel

variable (kernel : Kernel)

instance : Add kernel.Num := ⟨kernel.add⟩
instance : Sub kernel.Num := ⟨kernel.sub⟩
instance : Mul kernel.Num := ⟨kernel.mul⟩
instance : Div kernel.Num := ⟨kernel.div⟩
instance : Neg kernel.Num := ⟨kernel.neg⟩

def zero : kernel.Num := kernel.ofInt 0

def one : kernel.Num := kernel.ofInt 1

def half : kernel.Num := kernel.ofF64 ⟨0x3FE0000000000000⟩

def report (number : kernel.Num) : Value := .f64 (kernel.toF64 number)

def reportCount (count : Nat) : Value := .i64 (Int64.ofNat count)

end Kernel

/-- Whole numbers, and sketches that keep everything: for the runs on small
integers that are evaluated below. -/
def wholeKernel : Kernel where
  Num := Int
  ofF64 bits := bits.bits.toNat
  toF64 number := ⟨UInt64.ofInt number⟩
  ofInt number := number
  toInt64 number := Int64.ofInt number
  add := (· + ·)
  sub := (· - ·)
  mul := (· * ·)
  div := (· / ·)
  neg number := -number
  max first second := if first ≤ second then second else first
  abs number := number.natAbs
  sqrt number := number.toNat.sqrt
  exp number := 2 ^ number.toNat
  log2 number := number.toNat.log2
  cos number := number
  toRadians number := number
  fract _ := 0
  isFinite _ := true
  lt first second := first < second
  le first second := first ≤ second
  eq first second := first = second
  display number := toString number
  debugF64 bits := toString bits.bits
  haversineKm first second := (first.1 - second.1).natAbs + (first.2 - second.2).natAbs
  hashValue value := match value with
    | .i64 number => number.toUInt64
    | _ => 0
  CountDistinct := List UInt64
  newCountDistinct := []
  addHash hash seen := if hash ∈ seen then seen else seen ++ [hash]
  mergeCountDistinct seen other := seen ++ other.filter fun hash => hash ∉ seen
  estimate seen := seen.length
  Percentile := List Int
  newPercentile := []
  insertPercentile number seen := seen ++ [number]
  mergePercentile seen other := seen ++ other
  quantile _ seen := seen.head?
  TopK := List TopKValue
  newTopK _ := []
  insertTopK value seen := seen ++ [value]
  mergeTopK seen other := seen ++ other
  topEntries _ := []
  Bloom := List String
  newBloom _ _ := []
  insertBloom key keys := key :: keys

variable {kernel : Kernel}

def numeric : Value → Option kernel.Num
  | .f64 number => some (kernel.ofF64 number)
  | .i64 number => some (kernel.ofInt number.toInt)
  | _ => none

def notNull : Value → Option Value
  | .null => none
  | value => some value

def valueToKeyString (kernel : Kernel) : Value → Option String
  | .str text => some text
  | .i64 number => some (toString number)
  | .f64 number => some (kernel.debugF64 number)
  | .bool flag => some (toString flag)
  | .datetime millis => some (toString millis)
  | _ => none

def categoryText : Value → Option String
  | .str text => some text
  | .i64 number => some (toString number)
  | .bool flag => some (toString flag)
  | _ => none

def topKValueOf : Value → Option TopKValue
  | .str text => some (.str text)
  | .i64 number => some (.int number)
  | .f64 number => some (.float (.ofF64 number))
  | .bool flag => some (.bool flag)
  | .datetime millis => some (.int millis)
  | _ => none

def valueLt : Value → Value → Bool
  | .f64 first, .f64 second => first.partialCmp second = some .lt
  | .i64 first, .i64 second => first < second
  | .str first, .str second => first < second
  | .datetime first, .datetime second => first < second
  | _, _ => false

/-- The common form of the updates by name: what the predicate refuses, what has
no field, and what the operator does not read changes nothing. -/
def updateField {α σ : Type} (read : Value → Option α) (change : α → σ → σ) (row : Row)
    (field : Option String) (whereMatched : Bool) (state : σ) : σ :=
  if whereMatched then
    match field with
    | none => state
    | some name =>
        match (row.get name).bind read with
        | none => state
        | some seen => change seen state
  else state

def updateValue {α σ : Type} (read : Value → Option α) (change : α → σ → σ)
    (preVal : Option Value) (whereMatched : Bool) (state : σ) : σ :=
  if whereMatched then
    match preVal.bind read with
    | none => state
    | some seen => change seen state
  else state

theorem updateValue_lookup {α σ : Type} (read : Value → Option α) (change : α → σ → σ) (row : Row)
    (field : Option String) (whereMatched : Bool) (state : σ) :
    updateValue read change (field.bind row.get) whereMatched state =
      updateField read change row field whereMatched state := by
  cases field with
  | none => rfl
  | some name => rfl

end Beava.Agg
