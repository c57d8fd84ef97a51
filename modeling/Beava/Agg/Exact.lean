/-
Arithmetic without rounding.

A kernel is exact when its numbers are the elements of a field and its operations
are those of the field.  What an operator reports is then the written form of an
element, and equations between elements are equations between reports.
-/

import Mathlib.Algebra.Field.Rat
import Mathlib.Algebra.Order.Archimedean.Basic
import Beava.Agg.Kernel
import Beava.Core.Binary64

namespace Beava.Agg

open Beava.Core Beava.Sketch

structure Exact (kernel : Kernel) (K : Type) [Field K] where
  value : kernel.Num ≃ K
  ofInt : ∀ number : Int, value (kernel.ofInt number) = number
  add : ∀ first second : kernel.Num, value (first + second) = value first + value second
  sub : ∀ first second : kernel.Num, value (first - second) = value first - value second
  mul : ∀ first second : kernel.Num, value (first * second) = value first * value second
  div : ∀ first second : kernel.Num, value (first / second) = value first / value second
  neg : ∀ number : kernel.Num, value (-number) = -value number

namespace Exact

variable {kernel : Kernel} {K : Type} [Field K] (exact : Exact kernel K)

def report (number : K) : Value := kernel.report (exact.value.symm number)

theorem ofNat (number : Nat) : exact.value (kernel.ofInt number) = number := by
  rw [exact.ofInt,Int.cast_natCast]

theorem zero : exact.value kernel.zero = 0 := by
  rw [Kernel.zero,exact.ofInt,Int.cast_zero]

theorem one : exact.value kernel.one = 1 := by
  rw [Kernel.one,exact.ofInt,Int.cast_one]

theorem report_value {number : kernel.Num} {element : K} (same : exact.value number = element) :
    kernel.report number = exact.report element := by
  rw [report,← same,Equiv.symm_apply_apply]

end Exact

/-- The number in the binary format next to a rational number, on the side of zero. -/
def nearestF64 (number : ℚ) : F64 :=
  if number = 0 then F64.zero
  else
    let size : ℚ := if number < 0 then -number else number
    let guess : Int := (size.num.toNat.log2 : Int) - (size.den.log2 : Int)
    let exponent : Int := if (2 : ℚ) ^ guess ≤ size then guess else guess - 1
    let fraction : Nat := (size * 2 ^ (52 - exponent)).floor.toNat % 2 ^ 52
    let sign : Nat := if number < 0 then 2 ^ 63 else 0
    ⟨UInt64.ofNat (sign + (exponent + 1023).toNat * 2 ^ 52 + fraction)⟩

/-- Rational numbers, with `2 ^ x` rounded down for `exp (x * ln 2)`, and sketches
that keep everything. -/
def rationalKernel : Kernel where
  Num := ℚ
  ofF64 := F64.rational
  toF64 := nearestF64
  ofInt number := number
  toInt64 number := saturate number.floor
  add := (· + ·)
  sub := (· - ·)
  mul := (· * ·)
  div := (· / ·)
  neg number := -number
  max first second := if first ≤ second then second else first
  abs number := if number < 0 then -number else number
  sqrt number := number.floor.toNat.sqrt
  exp number := (2 : ℚ) ^ (number / F64.rational ⟨0x3FE62E42FEFA39EF⟩).floor
  log2 number := number.floor.toNat.log2
  cos _ := 1
  toRadians number := number
  fract number := number - number.floor
  isFinite _ := true
  lt first second := first < second
  le first second := first ≤ second
  eq first second := first = second
  display number := toString number.floor
  debugF64 bits := toString bits.bits
  haversineKm first second := (first.1 - second.1) ^ 2 + (first.2 - second.2) ^ 2
  hashValue value := match value with
    | .i64 number => number.toUInt64
    | _ => 0
  CountDistinct := List UInt64
  newCountDistinct := []
  addHash hash seen := if hash ∈ seen then seen else seen ++ [hash]
  mergeCountDistinct seen other := seen ++ other.filter fun hash => hash ∉ seen
  estimate seen := seen.length
  Percentile := List ℚ
  newPercentile := []
  insertPercentile number seen := seen ++ [number]
  mergePercentile seen other := seen ++ other
  quantile _ seen := seen.head?
  TopK := List TopKValue
  newTopK _ := []
  insertTopK value seen := seen ++ [value]
  mergeTopK seen other := seen ++ other
  topEntries _ := []
  Bloom := List String
  newBloom _ _ := []
  insertBloom key keys := key :: keys

def rationalExact : Exact rationalKernel ℚ where
  value := Equiv.refl ℚ
  ofInt _ := rfl
  add _ _ := rfl
  sub _ _ := rfl
  mul _ _ := rfl
  div _ _ := rfl
  neg _ := rfl

end Beava.Agg
