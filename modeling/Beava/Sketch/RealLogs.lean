/-
Real numbers as the arithmetic of a quantile sketch.

The logarithm, the exponential function and the quotient of two logarithms are the
real ones.  What remains of the machine are the bounds of its integers.
-/

import Mathlib.Analysis.SpecialFunctions.Log.Basic
import Beava.Core.Binary64
import Beava.Sketch.UDDSketch

namespace Beava.Sketch

open Beava.Core

variable {exponent : Nat}

/-- The integer next to a number that has 32 bits. -/
def toI32 (number : Int) : Int := max (-2 ^ 31) (min number (2 ^ 31 - 1))

theorem toI32_eq {number : Int} (low : -2 ^ 31 ≤ number) (high : number < 2 ^ 31) :
    toI32 number = number := by
  unfold toI32
  omega

noncomputable abbrev realArith : LogArith where
  Num := ℝ
  ofF64 number := (number.rational : ℝ)
  ofInt number := (number : ℝ)
  add first second := first + second
  sub first second := first - second
  mul first second := first * second
  div first second := first / second
  neg number := -number
  ln := Real.log
  exp := Real.exp
  lt first second := decide (first < second)
  floorI32 number := toI32 ⌊number⌋
  floorU64 number := min ⌊number⌋.toNat u64Max
  clampUnit number := max 0 (min number 1)

theorem realArith_lt (first second : ℝ) : realArith.lt first second = true ↔ first < second :=
  decide_eq_true_iff

theorem realArith_zero : realArith.zero = (0 : ℝ) := by
  have zero : ((0 : Int) : ℝ) = 0 := Int.cast_zero
  exact zero

theorem realArith_one : realArith.one = (1 : ℝ) := by
  have one : ((1 : Int) : ℝ) = 1 := Int.cast_one
  exact one

theorem realArith_two : realArith.two = (2 : ℝ) := by
  have two : ((2 : Int) : ℝ) = 2 := Int.cast_ofNat 2
  exact two

/-- The quotient of two logarithms, whose floor is the key of a value before any
collapse. -/
noncomputable def logRatio (alpha0 : ℝ) (value : ℝ) : ℝ :=
  Real.log value / Real.log ((1 + alpha0) / (1 - alpha0))

section Start

variable {alpha0 : ℝ}

theorem lnGamma_fresh (alpha0 : ℝ) (maxBuckets : Nat) :
    (UDDSketch.fresh alpha0 maxBuckets : UDDSketch realArith).lnGamma =
      Real.log ((1 + alpha0) / (1 - alpha0)) := by
  have one : ((1 : Int) : ℝ) = 1 := Int.cast_one
  rw [← one]
  rfl

theorem one_lt_gamma (above : 0 < alpha0) (below : alpha0 < 1) :
    1 < (1 + alpha0) / (1 - alpha0) := by
  rw [one_lt_div (by linarith)]
  linarith

theorem log_gamma_pos (above : 0 < alpha0) (below : alpha0 < 1) :
    0 < Real.log ((1 + alpha0) / (1 - alpha0)) :=
  Real.log_pos (one_lt_gamma above below)

theorem new_eq (above : 0 < alpha0) (below : alpha0 < 1) {maxBuckets : Nat}
    (enough : 16 ≤ maxBuckets) :
    (UDDSketch.new alpha0 maxBuckets : Option (UDDSketch realArith)) =
      some (UDDSketch.fresh alpha0 maxBuckets) := by
  have lower : realArith.lt realArith.zero alpha0 = true := by
    rw [realArith_lt,realArith_zero]
    exact above
  have upper : realArith.lt alpha0 realArith.one = true := by
    rw [realArith_lt,realArith_one]
    exact below
  unfold UDDSketch.new
  rw [lower,upper,decide_eq_true enough]
  rfl

end Start

theorem isPositive_iff (number : F64) : number.isPositive = true ↔ 0 < number.rational := by
  have zeroKey : F64.zero.orderKey = 0 := by decide
  rw [F64.isPositive,decide_eq_true_iff,← F64.rational_zero,F64.rational_lt_iff,zeroKey]

theorem toNat_abs (number : F64) : number.abs.bits.toNat = number.bits.toNat % 2 ^ 63 := by
  have mask : (0x7FFFFFFFFFFFFFFF : UInt64).toNat = 2 ^ 63 - 1 := rfl
  rw [F64.abs,UInt64.toNat_and,mask,Nat.and_two_pow_sub_one_eq_mod]

theorem signedUnits_cases (number : F64) :
    number.signedUnits = -(F64.units number.abs.bits.toNat : Int) ∨
      number.signedUnits = (F64.units number.abs.bits.toNat : Int) := by
  have top : (0x8000000000000000 : UInt64).toNat = 2 ^ 63 := rfl
  have bits := toNat_abs number
  by_cases negative : 0x8000000000000000 ≤ number.bits
  · left
    rw [F64.signedUnits,if_pos negative,F64.abs]
  · right
    rw [F64.signedUnits,if_neg negative,bits,Nat.mod_eq_of_lt]
    rw [UInt64.le_iff_toNat_le,top] at negative
    omega

theorem abs_signedUnits (number : F64) :
    |number.signedUnits| = (F64.units number.abs.bits.toNat : Int) := by
  rcases signedUnits_cases number with negative | positive
  · rw [negative,abs_neg,Nat.abs_cast]
  · rw [positive,Nat.abs_cast]

theorem isZero_iff (number : F64) : number.isZero = true ↔ number.rational = 0 := by
  have units := F64.units_pos_iff number.abs.bits.toNat
  have size := abs_signedUnits number
  have isSize : number.abs.bits = 0 ↔ number.abs.bits.toNat = 0 := by
    rw [← UInt64.toNat_inj]
    rfl
  rw [F64.isZero,decide_eq_true_iff,F64.rational,div_eq_zero_iff,
    or_iff_left (pow_ne_zero _ two_ne_zero),Int.cast_eq_zero,
    ← abs_eq_zero (a := number.signedUnits),size]
  rw [F64.abs] at isSize units ⊢
  rw [isSize]
  omega

theorem rational_abs (number : F64) : number.abs.rational = |number.rational| := by
  have top : (0x8000000000000000 : UInt64).toNat = 2 ^ 63 := rfl
  have bound := Nat.mod_lt number.bits.toNat (show 0 < 2 ^ 63 by decide)
  have cleared : ¬0x8000000000000000 ≤ number.abs.bits := by
    rw [UInt64.le_iff_toNat_le,toNat_abs,top]
    exact Nat.not_le_of_lt bound
  have power : (0 : ℚ) ≤ 2 ^ 1074 := pow_nonneg zero_le_two 1074
  rw [F64.rational,F64.rational,abs_div,← Int.cast_abs,abs_signedUnits,abs_of_nonneg power,
    F64.signedUnits,if_neg cleared]

theorem units_exponent (above : 0 < exponent) :
    F64.units (exponent * 2 ^ 52) = 2 ^ (exponent + 51) := by
  have exponents : 52 + (exponent - 1) = exponent + 51 := by omega
  rw [F64.units,Nat.mul_div_cancel _ (Nat.two_pow_pos 52),Nat.mul_mod_left,
    if_neg (Nat.ne_of_gt above),Nat.add_zero,← Nat.pow_add,exponents]

/-- The least number above zero is `2 ^ -1074`, and finite numbers are below `2 ^ 1024`. -/
theorem size_bounds {number : F64} (finite : number.isFinite = true)
    (notZero : number.isZero = false) :
    (1 : ℚ) / 2 ^ 1074 ≤ |number.rational| ∧ |number.rational| < 2 ^ 1024 := by
  have power : (0 : ℚ) < 2 ^ 1074 := pow_pos zero_lt_two 1074
  have size : |number.rational| = (F64.units number.abs.bits.toNat : ℚ) / 2 ^ 1074 := by
    rw [F64.rational,abs_div,← Int.cast_abs,abs_signedUnits,abs_of_pos power,
      Int.cast_natCast]
  have least : 1 ≤ F64.units number.abs.bits.toNat := by
    apply (F64.units_pos_iff _).mpr
    apply Nat.pos_of_ne_zero
    intro none
    have zero : number.isZero = true := decide_eq_true (UInt64.toNat_inj.mp none)
    rw [zero] at notZero
    cases notZero
  have infinity : F64.units (0x7FF0000000000000 : UInt64).toNat = 2 ^ 1024 * 2 ^ 1074 := by
    have bits : (0x7FF0000000000000 : UInt64).toNat = 2047 * 2 ^ 52 := rfl
    rw [bits,units_exponent (by decide),← Nat.pow_add]
  have greatest : F64.units number.abs.bits.toNat < 2 ^ 1024 * 2 ^ 1074 := by
    rw [← infinity,F64.units_lt_iff,← UInt64.lt_iff_toNat_lt]
    exact of_decide_eq_true finite
  rw [size]
  constructor
  · rw [div_le_div_iff_of_pos_right power]
    exact_mod_cast least
  · rw [div_lt_iff₀ power]
    exact_mod_cast greatest

def powerOfTwo (exponent : Int) : F64 := ⟨UInt64.ofNat ((exponent + 1023).toNat * 2 ^ 52)⟩

theorem rational_powerOfTwo (bound : exponent ≤ 1023) :
    (powerOfTwo exponent).rational = 2 ^ exponent := by
  have size : ((exponent : Int) + 1023).toNat = exponent + 1023 := by omega
  have bits : (powerOfTwo exponent).bits.toNat = (exponent + 1023) * 2 ^ 52 := by
    rw [powerOfTwo,size]
    apply UInt64.toNat_ofNat_of_lt'
    rw [UInt64.size]
    omega
  have notNegative : ¬0x8000000000000000 ≤ (powerOfTwo exponent).bits := by
    rw [UInt64.le_iff_toNat_le,bits]
    have top : (0x8000000000000000 : UInt64).toNat = 2 ^ 63 := rfl
    rw [top]
    omega
  have units : F64.units ((exponent + 1023) * 2 ^ 52) = 2 ^ exponent * 2 ^ 1074 := by
    rw [units_exponent (Nat.add_pos_right _ (by decide)),← Nat.pow_add]
  rw [F64.rational,F64.signedUnits,if_neg notNegative,bits,units]
  rw [Int.natCast_mul,Int.cast_mul,Int.cast_natCast,Int.cast_natCast,Nat.cast_pow,Nat.cast_pow,
    Nat.cast_ofNat,mul_div_assoc,div_self (pow_ne_zero _ two_ne_zero),mul_one]

end Beava.Sketch
