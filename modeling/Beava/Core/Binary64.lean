/-
The rational numbers that binary64 numbers stand for.

The bits are a sign, an exponent of 11 bits and a fraction of 52 bits.  Sizes are
counted in units of `2 ^ -1074`, the least number above zero.  Without the sign,
the bits are ordered as the sizes are.  An infinity counts as `2 ^ 1024`, which is
beyond every finite number, and a NaN is not looked at.
-/

import Mathlib.Algebra.Order.Ring.Rat
import Mathlib.Tactic.NormNum
import Mathlib.Tactic.Positivity
import Beava.Core.Expr

namespace Beava.Core

namespace F64

/-- How many units the number has whose bits, but for the sign, are these. -/
def units (bits : Nat) : Nat :=
  if bits / 2 ^ 52 = 0 then bits % 2 ^ 52
  else (2 ^ 52 + bits % 2 ^ 52) * 2 ^ (bits / 2 ^ 52 - 1)

def signedUnits (number : F64) : Int :=
  if 0x8000000000000000 ≤ number.bits then
    -(units (number.bits &&& 0x7FFFFFFFFFFFFFFF).toNat : Int)
  else (units number.bits.toNat : Int)

def rational (number : F64) : ℚ := number.signedUnits / 2 ^ 1074

theorem units_lt {first second : Nat} (below : first < second) : units first < units second := by
  have firstParts := Nat.div_add_mod first (2 ^ 52)
  have secondParts := Nat.div_add_mod second (2 ^ 52)
  have firstBound := Nat.mod_lt first (show 0 < 2 ^ 52 by decide)
  have secondBound := Nat.mod_lt second (show 0 < 2 ^ 52 by decide)
  unfold units
  generalize first / 2 ^ 52 = firstExp at *
  generalize second / 2 ^ 52 = secondExp at *
  generalize first % 2 ^ 52 = firstFraction at *
  generalize second % 2 ^ 52 = secondFraction at *
  rcases Nat.lt_trichotomy firstExp secondExp with lower | same | higher
  · -- the first is below the least number with the exponent of the second
    rw [if_neg (show secondExp ≠ 0 by omega)]
    have least : 2 ^ 52 * 2 ^ (secondExp - 1) ≤
        (2 ^ 52 + secondFraction) * 2 ^ (secondExp - 1) :=
      Nat.mul_le_mul_right _ (Nat.le_add_right _ _)
    refine Nat.lt_of_lt_of_le ?_ least
    split
    · exact Nat.lt_of_lt_of_le firstBound (Nat.le_mul_of_pos_right _ (Nat.two_pow_pos _))
    · obtain ⟨exponent,rfl⟩ : ∃ exponent, firstExp = exponent + 1 := ⟨firstExp - 1,by omega⟩
      have next : 2 ^ 52 * 2 ^ (exponent + 1) ≤ 2 ^ 52 * 2 ^ (secondExp - 1) :=
        Nat.mul_le_mul_left _ (Nat.pow_le_pow_right (by decide) (by omega))
      refine Nat.lt_of_lt_of_le ?_ next
      rw [Nat.pow_succ 2 exponent,Nat.add_sub_cancel,Nat.mul_comm (2 ^ exponent),← Nat.mul_assoc]
      exact Nat.mul_lt_mul_of_pos_right (by omega) (Nat.two_pow_pos _)
  · rw [same] at firstParts ⊢
    split
    · omega
    · exact Nat.mul_lt_mul_of_pos_right (by omega) (Nat.two_pow_pos _)
  · omega

theorem units_lt_iff {first second : Nat} : units first < units second ↔ first < second := by
  constructor
  · intro smaller
    by_contra notBelow
    rcases Nat.lt_or_eq_of_le (Nat.le_of_not_lt notBelow) with above | same
    · exact absurd (units_lt above) (Nat.lt_asymm smaller)
    · rw [same] at smaller
      exact Nat.lt_irrefl _ smaller
  · exact units_lt

theorem units_zero : units 0 = 0 := by
  decide

theorem units_pos_iff (bits : Nat) : 0 < units bits ↔ 0 < bits := by
  have above := @units_lt_iff 0 bits
  rwa [units_zero] at above

theorem orderKey_lt_iff (first second : F64) :
    first.orderKey < second.orderKey ↔ first.signedUnits < second.signedUnits := by
  unfold orderKey signedUnits
  generalize (first.bits &&& 0x7FFFFFFFFFFFFFFF).toNat = firstSize
  generalize (second.bits &&& 0x7FFFFFFFFFFFFFFF).toNat = secondSize
  have firstPos := units_pos_iff firstSize
  have secondPos := units_pos_iff secondSize
  split <;> split
  · have sizes := @units_lt_iff secondSize firstSize
    omega
  · have bitsPos := units_pos_iff second.bits.toNat
    omega
  · have bitsPos := units_pos_iff first.bits.toNat
    omega
  · have bits := @units_lt_iff first.bits.toNat second.bits.toNat
    omega

theorem rational_lt_iff (first second : F64) :
    first.rational < second.rational ↔ first.orderKey < second.orderKey := by
  rw [orderKey_lt_iff,rational,rational,div_lt_div_iff_of_pos_right (by positivity),
    Int.cast_lt]

theorem rational_zero : F64.zero.rational = 0 := by
  have none : F64.zero.signedUnits = 0 := by decide
  rw [rational,none,Int.cast_zero,zero_div]

theorem rational_pos {number : F64} (above : 0 < number.orderKey) : 0 < number.rational := by
  have zero : F64.zero.orderKey = 0 := by decide
  rw [← rational_zero,rational_lt_iff,zero]
  exact above

end F64

end Beava.Core
