/-
Sums whose items fade with their age.

A weight turns the sum of two ages into a product, so that a sum that was taken at
one time is the sum at a later time but for one factor.
-/

import Mathlib.Algebra.BigOperators.Group.List.Lemmas
import Mathlib.Algebra.BigOperators.Ring.List
import Mathlib.Tactic.Ring

namespace Decay

variable {K : Type} [CommRing K]

structure Weight (weight : Nat → K) : Prop where
  zero : weight 0 = 1
  add : ∀ first second, weight (first + second) = weight first * weight second

def sumAt (weight : Nat → K) (time : Int) (items : List (Int × K)) : K :=
  (items.map fun item => item.2 * weight (time - item.1).toNat).sum

variable {weight : Nat → K} {items : List (Int × K)} {time later : Int}

theorem sumAt_later (weighs : Weight weight) (notBefore : ∀ item ∈ items, item.1 ≤ time)
    (ordered : time ≤ later) :
    sumAt weight later items = sumAt weight time items * weight (later - time).toNat := by
  unfold sumAt
  induction items with
  | nil => rw [List.map_nil,List.map_nil,List.sum_nil,zero_mul]
  | cons item items ih =>
      have itemBefore := notBefore item List.mem_cons_self
      have ages : (later - item.1).toNat = (time - item.1).toNat + (later - time).toNat := by
        omega
      have rest := ih fun other member => notBefore other (List.mem_cons_of_mem _ member)
      rw [List.map_cons,List.map_cons,List.sum_cons,List.sum_cons,rest,ages,weighs.add]
      ring

theorem sumAt_concat (weighs : Weight weight) (items : List (Int × K)) (time : Int) (number : K) :
    sumAt weight time (items ++ [(time,number)]) = sumAt weight time items + number := by
  rw [sumAt,List.map_append,List.sum_append,List.map_singleton,List.sum_singleton,Int.sub_self,
    Int.toNat_zero,weighs.zero,mul_one]
  rfl

end Decay
