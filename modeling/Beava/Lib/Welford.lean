/-
Welford's moments of a list of numbers.

The moments keep the count, the mean and the sum of the squared deviations from
the mean, and take in one number or the moments of another list at a time.  They
are the moments of the whole list, whatever its order.
-/

import Mathlib.Algebra.BigOperators.Group.List.Lemmas
import Mathlib.Algebra.Order.BigOperators.Group.List
import Mathlib.Algebra.Order.Field.Basic
import Mathlib.Tactic.FieldSimp
import Mathlib.Tactic.LinearCombination
import Mathlib.Tactic.Ring

namespace Welford

variable {K : Type} [Field K]

structure Moments (K : Type) where
  count : Nat
  mean : K
  m2 : K

namespace Moments

def empty : Moments K := ⟨0,0,0⟩

def add (moments : Moments K) (number : K) : Moments K :=
  let mean := moments.mean + (number - moments.mean) / (moments.count + 1 : Nat)
  ⟨moments.count + 1,mean,moments.m2 + (number - moments.mean) * (number - mean)⟩

/-- The moments of two lists together. -/
def merge (first second : Moments K) : Moments K :=
  let count := first.count + second.count
  let delta := second.mean - first.mean
  ⟨count,first.mean + delta * second.count / count,
    first.m2 + second.m2 + delta * delta * first.count * second.count / count⟩

end Moments

def mean (numbers : List K) : K := numbers.sum / numbers.length

def deviation (numbers : List K) : K :=
  (numbers.map fun number => (number - mean numbers) ^ 2).sum

/-- The sample variance. -/
def variance (numbers : List K) : K := deviation numbers / (numbers.length - 1 : Nat)

theorem mean_perm {first second : List K} (same : first.Perm second) : mean first = mean second := by
  rw [mean,mean,same.sum_eq,same.length_eq]

theorem deviation_perm {first second : List K} (same : first.Perm second) :
    deviation first = deviation second := by
  rw [deviation,deviation,mean_perm same]
  exact (same.map _).sum_eq

theorem variance_perm {first second : List K} (same : first.Perm second) :
    variance first = variance second := by
  rw [variance,variance,deviation_perm same,same.length_eq]

theorem deviation_nonneg {K : Type} [Field K] [LinearOrder K] [IsStrictOrderedRing K]
    (numbers : List K) : 0 ≤ deviation numbers := by
  apply List.sum_nonneg
  intro square member
  obtain ⟨number,_,rfl⟩ := List.mem_map.mp member
  exact sq_nonneg _

def squares (numbers : List K) : K := (numbers.map fun number => number ^ 2).sum

theorem sum_deviation (numbers : List K) (center : K) :
    (numbers.map fun number => (number - center) ^ 2).sum =
      squares numbers - 2 * center * numbers.sum + numbers.length * center ^ 2 := by
  unfold squares
  induction numbers with
  | nil => simp
  | cons number numbers ih =>
      simp only [List.map_cons,List.sum_cons,List.length_cons,Nat.cast_add,Nat.cast_one,ih]
      ring

section CharZero

variable [CharZero K]

theorem length_mul_mean (numbers : List K) : numbers.length * mean numbers = numbers.sum := by
  cases numbers with
  | nil => simp [mean]
  | cons number numbers =>
      have counted : ((number :: numbers).length : K) ≠ 0 :=
        Nat.cast_ne_zero.mpr (Nat.succ_ne_zero _)
      exact mul_div_cancel₀ _ counted

theorem deviation_eq (numbers : List K) :
    deviation numbers = squares numbers - numbers.length * mean numbers ^ 2 := by
  rw [deviation,sum_deviation,← length_mul_mean numbers]
  ring

structure Summarises (numbers : List K) (moments : Moments K) : Prop where
  count : moments.count = numbers.length
  mean : moments.mean = mean numbers
  m2 : moments.m2 = deviation numbers

omit [CharZero K] in
theorem summarises_empty : Summarises ([] : List K) Moments.empty where
  count := rfl
  mean := by
    rw [Welford.mean,List.sum_nil,zero_div]
    rfl
  m2 := rfl

variable {numbers others : List K} {moments merged : Moments K}

theorem Summarises.add (summarises : Summarises numbers moments) (number : K) :
    Summarises (numbers ++ [number]) (moments.add number) := by
  have counted : ((numbers.length + 1 : Nat) : K) ≠ 0 := Nat.cast_ne_zero.mpr (Nat.succ_ne_zero _)
  have longer : (numbers ++ [number]).length = numbers.length + 1 := by
    rw [List.length_append,List.length_singleton]
  have total := length_mul_mean numbers
  have next : ((numbers.length + 1 : Nat) : K) * (moments.add number).mean =
      numbers.length * Welford.mean numbers + number := by
    rw [Moments.add,summarises.mean,summarises.count,mul_add,mul_div_cancel₀ _ counted]
    push_cast
    ring
  have means : (moments.add number).mean = Welford.mean (numbers ++ [number]) := by
    rw [Welford.mean,eq_div_iff (by rw [longer]; exact counted),longer,mul_comm,next,total,
      List.sum_append,List.sum_singleton]
  constructor
  · rw [longer,← summarises.count]
    rfl
  · exact means
  · have before := deviation_eq numbers
    have squared : squares (numbers ++ [number]) = squares numbers + number ^ 2 := by
      rw [squares,List.map_append,List.sum_append,List.map_singleton,List.sum_singleton]
      rfl
    rw [deviation_eq,← means,longer,squared]
    have step : (moments.add number).m2 =
        deviation numbers +
          (number - Welford.mean numbers) * (number - (moments.add number).mean) := by
      rw [← summarises.m2,← summarises.mean]
      rfl
    rw [step,before]
    push_cast at next ⊢
    linear_combination (Welford.mean numbers + (moments.add number).mean) * next

theorem Summarises.merge (first : Summarises numbers moments) (second : Summarises others merged)
    (nonempty : others ≠ []) : Summarises (numbers ++ others) (moments.merge merged) := by
  have filled : 0 < others.length := List.length_pos_iff.mpr nonempty
  have counted : ((numbers.length + others.length : Nat) : K) ≠ 0 :=
    Nat.cast_ne_zero.mpr (by omega)
  have longer : (numbers ++ others).length = numbers.length + others.length := List.length_append
  have total := length_mul_mean numbers
  have added := length_mul_mean others
  have next : ((numbers.length + others.length : Nat) : K) * (moments.merge merged).mean =
      numbers.length * Welford.mean numbers + others.length * Welford.mean others := by
    rw [Moments.merge,first.mean,second.mean,first.count,second.count,mul_add,
      mul_div_cancel₀ _ counted]
    push_cast
    ring
  have means : (moments.merge merged).mean = Welford.mean (numbers ++ others) := by
    rw [Welford.mean,eq_div_iff (by rw [longer]; exact counted),longer,mul_comm,next,total,added,
      List.sum_append]
  constructor
  · rw [longer,← first.count,← second.count]
    rfl
  · exact means
  · have squared : squares (numbers ++ others) = squares numbers + squares others := by
      rw [squares,List.map_append,List.sum_append]
      rfl
    rw [deviation_eq,← means,longer,squared]
    have step : (moments.merge merged).m2 = deviation numbers + deviation others +
        (Welford.mean others - Welford.mean numbers) * (Welford.mean others - Welford.mean numbers) * numbers.length *
          others.length / (numbers.length + others.length : Nat) := by
      rw [← first.m2,← second.m2,← first.mean,← second.mean,← first.count,← second.count]
      rfl
    have spread : (moments.merge merged).mean =
        (numbers.length * Welford.mean numbers + others.length * Welford.mean others) /
          (numbers.length + others.length : Nat) := by
      rw [eq_div_iff counted,mul_comm,next]
    rw [step,deviation_eq numbers,deviation_eq others,spread]
    push_cast at counted ⊢
    field_simp
    ring

end CharZero

end Welford
