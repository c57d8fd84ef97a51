/-
What a quantile sketch knows about its values.

Every sketch that comes from insertions and merges is a histogram of the values that
came in: its level says how coarse the buckets are, and a quantile is the centre of
the bucket in which the value of the rank lies.
-/

import Mathlib.Data.Prod.Lex
import Beava.Sketch.BucketBudget

namespace Beava.Sketch

open Beava.Core OrderedCounts

namespace UDDSketch

noncomputable def reals (values : List F64) : List ℝ :=
  (values.filter F64.isFinite).map fun value => (value.rational : ℝ)

/-- The key of a positive number after so many collapses. -/
noncomputable def bucketOf (alpha0 : ℝ) (collapses : Nat) (size : ℝ) : Int :=
  ⌊logRatio alpha0 size / 2 ^ collapses⌋

/-- The keys of the numbers above zero. -/
noncomputable def posKeys (alpha0 : ℝ) (collapses : Nat) (numbers : List ℝ) : List Int :=
  (numbers.filter (0 < ·)).map (bucketOf alpha0 collapses)

/-- The keys of the numbers below zero. -/
noncomputable def negKeys (alpha0 : ℝ) (collapses : Nat) (numbers : List ℝ) : List Int :=
  (numbers.filter (· < 0)).map fun number => bucketOf alpha0 collapses (-number)

/-- The mean of the ends of a bucket. -/
noncomputable def centre (sketch : UDDSketch realArith) (key : Int) : ℝ :=
  (Real.exp (key * (sketch.lnGamma : ℝ)) + Real.exp ((key + 1) * (sketch.lnGamma : ℝ))) / 2

noncomputable def centreOf (alpha0 : ℝ) (sketch : UDDSketch realArith) (number : ℝ) : ℝ :=
  if 0 < number then centre sketch (bucketOf alpha0 sketch.numCollapses number)
  else if number < 0 then -centre sketch (bucketOf alpha0 sketch.numCollapses (-number))
  else 0

/-- The rank of a share: `floor(q * (n - 1))`. -/
noncomputable def rankOf (q : ℝ) (count : Nat) : Nat :=
  ⌊max 0 (min q 1) * ((count : ℝ) - 1)⌋.toNat

/-- Before any collapse, the keys of the numbers and the keys behind them have 32 bits. -/
def Fits (alpha0 : ℝ) (numbers : List ℝ) : Prop :=
  ∀ number ∈ numbers, number ≠ 0 →
    -2 ^ 31 ≤ logRatio alpha0 |number| ∧ logRatio alpha0 |number| < 2 ^ 31 - 1

/-- All sketches of the tree start alike. -/
def Tree.StartsAt (alpha0 : ℝ) : Tree realArith → Prop
  | .new start => start = alpha0
  | .insert _ tree => tree.StartsAt alpha0
  | .merge tree other => tree.StartsAt alpha0 ∧ other.StartsAt alpha0

section Levels

variable {alpha0 : ℝ} {collapses : Nat}

theorem bucketOf_succ (alpha0 : ℝ) (collapses : Nat) (size : ℝ) :
    bucketOf alpha0 (collapses + 1) size = bucketOf alpha0 collapses size / 2 := by
  have halves := Int.floor_div_natCast (logRatio alpha0 size / 2 ^ collapses) 2
  rw [bucketOf,bucketOf,pow_succ,← div_div]
  exact_mod_cast halves

theorem posKeys_succ (alpha0 : ℝ) (collapses : Nat) (numbers : List ℝ) :
    posKeys alpha0 (collapses + 1) numbers = (posKeys alpha0 collapses numbers).map (· / 2) := by
  rw [posKeys,posKeys,List.map_map]
  apply List.map_congr_left
  intro number _
  exact bucketOf_succ alpha0 collapses number

theorem negKeys_succ (alpha0 : ℝ) (collapses : Nat) (numbers : List ℝ) :
    negKeys alpha0 (collapses + 1) numbers = (negKeys alpha0 collapses numbers).map (· / 2) := by
  rw [negKeys,negKeys,List.map_map]
  apply List.map_congr_left
  intro number _
  exact bucketOf_succ alpha0 collapses (-number)

theorem bucketOf_mono (above : 0 < alpha0) (below : alpha0 < 1) {first second : ℝ}
    (positive : 0 < first) (less : first ≤ second) :
    bucketOf alpha0 collapses first ≤ bucketOf alpha0 collapses second := by
  have logs := Real.log_le_log positive less
  have gamma := log_gamma_pos above below
  apply Int.floor_le_floor
  apply div_le_div_of_nonneg_right _ (pow_nonneg zero_le_two collapses)
  exact div_le_div_of_nonneg_right logs (le_of_lt gamma)

theorem bucketOf_coarse {size : ℝ} (low : -2 ^ 31 ≤ logRatio alpha0 size)
    (high : logRatio alpha0 size < 2 ^ 31 - 1) (coarse : 31 ≤ collapses) :
    bucketOf alpha0 collapses size = -1 ∨ bucketOf alpha0 collapses size = 0 := by
  have power : (2 : ℝ) ^ 31 ≤ 2 ^ collapses := pow_le_pow_right₀ one_le_two coarse
  have positive : (0 : ℝ) < 2 ^ collapses := pow_pos zero_lt_two _
  have above : -1 ≤ bucketOf alpha0 collapses size := by
    apply Int.le_floor.mpr
    rw [Int.cast_neg,Int.cast_one,le_div_iff₀ positive]
    linarith
  have under : bucketOf alpha0 collapses size < 1 := by
    apply Int.floor_lt.mpr
    rw [Int.cast_one,div_lt_one positive]
    linarith
  omega

theorem bucketOf_fits {size : ℝ} (low : -2 ^ 31 ≤ logRatio alpha0 size)
    (high : logRatio alpha0 size < 2 ^ 31 - 1) :
    -2 ^ 31 ≤ bucketOf alpha0 collapses size ∧ bucketOf alpha0 collapses size < 2 ^ 31 - 1 := by
  have power : (1 : ℝ) ≤ 2 ^ collapses := one_le_pow₀ one_le_two
  have positive : (0 : ℝ) < 2 ^ collapses := pow_pos zero_lt_two _
  constructor
  · apply Int.le_floor.mpr
    rw [le_div_iff₀ positive]
    push_cast
    nlinarith
  · apply Int.floor_lt.mpr
    rw [div_lt_iff₀ positive]
    push_cast
    nlinarith

end Levels

/-! ### The histogram -/

/-- The sketch is the histogram of the numbers at its level, and its alpha is that of
the level. -/
structure Represents (alpha0 : ℝ) (maxBuckets : Nat) (numbers : List ℝ)
    (sketch : UDDSketch realArith) : Prop where
  level : (sketch.lnGamma : ℝ) =
    Real.log ((1 + alpha0) / (1 - alpha0)) * 2 ^ sketch.numCollapses
  alpha : (sketch.lnGamma : ℝ) =
    Real.log ((1 + (sketch.currentAlpha : ℝ)) / (1 - (sketch.currentAlpha : ℝ)))
  alphaPos : 0 < (sketch.currentAlpha : ℝ)
  alphaLt : (sketch.currentAlpha : ℝ) < 1
  collapses : sketch.numCollapses ≤ 31
  budget : sketch.maxBuckets = maxBuckets
  pos : OrderedCounts.Counts (posKeys alpha0 sketch.numCollapses numbers) sketch.posBuckets
  neg : OrderedCounts.Counts (negKeys alpha0 sketch.numCollapses numbers) sketch.negBuckets
  zero : sketch.zeroCount = numbers.count 0
  total : sketch.totalCount = numbers.length

section Operations

variable {alpha0 : ℝ} {maxBuckets : Nat} {numbers otherNumbers : List ℝ}
  {sketch other : UDDSketch realArith}
variable {collapses : Nat} {number : ℝ}
variable {value : F64}

theorem represents_fresh (above : 0 < alpha0) (below : alpha0 < 1) (maxBuckets : Nat) :
    Represents alpha0 maxBuckets [] (fresh alpha0 maxBuckets) where
  level := by
    rw [lnGamma_fresh,fresh,pow_zero,mul_one]
  alpha := lnGamma_fresh alpha0 maxBuckets
  alphaPos := above
  alphaLt := below
  collapses := Nat.zero_le _
  budget := rfl
  pos := counts_nil
  neg := counts_nil
  zero := rfl
  total := rfl

theorem length_posKeys (alpha0 : ℝ) (collapses : Nat) (numbers : List ℝ) :
    (posKeys alpha0 collapses numbers).length ≤ numbers.length := by
  rw [posKeys,List.length_map]
  exact List.length_filter_le _ _

theorem length_negKeys (alpha0 : ℝ) (collapses : Nat) (numbers : List ℝ) :
    (negKeys alpha0 collapses numbers).length ≤ numbers.length := by
  rw [negKeys,List.length_map]
  exact List.length_filter_le _ _

theorem log_gamma_double {alpha : ℝ} (above : 0 < alpha) (below : alpha < 1) :
    Real.log ((1 + 2 * alpha / (1 + alpha * alpha)) / (1 - 2 * alpha / (1 + alpha * alpha))) =
      Real.log ((1 + alpha) / (1 - alpha)) * 2 := by
  have low : 0 < 1 - alpha := by linarith
  have high : 0 < 1 + alpha := by linarith
  have square : 0 < 1 + alpha * alpha := by nlinarith
  have quotient : (1 + 2 * alpha / (1 + alpha * alpha)) / (1 - 2 * alpha / (1 + alpha * alpha)) =
      ((1 + alpha) / (1 - alpha)) ^ 2 := by
    have difference : 1 - 2 * alpha / (1 + alpha * alpha) = (1 - alpha) ^ 2 / (1 + alpha * alpha) := by
      field_simp
      ring
    have sum : 1 + 2 * alpha / (1 + alpha * alpha) = (1 + alpha) ^ 2 / (1 + alpha * alpha) := by
      field_simp
      ring
    rw [difference,sum,div_div_div_cancel_right₀ (ne_of_gt square),div_pow]
  rw [quotient,Real.log_pow,Nat.cast_ofNat,mul_comm]

theorem Represents.collapse (represents : Represents alpha0 maxBuckets numbers sketch)
    (few : numbers.length ≤ u64Max) (room : sketch.numCollapses < 31) :
    Represents alpha0 maxBuckets numbers sketch.collapse := by
  have next : sketch.collapse.numCollapses = sketch.numCollapses + 1 := by
    simp only [UDDSketch.collapse,u32Max]
    omega
  have lnGamma : (sketch.collapse.lnGamma : ℝ) = (sketch.lnGamma : ℝ) * 2 := by
    have two := realArith_two
    change (sketch.lnGamma : ℝ) * realArith.two = _
    rw [two]
  have currentAlpha : (sketch.collapse.currentAlpha : ℝ) =
      2 * (sketch.currentAlpha : ℝ) /
        (1 + (sketch.currentAlpha : ℝ) * (sketch.currentAlpha : ℝ)) := by
    have two := realArith_two
    have one := realArith_one
    change (realArith.two * (sketch.currentAlpha : ℝ)) /
      (realArith.one + (sketch.currentAlpha : ℝ) * (sketch.currentAlpha : ℝ)) = _
    rw [two,one]
  have above := represents.alphaPos
  have below := represents.alphaLt
  have square : 0 < 1 + (sketch.currentAlpha : ℝ) * (sketch.currentAlpha : ℝ) := by nlinarith
  constructor
  · rw [lnGamma,next,represents.level,pow_succ,mul_assoc]
  · rw [lnGamma,currentAlpha,represents.alpha,log_gamma_double above below]
  · rw [currentAlpha]
    exact div_pos (by linarith) square
  · rw [currentAlpha,div_lt_one square]
    nlinarith
  · rw [next]
    omega
  · exact represents.budget
  · rw [next,posKeys_succ]
    exact represents.pos.coarsen halve_monotone
      (Nat.le_trans (length_posKeys _ _ _) few) (by decide)
  · rw [next,negKeys_succ]
    exact represents.neg.coarsen halve_monotone
      (Nat.le_trans (length_negKeys _ _ _) few) (by decide)
  · exact represents.zero
  · exact represents.total

theorem card_coarse {keys : List Int} (coarse : ∀ key ∈ keys, key = -1 ∨ key = 0) :
    keys.toFinset.card ≤ 2 := by
  have inside : keys.toFinset ⊆ {-1, 0} := by
    intro key member
    rw [Finset.mem_insert,Finset.mem_singleton]
    exact coarse key (List.mem_toFinset.mp member)
  exact Nat.le_trans (Finset.card_le_card inside) Finset.card_le_two

theorem Represents.collapses_of_full (represents : Represents alpha0 maxBuckets numbers sketch)
    (fits : Fits alpha0 numbers) (enough : 16 ≤ maxBuckets)
    (full : sketch.maxBuckets < sketch.posBuckets.length + sketch.negBuckets.length) :
    sketch.numCollapses < 31 := by
  by_contra high
  have coarse : 31 ≤ sketch.numCollapses := Nat.le_of_not_lt high
  have posFew : sketch.posBuckets.length ≤ 2 := by
    rw [length_eq_card represents.pos.sorted,represents.pos.keys_eq]
    apply card_coarse
    intro key member
    obtain ⟨number,found,rfl⟩ := List.mem_map.mp member
    have parts := List.mem_filter.mp found
    have above : 0 < number := of_decide_eq_true parts.2
    have bounds := fits number parts.1 (ne_of_gt above)
    rw [abs_of_pos above] at bounds
    exact bucketOf_coarse bounds.1 bounds.2 coarse
  have negFew : sketch.negBuckets.length ≤ 2 := by
    rw [length_eq_card represents.neg.sorted,represents.neg.keys_eq]
    apply card_coarse
    intro key member
    obtain ⟨number,found,rfl⟩ := List.mem_map.mp member
    have parts := List.mem_filter.mp found
    have under : number < 0 := of_decide_eq_true parts.2
    have bounds := fits number parts.1 (ne_of_lt under)
    rw [abs_of_neg under] at bounds
    exact bucketOf_coarse bounds.1 bounds.2 coarse
  rw [represents.budget] at full
  omega

theorem Represents.collapseIfFull (represents : Represents alpha0 maxBuckets numbers sketch)
    (fits : Fits alpha0 numbers) (enough : 16 ≤ maxBuckets) (few : numbers.length ≤ u64Max) :
    Represents alpha0 maxBuckets numbers sketch.collapseIfFull := by
  unfold UDDSketch.collapseIfFull
  split
  · rename_i full
    exact represents.collapse few (represents.collapses_of_full fits enough full)
  · exact represents

theorem Represents.bucketKey_eq (represents : Represents alpha0 maxBuckets numbers sketch)
    {size : ℝ} (low : -2 ^ 31 ≤ logRatio alpha0 size) (high : logRatio alpha0 size < 2 ^ 31 - 1) :
    sketch.bucketKey size = bucketOf alpha0 sketch.numCollapses size := by
  have bounds : -2 ^ 31 ≤ bucketOf alpha0 sketch.numCollapses size ∧
      bucketOf alpha0 sketch.numCollapses size < 2 ^ 31 - 1 := bucketOf_fits low high
  have quotient : Real.log size / (sketch.lnGamma : ℝ) =
      logRatio alpha0 size / 2 ^ sketch.numCollapses := by
    rw [represents.level,← div_div,logRatio]
  change toI32 ⌊Real.log size / (sketch.lnGamma : ℝ)⌋ = _
  rw [quotient]
  exact toI32_eq bounds.1 (lt_trans bounds.2 (by decide))

theorem posKeys_append (alpha0 : ℝ) (collapses : Nat) (numbers others : List ℝ) :
    posKeys alpha0 collapses (numbers ++ others) =
      posKeys alpha0 collapses numbers ++ posKeys alpha0 collapses others := by
  rw [posKeys,List.filter_append,List.map_append,posKeys,posKeys]

theorem negKeys_append (alpha0 : ℝ) (collapses : Nat) (numbers others : List ℝ) :
    negKeys alpha0 collapses (numbers ++ others) =
      negKeys alpha0 collapses numbers ++ negKeys alpha0 collapses others := by
  rw [negKeys,List.filter_append,List.map_append,negKeys,negKeys]

theorem reals_append (values others : List F64) :
    reals (values ++ others) = reals values ++ reals others := by
  rw [reals,List.filter_append,List.map_append,reals,reals]

theorem posKeys_of_pos (above : 0 < number) :
    posKeys alpha0 collapses [number] = [bucketOf alpha0 collapses number] := by
  simp only [posKeys,List.filter_cons,decide_eq_true above,if_true,List.filter_nil,
    List.map_singleton]

theorem posKeys_of_not_pos (notAbove : ¬0 < number) : posKeys alpha0 collapses [number] = [] := by
  simp only [posKeys,List.filter_cons,decide_eq_false notAbove,Bool.false_eq_true,if_false,
    List.filter_nil,List.map_nil]

theorem negKeys_of_neg (under : number < 0) :
    negKeys alpha0 collapses [number] = [bucketOf alpha0 collapses (-number)] := by
  simp only [negKeys,List.filter_cons,decide_eq_true under,if_true,List.filter_nil,
    List.map_singleton]

theorem negKeys_of_not_neg (notUnder : ¬number < 0) : negKeys alpha0 collapses [number] = [] := by
  simp only [negKeys,List.filter_cons,decide_eq_false notUnder,Bool.false_eq_true,if_false,
    List.filter_nil,List.map_nil]

theorem Represents.total_insert (represents : Represents alpha0 maxBuckets numbers sketch)
    (number : ℝ) (room : numbers.length < u64Max) :
    min (sketch.totalCount + 1) u64Max = (numbers ++ [number]).length := by
  rw [represents.total,List.length_append,List.length_singleton]
  omega

theorem Represents.bumpBucket (represents : Represents alpha0 maxBuckets numbers sketch)
    (notZero : number ≠ 0) (room : numbers.length < u64Max) :
    Represents alpha0 maxBuckets (numbers ++ [number])
      (({ sketch with totalCount := min (sketch.totalCount + 1) u64Max }).bumpBucket
        (decide (0 < number)) (bucketOf alpha0 sketch.numCollapses |number|)) := by
  have total := represents.total_insert number room
  have zero : sketch.zeroCount = (numbers ++ [number]).count 0 := by
    rw [represents.zero,List.count_append,List.count_singleton,if_neg,Nat.add_zero]
    rw [beq_iff_eq]
    exact notZero
  rcases lt_or_gt_of_ne notZero with under | above
  · have notAbove := not_lt_of_gt under
    rw [UDDSketch.bumpBucket,if_neg (by rw [decide_eq_true_iff]; exact notAbove)]
    refine ⟨represents.level,represents.alpha,represents.alphaPos,represents.alphaLt,
      represents.collapses,represents.budget,?_,?_,zero,total⟩
    · rw [posKeys_append,posKeys_of_not_pos notAbove,List.append_nil]
      exact represents.pos
    · rw [negKeys_append,negKeys_of_neg under,abs_of_neg under]
      exact represents.neg.bump _ (Nat.lt_of_le_of_lt (length_negKeys _ _ _) room)
  · have notUnder := not_lt_of_gt above
    rw [UDDSketch.bumpBucket,if_pos (decide_eq_true above)]
    refine ⟨represents.level,represents.alpha,represents.alphaPos,represents.alphaLt,
      represents.collapses,represents.budget,?_,?_,zero,total⟩
    · rw [posKeys_append,posKeys_of_pos above,abs_of_pos above]
      exact represents.pos.bump _ (Nat.lt_of_le_of_lt (length_posKeys _ _ _) room)
    · rw [negKeys_append,negKeys_of_not_neg notUnder,List.append_nil]
      exact represents.neg

theorem Represents.addZero (represents : Represents alpha0 maxBuckets numbers sketch)
    (room : numbers.length < u64Max) :
    Represents alpha0 maxBuckets (numbers ++ [0])
      { sketch with
        totalCount := min (sketch.totalCount + 1) u64Max
        zeroCount := min (sketch.zeroCount + 1) u64Max } := by
  have fewer : numbers.count 0 ≤ numbers.length := List.count_le_length
  refine ⟨represents.level,represents.alpha,represents.alphaPos,represents.alphaLt,
    represents.collapses,represents.budget,?_,?_,?_,represents.total_insert 0 room⟩
  · rw [posKeys_append,posKeys_of_not_pos (lt_irrefl 0),List.append_nil]
    exact represents.pos
  · rw [negKeys_append,negKeys_of_not_neg (lt_irrefl 0),List.append_nil]
    exact represents.neg
  · rw [List.count_append,List.count_singleton_self,← represents.zero]
    have zero := represents.zero
    dsimp only
    omega

theorem reals_of_finite (finite : value.isFinite = true) :
    reals [value] = [(value.rational : ℝ)] := by
  simp only [reals,List.filter_cons,finite,if_true,List.filter_nil,List.map_singleton]

theorem reals_of_not_finite (notFinite : value.isFinite = false) : reals [value] = [] := by
  simp only [reals,List.filter_cons,notFinite,Bool.false_eq_true,if_false,List.filter_nil,
    List.map_nil]

theorem Represents.insert (represents : Represents alpha0 maxBuckets numbers sketch)
    (value : F64) (fits : Fits alpha0 (numbers ++ reals [value])) (enough : 16 ≤ maxBuckets)
    (few : (numbers ++ reals [value]).length ≤ u64Max) :
    Represents alpha0 maxBuckets (numbers ++ reals [value]) (sketch.insert value) := by
  unfold UDDSketch.insert
  cases finite : value.isFinite with
  | false =>
      rw [if_neg Bool.false_ne_true,reals_of_not_finite finite,List.append_nil]
      exact represents
  | true =>
      rw [reals_of_finite finite] at fits few ⊢
      rw [if_pos rfl]
      have room : numbers.length < u64Max := by
        rw [List.length_append,List.length_singleton] at few
        exact few
      cases zero : value.isZero with
      | true =>
          have isZero : (value.rational : ℝ) = 0 := by
            exact_mod_cast (isZero_iff value).mp zero
          rw [isZero]
          exact represents.addZero room
      | false =>
          have notZero : (value.rational : ℝ) ≠ 0 := by
            intro isZero
            have isZeroRational : value.rational = 0 := by exact_mod_cast isZero
            rw [(isZero_iff value).mpr isZeroRational] at zero
            cases zero
          have size : ((value.abs.rational : ℚ) : ℝ) = |(value.rational : ℝ)| := by
            rw [rational_abs,Rat.cast_abs]
          have positive : value.isPositive = decide (0 < (value.rational : ℝ)) := by
            rw [Bool.eq_iff_iff,isPositive_iff,decide_eq_true_iff,Rat.cast_pos]
          have bounds := fits _ (List.mem_append_right _ List.mem_cons_self) notZero
          have key := represents.bucketKey_eq bounds.1 bounds.2
          have bumped := represents.bumpBucket notZero room
          rw [← positive,← key,← size] at bumped
          exact bumped.collapseIfFull fits enough few

theorem Represents.collapseTimes (represents : Represents alpha0 maxBuckets numbers sketch)
    (few : numbers.length ≤ u64Max) (times : Nat) (room : sketch.numCollapses + times ≤ 31) :
    Represents alpha0 maxBuckets numbers (sketch.collapseTimes times) ∧
      (sketch.collapseTimes times).numCollapses = sketch.numCollapses + times := by
  induction times generalizing sketch with
  | zero => exact ⟨represents,rfl⟩
  | succ times ih =>
      have next : sketch.collapse.numCollapses = sketch.numCollapses + 1 := by
        simp only [UDDSketch.collapse,u32Max]
        omega
      have rest := ih (represents.collapse few (by omega)) (by omega)
      refine ⟨rest.1,?_⟩
      rw [UDDSketch.collapseTimes,rest.2,next]
      omega

theorem Represents.union (represents : Represents alpha0 maxBuckets numbers sketch)
    (otherRepresents : Represents alpha0 maxBuckets otherNumbers other)
    (same : other.numCollapses = sketch.numCollapses)
    (few : (numbers ++ otherNumbers).length ≤ u64Max) :
    Represents alpha0 maxBuckets (numbers ++ otherNumbers)
      { sketch with
        posBuckets := OrderedCounts.merge u64Max sketch.posBuckets other.posBuckets
        negBuckets := OrderedCounts.merge u64Max sketch.negBuckets other.negBuckets
        zeroCount := min (sketch.zeroCount + other.zeroCount) u64Max
        totalCount := min (sketch.totalCount + other.totalCount) u64Max } := by
  rw [List.length_append] at few
  have otherPos := otherRepresents.pos
  have otherNeg := otherRepresents.neg
  rw [same] at otherPos otherNeg
  have posLength := length_posKeys alpha0 sketch.numCollapses numbers
  have otherPosLength := length_posKeys alpha0 sketch.numCollapses otherNumbers
  have negLength := length_negKeys alpha0 sketch.numCollapses numbers
  have otherNegLength := length_negKeys alpha0 sketch.numCollapses otherNumbers
  have posRoom : (posKeys alpha0 sketch.numCollapses numbers).length +
      (posKeys alpha0 sketch.numCollapses otherNumbers).length ≤ u64Max := by omega
  have negRoom : (negKeys alpha0 sketch.numCollapses numbers).length +
      (negKeys alpha0 sketch.numCollapses otherNumbers).length ≤ u64Max := by omega
  have pos := represents.pos.merge otherPos posRoom (by decide)
  have neg := represents.neg.merge otherNeg negRoom (by decide)
  have zero : min (sketch.zeroCount + other.zeroCount) u64Max =
      (numbers ++ otherNumbers).count 0 := by
    have zeros : numbers.count 0 ≤ numbers.length := List.count_le_length
    have otherZeros : otherNumbers.count 0 ≤ otherNumbers.length := List.count_le_length
    rw [List.count_append,represents.zero,otherRepresents.zero]
    omega
  have total : min (sketch.totalCount + other.totalCount) u64Max =
      (numbers ++ otherNumbers).length := by
    rw [List.length_append,represents.total,otherRepresents.total]
    omega
  refine ⟨represents.level,represents.alpha,represents.alphaPos,represents.alphaLt,
    represents.collapses,represents.budget,?_,?_,zero,total⟩
  · rw [posKeys_append]
    exact pos
  · rw [negKeys_append]
    exact neg

theorem Represents.merge (represents : Represents alpha0 maxBuckets numbers sketch)
    (otherRepresents : Represents alpha0 maxBuckets otherNumbers other)
    (fits : Fits alpha0 (numbers ++ otherNumbers)) (enough : 16 ≤ maxBuckets)
    (few : (numbers ++ otherNumbers).length ≤ u64Max) :
    Represents alpha0 maxBuckets (numbers ++ otherNumbers) (sketch.merge other) := by
  have lengths := few
  rw [List.length_append] at lengths
  have bound := represents.collapses
  have otherBound := otherRepresents.collapses
  have own := represents.collapseTimes (by omega) (other.numCollapses - sketch.numCollapses)
    (by omega)
  have level : (sketch.collapseTo other.numCollapses).numCollapses =
      sketch.numCollapses + (other.numCollapses - sketch.numCollapses) := own.2
  have theirs := otherRepresents.collapseTimes (by omega)
    ((sketch.collapseTo other.numCollapses).numCollapses - other.numCollapses) (by omega)
  have union := own.1.union theirs.1 (by rw [theirs.2,own.2]; omega) few
  exact union.collapseIfFull fits enough few

end Operations

section Trees

variable {alpha0 : ℝ} {maxBuckets : Nat}

theorem Fits.left {numbers others : List ℝ} (fits : Fits alpha0 (numbers ++ others)) :
    Fits alpha0 numbers := by
  intro number member
  exact fits number (List.mem_append_left _ member)

theorem Fits.right {numbers others : List ℝ} (fits : Fits alpha0 (numbers ++ others)) :
    Fits alpha0 others := by
  intro number member
  exact fits number (List.mem_append_right _ member)

theorem Tree.represents (tree : Tree realArith) (above : 0 < alpha0) (below : alpha0 < 1)
    (enough : 16 ≤ maxBuckets) (starts : tree.StartsAt alpha0)
    (fits : Fits alpha0 (reals tree.values)) (few : (reals tree.values).length ≤ u64Max) :
    Represents alpha0 maxBuckets (reals tree.values) (tree.sketch maxBuckets) := by
  induction tree with
  | new start =>
      have isStart : start = alpha0 := starts
      rw [isStart]
      exact represents_fresh above below maxBuckets
  | insert value tree ih =>
      rw [Tree.values,reals_append] at fits few ⊢
      have before := few
      rw [List.length_append] at before
      exact (ih starts fits.left (by omega)).insert value fits enough few
  | merge tree other ih otherIh =>
      rw [Tree.values,reals_append] at fits few ⊢
      have before := few
      rw [List.length_append] at before
      exact (ih starts.1 fits.left (by omega)).merge (otherIh starts.2 fits.right (by omega)) fits
        enough few

end Trees

/-! ### Ranks -/

section Ranks

variable {arith : LogArith}
variable {entries : List (Int × Nat)}

theorem walk_of_keyAt {rank cumul : Nat} {key : Int} (reached : cumul ≤ rank)
    (found : keyAt (rank - cumul) entries = some key) : walk rank cumul entries = .ok key := by
  induction entries generalizing cumul with
  | nil => cases found
  | cons entry rest ih =>
      obtain ⟨head,count⟩ := entry
      rw [keyAt] at found
      rw [walk]
      by_cases inside : rank < cumul + count
      · rw [if_pos (by omega)] at found
        cases found
        rw [if_pos inside]
      · rw [if_neg (by omega),Nat.sub_sub] at found
        rw [if_neg inside]
        exact ih (by omega) found

theorem walk_of_total {rank cumul : Nat} (outside : cumul + total entries ≤ rank) :
    walk rank cumul entries = .error (cumul + total entries) := by
  induction entries generalizing cumul with
  | nil => rfl
  | cons entry rest ih =>
      obtain ⟨head,count⟩ := entry
      rw [total_cons] at outside ⊢
      rw [walk,if_neg (by omega),ih (by omega),Nat.add_assoc]

/-- A place among all buckets: the sign, and the key in the direction of the values. -/
abbrev Cell := Int ×ₗ Int

def negCell (key : Int) : Cell := toLex (-1,-key)

def posCell (key : Int) : Cell := toLex (1,key)

def zeroCells (count : Nat) : List (Cell × Nat) :=
  if 0 < count then [(toLex (0,0),count)] else []

/-- All buckets in the order of the values. -/
def cells (sketch : UDDSketch arith) : List (Cell × Nat) :=
  rename negCell sketch.negBuckets.reverse ++
    (zeroCells sketch.zeroCount ++
      rename posCell sketch.posBuckets)

def centreAt (sketch : UDDSketch arith) (cell : Cell) : arith.Num :=
  if 0 < (ofLex cell).1 then sketch.bucketCenter (ofLex cell).2
  else if (ofLex cell).1 < 0 then -sketch.bucketCenter (-(ofLex cell).2)
  else arith.zero

theorem total_zeroCells (count : Nat) : total (zeroCells count) = count := by
  unfold zeroCells
  split
  · rfl
  · rename_i none
    exact (Nat.eq_zero_of_not_pos none).symm

theorem total_reverse (entries : List (Int × Nat)) : total entries.reverse = total entries :=
  countWhere_reverse _ entries

theorem valueAt_eq {sketch : UDDSketch arith} {rank : Nat} {cell : Cell}
    (found : keyAt rank sketch.cells = some cell) : sketch.valueAt rank = sketch.centreAt cell := by
  have negTotal := total_reverse sketch.negBuckets
  rw [cells,keyAt_append,keyAt_append,total_rename,total_zeroCells,keyAt_rename,
    keyAt_rename,negTotal] at found
  rw [valueAt]
  by_cases inNeg : rank < total sketch.negBuckets
  · obtain ⟨key,atKey⟩ := exists_keyAt (negTotal.symm ▸ inNeg)
    rw [if_pos inNeg,atKey] at found
    cases found
    rw [walk_of_keyAt (Nat.zero_le rank) atKey]
    change -sketch.bucketCenter key = -sketch.bucketCenter (- -key)
    rw [Int.neg_neg]
  · rw [if_neg inNeg] at found
    have walked : walk rank 0 sketch.negBuckets.reverse =
        .error (0 + total sketch.negBuckets.reverse) := walk_of_total (by omega)
    rw [walked,negTotal,Nat.zero_add]
    dsimp only
    by_cases inZero : rank - total sketch.negBuckets < sketch.zeroCount
    · have some : 0 < sketch.zeroCount := by omega
      rw [if_pos inZero,zeroCells,if_pos some,keyAt,if_pos inZero] at found
      cases found
      rw [if_pos ⟨some,by omega⟩]
      rfl
    · rw [if_neg inZero] at found
      rw [if_neg (by omega)]
      obtain ⟨key,atKey,rfl⟩ := Option.map_eq_some_iff.mp found
      rw [Nat.sub_sub] at atKey
      rw [walk_of_keyAt (by omega) atKey]
      rfl

end Ranks

/-! ### Quantiles -/

section Sorted

variable {alpha0 : ℝ} {maxBuckets collapses : Nat} {numbers : List ℝ}
  {sketch : UDDSketch realArith}
variable {count : Nat} {key : Int}

noncomputable def cellOf (alpha0 : ℝ) (collapses : Nat) (number : ℝ) : Cell :=
  if 0 < number then posCell (bucketOf alpha0 collapses number)
  else if number < 0 then negCell (bucketOf alpha0 collapses (-number))
  else toLex (0,0)

theorem negCell_lt_zero (key : Int) : negCell key < toLex (0,0) := by
  rw [negCell,Prod.Lex.toLex_lt_toLex]
  exact .inl (show (-1 : Int) < 0 by decide)

theorem zero_lt_posCell (key : Int) : toLex (0,0) < posCell key := by
  rw [posCell,Prod.Lex.toLex_lt_toLex]
  exact .inl (show (0 : Int) < 1 by decide)

theorem negCell_le {first second : Int} (above : second ≤ first) :
    negCell first ≤ negCell second := by
  rw [negCell,negCell,Prod.Lex.toLex_le_toLex]
  exact .inr ⟨rfl,Int.neg_le_neg above⟩

theorem posCell_le {first second : Int} (below : first ≤ second) :
    posCell first ≤ posCell second := by
  rw [posCell,posCell,Prod.Lex.toLex_le_toLex]
  exact .inr ⟨rfl,below⟩

theorem negCell_decreasing (first second : Int) (below : first < second) :
    negCell second < negCell first := by
  rw [negCell,negCell,Prod.Lex.toLex_lt_toLex]
  exact .inr ⟨rfl,Int.neg_lt_neg below⟩

theorem posCell_increasing (first second : Int) (below : first < second) :
    posCell first < posCell second := by
  rw [posCell,posCell,Prod.Lex.toLex_lt_toLex]
  exact .inr ⟨rfl,below⟩

theorem cellOf_mono (above : 0 < alpha0) (below : alpha0 < 1) {first second : ℝ}
    (less : first ≤ second) :
    cellOf alpha0 collapses first ≤ cellOf alpha0 collapses second := by
  rcases lt_trichotomy first 0 with under | rfl | positive
  · rw [cellOf,if_neg (not_lt_of_gt under),if_pos under]
    rcases lt_trichotomy second 0 with secondUnder | rfl | secondPositive
    · rw [cellOf,if_neg (not_lt_of_gt secondUnder),if_pos secondUnder]
      exact negCell_le (bucketOf_mono above below (by linarith) (by linarith))
    · rw [cellOf,if_neg (lt_irrefl 0),if_neg (lt_irrefl 0)]
      exact le_of_lt (negCell_lt_zero _)
    · rw [cellOf,if_pos secondPositive]
      exact le_of_lt (lt_trans (negCell_lt_zero _) (zero_lt_posCell _))
  · rw [cellOf,if_neg (lt_irrefl 0),if_neg (lt_irrefl 0)]
    rcases lt_or_eq_of_le less with secondPositive | rfl
    · rw [cellOf,if_pos secondPositive]
      exact le_of_lt (zero_lt_posCell _)
    · rw [cellOf,if_neg (lt_irrefl 0),if_neg (lt_irrefl 0)]
  · have secondPositive := lt_of_lt_of_le positive less
    rw [cellOf,if_pos positive,cellOf,if_pos secondPositive]
    exact posCell_le (bucketOf_mono above below positive less)

theorem perm_signs (numbers : List ℝ) :
    numbers.Perm (numbers.filter (· < 0) ++ (numbers.filter (· = 0) ++ numbers.filter (0 < ·))) := by
  induction numbers with
  | nil => exact List.Perm.nil
  | cons number rest ih =>
      rcases lt_trichotomy number 0 with under | rfl | positive
      · have kept : (number :: rest).filter (· < 0) = number :: rest.filter (· < 0) :=
          List.filter_cons_of_pos (decide_eq_true under)
        have zeros : (number :: rest).filter (· = 0) = rest.filter (· = 0) :=
          List.filter_cons_of_neg (by rw [decide_eq_true_iff]; exact ne_of_lt under)
        have others : (number :: rest).filter (0 < ·) = rest.filter (0 < ·) :=
          List.filter_cons_of_neg (by rw [decide_eq_true_iff]; exact not_lt_of_gt under)
        rw [kept,zeros,others]
        exact ih.cons number
      · have kept : ((0 : ℝ) :: rest).filter (· < 0) = rest.filter (· < 0) :=
          List.filter_cons_of_neg (by rw [decide_eq_true_iff]; exact lt_irrefl 0)
        have zeros : ((0 : ℝ) :: rest).filter (· = 0) = 0 :: rest.filter (· = 0) :=
          List.filter_cons_of_pos (decide_eq_true rfl)
        have others : ((0 : ℝ) :: rest).filter (0 < ·) = rest.filter (0 < ·) :=
          List.filter_cons_of_neg (by rw [decide_eq_true_iff]; exact lt_irrefl 0)
        rw [kept,zeros,others,List.cons_append]
        exact (ih.cons 0).trans List.perm_middle.symm
      · have kept : (number :: rest).filter (· < 0) = rest.filter (· < 0) :=
          List.filter_cons_of_neg (by rw [decide_eq_true_iff]; exact not_lt_of_gt positive)
        have zeros : (number :: rest).filter (· = 0) = rest.filter (· = 0) :=
          List.filter_cons_of_neg (by rw [decide_eq_true_iff]; exact ne_of_gt positive)
        have others : (number :: rest).filter (0 < ·) = number :: rest.filter (0 < ·) :=
          List.filter_cons_of_pos (decide_eq_true positive)
        rw [kept,zeros,others,← List.append_assoc]
        rw [← List.append_assoc] at ih
        exact (ih.cons number).trans List.perm_middle.symm

theorem mem_zeroCells {entry : Cell × Nat} (member : entry ∈ zeroCells count) :
    entry.1 = toLex (0,0) := by
  unfold zeroCells at member
  split at member
  · rw [List.mem_singleton.mp member]
  · cases member

theorem counts_zeroCells (count : Nat) :
    OrderedCounts.Counts (List.replicate count (toLex (0,0) : Cell)) (zeroCells count) where
  sorted := by
    unfold zeroCells
    split
    · exact List.pairwise_singleton _ _
    · exact List.Pairwise.nil
  positive := by
    unfold zeroCells
    split
    · rename_i some
      exact (positive_cons ..).mpr ⟨some,positive_nil⟩
    · exact positive_nil
  count matching := by
    unfold zeroCells
    rw [List.countP_replicate]
    split
    · rw [countWhere_cons,countWhere_nil,Nat.add_zero]
    · rename_i none
      rw [Nat.eq_zero_of_not_pos none,ite_self,countWhere_nil]

theorem Represents.counts_cells (represents : Represents alpha0 maxBuckets numbers sketch) :
    OrderedCounts.Counts (numbers.map (cellOf alpha0 sketch.numCollapses)) sketch.cells := by
  have neg := represents.neg.renameReverse negCell_decreasing
  have pos := represents.pos.rename posCell_increasing
  have zero := counts_zeroCells sketch.zeroCount
  have zeroBelow : ∀ entry ∈ zeroCells sketch.zeroCount,
      ∀ other ∈ rename posCell sketch.posBuckets, entry.1 < other.1 := by
    intro entry member other otherMember
    obtain ⟨old,_,rfl⟩ := List.mem_map.mp otherMember
    rw [mem_zeroCells member]
    exact zero_lt_posCell _
  have negBelow : ∀ entry ∈ rename negCell sketch.negBuckets.reverse,
      ∀ other ∈ zeroCells sketch.zeroCount ++ rename posCell sketch.posBuckets,
        entry.1 < other.1 := by
    intro entry member other otherMember
    obtain ⟨old,_,rfl⟩ := List.mem_map.mp member
    rcases List.mem_append.mp otherMember with inZero | inPos
    · rw [mem_zeroCells inZero]
      exact negCell_lt_zero _
    · obtain ⟨new,_,rfl⟩ := List.mem_map.mp inPos
      exact lt_trans (negCell_lt_zero _) (zero_lt_posCell _)
  have negMapped : (negKeys alpha0 sketch.numCollapses numbers).map negCell =
      (numbers.filter (· < 0)).map (cellOf alpha0 sketch.numCollapses) := by
    rw [negKeys,List.map_map]
    apply List.map_congr_left
    intro number member
    have under : number < 0 := of_decide_eq_true (List.mem_filter.mp member).2
    rw [cellOf,if_neg (not_lt_of_gt under),if_pos under]
    rfl
  have posMapped : (posKeys alpha0 sketch.numCollapses numbers).map posCell =
      (numbers.filter (0 < ·)).map (cellOf alpha0 sketch.numCollapses) := by
    rw [posKeys,List.map_map]
    apply List.map_congr_left
    intro number member
    have positive : 0 < number := of_decide_eq_true (List.mem_filter.mp member).2
    rw [cellOf,if_pos positive]
    rfl
  have zeroMapped : List.replicate sketch.zeroCount (toLex (0,0) : Cell) =
      (numbers.filter (· = 0)).map (cellOf alpha0 sketch.numCollapses) := by
    rw [List.filter_eq,List.map_replicate,cellOf,if_neg (lt_irrefl 0),if_neg (lt_irrefl 0),
      represents.zero]
  have together := neg.append (zero.append pos zeroBelow) negBelow
  rw [negMapped,posMapped,zeroMapped,← List.map_append,← List.map_append] at together
  exact together.perm ((perm_signs numbers).symm.map _)

theorem nextKey_eq (low : -2 ^ 31 ≤ key) (high : key < 2 ^ 31 - 1) : nextKey key = key + 1 :=
  Int.bmod_eq_of_le_mul_two (by omega) (by omega)

theorem bucketCenter_eq (sketch : UDDSketch realArith) (low : -2 ^ 31 ≤ key)
    (high : key < 2 ^ 31 - 1) : sketch.bucketCenter key = centre sketch key := by
  have two := realArith_two
  rw [bucketCenter,nextKey_eq low high]
  change (Real.exp ((key : ℝ) * (sketch.lnGamma : ℝ)) +
    Real.exp (((key + 1 : Int) : ℝ) * (sketch.lnGamma : ℝ))) / realArith.two = _
  rw [two,Int.cast_add,Int.cast_one,centre]

theorem centreAt_cellOf {alpha0 : ℝ} {numbers : List ℝ} (fits : Fits alpha0 numbers)
    (sketch : UDDSketch realArith) {number : ℝ} (member : number ∈ numbers) :
    sketch.centreAt (cellOf alpha0 sketch.numCollapses number) = centreOf alpha0 sketch number := by
  rcases lt_trichotomy number 0 with under | rfl | positive
  · have bounds := fits number member (ne_of_lt under)
    rw [abs_of_neg under] at bounds
    have key := @bucketOf_fits alpha0 sketch.numCollapses _ bounds.1 bounds.2
    rw [cellOf,if_neg (not_lt_of_gt under),if_pos under,centreOf,if_neg (not_lt_of_gt under),
      if_pos under,← bucketCenter_eq sketch key.1 key.2]
    change -sketch.bucketCenter (- -bucketOf alpha0 sketch.numCollapses (-number)) = _
    rw [Int.neg_neg]
  · rw [cellOf,if_neg (lt_irrefl 0),if_neg (lt_irrefl 0),centreOf,if_neg (lt_irrefl 0),
      if_neg (lt_irrefl 0)]
    exact realArith_zero
  · have bounds := fits number member (ne_of_gt positive)
    rw [abs_of_pos positive] at bounds
    have key := @bucketOf_fits alpha0 sketch.numCollapses _ bounds.1 bounds.2
    rw [cellOf,if_pos positive,centreOf,if_pos positive,← bucketCenter_eq sketch key.1 key.2]
    rfl

theorem rankOf_lt (q : ℝ) (some : 0 < count) : rankOf q count < count := by
  have least : (1 : ℝ) ≤ count := by exact_mod_cast some
  have share : max 0 (min q 1) ≤ 1 := max_le zero_le_one (min_le_right q 1)
  have shareLow : 0 ≤ max 0 (min q 1) := le_max_left 0 _
  have bound : max 0 (min q 1) * ((count : ℝ) - 1) < count := by nlinarith
  have low : 0 ≤ max 0 (min q 1) * ((count : ℝ) - 1) := mul_nonneg shareLow (by linarith)
  have floorLow := Int.floor_nonneg.mpr low
  have floorHigh : ⌊max 0 (min q 1) * ((count : ℝ) - 1)⌋ < count := by
    apply Int.floor_lt.mpr
    exact_mod_cast bound
  unfold rankOf
  omega

theorem Represents.quantile_eq (represents : Represents alpha0 maxBuckets numbers sketch)
    (above : 0 < alpha0) (below : alpha0 < 1) (fits : Fits alpha0 numbers) (few : numbers.length ≤ u64Max)
    {ordered : List ℝ} (perm : ordered.Perm numbers) (sorted : ordered.Pairwise (· ≤ ·))
    (notEmpty : numbers ≠ []) (q : ℝ) :
    ∃ number, ordered[rankOf q ordered.length]? = some number ∧
      sketch.quantile q = some (centreOf alpha0 sketch number) := by
  have length := perm.length_eq
  have some : 0 < ordered.length := by
    rw [length]
    exact List.length_pos_of_ne_nil notEmpty
  have inside := rankOf_lt q some
  have rank : sketch.targetRank q = rankOf q ordered.length := by
    have count : (((sketch.totalCount : Int) - 1 : Int) : ℝ) = (ordered.length : ℝ) - 1 := by
      rw [represents.total,← length]
      push_cast
      rfl
    change min ⌊max 0 (min q 1) * (((sketch.totalCount : Int) - 1 : Int) : ℝ)⌋.toNat u64Max = _
    rw [count,← rankOf]
    omega
  have counts := represents.counts_cells.perm (perm.symm.map _)
  have sortedCells : (ordered.map (cellOf alpha0 sketch.numCollapses)).Pairwise (· ≤ ·) := by
    rw [List.pairwise_map]
    exact sorted.imp fun less => cellOf_mono above below less
  have found := counts.keyAt_eq sortedCells (rankOf q ordered.length)
  rw [List.getElem?_map,List.getElem?_eq_getElem inside,Option.map_some] at found
  refine ⟨ordered[rankOf q ordered.length],List.getElem?_eq_getElem inside,?_⟩
  have member : ordered[rankOf q ordered.length] ∈ numbers :=
    perm.mem_iff.mp (List.getElem_mem inside)
  rw [quantile,if_neg,rank,valueAt_eq found,centreAt_cellOf fits sketch member]
  rw [represents.total,← length]
  exact Nat.ne_of_gt some

end Sorted

/-! ### The coarsened histogram -/

def countAt (key : Int) (buckets : List (Int × Nat)) : Nat :=
  countWhere (fun other => decide (other = key)) buckets

/-- The sketch is a histogram of the finite values at its level, and quantiles are read
off it by rank. -/
structure Coarsened (alpha0 : ℝ) (values : List F64) (sketch : UDDSketch realArith) : Prop where
  posSorted : sketch.posBuckets.Pairwise fun first second => first.1 < second.1
  negSorted : sketch.negBuckets.Pairwise fun first second => first.1 < second.1
  posPositive : ∀ bucket ∈ sketch.posBuckets, 0 < bucket.2
  negPositive : ∀ bucket ∈ sketch.negBuckets, 0 < bucket.2
  posCount : ∀ key, countAt key sketch.posBuckets =
    (reals values).countP fun number =>
      decide (0 < number ∧ ⌊logRatio alpha0 number / 2 ^ sketch.numCollapses⌋ = key)
  negCount : ∀ key, countAt key sketch.negBuckets =
    (reals values).countP fun number =>
      decide (number < 0 ∧ ⌊logRatio alpha0 |number| / 2 ^ sketch.numCollapses⌋ = key)
  zeroCount : sketch.zeroCount = (reals values).count 0
  totalCount : sketch.totalCount = (reals values).length
  quantile : ∀ ordered : List ℝ, ordered.Perm (reals values) → ordered.Pairwise (· ≤ ·) →
    reals values ≠ [] → ∀ q, ∃ number, ordered[rankOf q ordered.length]? = some number ∧
      sketch.quantile q = some (centreOf alpha0 sketch number)

section Coarse

variable {alpha0 : ℝ} {maxBuckets : Nat} {values : List F64} {sketch : UDDSketch realArith}

theorem Represents.coarsened
    (represents : Represents alpha0 maxBuckets (reals values) sketch)
    (above : 0 < alpha0) (below : alpha0 < 1) (fits : Fits alpha0 (reals values))
    (few : (reals values).length ≤ u64Max) : Coarsened alpha0 values sketch where
  posSorted := represents.pos.sorted
  negSorted := represents.neg.sorted
  posPositive := represents.pos.positive
  negPositive := represents.neg.positive
  posCount key := by
    rw [countAt,represents.pos.count,posKeys,List.countP_map,List.countP_filter]
    apply List.countP_congr
    intro number _
    simp only [Function.comp,Bool.and_eq_true,decide_eq_true_iff]
    exact and_comm
  negCount key := by
    rw [countAt,represents.neg.count,negKeys,List.countP_map,List.countP_filter]
    apply List.countP_congr
    intro number _
    simp only [Function.comp,Bool.and_eq_true,decide_eq_true_iff]
    rw [and_comm,and_congr_right_iff]
    intro under
    rw [bucketOf,abs_of_neg under]
  zeroCount := represents.zero
  totalCount := represents.total
  quantile ordered perm sorted notEmpty q :=
    represents.quantile_eq above below fits few perm sorted notEmpty q

/-- For numbers in the binary format, an alpha of `2 ^ -20` is large enough. -/
theorem fits_of_alpha (enough : 1 / 2 ^ 20 ≤ alpha0) (below : alpha0 < 1) (values : List F64) :
    Fits alpha0 (reals values) := by
  intro number member notZero
  obtain ⟨value,found,rfl⟩ := List.mem_map.mp member
  have finite := (List.mem_filter.mp found).2
  have above : 0 < alpha0 := lt_of_lt_of_le (by norm_num) enough
  have notZeroBits : value.isZero = false := by
    rw [Bool.eq_false_iff]
    intro zero
    apply notZero
    exact_mod_cast (isZero_iff value).mp zero
  have bounds := size_bounds finite notZeroBits
  have low : (1 : ℝ) / 2 ^ 1074 ≤ |(value.rational : ℝ)| := by
    have cast := (Rat.cast_le (K := ℝ)).mpr bounds.1
    rwa [Rat.cast_abs,Rat.cast_div,Rat.cast_one,Rat.cast_pow,Rat.cast_ofNat] at cast
  have high : |(value.rational : ℝ)| < 2 ^ 1024 := by
    have cast := (Rat.cast_lt (K := ℝ)).mpr bounds.2
    rwa [Rat.cast_abs,Rat.cast_pow,Rat.cast_ofNat] at cast
  have positive : 0 < |(value.rational : ℝ)| := abs_pos.mpr notZero
  have logTwo : Real.log 2 ≤ 1 := by
    have bound := Real.log_le_sub_one_of_pos (show (0 : ℝ) < 2 by norm_num)
    linarith
  have logTwoPos : 0 < Real.log 2 := Real.log_pos one_lt_two
  have logLow : -1074 * Real.log 2 ≤ Real.log |(value.rational : ℝ)| := by
    have logs := Real.log_le_log (by positivity) low
    rw [one_div,Real.log_inv,Real.log_pow] at logs
    push_cast at logs
    linarith
  have logHigh : Real.log |(value.rational : ℝ)| ≤ 1024 * Real.log 2 := by
    have logs := Real.log_le_log positive (le_of_lt high)
    rw [Real.log_pow] at logs
    push_cast at logs
    exact logs
  have gamma : alpha0 ≤ Real.log ((1 + alpha0) / (1 - alpha0)) := by
    have one : 0 < 1 - alpha0 := by linarith
    have bound := Real.one_sub_inv_le_log_of_pos
      (lt_trans zero_lt_one (one_lt_gamma above below))
    have inverse : 1 - ((1 + alpha0) / (1 - alpha0))⁻¹ = 2 * alpha0 / (1 + alpha0) := by
      rw [inv_div]
      field_simp
      ring
    have least : alpha0 ≤ 2 * alpha0 / (1 + alpha0) := by
      rw [le_div_iff₀ (by linarith)]
      nlinarith
    linarith
  have gammaPos := log_gamma_pos above below
  constructor
  · rw [logRatio,le_div_iff₀ gammaPos]
    nlinarith
  · rw [logRatio,div_lt_iff₀ gammaPos]
    nlinarith

theorem insert_first {arith : LogArith} (alpha0 : arith.Num) {value : F64} (size : IsSize value)
    (some : 0 < maxBuckets) :
    ((fresh alpha0 maxBuckets : UDDSketch arith).insert value).posBuckets =
        [(keyOf (fresh alpha0 maxBuckets : UDDSketch arith).lnGamma value,1)] ∧
      ((fresh alpha0 maxBuckets : UDDSketch arith).insert value).numCollapses = 0 := by
  rw [UDDSketch.insert,if_pos size.finite]
  dsimp only
  rw [size.notZero,if_neg Bool.false_ne_true,size.positive,collapseIfFull,if_neg]
  · exact ⟨rfl,rfl⟩
  · change ¬maxBuckets < 1 + 0
    omega

end Coarse

/-- Every tree of insertions and merges ends in the coarsened histogram of its values. -/
theorem coarsened_histogram (alpha0 : ℝ) (maxBuckets : Nat) (tree : Tree realArith)
    (above : 0 < alpha0) (below : alpha0 < 1) (enough : 16 ≤ maxBuckets)
    (starts : tree.StartsAt alpha0) (fits : Fits alpha0 (reals tree.values))
    (few : (reals tree.values).length ≤ u64Max) :
    Coarsened alpha0 tree.values (tree.sketch maxBuckets) :=
  (tree.represents above below enough starts fits few).coarsened above below fits few

/-- With the alpha of the program, two merged values. -/
theorem coarsened_histogram_merged :
    Coarsened 0.01 [powerOfTwo 1,powerOfTwo 2]
      ((Tree.merge (.insert (powerOfTwo 1) (.new (0.01 : ℝ)))
        (.insert (powerOfTwo 2) (.new (0.01 : ℝ))) : Tree realArith).sketch 2048) :=
  coarsened_histogram 0.01 2048
    (.merge (.insert (powerOfTwo 1) (.new (0.01 : ℝ))) (.insert (powerOfTwo 2) (.new (0.01 : ℝ))))
    (by norm_num) (by norm_num) (by decide) ⟨rfl,rfl⟩
    (fits_of_alpha (by norm_num) (by norm_num) _)
    (Nat.le_trans (Nat.le_of_eq (List.length_map _))
      (Nat.le_trans (List.length_filter_le _ _) (by decide)))

theorem large_logRatio : 2 ^ 31 ≤ logRatio (1 / 2 ^ 40) 2 := by
  have gammaPos : 0 < Real.log ((1 + 1 / 2 ^ 40) / (1 - 1 / 2 ^ 40)) :=
    log_gamma_pos (by norm_num) (by norm_num)
  have gamma : (0 : ℝ) < (1 + 1 / 2 ^ 40) / (1 - 1 / 2 ^ 40) := by norm_num
  have high := Real.log_le_sub_one_of_pos gamma
  have low := Real.one_sub_inv_le_log_of_pos (show (0 : ℝ) < 2 by norm_num)
  norm_num at high low gammaPos
  rw [logRatio]
  norm_num
  rw [le_div_iff₀ gammaPos]
  linarith

theorem large_floor : 2 ^ 31 ≤ ⌊logRatio (1 / 2 ^ 40) 2⌋ := by
  apply Int.le_floor.mpr
  have large := large_logRatio
  norm_num at large ⊢
  exact large

theorem powerOfTwo_one : (powerOfTwo 1).rational = 2 := by
  have power := rational_powerOfTwo (show 1 ≤ 1023 by decide)
  rwa [pow_one] at power

theorem reals_powerOfTwo_one : reals [powerOfTwo 1] = [2] := by
  have finite : (powerOfTwo 1).isFinite = true := by decide
  rw [reals_of_finite finite,powerOfTwo_one,Rat.cast_ofNat]

theorem keyOf_saturated (maxBuckets : Nat) :
    keyOf (fresh (1 / 2 ^ 40 : ℝ) maxBuckets : UDDSketch realArith).lnGamma (powerOfTwo 1) =
      2 ^ 31 - 1 := by
  have same : (powerOfTwo 1).abs = powerOfTwo 1 := by decide
  have floor := large_floor
  rw [keyOf,same,lnGamma_fresh]
  change toI32 ⌊Real.log ((powerOfTwo 1).rational : ℝ) /
    Real.log ((1 + 1 / 2 ^ 40) / (1 - 1 / 2 ^ 40))⌋ = _
  rw [powerOfTwo_one,Rat.cast_ofNat,← logRatio,toI32]
  omega

/-- With a small alpha the key of two has more than 32 bits, and the cast keeps the
greatest one that has not. -/
theorem key_saturates :
    (new (1 / 2 ^ 40 : ℝ) 16 : Option (UDDSketch realArith)) = some (fresh (1 / 2 ^ 40 : ℝ) 16) ∧
      ¬Coarsened (1 / 2 ^ 40) [powerOfTwo 1]
        ((Tree.insert (powerOfTwo 1) (.new (1 / 2 ^ 40 : ℝ)) : Tree realArith).sketch 16) := by
  constructor
  · exact new_eq (by positivity) (by norm_num) (Nat.le_refl _)
  · intro coarsened
    have size : IsSize (powerOfTwo 1) := ⟨by decide,by decide,by decide⟩
    have first : ((fresh (1 / 2 ^ 40 : ℝ) 16 : UDDSketch realArith).insert
          (powerOfTwo 1)).posBuckets = [(2 ^ 31 - 1,1)] ∧
        ((fresh (1 / 2 ^ 40 : ℝ) 16 : UDDSketch realArith).insert
          (powerOfTwo 1)).numCollapses = 0 := by
      rw [← keyOf_saturated 16]
      exact insert_first _ size (by decide)
    have counted := coarsened.posCount (2 ^ 31 - 1)
    rw [Tree.sketch,Tree.sketch,first.1,first.2,reals_powerOfTwo_one,
      List.countP_singleton,if_neg] at counted
    · cases counted
    · rw [decide_eq_true_iff,pow_zero,div_one]
      intro both
      have floor := large_floor
      omega

end UDDSketch

end Beava.Sketch
