/-
How far a quantile is from the number it stands for.

The centre of a bucket is the mean of its ends, and a number just above the lower end
is further from it than alpha allows.  From a share of alpha squared above that end
on, alpha holds.
-/

import Beava.Sketch.Quantiles

namespace Beava.Sketch

open Beava.Core OrderedCounts

namespace UDDSketch

noncomputable def bucketFloor (sketch : UDDSketch realArith) (size : ℝ) : ℝ :=
  Real.exp ((⌊Real.log size / (sketch.lnGamma : ℝ)⌋ : ℝ) * (sketch.lnGamma : ℝ))

def Accurate (sketch : UDDSketch realArith) (q number : ℝ) : Prop :=
  ∃ answer : ℝ, sketch.quantile q = some answer ∧
    |answer - number| ≤ (sketch.currentAlpha : ℝ) * |number|

variable {alpha0 : ℝ} {maxBuckets : Nat} {numbers : List ℝ} {sketch : UDDSketch realArith}

theorem mean_of_ends {alpha : ℝ} (below : alpha < 1) (lower : ℝ) :
    (lower + lower * ((1 + alpha) / (1 - alpha))) / 2 = lower / (1 - alpha) := by
  have rest : 1 - alpha ≠ 0 := by linarith
  field_simp
  ring

theorem error_iff {alpha lower size : ℝ} (above : 0 < alpha) (below : alpha < 1)
    (inside : size < lower * ((1 + alpha) / (1 - alpha))) (positive : 0 < lower) :
    |lower / (1 - alpha) - size| ≤ alpha * size ↔ lower ≤ (1 - alpha ^ 2) * size := by
  have rest : 0 < 1 - alpha := by linarith
  have upper : size * (1 - alpha) < lower * (1 + alpha) := by
    rw [← mul_div_assoc,lt_div_iff₀ rest] at inside
    exact inside
  have notBelow : size - alpha * size ≤ lower / (1 - alpha) := by
    have scaled := mul_le_mul_of_nonneg_right (le_of_lt upper) (le_of_lt rest)
    have share : 0 ≤ lower * alpha ^ 2 := by positivity
    rw [le_div_iff₀ rest]
    calc (size - alpha * size) * (1 - alpha) = size * (1 - alpha) * (1 - alpha) := by ring
      _ ≤ lower * (1 + alpha) * (1 - alpha) := scaled
      _ = lower - lower * alpha ^ 2 := by ring
      _ ≤ lower := by linarith
  rw [abs_le]
  constructor
  · intro both
    have high : lower / (1 - alpha) ≤ (1 + alpha) * size := by linarith [both.2]
    rw [div_le_iff₀ rest] at high
    nlinarith
  · intro low
    have high : lower / (1 - alpha) ≤ (1 + alpha) * size := by
      rw [div_le_iff₀ rest]
      nlinarith
    constructor
    · linarith
    · linarith

theorem Represents.lnGamma_pos (represents : Represents alpha0 maxBuckets numbers sketch) :
    0 < (sketch.lnGamma : ℝ) := by
  rw [represents.alpha]
  exact log_gamma_pos represents.alphaPos represents.alphaLt

theorem Represents.exp_lnGamma (represents : Represents alpha0 maxBuckets numbers sketch) :
    Real.exp (sketch.lnGamma : ℝ) =
      (1 + (sketch.currentAlpha : ℝ)) / (1 - (sketch.currentAlpha : ℝ)) := by
  have gamma := one_lt_gamma represents.alphaPos represents.alphaLt
  rw [represents.alpha,Real.exp_log (lt_trans zero_lt_one gamma)]

theorem Represents.bucketOf_eq (represents : Represents alpha0 maxBuckets numbers sketch)
    (size : ℝ) :
    bucketOf alpha0 sketch.numCollapses size = ⌊Real.log size / (sketch.lnGamma : ℝ)⌋ := by
  rw [bucketOf,logRatio,represents.level,div_div]

theorem Represents.inside_bucket (represents : Represents alpha0 maxBuckets numbers sketch)
    {size : ℝ} (positive : 0 < size) :
    bucketFloor sketch size ≤ size ∧
      size < bucketFloor sketch size *
        ((1 + (sketch.currentAlpha : ℝ)) / (1 - (sketch.currentAlpha : ℝ))) := by
  have gamma := represents.lnGamma_pos
  have low := Int.floor_le (Real.log size / (sketch.lnGamma : ℝ))
  have high := Int.lt_floor_add_one (Real.log size / (sketch.lnGamma : ℝ))
  rw [le_div_iff₀ gamma] at low
  rw [div_lt_iff₀ gamma] at high
  constructor
  · rw [bucketFloor,← Real.le_log_iff_exp_le positive]
    exact low
  · rw [← represents.exp_lnGamma,bucketFloor,← Real.exp_add,← Real.log_lt_iff_lt_exp positive]
    linarith

theorem Represents.centre_eq (represents : Represents alpha0 maxBuckets numbers sketch)
    (size : ℝ) :
    centre sketch (bucketOf alpha0 sketch.numCollapses size) =
      bucketFloor sketch size / (1 - (sketch.currentAlpha : ℝ)) := by
  have next : Real.exp (((⌊Real.log size / (sketch.lnGamma : ℝ)⌋ : ℝ) + 1) *
      (sketch.lnGamma : ℝ)) = bucketFloor sketch size *
        ((1 + (sketch.currentAlpha : ℝ)) / (1 - (sketch.currentAlpha : ℝ))) := by
    rw [← represents.exp_lnGamma,bucketFloor,← Real.exp_add]
    ring_nf
  rw [represents.bucketOf_eq,← mean_of_ends represents.alphaLt,← next]
  rfl

/-- Alpha holds for a number from a share of alpha squared above the lower end of its
bucket on. -/
theorem Represents.centre_error_iff (represents : Represents alpha0 maxBuckets numbers sketch)
    {number : ℝ} (notZero : number ≠ 0) :
    |centreOf alpha0 sketch number - number| ≤ (sketch.currentAlpha : ℝ) * |number| ↔
      bucketFloor sketch |number| ≤ (1 - (sketch.currentAlpha : ℝ) ^ 2) * |number| := by
  have size : 0 < |number| := abs_pos.mpr notZero
  have inside := (represents.inside_bucket size).2
  have error := error_iff represents.alphaPos represents.alphaLt inside (Real.exp_pos _)
  rw [← error,← represents.centre_eq]
  rcases lt_or_gt_of_ne notZero with under | positive
  · rw [centreOf,if_neg (not_lt_of_gt under),if_pos under,abs_of_neg under]
    have mirrored : -centre sketch (bucketOf alpha0 sketch.numCollapses (-number)) - number =
        -(centre sketch (bucketOf alpha0 sketch.numCollapses (-number)) - -number) := by ring
    rw [mirrored,abs_neg]
  · rw [centreOf,if_pos positive,abs_of_pos positive]

theorem Represents.accurate_iff (represents : Represents alpha0 maxBuckets numbers sketch)
    (above : 0 < alpha0) (below : alpha0 < 1) (fits : Fits alpha0 numbers)
    (few : numbers.length ≤ u64Max) {ordered : List ℝ} (perm : ordered.Perm numbers) (sorted : ordered.Pairwise (· ≤ ·))
    {q number : ℝ} (atRank : ordered[rankOf q ordered.length]? = some number)
    (notZero : number ≠ 0) :
    Accurate sketch q number ↔
      bucketFloor sketch |number| ≤ (1 - (sketch.currentAlpha : ℝ) ^ 2) * |number| := by
  have notEmpty : numbers ≠ [] := by
    rintro rfl
    rw [perm.eq_nil] at atRank
    cases atRank
  obtain ⟨found,isFound,answer⟩ :=
    represents.quantile_eq above below fits few perm sorted notEmpty q
  rw [isFound] at atRank
  cases atRank
  rw [← represents.centre_error_iff notZero,Accurate,answer]
  constructor
  · intro accurate
    obtain ⟨centre,isCentre,near⟩ := accurate
    cases isCentre
    exact near
  · intro near
    exact ⟨_,rfl,near⟩

/-- In the histogram of every tree, a quantile is accurate exactly when the number of
its rank lies high enough in its bucket. -/
theorem quantile_accurate_iff (alpha0 : ℝ) (maxBuckets : Nat) (tree : Tree realArith)
    (above : 0 < alpha0) (below : alpha0 < 1) (enough : 16 ≤ maxBuckets)
    (starts : tree.StartsAt alpha0) (fits : Fits alpha0 (reals tree.values))
    (few : (reals tree.values).length ≤ u64Max) (ordered : List ℝ)
    (perm : ordered.Perm (reals tree.values)) (sorted : ordered.Pairwise (· ≤ ·)) (q number : ℝ)
    (atRank : ordered[rankOf q ordered.length]? = some number) (notZero : number ≠ 0) :
    Accurate (tree.sketch maxBuckets) q number ↔
      bucketFloor (tree.sketch maxBuckets) |number| ≤
        (1 - ((tree.sketch maxBuckets).currentAlpha : ℝ) ^ 2) * |number| :=
  (tree.represents above below enough starts fits few).accurate_iff above below fits few perm
    sorted atRank notZero

/-- One value, the number two, asked for its median. -/
theorem quantile_accurate_iff_two :
    Accurate ((Tree.insert (powerOfTwo 1) (.new (0.01 : ℝ)) : Tree realArith).sketch 16) 0.5 2 ↔
      bucketFloor ((Tree.insert (powerOfTwo 1) (.new (0.01 : ℝ)) : Tree realArith).sketch 16) |2| ≤
        (1 - (((Tree.insert (powerOfTwo 1) (.new (0.01 : ℝ)) :
          Tree realArith).sketch 16).currentAlpha : ℝ) ^ 2) * |2| :=
  quantile_accurate_iff 0.01 16 (.insert (powerOfTwo 1) (.new (0.01 : ℝ))) (by norm_num)
    (by norm_num) (by decide) rfl (fits_of_alpha (by norm_num) (by norm_num) _)
    (Nat.le_trans (Nat.le_of_eq (List.length_map _))
      (Nat.le_trans (List.length_filter_le _ _) (by decide)))
    [2] (by rw [Tree.values,Tree.values,List.nil_append,reals_powerOfTwo_one])
    (List.pairwise_singleton _ _) 0.5 2
    (by
      have rank : rankOf 0.5 1 = 0 := by
        have inside := rankOf_lt 0.5 Nat.one_pos
        omega
      rw [List.length_singleton,rank]
      rfl)
    two_ne_zero

theorem reals_one : reals [powerOfTwo 0] = [1] := by
  have finite : (powerOfTwo 0).isFinite = true := by decide
  have one : (powerOfTwo 0).rational = 1 := rational_powerOfTwo (show 0 ≤ 1023 by decide)
  rw [reals_of_finite finite,one,Rat.cast_one]

/-- With the alpha of the program, the quantile of the number one alone is further from
it than alpha. -/
theorem one_not_accurate :
    (new (0.01 : ℝ) 2048 : Option (UDDSketch realArith)) = some (fresh (0.01 : ℝ) 2048) ∧
      ¬Accurate ((Tree.insert (powerOfTwo 0) (.new (0.01 : ℝ)) : Tree realArith).sketch 2048)
        0.5 1 := by
  constructor
  · exact new_eq (by norm_num) (by norm_num) (by decide)
  · have represents : Represents 0.01 2048 (reals [powerOfTwo 0])
        ((Tree.insert (powerOfTwo 0) (.new (0.01 : ℝ)) : Tree realArith).sketch 2048) :=
      Tree.represents (.insert (powerOfTwo 0) (.new (0.01 : ℝ))) (by norm_num) (by norm_num)
        (by decide) rfl (fits_of_alpha (by norm_num) (by norm_num) _)
        (Nat.le_trans (Nat.le_of_eq (List.length_map _))
          (Nat.le_trans (List.length_filter_le _ _) (by decide)))
    have alpha := represents.alphaPos
    have lower : bucketFloor
        ((Tree.insert (powerOfTwo 0) (.new (0.01 : ℝ)) : Tree realArith).sketch 2048) 1 = 1 := by
      rw [bucketFloor,Real.log_one,zero_div,Int.floor_zero,Int.cast_zero,zero_mul,
        Real.exp_zero]
    have rank : rankOf 0.5 1 = 0 := by
      have inside := rankOf_lt 0.5 Nat.one_pos
      omega
    intro accurate
    have low := (represents.accurate_iff (by norm_num) (by norm_num)
      (fits_of_alpha (by norm_num) (by norm_num) _)
      (Nat.le_trans (Nat.le_of_eq (List.length_map _))
        (Nat.le_trans (List.length_filter_le _ _) (by decide)))
      (by rw [reals_one]) (List.pairwise_singleton _ (1 : ℝ))
      (by rw [List.length_singleton,rank]; rfl) one_ne_zero).mp accurate
    rw [abs_one,lower,mul_one] at low
    have square := pow_pos alpha 2
    linarith

end UDDSketch

end Beava.Sketch
