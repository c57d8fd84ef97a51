/-
The bucket budget of a quantile sketch.

An operation that leaves too many buckets is followed by one collapse, which joins
the buckets whose keys have one half.  The budget holds after the operation exactly
when the halves of the keys that are then in use are few enough.
-/

import Beava.Sketch.RealLogs

namespace Beava.Sketch

open Beava.Core OrderedCounts

namespace UDDSketch

variable {arith : LogArith} {maxBuckets : Nat} {sketch other : UDDSketch arith}
variable {lnGamma : arith.Num} {values : List F64} {value : F64}

def WithinBudget (maxBuckets : Nat) (sketch : UDDSketch arith) : Prop :=
  sketch.posBuckets.length + sketch.negBuckets.length ≤ maxBuckets

/-- How many buckets one collapse leaves of the keys. -/
def afterCollapse (posKeys negKeys : Finset Int) : Nat :=
  (posKeys.image (· / 2)).card + (negKeys.image (· / 2)).card

/-- The halves of the keys and of the key of the value are few enough. -/
def RoomToInsert (maxBuckets : Nat) (value : F64) (sketch : UDDSketch arith) : Prop :=
  value.isFinite = true → value.isZero = false →
    let key := sketch.bucketKey (arith.ofF64 value.abs)
    if value.isPositive then
      afterCollapse (Insert.insert key (keys sketch.posBuckets)) (keys sketch.negBuckets) ≤
        maxBuckets
    else
      afterCollapse (keys sketch.posBuckets) (Insert.insert key (keys sketch.negBuckets)) ≤
        maxBuckets

/-- The keys after so many collapses more. -/
def coarserKeys (times : Nat) (entries : List (Int × Nat)) : Finset Int :=
  (keys entries).image (· / 2 ^ times)

/-- The halves of the keys of both sketches, at the coarser level of the two, are few
enough. -/
def RoomToMerge (maxBuckets : Nat) (sketch other : UDDSketch arith) : Prop :=
  let own := other.numCollapses - sketch.numCollapses
  let theirs := sketch.numCollapses - other.numCollapses
  afterCollapse (coarserKeys own sketch.posBuckets ∪ coarserKeys theirs other.posBuckets)
    (coarserKeys own sketch.negBuckets ∪ coarserKeys theirs other.negBuckets) ≤ maxBuckets

/-- Every operation finds room. -/
def Tree.Roomy (maxBuckets : Nat) : Tree arith → Prop
  | .new _ => True
  | .insert value tree =>
      tree.Roomy maxBuckets ∧ RoomToInsert maxBuckets value (tree.sketch maxBuckets)
  | .merge tree other =>
      tree.Roomy maxBuckets ∧ other.Roomy maxBuckets ∧
        RoomToMerge maxBuckets (tree.sketch maxBuckets) (other.sketch maxBuckets)

/-! ### The shape of a sketch -/

/-- What every operation keeps. -/
structure Shaped (maxBuckets : Nat) (sketch : UDDSketch arith) : Prop where
  posSorted : Sorted sketch.posBuckets
  negSorted : Sorted sketch.negBuckets
  collapses : sketch.numCollapses ≤ u32Max
  budget : sketch.maxBuckets = maxBuckets

theorem halve_monotone (first second : Int) (below : first < second) : first / 2 ≤ second / 2 := by
  omega

theorem shaped_fresh (alpha0 : arith.Num) (maxBuckets : Nat) :
    Shaped maxBuckets (fresh alpha0 maxBuckets) where
  posSorted := List.Pairwise.nil
  negSorted := List.Pairwise.nil
  collapses := Nat.zero_le _
  budget := rfl

theorem Shaped.collapse (shaped : Shaped maxBuckets sketch) : Shaped maxBuckets sketch.collapse where
  posSorted := sorted_coarsen halve_monotone shaped.posSorted
  negSorted := sorted_coarsen halve_monotone shaped.negSorted
  collapses := Nat.min_le_right _ _
  budget := shaped.budget

theorem Shaped.collapseIfFull (shaped : Shaped maxBuckets sketch) :
    Shaped maxBuckets sketch.collapseIfFull := by
  unfold UDDSketch.collapseIfFull
  split
  · exact shaped.collapse
  · exact shaped

theorem Shaped.bumpBucket (shaped : Shaped maxBuckets sketch) (positive : Bool) (key : Int) :
    Shaped maxBuckets (sketch.bumpBucket positive key) := by
  unfold UDDSketch.bumpBucket
  split
  · exact ⟨sorted_bump shaped.posSorted,shaped.negSorted,shaped.collapses,shaped.budget⟩
  · exact ⟨shaped.posSorted,sorted_bump shaped.negSorted,shaped.collapses,shaped.budget⟩

theorem Shaped.collapseTimes (shaped : Shaped maxBuckets sketch) (times : Nat) :
    Shaped maxBuckets (sketch.collapseTimes times) := by
  induction times generalizing sketch with
  | zero => exact shaped
  | succ times ih => exact ih shaped.collapse

theorem Shaped.withTotal (shaped : Shaped maxBuckets sketch) (total : Nat) :
    Shaped maxBuckets { sketch with totalCount := total } :=
  ⟨shaped.posSorted,shaped.negSorted,shaped.collapses,shaped.budget⟩

theorem Shaped.insert (shaped : Shaped maxBuckets sketch) (value : F64) :
    Shaped maxBuckets (sketch.insert value) := by
  unfold UDDSketch.insert
  split
  · dsimp only
    split
    · exact ⟨shaped.posSorted,shaped.negSorted,shaped.collapses,shaped.budget⟩
    · exact ((shaped.withTotal _).bumpBucket _ _).collapseIfFull
  · exact shaped

theorem Shaped.merge (shaped : Shaped maxBuckets sketch) (otherShaped : Shaped maxBuckets other) :
    Shaped maxBuckets (sketch.merge other) := by
  have own := shaped.collapseTimes (other.numCollapses - sketch.numCollapses)
  have theirs := otherShaped.collapseTimes
    ((sketch.collapseTo other.numCollapses).numCollapses - other.numCollapses)
  apply Shaped.collapseIfFull
  exact ⟨sorted_merge own.posSorted theirs.posSorted,sorted_merge own.negSorted theirs.negSorted,
    own.collapses,own.budget⟩

theorem Tree.shaped (tree : Tree arith) (maxBuckets : Nat) :
    Shaped maxBuckets (tree.sketch maxBuckets) := by
  induction tree with
  | new alpha0 => exact shaped_fresh alpha0 maxBuckets
  | insert value tree ih => exact ih.insert value
  | merge tree other ih otherIh => exact ih.merge otherIh

theorem numCollapses_collapseTimes (shaped : Shaped maxBuckets sketch) (times : Nat) :
    (sketch.collapseTimes times).numCollapses = min (sketch.numCollapses + times) u32Max := by
  induction times generalizing sketch with
  | zero =>
      rw [UDDSketch.collapseTimes,Nat.add_zero,Nat.min_eq_left shaped.collapses]
  | succ times ih =>
      rw [UDDSketch.collapseTimes,ih shaped.collapse,collapse]
      simp only
      omega

theorem halve_repeated (times : Nat) (key : Int) : key / 2 / 2 ^ times = key / 2 ^ (times + 1) := by
  rw [Int.ediv_ediv_of_nonneg (by decide),Int.pow_succ,Int.mul_comm]

theorem keys_collapseTimes (sketch : UDDSketch arith) (times : Nat) :
    keys (sketch.collapseTimes times).posBuckets = coarserKeys times sketch.posBuckets ∧
      keys (sketch.collapseTimes times).negBuckets = coarserKeys times sketch.negBuckets := by
  induction times generalizing sketch with
  | zero =>
      have same : (fun key : Int => key / 2 ^ 0) = id := by
        funext key
        rw [Int.pow_zero,Int.ediv_one,id]
      simp only [UDDSketch.collapseTimes,coarserKeys,same,Finset.image_id,and_self]
  | succ times ih =>
      have next := ih sketch.collapse
      have halves : (fun key : Int => key / 2 ^ times) ∘ (fun key : Int => key / 2) =
          fun key : Int => key / 2 ^ (times + 1) := by
        funext key
        exact halve_repeated times key
      rw [UDDSketch.collapseTimes,next.1,next.2]
      simp only [collapse,coarserKeys,keys_coarsen,Finset.image_image,halves,and_self]

theorem withinBudget_collapseIfFull (shaped : Shaped maxBuckets sketch) :
    WithinBudget maxBuckets sketch.collapseIfFull ↔
      afterCollapse (keys sketch.posBuckets) (keys sketch.negBuckets) ≤ maxBuckets := by
  have posFewer := Finset.card_image_le (s := keys sketch.posBuckets) (f := fun key => key / 2)
  have negFewer := Finset.card_image_le (s := keys sketch.negBuckets) (f := fun key => key / 2)
  have posLength := length_eq_card shaped.posSorted
  have negLength := length_eq_card shaped.negSorted
  unfold UDDSketch.collapseIfFull
  rw [shaped.budget,posLength,negLength]
  split
  · have collapsed := shaped.collapse
    rw [WithinBudget,length_eq_card collapsed.posSorted,length_eq_card collapsed.negSorted,
      collapse,keys_coarsen,keys_coarsen,afterCollapse]
  · rename_i notFull
    rw [WithinBudget,posLength,negLength,afterCollapse]
    omega

theorem withinBudget_insert (shaped : Shaped maxBuckets sketch)
    (within : WithinBudget maxBuckets sketch) (value : F64) :
    WithinBudget maxBuckets (sketch.insert value) ↔ RoomToInsert maxBuckets value sketch := by
  unfold UDDSketch.insert RoomToInsert
  cases finite : value.isFinite with
  | false =>
      rw [if_neg Bool.false_ne_true]
      exact iff_of_true within fun impossible => absurd impossible Bool.false_ne_true
  | true =>
      rw [if_pos rfl]
      dsimp only
      cases zero : value.isZero with
      | true =>
          rw [if_pos rfl]
          exact iff_of_true within fun _ impossible => absurd impossible.symm Bool.false_ne_true
      | false =>
          rw [if_neg Bool.false_ne_true]
          rw [withinBudget_collapseIfFull ((shaped.withTotal _).bumpBucket _ _),bucketKey,bucketKey,
            bumpBucket]
          simp only [forall_const]
          split
          · rw [keys_bump]
          · rw [keys_bump]

theorem withinBudget_merge (shaped : Shaped maxBuckets sketch)
    (otherShaped : Shaped maxBuckets other) :
    WithinBudget maxBuckets (sketch.merge other) ↔ RoomToMerge maxBuckets sketch other := by
  have own := shaped.collapseTimes (other.numCollapses - sketch.numCollapses)
  have level : (sketch.collapseTo other.numCollapses).numCollapses - other.numCollapses =
      sketch.numCollapses - other.numCollapses := by
    rw [collapseTo,numCollapses_collapseTimes shaped]
    have bound := shaped.collapses
    have otherBound := otherShaped.collapses
    omega
  have theirs := otherShaped.collapseTimes (sketch.numCollapses - other.numCollapses)
  have ownKeys := keys_collapseTimes sketch (other.numCollapses - sketch.numCollapses)
  have theirKeys := keys_collapseTimes other (sketch.numCollapses - other.numCollapses)
  unfold UDDSketch.merge
  dsimp only
  rw [withinBudget_collapseIfFull,keys_merge,keys_merge,RoomToMerge]
  · unfold UDDSketch.collapseTo at level ⊢
    rw [level,ownKeys.1,ownKeys.2,theirKeys.1,theirKeys.2]
  · unfold UDDSketch.collapseTo at level ⊢
    rw [level]
    exact ⟨sorted_merge own.posSorted theirs.posSorted,
      sorted_merge own.negSorted theirs.negSorted,own.collapses,own.budget⟩

theorem Tree.always_last {property : UDDSketch arith → Prop} (tree : Tree arith)
    (always : tree.Always maxBuckets property) : property (tree.sketch maxBuckets) := by
  cases tree with
  | new alpha0 => exact always
  | insert value tree => exact always.2
  | merge tree other => exact always.2.2

/-- The budget holds after every operation of a tree exactly when every operation
finds room. -/
theorem within_budget_iff (maxBuckets : Nat) (tree : Tree arith) :
    tree.Always maxBuckets (WithinBudget maxBuckets) ↔ tree.Roomy maxBuckets := by
  induction tree with
  | new alpha0 => exact iff_of_true (Nat.zero_le _) trivial
  | insert value tree ih =>
      rw [Tree.Always,Tree.Roomy,← ih]
      constructor
      · intro always
        refine ⟨always.1,?_⟩
        exact (withinBudget_insert (tree.shaped maxBuckets) (tree.always_last always.1) value).mp
          always.2
      · intro roomy
        refine ⟨roomy.1,?_⟩
        exact (withinBudget_insert (tree.shaped maxBuckets) (tree.always_last roomy.1) value).mpr
          roomy.2
  | merge tree other ih otherIh =>
      rw [Tree.Always,Tree.Roomy,← ih,← otherIh,← withinBudget_merge (tree.shaped maxBuckets)
        (other.shaped maxBuckets)]
      rfl

/-! ### Keys far apart -/

/-- One value after another. -/
def Tree.run (alpha0 : arith.Num) (values : List F64) : Tree arith :=
  values.foldl (fun tree value => .insert value tree) (.new alpha0)

theorem Tree.run_append (alpha0 : arith.Num) (values : List F64) (value : F64) :
    Tree.run alpha0 (values ++ [value]) = .insert value (Tree.run alpha0 values) := by
  rw [Tree.run,List.foldl_append,List.foldl_cons,List.foldl_nil,Tree.run]

def keyOf (lnGamma : arith.Num) (value : F64) : Int :=
  arith.floorI32 (arith.ln (arith.ofF64 value.abs) / lnGamma)

structure IsSize (value : F64) : Prop where
  finite : value.isFinite = true
  notZero : value.isZero = false
  positive : value.isPositive = true

structure CountedAt (lnGamma : arith.Num) (values : List F64) (sketch : UDDSketch arith) : Prop where
  level : sketch.lnGamma = lnGamma
  noNegatives : sketch.negBuckets = []
  posKeys : keys sketch.posBuckets = (values.map (keyOf lnGamma)).toFinset

theorem CountedAt.insertKey (counted : CountedAt lnGamma values sketch) (size : IsSize value) :
    CountedAt lnGamma (values ++ [value])
      (({ sketch with totalCount := min (sketch.totalCount + 1) u64Max }).bumpBucket
        value.isPositive (sketch.bucketKey (arith.ofF64 value.abs))) := by
  rw [size.positive,bumpBucket,if_pos rfl]
  constructor
  · exact counted.level
  · exact counted.noNegatives
  · rw [keys_bump,counted.posKeys,List.map_append,List.toFinset_append,List.map_singleton,
      Finset.union_comm,bucketKey,counted.level,keyOf]
    rfl

theorem CountedAt.insert (shaped : Shaped maxBuckets sketch)
    (counted : CountedAt lnGamma values sketch) (size : IsSize value)
    (few : values.length < maxBuckets) :
    CountedAt lnGamma (values ++ [value]) (sketch.insert value) := by
  have next := counted.insertKey size
  have nextShaped := (shaped.withTotal (min (sketch.totalCount + 1) u64Max)).bumpBucket
    value.isPositive (sketch.bucketKey (arith.ofF64 value.abs))
  rw [UDDSketch.insert,if_pos size.finite]
  dsimp only
  rw [size.notZero,if_neg Bool.false_ne_true,collapseIfFull,if_neg]
  · exact next
  · have posLength := length_eq_card nextShaped.posSorted
    have fewKeys := List.toFinset_card_le ((values ++ [value]).map (keyOf lnGamma))
    have budget := nextShaped.budget
    rw [next.posKeys] at posLength
    rw [List.length_map,List.length_append,List.length_singleton] at fewKeys
    unfold bucketKey at posLength budget ⊢
    rw [budget,posLength]
    have none := next.noNegatives
    unfold bucketKey at none
    rw [none,List.length_nil]
    omega

theorem run_countedAt (alpha0 : arith.Num) (values : List F64)
    (sizes : ∀ value ∈ values, IsSize value) (few : values.length ≤ maxBuckets) :
    CountedAt (fresh alpha0 maxBuckets : UDDSketch arith).lnGamma values
      ((Tree.run alpha0 values).sketch maxBuckets) := by
  induction values using List.reverseRecOn with
  | nil => exact ⟨rfl,rfl,rfl⟩
  | append_singleton values value ih =>
      rw [List.length_append,List.length_singleton] at few
      have before := ih (fun earlier member => sizes earlier (List.mem_append_left _ member))
        (by omega)
      rw [Tree.run_append]
      apply before.insert ((Tree.run alpha0 values).shaped maxBuckets)
      · exact sizes value (List.mem_append_right _ List.mem_cons_self)
      · omega

theorem run_exceeds (alpha0 : arith.Num) (values : List F64) (value : F64)
    (sizes : ∀ earlier ∈ values, IsSize earlier) (size : IsSize value)
    (few : values.length ≤ maxBuckets)
    (many : maxBuckets < (((values ++ [value]).map fun value =>
      keyOf (fresh alpha0 maxBuckets : UDDSketch arith).lnGamma value / 2).toFinset).card) :
    ¬(Tree.run alpha0 (values ++ [value])).Always maxBuckets (WithinBudget maxBuckets) := by
  intro always
  rw [within_budget_iff,Tree.run_append] at always
  have counted := run_countedAt alpha0 values sizes few
  have room := always.2 size.finite size.notZero
  dsimp only at room
  rw [if_pos size.positive,counted.posKeys,counted.noNegatives,bucketKey,counted.level,
    afterCollapse] at room
  have keysTogether : (Insert.insert
        (arith.floorI32 (arith.ln (arith.ofF64 value.abs) /
          (fresh alpha0 maxBuckets : UDDSketch arith).lnGamma))
        (values.map (keyOf (fresh alpha0 maxBuckets : UDDSketch arith).lnGamma)).toFinset).image
          (· / 2) =
      ((values ++ [value]).map fun value =>
        keyOf (fresh alpha0 maxBuckets : UDDSketch arith).lnGamma value / 2).toFinset := by
    ext key
    simp only [Finset.mem_image,Finset.mem_insert,List.mem_toFinset,List.mem_map,
      List.mem_append,List.mem_singleton,or_and_right,exists_or,keyOf,
      exists_eq_left,exists_exists_and_eq_and]
    exact or_comm
  rw [keysTogether,keys_nil,Finset.image_empty,Finset.card_empty] at room
  omega

/-- The powers of four up to the sixteenth: seventeen values. -/
def powerOfFour (exponent : Nat) : F64 := powerOfTwo (2 * exponent : Nat)

theorem isSize_powerOfFour : ∀ exponent < 17, IsSize (powerOfFour exponent) := by
  have checked : ∀ exponent < 17, (powerOfFour exponent).isFinite = true ∧
      (powerOfFour exponent).isZero = false ∧ (powerOfFour exponent).isPositive = true := by
    decide
  intro exponent small
  obtain ⟨finite,notZero,positive⟩ := checked exponent small
  exact ⟨finite,notZero,positive⟩

theorem abs_powerOfFour : ∀ exponent < 17, (powerOfFour exponent).abs = powerOfFour exponent := by
  decide

/-- How far apart the keys of two neighbours are, in the mean. -/
noncomputable def stride : ℝ := Real.log 4 / Real.log ((1 + 0.01) / (1 - 0.01))

theorem stride_bounds : 2 ≤ stride ∧ stride ≤ 1000 := by
  have gammaPos : (0 : ℝ) < (1 + 0.01) / (1 - 0.01) := by norm_num
  have logPos : 0 < Real.log ((1 + 0.01) / (1 - 0.01)) :=
    log_gamma_pos (by norm_num) (by norm_num)
  have logHigh := Real.log_le_sub_one_of_pos gammaPos
  have logLow := Real.one_sub_inv_le_log_of_pos gammaPos
  have fourLow := Real.one_sub_inv_le_log_of_pos (show (0 : ℝ) < 4 by norm_num)
  have fourHigh := Real.log_le_sub_one_of_pos (show (0 : ℝ) < 4 by norm_num)
  norm_num at logHigh logLow fourLow fourHigh logPos
  unfold stride
  norm_num
  constructor
  · rw [le_div_iff₀ logPos]
    linarith
  · rw [div_le_iff₀ logPos]
    linarith

theorem keyOf_powerOfFour (maxBuckets : Nat) {exponent : Nat} (small : exponent < 17) :
    keyOf (fresh (0.01 : ℝ) maxBuckets : UDDSketch realArith).lnGamma (powerOfFour exponent) =
      ⌊(exponent : ℝ) * stride⌋ := by
  have bounds := stride_bounds
  have scaled : Real.log ((powerOfFour exponent).rational : ℝ) = exponent * Real.log 4 := by
    have power : (powerOfFour exponent).rational = 2 ^ (2 * exponent) :=
      rational_powerOfTwo (by omega)
    rw [power,pow_mul]
    push_cast
    rw [Real.log_pow]
    norm_num
  have atMost : (exponent : ℝ) ≤ 16 := by
    have bound : exponent ≤ 16 := by omega
    exact_mod_cast bound
  have low : 0 ≤ (exponent : ℝ) * stride := mul_nonneg (Nat.cast_nonneg _) (by linarith)
  have high : (exponent : ℝ) * stride < 2 ^ 31 := by nlinarith
  rw [keyOf,abs_powerOfFour exponent small,lnGamma_fresh]
  change toI32 ⌊Real.log ((powerOfFour exponent).rational : ℝ) /
    Real.log ((1 + 0.01) / (1 - 0.01))⌋ = _
  rw [scaled,mul_div_assoc,← stride,toI32_eq]
  · have floorLow := Int.floor_nonneg.mpr low
    omega
  · apply Int.floor_lt.mpr
    rw [Int.cast_pow,Int.cast_ofNat]
    exact high

theorem halves_increase {first second : Nat} (below : first < second) :
    ⌊(first : ℝ) * stride⌋ / 2 < ⌊(second : ℝ) * stride⌋ / 2 := by
  have bounds := stride_bounds
  have apart : (first : ℝ) * stride + 2 ≤ (second : ℝ) * stride := by
    have next : (first : ℝ) + 1 ≤ second := by exact_mod_cast below
    nlinarith
  have floors : ⌊(first : ℝ) * stride⌋ + 2 ≤ ⌊(second : ℝ) * stride⌋ := by
    apply Int.le_floor.mpr
    push_cast
    have own := Int.floor_le ((first : ℝ) * stride)
    linarith
  omega

/-- With the starting alpha of the program and 16 buckets, the powers of four keep 17
buckets after the collapse. -/
theorem budget_exceeded :
    (new (0.01 : ℝ) 16 : Option (UDDSketch realArith)) = some (fresh (0.01 : ℝ) 16) ∧
      ¬(Tree.run (0.01 : ℝ) ((List.range 17).map powerOfFour) : Tree realArith).Always 16
        (WithinBudget 16) := by
  constructor
  · exact new_eq (by norm_num) (by norm_num) (Nat.le_refl _)
  · have split : (List.range 17).map powerOfFour =
        (List.range 16).map powerOfFour ++ [powerOfFour 16] := by
      rw [List.range_succ,List.map_append,List.map_singleton]
    have halved : ((List.range 17).map powerOfFour).map (fun value =>
          keyOf (fresh (0.01 : ℝ) 16 : UDDSketch realArith).lnGamma value / 2) =
        (List.range 17).map fun exponent : Nat => ⌊(exponent : ℝ) * stride⌋ / 2 := by
      rw [List.map_map]
      apply List.map_congr_left
      intro exponent member
      exact congrArg (· / 2) (keyOf_powerOfFour 16 (List.mem_range.mp member))
    have distinct : ((List.range 17).map fun exponent : Nat =>
        ⌊(exponent : ℝ) * stride⌋ / 2).Nodup := by
      rw [List.Nodup,List.pairwise_map]
      exact List.Pairwise.imp (fun below => ne_of_lt (halves_increase below))
        List.pairwise_lt_range
    rw [split]
    apply run_exceeds
    · intro value member
      obtain ⟨exponent,inRange,rfl⟩ := List.mem_map.mp member
      exact isSize_powerOfFour exponent (by have below := List.mem_range.mp inRange; omega)
    · exact isSize_powerOfFour 16 (by decide)
    · rw [List.length_map,List.length_range]
    · rw [← split,halved,List.toFinset_card_of_nodup distinct,List.length_map,
        List.length_range]
      decide

end UDDSketch

end Beava.Sketch
