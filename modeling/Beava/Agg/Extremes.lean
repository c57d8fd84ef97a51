/-
Least and greatest numbers.

A value takes the place of the current one when it is less, and an integer and a
number in the binary format are never less than one another.  The first value
thus decides which of the others count, in each bucket and among the buckets, and
a NaN that comes first stays.
-/

import Beava.Agg.WindowGroups
import Beava.Core.Binary64
import Beava.Lib.Champion

namespace Beava.Agg

open Beava.Core Beava.Apply

variable {kernel : Kernel}

/-! ### Numbers -/

/-- The numbers among which one can be less than another. -/
inductive NumberKind where
  | integer
  | binary
  | notANumber
  deriving DecidableEq

def kindOf : Value → NumberKind
  | .i64 _ => .integer
  | .f64 number => if number.isNaN then .notANumber else .binary
  | _ => .notANumber

/-- What a push lets into a field of numbers. -/
def IsNumber : Value → Prop
  | .i64 _ => True
  | .f64 _ => True
  | _ => False

def numberOf : Value → Option ℚ
  | .i64 number => some number.toInt
  | .f64 number => if number.isNaN then none else some number.rational
  | _ => none

inductive Extreme where
  | min
  | max

namespace Extreme

variable {value : Value}

def kind : Extreme → AggKind
  | min => .min
  | max => .max

def op : Extreme → Option Value → LifetimeOp kernel
  | min, current => .min ⟨current⟩
  | max, current => .max ⟨current⟩

/-- Whether a value takes the place of the current one. -/
def replaces : Extreme → Value → Value → Bool
  | min, value, current => valueLt value current
  | max, value, current => valueLt current value

def step (extreme : Extreme) (value : Value) (current : Option Value) : Option Value :=
  match current with
  | none => some value
  | some held => if extreme.replaces value held then some value else some held

def Bounds : Extreme → ℚ → ℚ → Prop
  | min, extreme, number => extreme ≤ number
  | max, extreme, number => number ≤ extreme

/-- An integer that is ordered as the numbers of a kind are. -/
def key : Value → Int
  | .i64 number => number.toInt
  | .f64 number => if number.isNaN then 0 else number.orderKey
  | _ => 0

/-- The least rank wins. -/
def rank : Extreme → Value → Int
  | min, value => key value
  | max, value => -key value

theorem kindOf_f64_ne (number : F64) : kindOf (.f64 number) ≠ .integer := by
  simp only [kindOf]
  split
  · intro impossible
    cases impossible
  · intro impossible
    cases impossible

theorem valueLt_iff {first second : Value} (firstNumber : IsNumber first)
    (secondNumber : IsNumber second) :
    valueLt first second = true ↔ kindOf first = kindOf second ∧ key first < key second := by
  cases first with
  | i64 number => cases second with
    | i64 other =>
        rw [valueLt,decide_eq_true_eq,Int64.lt_iff_toInt_lt]
        exact (and_iff_right rfl).symm
    | f64 other =>
        exact iff_of_false Bool.false_ne_true (fun both => kindOf_f64_ne other both.1.symm)
    | _ => exact secondNumber.elim
  | f64 number => cases second with
    | f64 other =>
        cases firstNaN : number.isNaN <;> cases secondNaN : other.isNaN <;>
          simp [valueLt,F64.partialCmp,kindOf,key,firstNaN,secondNaN,compare_lt_iff_lt]
    | i64 other => exact iff_of_false Bool.false_ne_true (fun both => kindOf_f64_ne number both.1)
    | _ => exact secondNumber.elim
  | _ => exact firstNumber.elim

theorem replaces_iff (extreme : Extreme) {current : Value} (isNumber : IsNumber value)
    (currentNumber : IsNumber current) :
    extreme.replaces value current = true ↔
      kindOf value = kindOf current ∧ extreme.rank value < extreme.rank current := by
  cases extreme with
  | min => exact valueLt_iff isNumber currentNumber
  | max =>
      rw [replaces,valueLt_iff currentNumber isNumber,eq_comm,rank,rank,neg_lt_neg_iff]

theorem key_le_iff {first second : Value} {one other : ℚ} (isOne : numberOf first = some one)
    (isOther : numberOf second = some other) (sameKind : kindOf first = kindOf second) :
    one ≤ other ↔ key first ≤ key second := by
  cases first with
  | i64 number => cases second with
    | i64 number' =>
        cases isOne
        cases isOther
        exact Int.cast_le
    | f64 number' => exact absurd sameKind.symm (kindOf_f64_ne number')
    | _ => cases isOther
  | f64 number => cases second with
    | f64 number' =>
        simp only [numberOf] at isOne isOther
        split at isOne
        · cases isOne
        · split at isOther
          · cases isOther
          · rename_i firstNumber secondNumber
            cases isOne
            cases isOther
            simp only [key,if_neg firstNumber,if_neg secondNumber]
            rw [← not_lt,F64.rational_lt_iff,not_lt]
    | i64 number' => exact absurd sameKind (kindOf_f64_ne number)
    | _ => cases isOther
  | _ => cases isOne

theorem bounds_iff (extreme : Extreme) {first second : Value} {one other : ℚ}
    (isOne : numberOf first = some one) (isOther : numberOf second = some other)
    (sameKind : kindOf first = kindOf second) :
    extreme.Bounds one other ↔ extreme.rank first ≤ extreme.rank second := by
  cases extreme with
  | min => exact key_le_iff isOne isOther sameKind
  | max =>
      rw [rank,rank,neg_le_neg_iff]
      exact key_le_iff isOther isOne sameKind.symm

theorem Bounds.trans {extreme : Extreme} {one other number : ℚ} (first : extreme.Bounds one other)
    (second : extreme.Bounds other number) : extreme.Bounds one number := by
  cases extreme with
  | min => exact le_trans first second
  | max => exact le_trans second first

def currentOf (extreme : Extreme) (values : List Value) : Option Value :=
  values.foldl (fun current value => extreme.step value current) none

theorem currentOf_eq (extreme : Extreme) (values : List Value)
    (numbers : ∀ value ∈ values, IsNumber value) :
    extreme.currentOf values = Champion.champion kindOf extreme.rank values := by
  unfold currentOf
  induction values using List.reverseRecOn with
  | nil => rfl
  | append_singleton values value ih =>
      have earlier : ∀ value ∈ values, IsNumber value :=
        fun value member => numbers value (List.mem_append_left _ member)
      rw [List.foldl_concat,Champion.champion,List.foldl_concat,ih earlier,Champion.champion]
      cases values with
      | nil => rfl
      | cons first rest =>
          obtain ⟨best,elected,least⟩ :=
            @Champion.champion_least _ _ _ _ _ kindOf extreme.rank _ (List.cons_ne_nil first rest)
          rw [Champion.champion] at elected
          rw [elected]
          have replaces := extreme.replaces_iff
            (numbers value (List.mem_append_right _ List.mem_cons_self))
            (earlier best least.member)
          simp only [step,Champion.challenge,replaces]

theorem currentOf_groups (extreme : Extreme) (groups : List (List Value))
    (numbers : ∀ value ∈ groups.flatten, IsNumber value) :
    extreme.currentOf (groups.filterMap extreme.currentOf) =
      Champion.grandChampion kindOf extreme.rank groups := by
  have each : groups.filterMap extreme.currentOf =
      groups.filterMap (Champion.champion kindOf extreme.rank) := by
    apply List.filterMap_congr
    intro group isGroup
    exact extreme.currentOf_eq group fun value member =>
      numbers value (List.mem_flatten.mpr ⟨group,isGroup,member⟩)
  rw [each,Champion.grandChampion]
  apply currentOf_eq
  intro value elected
  obtain ⟨group,isGroup,isBest⟩ := List.mem_filterMap.mp elected
  cases group with
  | nil => cases isBest
  | cons first rest =>
      obtain ⟨best,isChampion,least⟩ :=
        @Champion.champion_least _ _ _ _ _ kindOf extreme.rank _ (List.cons_ne_nil first rest)
      rw [isBest,Option.some.injEq] at isChampion
      subst isChampion
      exact numbers value (List.mem_flatten.mpr ⟨_,isGroup,least.member⟩)

theorem lower_eq (value : Value) (current : Option Value) :
    MinState.lower value ⟨current⟩ = ⟨min.step value current⟩ := by
  cases current with
  | none => rfl
  | some held =>
      by_cases lower : valueLt value held = true
      · rw [MinState.lower,step]
        exact (if_pos lower).trans (congrArg MinState.mk (if_pos lower).symm)
      · rw [MinState.lower,step]
        exact (if_neg lower).trans (congrArg MinState.mk (if_neg lower).symm)

theorem raise_eq (value : Value) (current : Option Value) :
    MaxState.raise value ⟨current⟩ = ⟨max.step value current⟩ := by
  cases current with
  | none => rfl
  | some held =>
      by_cases higher : valueLt held value = true
      · rw [MaxState.raise,step]
        exact (if_pos higher).trans (congrArg MaxState.mk (if_pos higher).symm)
      · rw [MaxState.raise,step]
        exact (if_neg higher).trans (congrArg MaxState.mk (if_neg higher).symm)

theorem foldl_lower (values : List Value) :
    values.foldl (fun state value => MinState.lower value state) .default =
      ⟨min.currentOf values⟩ :=
  List.foldl_hom MinState.mk (fun current value => lower_eq value current)

theorem foldl_raise (values : List Value) :
    values.foldl (fun state value => MaxState.raise value state) .default =
      ⟨max.currentOf values⟩ :=
  List.foldl_hom MaxState.mk (fun current value => raise_eq value current)

theorem after_eq (extreme : Extreme) (updates : List LifetimeUpdate) :
    (extreme.op none : LifetimeOp kernel).after updates =
      extreme.op (extreme.currentOf (fieldValues updates)) := by
  cases extreme with
  | min =>
      have run := @after_eq_foldl kernel _ _ MinState.lower (fun _ => True) .min
        (LifetimeUpdate.reading notNull) (fun update state _ => by
          cases update with
          | update => exact congrArg LifetimeOp.min (updateField_eq_feed ..)
          | updateWithExtracted => exact congrArg LifetimeOp.min (updateValue_eq_feed ..))
        (fun _ _ _ => trivial) updates .default trivial
      exact run.trans (congrArg LifetimeOp.min (foldl_lower _))
  | max =>
      have run := @after_eq_foldl kernel _ _ MaxState.raise (fun _ => True) .max
        (LifetimeUpdate.reading notNull) (fun update state _ => by
          cases update with
          | update => exact congrArg LifetimeOp.max (updateField_eq_feed ..)
          | updateWithExtracted => exact congrArg LifetimeOp.max (updateValue_eq_feed ..))
        (fun _ _ _ => trivial) updates .default trivial
      exact run.trans (congrArg LifetimeOp.max (foldl_raise _))

theorem query_op (extreme : Extreme) (current : Option Value) (queryTimeMs : Int64) :
    (extreme.op current : LifetimeOp kernel).query queryTimeMs = current.getD .null := by
  cases extreme <;> rfl

theorem foldBuckets_op (extreme : Extreme) (groups : List (List Value)) :
    WindowedOp.foldBuckets extreme.kind
        (groups.map fun group => (extreme.op (extreme.currentOf group) : LifetimeOp kernel)) =
      (extreme.currentOf (groups.filterMap extreme.currentOf)).getD .null := by
  cases extreme with
  | min =>
      have each : WindowedOp.leasts (groups.map fun group =>
          (min.op (min.currentOf group) : LifetimeOp kernel)) = groups.filterMap min.currentOf := by
        rw [WindowedOp.leasts,List.filterMap_map]
        rfl
      show MinState.query (List.foldl _ _ (WindowedOp.leasts _)) = _
      rw [each,foldl_lower]
      rfl
  | max =>
      have each : WindowedOp.greatests (groups.map fun group =>
          (max.op (max.currentOf group) : LifetimeOp kernel)) =
            groups.filterMap max.currentOf := by
        rw [WindowedOp.greatests,List.filterMap_map]
        rfl
      show MaxState.query (List.foldl _ _ (WindowedOp.greatests _)) = _
      rw [each,foldl_raise]
      rfl

/-- The value is a number on the right side of every number that was observed. -/
def IsExtreme (extreme : Extreme) (value : Value) (observed : List Value) : Prop :=
  ∃ number, numberOf value = some number ∧
    ∀ seen ∈ observed, ∀ other, numberOf seen = some other → extreme.Bounds number other

/-- The first value is no NaN, and beyond every number that was observed there is a
number of the kind of the first, in a group that this kind heads. -/
structure Heads (extreme : Extreme) (groups : List (List Value)) : Prop where
  number : Champion.pinnedKind kindOf groups ≠ some .notANumber
  reached : ∀ seen ∈ groups.flatten, ∀ other, numberOf seen = some other →
    ∃ group ∈ groups, group.head?.map kindOf = Champion.pinnedKind kindOf groups ∧
      ∃ item ∈ group, some (kindOf item) = Champion.pinnedKind kindOf groups ∧
        ∃ one, numberOf item = some one ∧ extreme.Bounds one other

theorem kindOf_ne_iff (isNumber : IsNumber value) :
    kindOf value ≠ .notANumber ↔ ∃ number, numberOf value = some number := by
  cases value with
  | i64 number =>
      refine iff_of_true ?_ ⟨_,rfl⟩
      intro impossible
      cases impossible
  | f64 number =>
      simp only [kindOf,numberOf]
      split
      · refine iff_of_false (fun differs => differs rfl) ?_
        intro impossible
        obtain ⟨_,isSome⟩ := impossible
        cases isSome
      · refine iff_of_true ?_ ⟨_,rfl⟩
        intro impossible
        cases impossible
  | _ => exact isNumber.elim

variable {extreme : Extreme} {groups : List (List Value)} {best : Value}

theorem isExtreme_iff (numbers : ∀ value ∈ groups.flatten, IsNumber value)
    (least : Champion.GrandLeast kindOf extreme.rank groups best) :
    extreme.IsExtreme best groups.flatten ↔ extreme.Heads groups := by
  obtain ⟨group,isGroup,headed,inGroup⟩ := least.member
  have isNumber := numbers best (List.mem_flatten.mpr ⟨group,isGroup,inGroup⟩)
  constructor
  · intro isExtreme
    obtain ⟨number,isBest,bounds⟩ := isExtreme
    constructor
    · rw [least.pinned]
      intro impossible
      exact (kindOf_ne_iff isNumber).mpr ⟨number,isBest⟩ (Option.some.inj impossible)
    · intro seen observed other isOther
      rw [least.pinned]
      exact ⟨group,isGroup,headed,best,inGroup,rfl,number,isBest,
        bounds seen observed other isOther⟩
  · intro heads
    have notNaN : kindOf best ≠ .notANumber := by
      intro isNaN
      apply heads.number
      rw [least.pinned,isNaN]
    obtain ⟨number,isBest⟩ := (kindOf_ne_iff isNumber).mp notNaN
    refine ⟨number,isBest,?_⟩
    intro seen observed other isOther
    obtain ⟨reaching,isReaching,headedToo,item,inReaching,sameKind,one,isOne,bounds⟩ :=
      heads.reached seen observed other isOther
    rw [least.pinned] at headedToo sameKind
    have ranked := least.least reaching isReaching headedToo item inReaching
      (Option.some.inj sameKind)
    exact ((extreme.bounds_iff isBest isOne (Option.some.inj sameKind).symm).mpr ranked).trans
      bounds

theorem currentOf_isExtreme_iff (numbers : ∀ value ∈ groups.flatten, IsNumber value)
    (nonempty : groups.flatten ≠ []) :
    extreme.IsExtreme ((extreme.currentOf (groups.filterMap extreme.currentOf)).getD .null)
        groups.flatten ↔ extreme.Heads groups := by
  obtain ⟨best,elected,least⟩ :=
    @Champion.grandChampion_least _ _ _ _ _ kindOf extreme.rank _ nonempty
  rw [extreme.currentOf_groups groups numbers,elected,Option.getD_some]
  exact isExtreme_iff numbers least

/-! ### Features -/

variable {Expr : Type} {env : Env Expr}

theorem currentOf_alone (extreme : Extreme) (values : List Value) :
    extreme.currentOf ([values].filterMap extreme.currentOf) = extreme.currentOf values := by
  cases current : extreme.currentOf values with
  | none => rw [List.filterMap_cons_none current]; rfl
  | some value => rw [List.filterMap_cons_some current]; rfl

theorem newLifetime_eq (extreme : Extreme) (params : SketchParams) :
    (.newLifetime extreme.kind params : LifetimeOp kernel) = extreme.op none := by
  cases extreme <;> rfl

theorem isExtreme_perm {observed others : List Value} (same : observed.Perm others)
    : extreme.IsExtreme value observed ↔ extreme.IsExtreme value others := by
  unfold IsExtreme
  simp only [same.mem_iff]

theorem fieldValues_flatten (groups : List (List LifetimeUpdate)) :
    fieldValues groups.flatten = (groups.map fieldValues).flatten := by
  rw [fieldValues,List.filterMap_flatten]
  rfl

/-- When an extreme bounds what it has seen: all of it, or what is in the window. -/
structure BoundsIff (kernel : Kernel) (env : Env Expr) (extreme : Extreme) : Prop where
  lifetime (updates : List LifetimeUpdate) (queryTimeMs : Int64)
    (numbers : ∀ value ∈ fieldValues updates, IsNumber value)
    (seen : ∃ value ∈ fieldValues updates, (numberOf value).isSome) :
    extreme.IsExtreme
        (((extreme.op none : LifetimeOp kernel).after updates).query queryTimeMs)
        (fieldValues updates) ↔
      extreme.Heads [fieldValues updates]
  windowed (windowMs : Nat) (params : SketchParams) (updates : List (WindowedUpdate Expr))
    (queryTimeMs : Int64) (positive : 0 < windowMs) (finite : windowMs < 2 ^ 63)
    (arrives : Arrives (updates.map WindowedUpdate.nowMs))
    (notAfter : ∀ update ∈ updates, update.nowMs ≤ queryTimeMs)
    (numbers : ∀ value ∈ fieldValues (WindowedOp.inWindow env windowMs updates queryTimeMs),
      IsNumber value)
    (seen : ∃ value ∈ fieldValues (WindowedOp.inWindow env windowMs updates queryTimeMs),
      (numberOf value).isSome) :
    extreme.IsExtreme
        ((WindowedOp.after kernel env extreme.kind windowMs params updates).query queryTimeMs)
        (fieldValues (WindowedOp.inWindow env windowMs updates queryTimeMs)) ↔
      extreme.Heads
        ((WindowedOp.groups env updates
          (WindowedOp.after kernel env extreme.kind windowMs params updates) queryTimeMs).map
            fieldValues)

theorem lifetime_iff (updates : List LifetimeUpdate) (queryTimeMs : Int64)
    (numbers : ∀ value ∈ fieldValues updates, IsNumber value)
    (seen : ∃ value ∈ fieldValues updates, (numberOf value).isSome) :
    extreme.IsExtreme (((extreme.op none : LifetimeOp kernel).after updates).query queryTimeMs)
        (fieldValues updates) ↔
      extreme.Heads [fieldValues updates] := by
  obtain ⟨value,member,-⟩ := seen
  have flat : [fieldValues updates].flatten = fieldValues updates := List.flatten_singleton
  have elected := @currentOf_isExtreme_iff extreme [fieldValues updates] (by rwa [flat])
    (by rw [flat]; exact List.ne_nil_of_mem member)
  rw [currentOf_alone,flat] at elected
  rwa [after_eq,query_op]

theorem windowed_iff {windowMs : Nat} {params : SketchParams}
    {updates : List (WindowedUpdate Expr)} {queryTimeMs : Int64} (positive : 0 < windowMs)
    (finite : windowMs < 2 ^ 63) (arrives : Arrives (updates.map WindowedUpdate.nowMs))
    (notAfter : ∀ update ∈ updates, update.nowMs ≤ queryTimeMs)
    (numbers : ∀ value ∈ fieldValues (WindowedOp.inWindow env windowMs updates queryTimeMs),
      IsNumber value)
    (seen : ∃ value ∈ fieldValues (WindowedOp.inWindow env windowMs updates queryTimeMs),
      (numberOf value).isSome) :
    extreme.IsExtreme
        ((WindowedOp.after kernel env extreme.kind windowMs params updates).query queryTimeMs)
        (fieldValues (WindowedOp.inWindow env windowMs updates queryTimeMs)) ↔
      extreme.Heads
        ((WindowedOp.groups env updates
          (WindowedOp.after kernel env extreme.kind windowMs params updates) queryTimeMs).map
            fieldValues) := by
  obtain ⟨value,member,-⟩ := seen
  have same := @WindowedOp.groups_perm kernel _ env windowMs extreme.kind params updates queryTimeMs
    positive finite arrives notAfter
  have values := same.filterMap (LifetimeUpdate.reading notNull)
  change (fieldValues _).Perm (fieldValues _) at values
  rw [fieldValues_flatten] at values
  have report : (WindowedOp.after kernel env extreme.kind windowMs params updates).query
      queryTimeMs =
        WindowedOp.foldBuckets extreme.kind
          (((WindowedOp.groups env updates
            (WindowedOp.after kernel env extreme.kind windowMs params updates) queryTimeMs).map
              fieldValues).map fun group =>
                (extreme.op (extreme.currentOf group) : LifetimeOp kernel)) := by
    rw [WindowedOp.query,WindowedOp.after_innerKind,WindowedOp.activeOps_after finite arrives,
      List.map_map]
    apply congrArg
    apply List.map_congr_left
    intro group _
    rw [newLifetime_eq,after_eq]
    rfl
  rw [report,foldBuckets_op,← isExtreme_perm values]
  apply currentOf_isExtreme_iff
  · intro other isOther
    exact numbers other (values.mem_iff.mp isOther)
  · exact List.ne_nil_of_mem (values.mem_iff.mpr member)

/-- An extreme bounds the numbers it has seen when the numbers of the kind of the
first do. -/
theorem bounds_iff_heads (kernel : Kernel) (env : Env Expr) (extreme : Extreme) :
    BoundsIff kernel env extreme where
  lifetime updates queryTimeMs numbers seen := lifetime_iff updates queryTimeMs numbers seen
  windowed _ _ _ _ positive finite arrives notAfter numbers seen :=
    windowed_iff positive finite arrives notAfter numbers seen

/-- The integer five, and then zero in the binary format. -/
def mixedAmounts : List LifetimeUpdate :=
  [.update ⟨[("amount",.i64 5)]⟩ 0 (some "amount") true,
    .update ⟨[("amount",.f64 F64.zero)]⟩ 1 (some "amount") true]

/-- The integer stays, although zero is less. -/
theorem mixedAmounts_notBounded :
    fieldValues mixedAmounts = [.i64 5,.f64 F64.zero] ∧
      ((min.op none : LifetimeOp wholeKernel).after mixedAmounts).query 2 = .i64 5 ∧
      ¬min.IsExtreme (((min.op none : LifetimeOp wholeKernel).after mixedAmounts).query 2)
        (fieldValues mixedAmounts) := by
  refine ⟨by decide,by decide,?_⟩
  intro isExtreme
  obtain ⟨number,isFive,bounds⟩ := isExtreme
  have reported : number = ((5 : Int) : ℚ) := (Option.some.inj isFive).symm
  have below := bounds (.f64 F64.zero) (by decide) F64.zero.rational rfl
  rw [reported,F64.rational_zero] at below
  exact absurd (Int.cast_nonpos.mp below) (by decide)

/-- Integers only. -/
def wholeAmounts : List LifetimeUpdate :=
  [.update ⟨[("amount",.i64 5)]⟩ 0 (some "amount") true,
    .updateWithExtracted (some (.i64 2)) 1 ⟨[("amount",.i64 2)]⟩ (some "amount") [] 255 255 true]

theorem wholeAmounts_bounds :
    min.IsExtreme (((min.op none : LifetimeOp wholeKernel).after wholeAmounts).query 2)
        (fieldValues wholeAmounts) ↔
      min.Heads [fieldValues wholeAmounts] := by
  have values : fieldValues wholeAmounts = [.i64 5,.i64 2] := by decide
  apply (bounds_iff_heads wholeKernel sampleHost.env min).lifetime wholeAmounts 2
  · rw [values]
    exact List.forall_mem_cons.mpr ⟨trivial,List.forall_mem_singleton.mpr trivial⟩
  · rw [values]
    exact ⟨.i64 5,List.mem_cons_self,rfl⟩

end Extreme

end Beava.Agg
