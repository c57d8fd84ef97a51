/-
Durations at the top of their range.

A duration is 64 bits without a sign, and the operators that divide by it or
compare with it take it as 64 bits with one.  Both agree on what is less than
2 ^ 63.
-/

import Beava.Agg.WindowMembership
import Beava.Registry.Accepted

namespace Beava.Core

variable {digits : List Char}

/-- The units with their milliseconds. -/
def durationUnits : List (List Char × Nat) :=
  [(['m','s'],1),(['d'],86400000),(['h'],3600000),(['m'],60000),(['s'],1000)]

/-- "forever", or a number from one on with a unit, within 64 bits. -/
def SpellsDuration (text : String) (found : Option Nat) : Prop :=
  (text = "forever" ∧ found = none) ∨
    ∃ digits, ∃ unit ∈ durationUnits, text.toList = digits ++ unit.1 ∧ digits ≠ [] ∧
      (∀ ch ∈ digits, isAsciiDigit ch = true) ∧ 1 ≤ digitsToNat digits ∧
      digitsToNat digits * unit.2 < 2 ^ 64 ∧ found = some (digitsToNat digits * unit.2)

theorem stripSuffix_eq_some {suffix text : List Char} :
    stripSuffix suffix text = some digits ↔ text = digits ++ suffix := by
  unfold stripSuffix
  constructor
  · intro found
    split at found
    · rename_i isSuffix
      obtain ⟨front,rfl⟩ := List.isSuffixOf_iff_suffix.mp isSuffix
      rw [Option.some_inj,List.length_append,Nat.add_sub_cancel,List.take_left] at found
      rw [found]
    · cases found
  · rintro rfl
    rw [if_pos (List.isSuffixOf_iff_suffix.mpr (List.suffix_append digits suffix)),
      List.length_append,Nat.add_sub_cancel,List.take_left]

theorem stripSuffix_eq_none {suffix text : List Char} (differs : ∀ front, text ≠ front ++ suffix) :
    stripSuffix suffix text = none := by
  cases found : stripSuffix suffix text with
  | none => rfl
  | some digits => exact absurd (stripSuffix_eq_some.mp found) (differs digits)

theorem splitDuration_some {text : List Char} {factor : Nat}
    (split : splitDuration text = some (digits,factor)) :
    ∃ unit ∈ durationUnits, text = digits ++ unit.1 ∧ factor = unit.2 := by
  have taken : ∀ {suffix front : List Char} {unitMs : Nat},
      stripSuffix suffix text = some front → (suffix,unitMs) ∈ durationUnits →
        some (front,unitMs) = some (digits,factor) →
          ∃ unit ∈ durationUnits, text = digits ++ unit.1 ∧ factor = unit.2 := by
    intro suffix front unitMs stripped isUnit same
    cases same
    exact ⟨_,isUnit,stripSuffix_eq_some.mp stripped,rfl⟩
  unfold splitDuration at split
  repeat' split at split
  · exact taken (by assumption) (by decide) split
  · exact taken (by assumption) (by decide) split
  · exact taken (by assumption) (by decide) split
  · exact taken (by assumption) (by decide) split
  · exact taken (by assumption) (by decide) split
  · cases split

theorem splitDuration_of_digits (areDigits : ∀ ch ∈ digits, isAsciiDigit ch = true)
    {unit : List Char × Nat} (isUnit : unit ∈ durationUnits) :
    splitDuration (digits ++ unit.1) = some (digits,unit.2) := by
  have otherEnd : ∀ (suffix : List Char) (last : Char), suffix ≠ [] ∧ suffix.getLast? ≠ some last →
      stripSuffix suffix (digits ++ [last]) = none := by
    rintro suffix last ⟨nonempty,differs⟩
    apply stripSuffix_eq_none
    intro front same
    have ends := congrArg List.getLast? same
    rw [List.getLast?_concat,List.getLast?_append_of_ne_nil _ nonempty] at ends
    exact differs ends.symm
  have notMillis : stripSuffix ['m','s'] (digits ++ ['s']) = none := by
    apply stripSuffix_eq_none
    intro front same
    have lastDigit : digits = front ++ ['m'] := by
      apply @List.append_cancel_right _ _ ['s'] _
      rw [same,List.append_assoc]
      rfl
    have isDigit := areDigits 'm' (by rw [lastDigit]; exact List.mem_append_right _ (by decide))
    exact absurd isDigit (by decide)
  have own : ∀ suffix, stripSuffix suffix (digits ++ suffix) = some digits :=
    fun suffix => stripSuffix_eq_some.mpr rfl
  simp only [durationUnits,List.mem_cons,List.not_mem_nil,or_false] at isUnit
  rcases isUnit with rfl | rfl | rfl | rfl | rfl
  · simp only [splitDuration,own]
  · simp only [splitDuration,own,otherEnd ['m','s'] 'd' (by decide)]
  · simp only [splitDuration,own,otherEnd ['m','s'] 'h' (by decide),
      otherEnd ['d'] 'h' (by decide)]
  · simp only [splitDuration,own,otherEnd ['m','s'] 'm' (by decide),
      otherEnd ['d'] 'm' (by decide),otherEnd ['h'] 'm' (by decide)]
  · simp only [splitDuration,own,notMillis,otherEnd ['d'] 's' (by decide),
      otherEnd ['h'] 's' (by decide),otherEnd ['m'] 's' (by decide)]

theorem parseDurationToMs_ok_iff (text : String) (found : Option Nat) :
    parseDurationToMs text = .ok found ↔ SpellsDuration text found := by
  unfold parseDurationToMs
  by_cases forever : text = "forever"
  · rw [if_pos forever]
    subst forever
    constructor
    · intro same
      cases same
      exact .inl ⟨rfl,rfl⟩
    · rintro (⟨-,rfl⟩ | ⟨digits,unit,isUnit,spelled,nonempty,areDigits,-⟩)
      · rfl
      · -- no digit is in "forever"
        obtain ⟨first,rest,rfl⟩ := List.exists_cons_of_ne_nil nonempty
        have isFirst : 'f' = first := (List.cons.inj spelled).1
        exact absurd (areDigits first List.mem_cons_self) (isFirst ▸ by decide)
  · rw [if_neg forever]
    constructor
    · intro parsed
      split at parsed
      · cases parsed
      · rename_i digits factor split_
        obtain ⟨unit,isUnit,spelled,rfl⟩ := splitDuration_some split_
        split at parsed
        · cases parsed
        · rename_i wellFormed
          simp only [Bool.or_eq_true,List.isEmpty_iff,Bool.not_eq_true',not_or,
            Bool.not_eq_false,List.all_eq_true] at wellFormed
          dsimp only at parsed
          split at parsed
          · cases parsed
          · rename_i inRange
            simp only [Bool.or_eq_true,decide_eq_true_eq,not_or] at inRange
            cases parsed
            exact .inr ⟨digits,unit,isUnit,spelled,wellFormed.1,wellFormed.2,by omega,
              by omega,rfl⟩
    · rintro (⟨isForever,-⟩ | ⟨digits,unit,isUnit,spelled,nonempty,areDigits,positive,fits,
        rfl⟩)
      · exact absurd isForever forever
      · have unitPositive : 1 ≤ unit.2 := by
          have each : ∀ unit ∈ durationUnits, 1 ≤ unit.2 := by decide
          exact each unit isUnit
        have countFits : digitsToNat digits < 2 ^ 64 :=
          Nat.lt_of_le_of_lt (Nat.le_mul_of_pos_right _ unitPositive) fits
        rw [spelled,splitDuration_of_digits areDigits isUnit]
        simp only
        rw [if_neg,if_neg]
        · simp only [Bool.or_eq_true,decide_eq_true_eq]
          omega
        · simp only [Bool.or_eq_true,List.isEmpty_iff,Bool.not_eq_true',not_or,
            Bool.not_eq_false,List.all_eq_true]
          exact ⟨nonempty,areDigits⟩

/-- The duration, when it is finite, is less than 2 ^ 63 ms. -/
def DurationFits (text : String) : Prop :=
  ∀ ms, parseDurationToMs text = .ok (some ms) → ms < 2 ^ 63

theorem duration_bounds {text : String} {ms : Nat} (parsed : parseDurationToMs text = .ok (some ms)) :
    0 < ms ∧ ms < 2 ^ 64 := by
  rcases (parseDurationToMs_ok_iff text (some ms)).mp parsed with
    ⟨-,never⟩ | ⟨digits,unit,isUnit,-,-,-,positive,fits,same⟩
  · cases never
  · have unitPositive : 0 < unit.2 := by
      have each : ∀ unit ∈ durationUnits, 0 < unit.2 := by decide
      exact each unit isUnit
    cases same
    exact ⟨Nat.mul_pos positive unitPositive,fits⟩

end Beava.Core

namespace Beava.Agg

open Beava.Core Beava.Apply Beava.Registry

variable {kernel : Kernel} {Expr : Type} {env : Env Expr}
variable {params : Json}
variable {width ms : Nat}

/-- The number when it fits 64 bits with a sign. -/
def checkedI64 (number : Int) : Option Int64 :=
  if -2 ^ 63 ≤ number ∧ number < 2 ^ 63 then some (Int64.ofInt number) else none

/-- `now_ms.div_euclid(width as i64) * width as i64`; `none` stands for a division by
zero or an overflow. -/
def checkedEpoch (width : Nat) (nowMs : Int64) : Option Int64 :=
  let divisor := (Int64.ofNat width).toInt
  if divisor = 0 then none
  else (checkedI64 (nowMs.toInt / divisor)).bind fun quotient =>
    checkedI64 (quotient.toInt * divisor)

/-- The divisor is positive and no time makes the computation fail. -/
structure EpochsComputed (width : Nat) : Prop where
  positive : 0 < (Int64.ofNat width).toInt
  computed : ∀ nowMs : Int64, 0 ≤ nowMs →
    checkedEpoch width nowMs = some (WindowedOp.epochOf width nowMs)

theorem checkedI64_of_fits {number : Int} (low : -2 ^ 63 ≤ number) (high : number < 2 ^ 63) :
    checkedI64 number = some (Int64.ofInt number) :=
  if_pos ⟨low,high⟩

theorem toInt_ofNat_neg (large : 2 ^ 63 ≤ width) (fits : width < 2 ^ 64) :
    (Int64.ofNat width).toInt < 0 := by
  rw [Int64.toInt_ofNat',Int64.size,Int.bmod_def]
  have whole : (width : Int) % (18446744073709551616 : Nat) = width :=
    Int.emod_eq_of_lt (by omega) (by omega)
  rw [whole]
  split <;> omega

theorem epochsComputed_of_lt (positive : 0 < width) (fits : width < 2 ^ 63) :
    EpochsComputed width where
  positive := by
    rw [Int64.toInt_ofNat_of_lt fits]
    omega
  computed nowMs sinceEpoch := by
    rw [Int64.le_iff_toInt_le,Int64.toInt_zero] at sinceEpoch
    have below := Int64.toInt_lt nowMs
    have notNegative : 0 ≤ nowMs.toInt / width := Int.ediv_nonneg sinceEpoch (by omega)
    have quotientLe : nowMs.toInt / width ≤ nowMs.toInt := Int.ediv_le_self _ sinceEpoch
    have productLe : nowMs.toInt / width * width ≤ nowMs.toInt :=
      Int.ediv_mul_le nowMs.toInt (by omega)
    have productNotNegative : 0 ≤ nowMs.toInt / width * width :=
      Int.mul_nonneg notNegative (by omega)
    have quotient : (Int64.ofInt (nowMs.toInt / width)).toInt = nowMs.toInt / width :=
      Int64.toInt_ofInt_of_le (by omega) (by omega)
    simp only [checkedEpoch,WindowedOp.epochOf,Int64.toInt_ofNat_of_lt fits]
    rw [if_neg (by omega),checkedI64_of_fits (by omega) (by omega),Option.bind_some,quotient,
      checkedI64_of_fits (by omega) (by omega)]

theorem epochsComputed_iff (positive : 0 < width) (fits : width < 2 ^ 64) :
    EpochsComputed width ↔ width < 2 ^ 63 := by
  constructor
  · intro computed
    by_contra large
    have negative := toInt_ofNat_neg (Nat.le_of_not_lt large) fits
    have isPositive := computed.positive
    omega
  · exact epochsComputed_of_lt positive

/-! ### An event that was just applied -/

/-- The query at the time of the event folds the bucket the event changed. -/
def WindowedOp.Sees (env : Env Expr) (op : WindowedOp kernel) (update : WindowedUpdate Expr) :
    Prop :=
  ∃ bucket ∈ (update.apply env op).folded update.nowMs, bucket.1 = op.bucketEpoch update.nowMs ∧
    ∃ before, bucket.2 = update.change env before

structure WindowedOp.Works (env : Env Expr) (op : WindowedOp kernel) : Prop where
  epochs : EpochsComputed op.bucketMs
  sees : ∀ (updates : List (WindowedUpdate Expr)) (update : WindowedUpdate Expr),
    0 ≤ update.nowMs → WindowedOp.Sees env (updates.foldl (WindowedUpdate.apply env) op) update

/-- After an event some bucket has its start and counts it, and the answer counts
no less. -/
def BurstCountState.Sees (state : BurstCountState) (nowMs : Int64) (subWindowMs : Nat) : Prop :=
  ∃ idx count : Nat, (state.update nowMs true subWindowMs).bucketEpoch[idx]? =
      some (WindowedOp.epochOf subWindowMs nowMs) ∧
    (state.update nowMs true subWindowMs).buckets[idx]? = some count ∧ 1 ≤ count ∧
    count ≤ (state.update nowMs true subWindowMs).maxSeen ∧
    (state.update nowMs true subWindowMs).query =
      Kernel.reportCount (state.update nowMs true subWindowMs).maxSeen

structure BurstWorks (subWindowMs : Nat) : Prop where
  epochs : EpochsComputed subWindowMs
  sees : ∀ (state : BurstCountState) (nowMs : Int64), 0 ≤ nowMs → state.Sees nowMs subWindowMs

namespace BurstCountState

variable {subWindowMs : Nat}

theorem buckets_length (state : BurstCountState) : state.repaired.buckets.length = 64 := by
  unfold repaired
  simp only
  split
  · assumption
  · exact List.length_replicate

theorem bucketEpoch_length (state : BurstCountState) : state.repaired.bucketEpoch.length = 64 := by
  unfold repaired
  simp only
  split
  · assumption
  · exact List.length_replicate

theorem update_matched (positive : 0 < subWindowMs) (state : BurstCountState) (nowMs : Int64) :
    ∃ idx held : Nat, idx < 64 ∧
      state.update nowMs true subWindowMs =
        { buckets := state.repaired.buckets.set idx (held + 1)
          bucketEpoch := state.repaired.bucketEpoch.set idx
            (WindowedOp.epochOf subWindowMs nowMs)
          maxSeen := max state.repaired.maxSeen (held + 1)
          initialized := true } := by
  have updates : (!true || decide (subWindowMs = 0)) = false := by
    rw [decide_eq_false positive.ne']
    rfl
  let idx := (nowMs.toInt / (Int64.ofNat subWindowMs).toInt % 64).toNat
  refine ⟨idx,if state.repaired.bucketEpoch.getD idx 0 = WindowedOp.epochOf subWindowMs nowMs then
    state.repaired.buckets.getD idx 0 else 0,?_,?_⟩
  · have notNegative := Int.emod_nonneg (nowMs.toInt / (Int64.ofNat subWindowMs).toInt)
      (show (64 : Int) ≠ 0 by decide)
    have below := Int.emod_lt_of_pos (nowMs.toInt / (Int64.ofNat subWindowMs).toInt)
      (show (0 : Int) < 64 by decide)
    omega
  · rw [update,updates,if_neg Bool.false_ne_true]
    rfl

theorem sees_of_pos (positive : 0 < subWindowMs) (state : BurstCountState) (nowMs : Int64) :
    state.Sees nowMs subWindowMs := by
  obtain ⟨idx,held,inside,updated⟩ := update_matched positive state nowMs
  refine ⟨idx,held + 1,?_,?_,Nat.le_add_left ..,?_,?_⟩
  · rw [updated]
    exact List.getElem?_set_self (by rw [bucketEpoch_length]; exact inside)
  · rw [updated]
    exact List.getElem?_set_self (by rw [buckets_length]; exact inside)
  · rw [updated]
    exact Nat.le_max_right ..
  · rw [updated]
    rfl

end BurstCountState

theorem burstWorks_iff {subWindowMs : Nat} (positive : 0 < subWindowMs)
    (fits : subWindowMs < 2 ^ 64) : BurstWorks subWindowMs ↔ subWindowMs < 2 ^ 63 := by
  rw [← epochsComputed_iff positive fits]
  exact ⟨BurstWorks.epochs,fun computed => ⟨computed,fun state nowMs _ =>
    state.sees_of_pos positive nowMs⟩⟩

namespace WindowedOp

variable {windowMs : Nat}

theorem active_of_large (large : 2 ^ 63 ≤ windowMs) (fits : windowMs < 2 ^ 64)
    (queryTimeMs epoch : Int64) : active windowMs queryTimeMs epoch = false := by
  have negative := toInt_ofNat_neg large fits
  rw [active,Bool.and_eq_false_iff,decide_eq_false_iff_not,decide_eq_false_iff_not,
    Int64.le_iff_toInt_le,Int64.lt_iff_toInt_lt,Int64.toInt_zero]
  omega

theorem foldl_apply_widths (op : WindowedOp kernel) (updates : List (WindowedUpdate Expr)) :
    (updates.foldl (WindowedUpdate.apply env) op).windowMs = op.windowMs ∧
      (updates.foldl (WindowedUpdate.apply env) op).bucketMs = op.bucketMs := by
  induction updates generalizing op with
  | nil => exact ⟨rfl,rfl⟩
  | cons update rest ih =>
      have kept : (update.apply env op).windowMs = op.windowMs ∧
          (update.apply env op).bucketMs = op.bucketMs := by
        rw [update.apply_eq_route]
        exact ⟨rfl,rfl⟩
      rw [List.foldl_cons,(ih _).1,(ih _).2]
      exact kept

theorem active_epochOf (positive : 0 < windowMs) (finite : windowMs < 2 ^ 63) {nowMs : Int64}
    (sinceEpoch : 0 ≤ nowMs) :
    active windowMs nowMs (epochOf (bucketMsOf windowMs) nowMs) = true := by
  have inRange := bucketMsOf_lt finite
  have started := epochOf_le inRange sinceEpoch
  have ends := lt_epochOf_add inRange (bucketMsOf_pos positive) sinceEpoch
  have narrow : bucketMsOf windowMs ≤ windowMs := by
    rw [bucketMsOf]
    omega
  rw [active_iff finite sinceEpoch (zero_le_epochOf inRange sinceEpoch)]
  rw [Int64.le_iff_toInt_le] at started
  exact ⟨by omega,started⟩

theorem sees_of_lt (positive : 0 < windowMs) (finite : windowMs < 2 ^ 63) {op : WindowedOp kernel}
    (window : op.windowMs = windowMs) (width : op.bucketMs = bucketMsOf windowMs)
    {update : WindowedUpdate Expr} (since : 0 ≤ update.nowMs) : op.Sees env update := by
  obtain ⟨before,member⟩ := @LatestKeys.touch_mem _ _ _ op.maxBuckets
    (.newLifetime op.innerKind op.sketchParams) (update.change env) op.buckets
    (op.bucketEpoch update.nowMs)
  refine ⟨(op.bucketEpoch update.nowMs,update.change env before),?_,rfl,before,rfl⟩
  rw [update.apply_eq_route]
  refine List.mem_filter.mpr ⟨member,?_⟩
  rw [route,window,bucketEpoch,width]
  exact active_epochOf positive finite since

theorem works_iff (positive : 0 < windowMs) (fits : windowMs < 2 ^ 64) (kind : AggKind)
    (params : SketchParams) :
    (newWithParams kind windowMs params : WindowedOp kernel).Works env ↔ windowMs < 2 ^ 63 := by
  constructor
  · intro works
    by_contra large
    obtain ⟨bucket,member,-⟩ := works.sees [] (.update Row.new 0 none true) (Int64.le_refl 0)
    have isActive := (List.mem_filter.mp member).2
    have inactive := active_of_large (Nat.le_of_not_lt large) fits 0 bucket.1
    exact Bool.false_ne_true (inactive.symm.trans isActive)
  · intro finite
    refine ⟨epochsComputed_of_lt (bucketMsOf_pos positive) (bucketMsOf_lt finite),
      fun updates update since => ?_⟩
    obtain ⟨window,width⟩ := @foldl_apply_widths kernel _ env
      (newWithParams kind windowMs params) updates
    exact sees_of_lt positive finite window width since

end WindowedOp

/-! ### Features -/

def LifetimeOp.Works : LifetimeOp kernel → Prop
  | .burstCount _ subWindowMs => BurstWorks subWindowMs
  | _ => True

/-- The operator of the feature, when it has buckets, works. -/
def FeatureWorks (kernel : Kernel) (env : Env Expr) (feature : NamedAggOp Expr) : Prop :=
  match (AggOp.new feature.descriptor : AggOp kernel) with
  | .windowed op => op.Works env
  | .lifetime op => op.Works

/-- The durations a feature divides by are less than 2 ^ 63 ms. -/
structure DurationsFit (kind : AggKind) (params : Json) : Prop where
  window : supportsWindowedWrap kind = true →
    ∀ text, params.getStr "window" = some text → DurationFits text
  subWindow : kind = .burstCount →
    ∀ text, params.getStr "sub_window" = some text → DurationFits text

theorem durationParam_some {key : String} (found : (durationParam params key).1 = some ms) :
    ∃ text, params.getStr key = some text ∧ parseDurationToMs text = .ok (some ms) := by
  unfold durationParam at found
  split at found
  · cases found
  · rename_i text isText
    split at found
    · rename_i parsed isParsed
      split at found
      · cases found
        exact ⟨text,isText,isParsed⟩
      · cases found
    · cases found

theorem durationParam_of_ok {key text : String} (isText : params.getStr key = some text)
    (parsed : parseDurationToMs text = .ok (some ms)) : (durationParam params key).1 = some ms := by
  simp only [durationParam,isText,parsed,if_pos (duration_bounds parsed).1]

theorem windowOf_some (found : windowOf (params.getStr "window") = some (some ms)) :
    ∃ text, params.getStr "window" = some text ∧ parseDurationToMs text = .ok (some ms) := by
  unfold windowOf at found
  split at found
  · cases found
  · rename_i text isText
    split at found
    · rename_i parsed isParsed
      cases found
      exact ⟨text,isText,isParsed⟩
    · cases found

theorem newLifetimeFull_works (descriptor : AggOpDescriptor Expr) :
    (LifetimeOp.newLifetimeFull descriptor : LifetimeOp kernel).Works ↔
      (descriptor.kind = .burstCount → BurstWorks (descriptor.subWindowMs.getD 1)) := by
  unfold LifetimeOp.newLifetimeFull
  cases descriptor.kind with
  | burstCount => exact ⟨fun works _ => works,fun works => works rfl⟩
  | _ => exact iff_of_true trivial (fun never => by cases never)

variable {entry : String × AggSpec} {feature : NamedAggOp Expr}

theorem burstWorks_param_iff (params : Json) :
    BurstWorks ((durationParam params "sub_window").1.getD 1) ↔
      ∀ text, params.getStr "sub_window" = some text → DurationFits text := by
  cases found : (durationParam params "sub_window").1 with
  | none =>
      refine iff_of_true ((burstWorks_iff (by decide) (by decide)).mpr (by decide)) ?_
      intro text isText ms parsed
      rw [durationParam_of_ok isText parsed] at found
      cases found
  | some ms =>
      obtain ⟨text,isText,parsed⟩ := durationParam_some found
      obtain ⟨positive,fits⟩ := duration_bounds parsed
      rw [Option.getD_some,burstWorks_iff positive fits]
      constructor
      · intro small other isOther otherMs otherParsed
        rw [isText] at isOther
        cases isOther
        rw [parsed] at otherParsed
        cases otherParsed
        exact small
      · intro each
        exact each text isText ms parsed

theorem works_param_iff {windowMs : Nat}
    (found : windowOf (params.getStr "window") = some (some windowMs)) (kind : AggKind)
    (sketch : SketchParams) :
    (WindowedOp.newWithParams kind windowMs sketch : WindowedOp kernel).Works env ↔
      ∀ text, params.getStr "window" = some text → DurationFits text := by
  obtain ⟨text,isText,parsed⟩ := windowOf_some found
  obtain ⟨positive,fits⟩ := duration_bounds parsed
  rw [WindowedOp.works_iff positive fits]
  constructor
  · intro small other isOther otherMs otherParsed
    rw [isText] at isOther
    cases isOther
    rw [parsed] at otherParsed
    cases otherParsed
    exact small
  · intro each
    exact each text isText windowMs parsed

theorem lifetimeWorks_iff {descriptor : AggOpDescriptor Expr}
    (subWindow : descriptor.subWindowMs = (durationParam params "sub_window").1)
    (window : supportsWindowedWrap descriptor.kind = true →
      ∀ text, params.getStr "window" = some text → DurationFits text) :
    (LifetimeOp.newLifetimeFull descriptor : LifetimeOp kernel).Works ↔
      DurationsFit descriptor.kind params := by
  rw [newLifetimeFull_works,subWindow,burstWorks_param_iff]
  exact ⟨fun fits => ⟨window,fits⟩,DurationsFit.subWindow⟩

theorem featureWorks_of_declared (declared : featureOfSpec env entry = some feature) :
    FeatureWorks kernel env feature ↔ DurationsFit feature.descriptor.kind entry.2.params := by
  unfold featureOfSpec at declared
  simp only at declared
  split at declared
  · rename_i kind windowMs whereExpr isKind isWindow isWhere
    cases declared
    cases windowMs with
    | none =>
        refine lifetimeWorks_iff rfl fun _ text isText ms parsed => ?_
        have forever : windowOf (some text) = some none := isText ▸ isWindow
        rw [windowOf,parsed] at forever
        cases forever
    | some windowMs =>
        by_cases isFirstSeen : kind = .firstSeenInWindow
        · subst isFirstSeen
          refine iff_of_true ?_ ⟨fun never => ?_,fun never => ?_⟩
          · exact trivial
          · cases never
          · cases never
        · cases wraps : supportsWindowedWrap kind with
          | true =>
              rw [FeatureWorks,AggOp.new_windowed (show _ = some windowMs from rfl) wraps]
              refine (works_param_iff isWindow kind _).trans ⟨fun fits => ?_,fun fit => ?_⟩
              · refine ⟨fun _ => fits,fun isBurst => ?_⟩
                change kind = .burstCount at isBurst
                rw [isBurst] at wraps
                cases wraps
              · exact fit.window wraps
          | false =>
              rw [FeatureWorks,AggOp.new_unwrapped isFirstSeen wraps]
              refine lifetimeWorks_iff rfl fun never => ?_
              exact absurd (wraps.symm.trans never) Bool.false_ne_true
  · cases declared

/-- An accepted feature divides by a positive width without overflow, and sees what
was just applied, exactly when its duration is less than 2 ^ 63 ms. -/
theorem acceptedDuration_works_iff (kernel : Kernel) (env : Env Expr) (schema : Schema)
    (nodeIdx opIdx : Nat) (keys : List String) (featureName : String) (spec : AggSpec)
    (feature : NamedAggOp Expr)
    (accepted : compileFeature env schema nodeIdx opIdx keys featureName spec = .ok feature) :
    (∀ text found, parseDurationToMs text = .ok found ↔ SpellsDuration text found) ∧
      (FeatureWorks kernel env feature ↔ DurationsFit feature.descriptor.kind spec.params) :=
  ⟨parseDurationToMs_ok_iff,featureWorks_of_declared (compileFeature_ok env accepted)⟩

def durationSpec (op key text : String) : AggSpec := ⟨op,.object [(key,.string text)]⟩

def durationFeature (kind : AggKind) (op key text : String) (windowMs : Option Nat) :
    NamedAggOp Core.Expr :=
  assembleFeature "f" kind (extractAggParams sampleHost.env (durationSpec op key text).params)
    windowMs none

theorem hour_works_iff :
    (∀ text found, parseDurationToMs text = .ok found ↔ SpellsDuration text found) ∧
      (FeatureWorks wholeKernel sampleHost.env
          (durationFeature .count "count" "window" "1h" (some 3600000)) ↔
        DurationsFit .count (durationSpec "count" "window" "1h").params) :=
  acceptedDuration_works_iff wholeKernel sampleHost.env Schema.new 0 0 [] "f"
    (durationSpec "count" "window" "1h")
    (durationFeature .count "count" "window" "1h" (some 3600000)) rfl

/-- A window that counts nothing, and a sub-window that divides by a negative
number. -/
theorem longest_durations_fail :
    (∃ feature, compileFeature sampleHost.env Schema.new 0 0 [] "f"
        (durationSpec "count" "window" "9223372036854775808ms") = .ok feature ∧
      ¬FeatureWorks wholeKernel sampleHost.env feature) ∧
    (∃ feature, compileFeature sampleHost.env Schema.new 0 0 [] "f"
        (durationSpec "burst_count" "sub_window" "18446744073709551615ms") = .ok feature ∧
      ¬FeatureWorks wholeKernel sampleHost.env feature) := by
  have tooLong : ∀ {text : String} {ms : Nat}, parseDurationToMs text = .ok (some ms) →
      2 ^ 63 ≤ ms → ¬DurationFits text := by
    intro text ms parsed large fits
    exact absurd (fits ms parsed) (Nat.not_lt.mpr large)
  constructor
  · have compiled : compileFeature sampleHost.env Schema.new 0 0 [] "f"
        (durationSpec "count" "window" "9223372036854775808ms") =
          .ok (durationFeature .count "count" "window" "9223372036854775808ms"
            (some 9223372036854775808)) := rfl
    refine ⟨_,compiled,?_⟩
    rw [featureWorks_of_declared (compileFeature_ok _ compiled)]
    intro fit
    have parsed : parseDurationToMs "9223372036854775808ms" = .ok (some 9223372036854775808) := rfl
    exact tooLong parsed (by decide) (fit.window rfl _ rfl)
  · have compiled : compileFeature sampleHost.env Schema.new 0 0 [] "f"
        (durationSpec "burst_count" "sub_window" "18446744073709551615ms") =
          .ok (durationFeature .burstCount "burst_count" "sub_window" "18446744073709551615ms"
            none) := rfl
    refine ⟨_,compiled,?_⟩
    rw [featureWorks_of_declared (compileFeature_ok _ compiled)]
    intro fit
    have parsed : parseDurationToMs "18446744073709551615ms" = .ok (some 18446744073709551615) :=
      rfl
    exact tooLong parsed (by decide) (fit.subWindow rfl _ rfl)

end Beava.Agg
