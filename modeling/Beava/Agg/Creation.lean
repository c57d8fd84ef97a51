/-
The creation of operator states.

A constructor that reserves room for its state panics when the room is more than
an allocation can name, and the Bloom filter checks its parameters and multiplies.
Nothing else in a constructor can fail, so a state is there exactly when what the
parameters ask for is within the limits.
-/

import Beava.Agg.Windowed
import Beava.Lib.Checked

namespace Beava.Agg

open Beava.Core Beava.Apply

variable {α : Type}

/-! ### What a constructor asks for -/

/-- `isize::MAX`. -/
def isizeMax : Nat := 2 ^ 63 - 1

inductive Panic where
  | capacityOverflow
  | assertionFailed
  | arithmeticOverflow
  deriving DecidableEq, Repr

structure Build (kernel : Kernel) where
  overflowChecks : Bool
  /-- `size_of::<Value>()`. -/
  valueBytes : Nat
  setBytes : Nat → Nat
  ln : kernel.Num → kernel.Num
  ceil : kernel.Num → kernel.Num
  /-- `as usize`, which saturates. -/
  toUsize : kernel.Num → Nat
  valueBytes_le : valueBytes ≤ 2 ^ 32
  toUsize_lt : ∀ number, toUsize number < 2 ^ 64
  less : ∀ {first second : F64}, first.isNaN = false → second.isNaN = false →
    (kernel.lt (kernel.ofF64 first) (kernel.ofF64 second) = true ↔
      first.orderKey < second.orderKey)

/-- `Vec::with_capacity`, with the size of an element. -/
def reserve (count bytes : Nat) : Except Panic Unit :=
  if count * bytes ≤ isizeMax then .ok () else .error .capacityOverflow

/-- `assert!`. -/
def assertion (holds : Bool) : Except Panic Unit :=
  if holds then .ok () else .error .assertionFailed

def Returns {α : Type} (constructor : Except Panic α) : Prop := ∃ state, constructor = .ok state

theorem returns_ok (state : α) : Returns (.ok state) := ⟨state,rfl⟩

theorem not_returns_error (panic : Panic) : ¬ Returns (.error panic : Except Panic α) := by
  rintro ⟨state,same⟩
  cases same

variable {next : Unit → Except Panic α}

theorem returns_reserve {count bytes : Nat} :
    Returns (reserve count bytes >>= next) ↔ count * bytes ≤ isizeMax ∧ Returns (next ()) := by
  unfold reserve
  split
  · rename_i fits
    exact ⟨fun returned => ⟨fits,returned⟩,And.right⟩
  · rename_i large
    exact iff_of_false (not_returns_error _) fun both => large both.1

theorem returns_assertion {holds : Bool} :
    Returns (assertion holds >>= next) ↔ holds = true ∧ Returns (next ()) := by
  unfold assertion
  split
  · rename_i isTrue
    exact ⟨fun returned => ⟨isTrue,returned⟩,And.right⟩
  · rename_i isFalse
    exact iff_of_false (not_returns_error _) fun both => isFalse both.1

theorem returns_map {β : Type} {change : α → β} {constructor : Except Panic α} :
    Returns (change <$> constructor) ↔ Returns constructor := by
  cases constructor with
  | error panic => exact iff_of_false (not_returns_error _) (not_returns_error _)
  | ok state => exact iff_of_true (returns_ok _) (returns_ok _)

namespace Build

variable {kernel : Kernel} (build : Build kernel)

def product (first second : Nat) : Except Panic Nat :=
  if build.overflowChecks = true ∧ 2 ^ 64 ≤ first * second then .error .arithmeticOverflow
  else .ok (first * second % 2 ^ 64)

theorem returns_product {α : Type} {first second : Nat} {next : Nat → Except Panic α}
    (nextReturns : ∀ product, Returns (next product)) :
    Returns (build.product first second >>= next) ↔
      (build.overflowChecks = true → first * second < 2 ^ 64) := by
  unfold product
  split
  · rename_i overflows
    exact iff_of_false (not_returns_error _) fun fits =>
      absurd (fits overflows.1) (Nat.not_lt.mpr overflows.2)
  · rename_i notOverflows
    refine iff_of_true (nextReturns _) fun checked => ?_
    by_contra large
    exact notOverflows ⟨checked,Nat.not_lt.mp large⟩

end Build

/-! ### The constructors -/

section Constructors

variable {kernel : Kernel} (build : Build kernel)

def CountDistinctStateWrap.create : Except Panic (CountDistinctStateWrap kernel) := do
  reserve 16 8
  return .default

def PercentileStateWrap.create (params : SketchParams) :
    Except Panic (PercentileStateWrap kernel) := do
  reserve 256 8
  return LifetimeOp.newPercentile params

def LastNState.create (n : Nat) : Except Panic LastNState := do
  reserve n build.valueBytes
  return .new n

def LagState.create (n : Nat) : Except Panic LagState := do
  reserve (n + 1) build.valueBytes
  return .new n

def TimeSinceLastNState.create (n : Nat) : Except Panic TimeSinceLastNState := do
  reserve n 8
  return .new n

/-- The bits of a Bloom filter for a number of keys and a rate of false answers. -/
def Build.bloomBits (capacity : Nat) (fpr : kernel.Num) : Nat :=
  let ln2 := kernel.ofF64 ⟨0x3FE62E42FEFA39EF⟩
  build.toUsize (build.ceil (-(kernel.ofInt capacity) * build.ln fpr / (ln2 * ln2)))

/-- `with_capacity_and_fpr`. -/
def Build.createBloomFilter (capacity : Nat) (fpr : kernel.Num) : Except Panic kernel.Bloom := do
  assertion (0 < capacity && kernel.lt (kernel.ofF64 .zero) fpr &&
    kernel.lt fpr (kernel.ofF64 ⟨0x3FF0000000000000⟩))
  let words := (build.bloomBits capacity fpr + 63) / 64
  let _bitCount ← build.product words 64
  reserve words 8
  return kernel.newBloom capacity fpr

/-- `with_params`. -/
def BloomMemberStateWrap.create (capacity : Nat) (fpr : F64) :
    Except Panic (BloomMemberStateWrap kernel) := do
  let inner ← build.createBloomFilter (max capacity 1)
    (BloomMemberStateWrap.clampFpr (kernel.ofF64 fpr))
  return ⟨inner,0⟩

def HistogramState.create (buckets : List kernel.Num) : Except Panic (HistogramState kernel) := do
  reserve (buckets.length + 1) 8
  return .new buckets

def DowHourHistogramState.create : Except Panic DowHourHistogramState := do
  reserve 168 8
  return .default

def EventTypeMixState.create (maxCategories : Nat) (allowed : Option (List String)) :
    Except Panic EventTypeMixState := do
  reserve ((allowed.map fun categories => build.setBytes categories.length).getD 0) 1
  return .new maxCategories allowed

def MostRecentNState.create (n : Nat) : Except Panic MostRecentNState := do
  reserve (max n 1) build.valueBytes
  return .new n

def ReservoirSampleState.create (k : Nat) : Except Panic ReservoirSampleState := do
  reserve (max k 1) build.valueBytes
  return .new k

def DistanceFromHomeState.create (latField lonField : String) (samples : Nat) :
    Except Panic (DistanceFromHomeState kernel) := do
  reserve (max samples 1) 16
  return .withFields latField lonField samples

/-- `new_lifetime_full`, with what its constructors ask for.  The states of the
other kinds are there without asking. -/
def LifetimeOp.create {Expr : Type} (descriptor : AggOpDescriptor Expr) :
    Except Panic (LifetimeOp kernel) :=
  let params := descriptor.sketchParams.getD ⟨none,none,none,none⟩
  match descriptor.kind with
  | .countDistinct => .countDistinct <$> CountDistinctStateWrap.create
  | .percentile => .percentile <$> PercentileStateWrap.create params
  | .bloomMember =>
      .bloomMember <$> BloomMemberStateWrap.create build (params.bloomCapacity.getD 1024)
        (params.bloomFpr.getD ⟨0x3F847AE147AE147B⟩)
  | .lastN => .lastN <$> LastNState.create build (descriptor.n.getD 1)
  | .lag => .lag <$> LagState.create build (descriptor.n.getD 1)
  | .timeSinceLastN => .timeSinceLastN <$> TimeSinceLastNState.create (descriptor.n.getD 1)
  | .histogram =>
      .histogram <$> HistogramState.create ((descriptor.ext.buckets.getD []).map kernel.ofF64)
  | .dowHourHistogram => .dowHourHistogram <$> DowHourHistogramState.create
  | .eventTypeMix =>
      .eventTypeMix <$> EventTypeMixState.create build (descriptor.ext.maxCategories.getD 256)
        descriptor.ext.categories
  | .mostRecentN => .mostRecentN <$> MostRecentNState.create build (descriptor.ext.n.getD 10)
  | .reservoirSample =>
      .reservoirSample <$> ReservoirSampleState.create build
        ((descriptor.ext.samples.or descriptor.ext.k).getD 10)
  | .distanceFromHome =>
      .distanceFromHome <$> DistanceFromHomeState.create (latName descriptor)
        (lonName descriptor) (descriptor.ext.samples.getD 100)
  | _ => .ok (.newLifetimeFull descriptor)

/-- `new_with_params`: the buckets come with the events. -/
def WindowedOp.create (kind : AggKind) (windowMs : Nat) (params : SketchParams) :
    Except Panic (WindowedOp kernel) := do
  assertion (kind ≠ .bloomMember)
  return .newWithParams kind windowMs params

/-- `AggOp::new`. -/
def AggOp.create {Expr : Type} (descriptor : AggOpDescriptor Expr) :
    Except Panic (AggOp kernel) :=
  match descriptor.windowMs with
  | none => .lifetime <$> LifetimeOp.create build descriptor
  | some windowMs =>
      if descriptor.kind = .firstSeenInWindow then
        .ok (.lifetime (.firstSeenInWindow (.new windowMs)))
      else if supportsWindowedWrap descriptor.kind then
        .windowed <$> WindowedOp.create descriptor.kind windowMs
          (descriptor.sketchParams.getD ⟨none,none,none,none⟩)
      else .lifetime <$> LifetimeOp.create build descriptor

end Constructors

section Created

variable {kernel : Kernel} {build : Build kernel} {Expr : Type}

/-- A constructor that returns has built what it builds in the absence of limits. -/
def Builds {α : Type} (constructor : Except Panic α) (state : α) : Prop :=
  ∀ built, constructor = .ok built → built = state

theorem builds_ok {α : Type} (state : α) : Builds (.ok state) state := by
  intro built same
  exact (Except.ok.inj same).symm

theorem Builds.bind {α β : Type} {first : Except Panic α} {next : α → Except Panic β} {state : β}
    (nextBuilds : ∀ value, Builds (next value) state) : Builds (first >>= next) state := by
  intro built same
  obtain ⟨value,-,returned⟩ := Checked.bind_eq_ok same
  exact nextBuilds value built returned

theorem Builds.map {α β : Type} {constructor : Except Panic α} {state : α} (change : α → β)
    (builds : Builds constructor state) : Builds (change <$> constructor) (change state) := by
  intro built same
  cases constructor with
  | error panic => cases same
  | ok found => exact (Except.ok.inj same).symm.trans (congrArg change (builds found rfl))

theorem createBloomFilter_builds (capacity : Nat) (fpr : kernel.Num) :
    Builds (build.createBloomFilter capacity fpr) (kernel.newBloom capacity fpr) :=
  .bind fun _ => .bind fun _ => .bind fun _ => builds_ok _

theorem bloomMember_builds (capacity : Nat) (fpr : F64) :
    Builds (BloomMemberStateWrap.create build capacity fpr) (.withParams capacity fpr) := by
  intro built same
  obtain ⟨inner,isInner,returned⟩ := Checked.bind_eq_ok same
  cases returned
  rw [createBloomFilter_builds _ _ inner isInner]
  rfl

theorem lifetime_builds (descriptor : AggOpDescriptor Expr) :
    Builds (LifetimeOp.create build descriptor) (.newLifetimeFull descriptor) := by
  unfold LifetimeOp.create LifetimeOp.newLifetimeFull
  cases descriptor.kind with
  | bloomMember => exact (bloomMember_builds _ _).map _
  | countDistinct | percentile | lastN | lag | timeSinceLastN | histogram | dowHourHistogram
  | eventTypeMix | mostRecentN | reservoirSample | distanceFromHome =>
      exact Builds.map _ (.bind fun _ => builds_ok _)
  | _ => exact builds_ok _

theorem create_builds (descriptor : AggOpDescriptor Expr) :
    Builds (AggOp.create build descriptor) (AggOp.new descriptor) := by
  unfold AggOp.create AggOp.new
  cases descriptor.windowMs with
  | none => exact (lifetime_builds descriptor).map _
  | some windowMs =>
      dsimp only
      split
      · exact builds_ok _
      · split
        · exact Builds.map _ (.bind fun _ => builds_ok _)
        · exact (lifetime_builds descriptor).map _

end Created

/-! ### When a state is there -/

section Limits

variable {kernel : Kernel} (build : Build kernel) {Expr : Type}
variable {descriptor : AggOpDescriptor Expr}
variable {fpr : F64}

structure ParamsChecked (descriptor : AggOpDescriptor Expr) : Prop where
  n : descriptor.kind.requiresN = true → descriptor.n.getD 1 ≤ 1024
  window : descriptor.kind = .bloomMember → descriptor.windowMs = none
  fpr : descriptor.kind = .bloomMember →
    ∀ fpr, descriptor.sketchParams.bind (·.bloomFpr) = some fpr → fpr.betweenZeroAndOne = true

def bloomSize (params : SketchParams) : Nat :=
  build.bloomBits (max (params.bloomCapacity.getD 1024) 1)
    (BloomMemberStateWrap.clampFpr (kernel.ofF64 (params.bloomFpr.getD ⟨0x3F847AE147AE147B⟩)))

/-- The limits on the parameters that are not checked. -/
def WithinLimits (descriptor : AggOpDescriptor Expr) : Prop :=
  match descriptor.kind with
  | .mostRecentN => ∀ n, descriptor.ext.n = some n → n * build.valueBytes ≤ isizeMax
  | .reservoirSample =>
      ∀ k, descriptor.ext.samples.or descriptor.ext.k = some k → k * build.valueBytes ≤ isizeMax
  | .distanceFromHome => ∀ samples, descriptor.ext.samples = some samples → samples < 2 ^ 59
  | .histogram => ∀ buckets, descriptor.ext.buckets = some buckets → buckets.length + 1 < 2 ^ 60
  | .eventTypeMix =>
      ∀ categories, descriptor.ext.categories = some categories →
        build.setBytes categories.length ≤ isizeMax
  | .bloomMember =>
      build.overflowChecks = true →
        bloomSize build (descriptor.sketchParams.getD ⟨none,none,none,none⟩) ≤ 2 ^ 64 - 64
  | _ => True

variable {build}

theorem fits_iff {count : Option Nat} {other bytes : Nat} (otherFits : other ≤ 1024)
    (bytesFit : bytes ≤ 2 ^ 32) :
    max (count.getD other) 1 * bytes ≤ isizeMax ↔
      ∀ given, count = some given → given * bytes ≤ isizeMax := by
  have few : ∀ {number : Nat}, number ≤ 1024 → number * bytes ≤ isizeMax := by
    intro number small
    exact Nat.le_trans (Nat.mul_le_mul small bytesFit) (by decide)
  cases count with
  | none =>
      refine iff_of_true (few ?_) (fun given never => by cases never)
      rw [Option.getD_none]
      omega
  | some given =>
      rw [Option.getD_some]
      constructor
      · intro fits found isGiven
        cases isGiven
        exact Nat.le_trans (Nat.mul_le_mul_right bytes (Nat.le_max_left given 1)) fits
      · intro fits
        rcases Nat.le_total 1 given with some | none
        · rw [Nat.max_eq_left some]
          exact fits given rfl
        · rw [Nat.max_eq_right none]
          exact few (by decide)

theorem orderKey_of_between (between : fpr.betweenZeroAndOne = true) :
    fpr.isNaN = false ∧ 0 < fpr.orderKey ∧ fpr.orderKey < 0x3FF0000000000000 := by
  rw [F64.betweenZeroAndOne,Bool.and_eq_true,decide_eq_true_eq,decide_eq_true_eq,
    UInt64.lt_iff_toNat_lt,UInt64.lt_iff_toNat_lt] at between
  obtain ⟨above,below⟩ := between
  change 0 < fpr.bits.toNat at above
  change fpr.bits.toNat < 0x3FF0000000000000 at below
  have noSign : (fpr.bits &&& 0x7FFFFFFFFFFFFFFF).toNat = fpr.bits.toNat := by
    rw [UInt64.toNat_and]
    exact Nat.and_two_pow_sub_one_of_lt_two_pow (n := 63) (by omega)
  refine ⟨?_,?_⟩
  · rw [F64.isNaN,decide_eq_false_iff_not,UInt64.lt_iff_toNat_lt,noSign]
    change ¬ 0x7FF0000000000000 < fpr.bits.toNat
    omega
  · have positive : ¬ 0x8000000000000000 ≤ fpr.bits := by
      rw [UInt64.le_iff_toNat_le]
      change ¬ 0x8000000000000000 ≤ fpr.bits.toNat
      omega
    rw [F64.orderKey,if_neg positive]
    omega

theorem clampFpr_between (build : Build kernel) (between : fpr.betweenZeroAndOne = true) :
    kernel.lt (kernel.ofF64 .zero) (BloomMemberStateWrap.clampFpr (kernel.ofF64 fpr)) = true ∧
      kernel.lt (BloomMemberStateWrap.clampFpr (kernel.ofF64 fpr))
        (kernel.ofF64 ⟨0x3FF0000000000000⟩) = true := by
  obtain ⟨notNaN,positive,belowOne⟩ := orderKey_of_between between
  have within : ∀ {number : F64}, number.isNaN = false → 0 < number.orderKey →
      number.orderKey < 0x3FF0000000000000 →
        kernel.lt (kernel.ofF64 .zero) (kernel.ofF64 number) = true ∧
          kernel.lt (kernel.ofF64 number) (kernel.ofF64 ⟨0x3FF0000000000000⟩) = true := by
    intro number isNumber low high
    exact ⟨(build.less (by decide) isNumber).mpr low,(build.less isNumber (by decide)).mpr high⟩
  unfold BloomMemberStateWrap.clampFpr
  dsimp only
  split
  · exact within (by decide) (by decide) (by decide)
  · split
    · exact within (by decide) (by decide) (by decide)
    · exact within notNaN positive belowOne

theorem createBloomFilter_returns_iff {capacity : Nat} {fpr : kernel.Num} (some : 0 < capacity)
    (low : kernel.lt (kernel.ofF64 .zero) fpr = true)
    (high : kernel.lt fpr (kernel.ofF64 ⟨0x3FF0000000000000⟩) = true) :
    Returns (build.createBloomFilter capacity fpr) ↔
      (build.overflowChecks = true → build.bloomBits capacity fpr ≤ 2 ^ 64 - 64) := by
  have size : build.bloomBits capacity fpr < 2 ^ 64 := build.toUsize_lt _
  have small : (build.bloomBits capacity fpr + 63) / 64 * 8 ≤ isizeMax := by
    unfold isizeMax
    omega
  have holds : (decide (0 < capacity) && kernel.lt (kernel.ofF64 .zero) fpr &&
      kernel.lt fpr (kernel.ofF64 ⟨0x3FF0000000000000⟩)) = true := by
    rw [decide_eq_true some,low,high]
    rfl
  refine returns_assertion.trans ((and_iff_right holds).trans ?_)
  have made : ∀ _bitCount : Nat,
      Returns (reserve ((build.bloomBits capacity fpr + 63) / 64) 8 >>= fun _ =>
        (.ok (kernel.newBloom capacity fpr) : Except Panic kernel.Bloom)) :=
    fun _ => returns_reserve.mpr ⟨small,returns_ok _⟩
  refine (build.returns_product made).trans ?_
  constructor
  · intro fits checked
    have words := fits checked
    omega
  · intro fits checked
    have bits := fits checked
    omega

theorem bloomMember_returns_iff (params : SketchParams)
    (checked : ∀ fpr, params.bloomFpr = some fpr → fpr.betweenZeroAndOne = true) :
    Returns (BloomMemberStateWrap.create build (params.bloomCapacity.getD 1024)
        (params.bloomFpr.getD ⟨0x3F847AE147AE147B⟩)) ↔
      (build.overflowChecks = true → bloomSize build params ≤ 2 ^ 64 - 64) := by
  have between : (params.bloomFpr.getD ⟨0x3F847AE147AE147B⟩).betweenZeroAndOne = true := by
    cases given : params.bloomFpr with
    | none => decide
    | some fpr => exact checked fpr given
  obtain ⟨low,high⟩ := clampFpr_between build between
  rw [bloomSize,← createBloomFilter_returns_iff (Nat.le_max_right _ 1) low high]
  exact returns_map

theorem histogram_returns_iff (buckets : Option (List F64)) :
    Returns (HistogramState.create ((buckets.getD []).map kernel.ofF64)) ↔
      ∀ given, buckets = some given → given.length + 1 < 2 ^ 60 := by
  refine returns_reserve.trans ((and_iff_left (returns_ok _)).trans ?_)
  rw [List.length_map]
  cases buckets with
  | none =>
      refine iff_of_true ?_ (fun given never => by cases never)
      decide
  | some given =>
      rw [Option.getD_some]
      unfold isizeMax
      constructor
      · intro fits found isGiven
        cases isGiven
        omega
      · intro few
        have count := few given rfl
        omega

theorem eventTypeMix_returns_iff (maxCategories : Nat) (allowed : Option (List String)) :
    Returns (EventTypeMixState.create build maxCategories allowed) ↔
      ∀ categories, allowed = some categories → build.setBytes categories.length ≤ isizeMax := by
  refine returns_reserve.trans ((and_iff_left (returns_ok _)).trans ?_)
  rw [Nat.mul_one]
  cases allowed with
  | none => exact iff_of_true (Nat.zero_le _) (fun categories never => by cases never)
  | some categories =>
      constructor
      · intro fits found isGiven
        cases isGiven
        exact fits
      · intro fits
        exact fits categories rfl

theorem distanceFromHome_returns_iff (latField lonField : String) (samples : Option Nat) :
    Returns (DistanceFromHomeState.create latField lonField (samples.getD 100) :
        Except Panic (DistanceFromHomeState kernel)) ↔
      ∀ given, samples = some given → given < 2 ^ 59 := by
  refine returns_reserve.trans ((and_iff_left (returns_ok _)).trans ?_)
  rw [fits_iff (by decide) (by decide)]
  apply forall₂_congr
  intro given _
  unfold isizeMax
  omega

theorem fits_of_checked {n bytes : Nat} (few : n ≤ 1024) (bytesFit : bytes ≤ 2 ^ 32) :
    (n + 1) * bytes ≤ isizeMax :=
  Nat.le_trans (Nat.mul_le_mul (Nat.succ_le_succ few) bytesFit) (by decide)

theorem lifetime_returns_iff (checked : ParamsChecked descriptor) :
    Returns (LifetimeOp.create build descriptor) ↔ WithinLimits build descriptor := by
  obtain ⟨nChecked,-,fprChecked⟩ := checked
  unfold LifetimeOp.create WithinLimits
  cases kindEq : descriptor.kind with
  | countDistinct | percentile | dowHourHistogram =>
      exact iff_of_true (returns_map.mpr (returns_reserve.mpr ⟨by decide,returns_ok _⟩)) trivial
  | timeSinceLastN =>
      refine iff_of_true (returns_map.mpr (returns_reserve.mpr ⟨?_,returns_ok _⟩)) trivial
      have fits := fits_of_checked (nChecked (kindEq ▸ rfl)) (show 8 ≤ 2 ^ 32 by decide)
      exact Nat.le_trans (Nat.mul_le_mul_right 8 (Nat.le_succ _)) fits
  | lastN =>
      refine iff_of_true (returns_map.mpr (returns_reserve.mpr ⟨?_,returns_ok _⟩)) trivial
      have fits := fits_of_checked (nChecked (kindEq ▸ rfl)) build.valueBytes_le
      exact Nat.le_trans (Nat.mul_le_mul_right _ (Nat.le_succ _)) fits
  | lag =>
      refine iff_of_true (returns_map.mpr (returns_reserve.mpr ⟨?_,returns_ok _⟩)) trivial
      exact fits_of_checked (nChecked (kindEq ▸ rfl)) build.valueBytes_le
  | mostRecentN =>
      refine returns_map.trans (returns_reserve.trans ((and_iff_left (returns_ok _)).trans ?_))
      exact fits_iff (by decide) build.valueBytes_le
  | reservoirSample =>
      refine returns_map.trans (returns_reserve.trans ((and_iff_left (returns_ok _)).trans ?_))
      exact fits_iff (by decide) build.valueBytes_le
  | distanceFromHome => exact returns_map.trans (distanceFromHome_returns_iff _ _ _)
  | histogram => exact returns_map.trans (histogram_returns_iff _)
  | eventTypeMix => exact returns_map.trans (eventTypeMix_returns_iff _ _)
  | bloomMember =>
      refine returns_map.trans (bloomMember_returns_iff _ ?_)
      intro fpr given
      apply fprChecked kindEq
      cases params : descriptor.sketchParams with
      | none =>
          rw [params] at given
          cases given
      | some found =>
          rw [params] at given
          exact given
  | _ => exact iff_of_true (returns_ok _) trivial

theorem withinLimits_of_wraps (wraps : supportsWindowedWrap descriptor.kind = true) :
    WithinLimits build descriptor := by
  unfold WithinLimits
  revert wraps
  cases descriptor.kind with
  | mostRecentN | reservoirSample | distanceFromHome | histogram | eventTypeMix | bloomMember =>
      intro wraps
      cases wraps
  | _ =>
      intro _
      trivial

/-- With the checks of the registration, a state is there exactly when the parameters
that are not checked are within their limits. -/
theorem create_returns_iff (checked : ParamsChecked descriptor) :
    Returns (AggOp.create build descriptor) ↔ WithinLimits build descriptor := by
  unfold AggOp.create
  cases windowEq : descriptor.windowMs with
  | none => exact returns_map.trans (lifetime_returns_iff checked)
  | some windowMs =>
      dsimp only
      split
      · rename_i isFirstSeen
        refine iff_of_true (returns_ok _) ?_
        rw [WithinLimits,isFirstSeen]
        trivial
      · split
        · rename_i wraps
          refine iff_of_true (returns_map.mpr (returns_assertion.mpr ⟨?_,returns_ok _⟩)) ?_
          · rw [decide_eq_true_eq]
            intro isBloom
            rw [isBloom] at wraps
            cases wraps
          · exact withinLimits_of_wraps wraps
        · exact returns_map.trans (lifetime_returns_iff checked)

end Limits

end Beava.Agg
