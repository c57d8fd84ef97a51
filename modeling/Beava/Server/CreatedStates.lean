/-
The states of registered features.

Registration checks some of the parameters a constructor reserves room by: the number
of values of the kinds that need one, the rate of a Bloom filter.  The sizes of
buffers and samples are taken as they come, and the first event of an entity panics
when they are beyond what an allocation can name.
-/

import Beava.Agg.Creation
import Beava.Agg.Histogram
import Beava.Server.Fed

namespace Beava.Server

open Beava.Core Beava.Registry Beava.Agg

variable {Expr : Type} {env : Env Expr}
variable {kind : AggKind} {params : AggParams}
variable {path : String} {result : Unit}

theorem checkN_ok {op : String} (ok : checkN path op kind params = .ok result)
    (requires : kind.requiresN = true) : params.n.getD 1 ≤ 1024 := by
  unfold checkN at ok
  rw [if_pos requires] at ok
  cases isN : params.n with
  | none =>
      rw [isN] at ok
      cases ok
  | some n =>
      rw [isN] at ok
      have bounds := require_ok ok
      rw [Bool.and_eq_true,decide_eq_true_eq,decide_eq_true_eq] at bounds
      exact bounds.2

theorem checkSketch_ok (ok : checkSketch env path kind params = .ok result) :
    sketchErrors env path kind params = [] := by
  unfold checkSketch at ok
  split at ok
  · rename_i noErrors
    exact noErrors
  · cases ok

theorem bloomMember_checked (noErrors : sketchErrors env path .bloomMember params = []) :
    params.window = none ∧
      ∀ fpr, params.sketchParams.bind (·.bloomFpr) = some fpr → fpr.betweenZeroAndOne = true := by
  unfold sketchErrors at noErrors
  obtain ⟨noWindow,noRate⟩ := List.append_eq_nil_iff.mp noErrors
  constructor
  · cases window : params.window with
    | none => rfl
    | some text =>
        rw [window,Option.isSome_some,if_pos rfl] at noWindow
        cases noWindow
  · intro fpr isRate
    simp only [isRate] at noRate
    by_contra outside
    rw [if_neg outside] at noRate
    cases noRate

theorem parseWindow_none {op : String} {windowMs : Option Nat}
    (ok : parseWindow path op kind params = .ok windowMs) (noWindow : params.window = none) :
    windowMs = none := by
  unfold parseWindow at ok
  rw [noWindow] at ok
  exact (Except.ok.inj ok).symm

theorem compileFeature_checked {schema : Schema} {nodeIdx opIdx : Nat} {keys : List String}
    {featureName : String} {spec : AggSpec} {feature : NamedAggOp Expr}
    (ok : compileFeature env schema nodeIdx opIdx keys featureName spec = .ok feature) :
    ParamsChecked feature.descriptor := by
  unfold compileFeature at ok
  obtain ⟨kind,-,ok⟩ := Checked.bind_eq_ok ok
  obtain ⟨_,-,ok⟩ := Checked.bind_eq_ok ok
  obtain ⟨_,-,ok⟩ := Checked.bind_eq_ok ok
  obtain ⟨_,-,ok⟩ := Checked.bind_eq_ok ok
  obtain ⟨_,-,ok⟩ := Checked.bind_eq_ok ok
  obtain ⟨_,nOk,ok⟩ := Checked.bind_eq_ok ok
  obtain ⟨_,-,ok⟩ := Checked.bind_eq_ok ok
  obtain ⟨_,-,ok⟩ := Checked.bind_eq_ok ok
  obtain ⟨_,sketchOk,ok⟩ := Checked.bind_eq_ok ok
  obtain ⟨windowMs,windowOk,ok⟩ := Checked.bind_eq_ok ok
  obtain ⟨whereExpr,-,ok⟩ := Checked.bind_eq_ok ok
  cases ok
  have noErrors := checkSketch_ok sketchOk
  constructor
  · intro requires
    exact checkN_ok nOk requires
  · intro isBloom
    change kind = .bloomMember at isBloom
    subst isBloom
    exact parseWindow_none windowOk (bloomMember_checked noErrors).1
  · intro isBloom
    change kind = .bloomMember at isBloom
    subst isBloom
    exact (bloomMember_checked noErrors).2

section Created

variable {payload : List PayloadNode} {current : RegistryInner Expr}
  {propagated : List (String × Schema)}
variable {agg : AggregationDescriptor Expr}
variable {feature : NamedAggOp Expr}

theorem compileGroupBy_features {nodeIdx opIdx : Nat} {derivation : DerivationDescriptor}
    {keys : List String} {specs : StrMap AggSpec}
    (compiled : (compileGroupBy env payload current propagated nodeIdx derivation opIdx keys
      specs).2 = some agg) (member : feature ∈ agg.features) :
    ∃ schema, feature ∈ (compileFeatures env schema nodeIdx opIdx keys specs.toList).2 := by
  unfold compileGroupBy at compiled
  split at compiled
  · cases compiled
  · split at compiled
    · cases compiled
    · simp only at compiled
      split at compiled
      · cases compiled
      · split at compiled
        · cases compiled
          exact ⟨_,member⟩
        · cases compiled

theorem compiled_checked {name : String}
    (compiled : (name,agg) ∈ (compileAggregationsFromNodes env payload current propagated).1)
    (member : feature ∈ agg.features) : ParamsChecked feature.descriptor := by
  obtain ⟨derivation,opIdx,compiledAt⟩ := mem_compileAggregations compiled
  obtain ⟨nodeIdx,keys,specs,-,isCompiled⟩ := compiledAt.compiled
  obtain ⟨schema,inFeatures⟩ := compileGroupBy_features isCompiled member
  obtain ⟨entry,-,ok⟩ := compileFeatures_mem inFeatures
  exact compileFeature_checked ok

end Created

/-- The constructor of a compiled feature returns, with the state the apply loop
starts from, exactly when the parameters that are not checked are within the limits. -/
theorem registered_created_iff {kernel : Kernel} (build : Build kernel) (env : Env Expr)
    (payload : List PayloadNode) (current : RegistryInner Expr)
    (propagated : List (String × Schema))
    (name : String) (agg : AggregationDescriptor Expr)
    (compiled : (name,agg) ∈ (compileAggregationsFromNodes env payload current propagated).1)
    (feature : NamedAggOp Expr) (member : feature ∈ agg.features) :
    AggOp.create build feature.descriptor = .ok (AggOp.new feature.descriptor) ↔
      WithinLimits build feature.descriptor := by
  rw [← create_returns_iff (compiled_checked compiled member)]
  constructor
  · intro returned
    exact ⟨_,returned⟩
  · rintro ⟨state,returned⟩
    rw [returned,create_builds feature.descriptor state returned]

def sampleBuild : Build binaryKernel where
  overflowChecks := true
  valueBytes := 32
  setBytes count := 25 * (2 * count + 16)
  ln number := number
  ceil number := number
  toUsize number := min (number.signedUnits / 2 ^ 1074).toNat (2 ^ 64 - 1)
  valueBytes_le := by decide
  toUsize_lt number := by omega
  less := by
    intro first second _ _
    exact decide_eq_true_iff

/-- A table that keeps the last `n` values of `x`. -/
def recentTable (n : UInt64) : PayloadNode :=
  .derivation
    { name := "T"
      outputKind := .table
      upstreams := ["E"]
      ops := [.groupBy ["k"] (.ofList [("recent",AggSpec.mk "most_recent_n"
        (.object [("field",.string "x"),("n",.number (.posInt n))]))])]
      schema := ⟨.ofList [("k",FieldType.str),("recent",FieldType.json)],[]⟩
      tablePrimaryKey := some ["k"]
      registeredAtVersion := 0 }

def recentPayload (n : UInt64) : List PayloadNode := [sampleEvent "E",recentTable n]

def compiledFrom (payload : List PayloadNode) :
    List (String × AggregationDescriptor Empty) × List ValidationError :=
  compileAggregationsFromNodes sampleEnv payload .empty []

def keptNumbers (payload : List PayloadNode) : List (AggKind × Option Nat × Option Nat) :=
  (compiledFrom payload).1.flatMap fun entry => entry.2.features.map fun feature =>
    (feature.descriptor.kind,feature.descriptor.windowMs,feature.descriptor.ext.n)

theorem exists_of_keptNumbers {payload : List PayloadNode} {windowMs n : Option Nat}
    (found : (kind,windowMs,n) ∈ keptNumbers payload) :
    ∃ name agg feature, (name,agg) ∈ (compiledFrom payload).1 ∧ feature ∈ agg.features ∧
      feature.descriptor.kind = kind ∧ feature.descriptor.ext.n = n := by
  obtain ⟨⟨name,agg⟩,compiled,inAgg⟩ := List.mem_flatMap.mp found
  obtain ⟨feature,member,same⟩ := List.mem_map.mp inAgg
  cases same
  exact ⟨name,agg,feature,compiled,member,rfl,rfl⟩

theorem registered_created_iff_five :
    ∃ name agg feature, (name,agg) ∈ (compiledFrom (recentPayload 5)).1 ∧
      feature ∈ agg.features ∧
      (AggOp.create sampleBuild feature.descriptor = .ok (AggOp.new feature.descriptor) ↔
        WithinLimits sampleBuild feature.descriptor) := by
  have kept : (.mostRecentN,none,some 5) ∈ keptNumbers (recentPayload 5) := by decide
  obtain ⟨name,agg,feature,compiled,member,-,-⟩ := exists_of_keptNumbers kept
  exact ⟨name,agg,feature,compiled,member,
    registered_created_iff sampleBuild sampleEnv (recentPayload 5) .empty [] name agg compiled
      feature member⟩

/-- A buffer for 2 ^ 63 values is registered, and the first event panics. -/
theorem largest_buffer_panics :
    (compiledFrom (recentPayload 9223372036854775808)).2 = [] ∧
      ∃ name agg feature,
        (name,agg) ∈ (compiledFrom (recentPayload 9223372036854775808)).1 ∧
          feature ∈ agg.features ∧ ¬ Returns (AggOp.create sampleBuild feature.descriptor) := by
  have kept : (.mostRecentN,none,some 9223372036854775808) ∈
      keptNumbers (recentPayload 9223372036854775808) := by decide
  obtain ⟨name,agg,feature,compiled,member,isRecent,isLarge⟩ := exists_of_keptNumbers kept
  refine ⟨by decide,name,agg,feature,compiled,member,?_⟩
  rw [create_returns_iff (compiled_checked compiled member),WithinLimits,isRecent]
  intro limit
  exact absurd (limit _ isLarge) (by decide)

end Beava.Server
