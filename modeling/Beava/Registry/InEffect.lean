/-
The `group_by` that is in effect for a derivation.

A `group_by` is compiled when the operators before it make a schema out of the
schema of the first upstream; otherwise it is skipped without an error.  Every
`group_by` that is compiled takes the place of the one before it, so the last one
is in effect.
-/

import Beava.Registry.Contents

namespace Beava.Registry

open Beava.Core Beava.Apply

variable {Expr : Type} (env : Env Expr)
variable {payload : List PayloadNode} {current : RegistryInner Expr}
variable {propagated : List (String × Schema)}

section Resolved

variable (payload : List PayloadNode) (current : RegistryInner Expr)
  (propagated : List (String × Schema)) (derivation : DerivationDescriptor)

/-- The schema the operator at `opIdx` reads, if it is a `group_by`. -/
def groupBySchemaAt (opIdx : Nat) : Option Schema :=
  derivation.upstreams.head?.bind fun upstream =>
    groupBySchema env payload current propagated upstream
      ((derivation.ops.take opIdx).filter fun op => !op.isGroupBy)

/-- The `group_by`s of the derivation that are not skipped, in order. -/
def resolvedGroupBys : List (List String × StrMap AggSpec) :=
  derivation.ops.zipIdx.filterMap fun entry =>
    match entry.1 with
    | .groupBy keys specs =>
        (groupBySchemaAt env payload current propagated derivation entry.2).map fun _ =>
          (keys,specs)
    | _ => none

def declaredAgg (groupBy : List String × StrMap AggSpec) : AggregationDescriptor Expr :=
  { nodeName := derivation.name
    sourceNodeName := derivation.upstreams.head?.getD ""
    groupKeys := groupBy.1
    features := groupBy.2.toList.filterMap (featureOfSpec env)
    aggId := 0
    fieldNames := []
    clusterId := 0 }

variable {env payload current propagated derivation}

theorem filterMap_eq_of_map {α β : Type} {f : α → Option β} {items : List α} {values : List β}
    (all : items.map f = values.map some) : items.filterMap f = values := by
  have unwrapped := congrArg (List.filterMap id) all
  rw [List.filterMap_map,List.filterMap_map,Function.id_comp,Function.id_comp,
    List.filterMap_some] at unwrapped
  exact unwrapped

theorem aggCore_declaredAgg (groupBy : List String × StrMap AggSpec) :
    aggCore (declaredAgg env derivation groupBy) = declaredAgg env derivation groupBy := by
  have fresh : (groupBy.2.toList.filterMap (featureOfSpec env)).map declaredFeature =
      groupBy.2.toList.filterMap (featureOfSpec env) := by
    refine (List.map_congr_left fun feature member => ?_).trans (List.map_id _)
    obtain ⟨entry,-,compiled⟩ := List.mem_filterMap.mp member
    exact featureOfSpec_fresh env compiled
  rw [aggCore,declaredAgg]
  simp only [fresh]

theorem compileGroupBy_noErrors {nodeIdx opIdx : Nat} {keys : List String}
    {specs : StrMap AggSpec}
    (noErrors : (compileGroupBy env payload current propagated nodeIdx derivation opIdx keys
      specs).1 = []) :
    (compileGroupBy env payload current propagated nodeIdx derivation opIdx keys specs).2 =
      (groupBySchemaAt env payload current propagated derivation opIdx).map fun _ =>
        declaredAgg env derivation (keys,specs) := by
  unfold compileGroupBy at noErrors ⊢
  unfold groupBySchemaAt declaredAgg
  cases hasUpstream : derivation.upstreams.head? with
  | none =>
      rw [hasUpstream] at noErrors
      cases noErrors
  | some upstream =>
      rw [hasUpstream] at noErrors
      simp only [Option.bind_some,Option.getD_some] at noErrors ⊢
      split at noErrors
      · cases noErrors
      · rename_i notTable
        rw [if_neg notTable]
        cases schemaEq : groupBySchema env payload current propagated upstream
            ((derivation.ops.take opIdx).filter fun op => !op.isGroupBy) with
        | none => rfl
        | some schema =>
            rw [schemaEq] at noErrors
            simp only at noErrors ⊢
            split at noErrors
            · rename_i isEmpty
              rw [if_pos isEmpty]
              rw [List.isEmpty_iff,List.append_eq_nil_iff] at isEmpty
              have features := filterMap_eq_of_map (compileFeatures_noErrors env isEmpty.2)
              rw [Option.map_some,← features]
            · rename_i hasErrors
              exact absurd (List.isEmpty_iff.mpr noErrors) hasErrors

theorem compileDerivation_noErrors {nodeIdx : Nat}
    (noErrors : (compileDerivation env payload current propagated nodeIdx derivation).1 = []) :
    (compileDerivation env payload current propagated nodeIdx derivation).2 =
      (resolvedGroupBys env payload current propagated derivation).map fun groupBy =>
        (derivation.name,declaredAgg env derivation groupBy) := by
  simp only [compileDerivation] at noErrors ⊢
  rw [List.flatMap_eq_nil_iff] at noErrors
  rw [resolvedGroupBys,List.map_filterMap,List.filterMap_filterMap]
  refine List.filterMap_congr fun entry member => ?_
  obtain ⟨op,opIdx⟩ := entry
  cases op with
  | groupBy keys specs =>
      have passed := noErrors _ (List.mem_filterMap.mpr ⟨_,member,rfl⟩)
      simp only [Option.bind_some,compileGroupBy_noErrors passed,Option.map_map]
      rfl
  | _ => rfl

end Resolved

def compiledOf (payload : List PayloadNode) (current : RegistryInner Expr)
    (propagated : List (String × Schema)) (entry : PayloadNode × Nat) :
    Option (List ValidationError × List (String × AggregationDescriptor Expr)) :=
  match entry.1 with
  | .derivation derivation =>
      some (compileDerivation env payload current propagated entry.2 derivation)
  | _ => none

variable {env}

theorem compiledOf_names {entries : List (PayloadNode × Nat)} {name : String}
    (otherNames : ∀ entry ∈ entries, entry.1.name ≠ name) :
    name ∉ ((entries.filterMap (compiledOf env payload current propagated)).flatMap
      Prod.snd).map Prod.fst := by
  intro inNames
  obtain ⟨pair,inCompiled,isName⟩ := List.mem_map.mp inNames
  obtain ⟨result,inResults,inResult⟩ := List.mem_flatMap.mp inCompiled
  obtain ⟨⟨node,nodeIdx⟩,inEntries,isResult⟩ := List.mem_filterMap.mp inResults
  cases node with
  | derivation derivation =>
      cases isResult
      obtain ⟨nameEq,-⟩ := mem_compileDerivation env inResult
      exact otherNames _ inEntries (nameEq.symm.trans isName)
  | _ => cases isResult

theorem compileAggregations_nil_iff
    :
    (compileAggregationsFromNodes env payload current propagated).2 = [] ↔
      (payload.zipIdx.filterMap (compiledOf env payload current propagated)).flatMap
          Prod.fst = [] ∧
        (newFeatures (compileAggregationsFromNodes env payload current propagated).1).errors = [] ∧
        FeaturesUnclaimed current
          (compileAggregationsFromNodes env payload current propagated).1 := by
  unfold compileAggregationsFromNodes
  simp only
  split
  · rename_i noErrors
    simp only [List.append_eq_nil_iff]
    constructor
    · rintro ⟨features,collisions⟩
      exact ⟨List.isEmpty_iff.mp noErrors,features,
        (registeredCollisions_nil_iff features).mp collisions⟩
    · rintro ⟨-,features,unclaimed⟩
      exact ⟨features,(registeredCollisions_nil_iff features).mpr unclaimed⟩
  · rename_i hasErrors
    constructor
    · intro noErrors
      exact absurd (List.isEmpty_iff.mpr noErrors) hasErrors
    · rintro ⟨noErrors,-⟩
      exact absurd (List.isEmpty_iff.mpr noErrors) hasErrors

theorem compileAggregations_fst
    :
    (compileAggregationsFromNodes env payload current propagated).1 =
      (payload.zipIdx.filterMap (compiledOf env payload current propagated)).flatMap Prod.snd := by
  unfold compileAggregationsFromNodes
  simp only
  split <;> rfl

section Batch

variable {registry : RegistryInner Expr} {nodes : List PayloadNode}
  {validated : ValidatedPayload Expr} (accepted : Accepted env registry nodes validated)

include accepted

theorem Accepted.compiled_eq :
    validated.compiledAggregations =
        (nodes.zipIdx.filterMap
          (compiledOf env nodes registry validated.propagatedSchemas)).flatMap Prod.snd ∧
      (nodes.zipIdx.filterMap
        (compiledOf env nodes registry validated.propagatedSchemas)).flatMap Prod.fst = [] := by
  rw [accepted.result]
  exact ⟨compileAggregations_fst,(compileAggregations_nil_iff.mp accepted.aggregations).1⟩

/-- The batch has, for a derivation, the last `group_by` that is not skipped. -/
theorem Accepted.batch_aggs {derivation : DerivationDescriptor}
    (member : .derivation derivation ∈ nodes) :
    (Batch.ofValidated registry validated).aggs[derivation.name]? =
      (resolvedGroupBys env nodes registry validated.propagatedSchemas
        derivation).getLast?.map (declaredAgg env derivation) := by
  obtain ⟨compiledEq,noErrors⟩ := accepted.compiled_eq
  have isMap : (Batch.ofValidated registry validated).aggs =
      KeyMap.insertAll ∅ validated.compiledAggregations := rfl
  obtain ⟨before,after,nodesEq⟩ := List.append_of_mem member
  have distinct := accepted.nodup
  rw [nodesEq,List.map_append,List.map_cons,List.nodup_append,List.nodup_cons] at distinct
  obtain ⟨-,⟨notAfter,-⟩,disjoint⟩ := distinct
  have zipEq : nodes.zipIdx = before.zipIdx ++ ((.derivation derivation,before.length) ::
      after.zipIdx (before.length + 1)) := by
    rw [nodesEq,List.zipIdx_append,List.zipIdx_cons,Nat.zero_add]
  have beforeNames : ∀ entry ∈ before.zipIdx, entry.1.name ≠ derivation.name := by
    intro entry inBefore same
    have inNames := List.mem_map_of_mem (f := PayloadNode.name)
      (List.fst_mem_of_mem_zipIdx inBefore)
    exact disjoint _ inNames _ List.mem_cons_self same
  have afterNames : ∀ entry ∈ after.zipIdx (before.length + 1),
      entry.1.name ≠ derivation.name := by
    intro entry inAfter same
    have inNames := List.mem_map_of_mem (f := PayloadNode.name)
      (List.fst_mem_of_mem_zipIdx inAfter)
    rw [same] at inNames
    exact notAfter inNames
  have hereErrors : (compileDerivation env nodes registry validated.propagatedSchemas before.length
      derivation).1 = [] := by
    refine List.flatMap_eq_nil_iff.mp noErrors _ (List.mem_filterMap.mpr
      ⟨(.derivation derivation,before.length),?_,rfl⟩)
    rw [zipEq]
    exact List.mem_append_right _ List.mem_cons_self
  have splitEq : validated.compiledAggregations =
      (before.zipIdx.filterMap
        (compiledOf env nodes registry validated.propagatedSchemas)).flatMap Prod.snd ++
      ((compileDerivation env nodes registry validated.propagatedSchemas before.length
        derivation).2 ++
      ((after.zipIdx (before.length + 1)).filterMap
        (compiledOf env nodes registry validated.propagatedSchemas)).flatMap Prod.snd) := by
    rw [compiledEq,zipEq,List.filterMap_append,List.flatMap_append]
    rfl
  have emptyBefore : (KeyMap.insertAll (∅ : StrMap (AggregationDescriptor Expr))
      ((before.zipIdx.filterMap (compiledOf env nodes registry
        validated.propagatedSchemas)).flatMap Prod.snd))[derivation.name]? = none := by
    rw [KeyMap.insertAll_of_notMem _ (compiledOf_names beforeNames)]
    simp
  rw [isMap,splitEq,KeyMap.insertAll_middle _ (compiledOf_names afterNames)
    (fun entry inHere => (mem_compileDerivation env inHere).1),emptyBefore,Option.or_none,
    compileDerivation_noErrors hereErrors,List.getLast?_map,Option.map_map]
  rfl

end Batch

end Beava.Registry
