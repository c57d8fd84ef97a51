/-
The same payload judged against two registries.

Validation reads the registry in a few places only: the schema of an upstream
that the payload does not declare, the kind of a `group_by` source, the owner
of a feature name, and the graph of the derivations.
-/

import Beava.Registry.Cycles
import Beava.Registry.InEffect

namespace Beava.Registry

open Beava.Core

variable {Expr : Type} (env : Env Expr)
variable {payload : List PayloadNode}

/-- The rules that do not read the registry. -/
def PayloadRules (payload : List PayloadNode) : Prop :=
  validateUniquenessWithinPayload payload = [] ∧
    payload.zipIdx.flatMap (fun entry => validateNode entry.2 entry.1) = [] ∧
    validateTopologicalOrder payload = []

theorem validates_iff {current : RegistryInner Expr} (notEmpty : payload ≠ []) :
    Validates env current payload ↔
      PayloadRules payload ∧
        (∀ derivation, .derivation derivation ∈ payload →
          UpstreamsKnown payload current derivation) ∧
        (∀ name, ¬ OnCycle (overlayGraph payload current) name) ∧
        (validateExpressions env payload current).errors = [] ∧
        (compileAggregationsFromNodes env payload current
          (validateExpressions env payload current).propagatedSchemas).2 = [] := by
  rw [← validateUpstreams_nil_iff,← validateAcyclicity_nil_iff]
  constructor
  · rintro ⟨validated,ok⟩
    have accepted := validatePayload_ok env notEmpty ok
    obtain ⟨⟨⟨⟨unique,nodes⟩,upstreams⟩,ordered⟩,acyclic⟩ := accepted.rules
    exact ⟨⟨unique,nodes,ordered⟩,upstreams,acyclic,accepted.expressions,
      accepted.aggregations⟩
  · rintro ⟨⟨unique,nodes,ordered⟩,upstreams,acyclic,expressions,aggregations⟩
    refine ⟨_,validatePayload_of_accepted env notEmpty ⟨?_,expressions,aggregations,rfl⟩⟩
    simp only [structuralErrors,unique,nodes,upstreams,ordered,acyclic,List.append_nil]

structure ReadAlike (payload : List PayloadNode) (first second : RegistryInner Expr)
    (upstream : String) : Prop where
  schema : resolveUpstreamSchema upstream payload first =
    resolveUpstreamSchema upstream payload second
  bare : ∀ propagated, resolveBareUpstreamSchema upstream payload first propagated =
    resolveBareUpstreamSchema upstream payload second propagated
  isEvent : isEventUpstream upstream payload first = isEventUpstream upstream payload second

section Alike

variable {payload : List PayloadNode} {first second : RegistryInner Expr}
variable {upstream : String}

theorem readAlike_of_declared (declared : upstream ∈ payload.map PayloadNode.name) :
    ReadAlike payload first second upstream := by
  obtain ⟨node,found⟩ : ∃ node, payload.find? (fun node => node.name = upstream) = some node := by
    rw [← Option.isSome_iff_exists,List.find?_isSome]
    obtain ⟨node,member,isName⟩ := List.mem_map.mp declared
    exact ⟨node,member,decide_eq_true isName⟩
  constructor
  · simp only [resolveUpstreamSchema,found]
  · intro propagated
    cases node <;> simp only [resolveBareUpstreamSchema,found]
  · cases node <;> simp only [isEventUpstream,found]

theorem readAlike_of_same (events : first.events[upstream]? = second.events[upstream]?)
    (tables : first.tables[upstream]? = second.tables[upstream]?)
    (derivations : first.derivations[upstream]? = second.derivations[upstream]?) :
    ReadAlike payload first second upstream := by
  have sameSchema : first.schemaOf upstream = second.schemaOf upstream := by
    rw [RegistryInner.schemaOf,RegistryInner.schemaOf,events,tables,derivations]
  constructor
  · simp only [resolveUpstreamSchema,sameSchema]
  · intro propagated
    simp only [resolveBareUpstreamSchema,sameSchema]
  · simp only [isEventUpstream,Std.ExtTreeMap.contains_eq_isSome_getElem?,events]

variable (alike : ∀ derivation, .derivation derivation ∈ payload →
  ∀ upstream ∈ derivation.upstreams, ReadAlike payload first second upstream)

include alike

theorem validateExpressions_congr :
    validateExpressions env payload first = validateExpressions env payload second := by
  refine List.foldl_ext _ _ _ fun state entry member => ?_
  obtain ⟨node,nodeIdx⟩ := entry
  cases node with
  | derivation derivation =>
      have sameSchemas : upstreamSchemas payload first state.inBatch derivation =
          upstreamSchemas payload second state.inBatch derivation := by
        refine List.filterMap_congr fun upstream isUpstream => ?_
        rw [(alike derivation (List.fst_mem_of_mem_zipIdx member) upstream isUpstream).schema]
      simp only [validateDerivationExpressions,sameSchemas]
  | _ => rfl

end Alike

/-- No `group_by` reads a table. -/
def SourcesNotTables (payload : List PayloadNode) (current : RegistryInner Expr) : Prop :=
  ∀ derivation, .derivation derivation ∈ payload → derivation.hasGroupBy = true →
    ∀ upstream, derivation.upstreams.head? = some upstream →
      upstreamIsTable upstream payload current = false

section Sources

variable {env} {payload : List PayloadNode} {propagated : List (String × Schema)}

theorem sourcesNotTables_of_noErrors {current : RegistryInner Expr}
    (noErrors : (payload.zipIdx.filterMap
      (compiledOf env payload current propagated)).flatMap Prod.fst = []) :
    SourcesNotTables payload current := by
  intro derivation member hasGroupBy upstream isSource
  obtain ⟨position,atPosition⟩ := List.getElem?_of_mem member
  have derivationErrors : (compileDerivation env payload current propagated position
      derivation).1 = [] :=
    List.flatMap_eq_nil_iff.mp noErrors _ (List.mem_filterMap.mpr
      ⟨_,List.mk_mem_zipIdx_iff_getElem?.mpr atPosition,rfl⟩)
  obtain ⟨op,isOp,isGroupBy⟩ := List.any_eq_true.mp hasGroupBy
  obtain ⟨opIdx,atOp⟩ := List.getElem?_of_mem isOp
  cases op with
  | groupBy keys specs =>
      have groupByErrors : (compileGroupBy env payload current propagated position derivation opIdx
          keys specs).1 = [] :=
        List.flatMap_eq_nil_iff.mp derivationErrors _ (List.mem_filterMap.mpr
          ⟨_,List.mk_mem_zipIdx_iff_getElem?.mpr atOp,rfl⟩)
      by_contra isTable
      rw [Bool.not_eq_false] at isTable
      simp only [compileGroupBy,isSource,isTable,if_true] at groupByErrors
      cases groupByErrors
  | _ => cases isGroupBy

variable {first second : RegistryInner Expr}
  (alike : ∀ derivation, .derivation derivation ∈ payload →
    ∀ upstream ∈ derivation.upstreams, ReadAlike payload first second upstream)
  (firstSources : SourcesNotTables payload first) (secondSources : SourcesNotTables payload second)

include alike firstSources secondSources

theorem compileGroupBy_congr {derivation : DerivationDescriptor}
    (member : .derivation derivation ∈ payload) (hasGroupBy : derivation.hasGroupBy = true)
    (nodeIdx opIdx : Nat) (keys : List String) (specs : StrMap AggSpec) :
    compileGroupBy env payload first propagated nodeIdx derivation opIdx keys specs =
      compileGroupBy env payload second propagated nodeIdx derivation opIdx keys specs := by
  unfold compileGroupBy
  cases isSource : derivation.upstreams.head? with
  | none => rfl
  | some upstream =>
      have read := alike derivation member upstream (List.mem_of_mem_head? isSource)
      have sameSchema : ∀ prefixOps, groupBySchema env payload first propagated upstream
          prefixOps = groupBySchema env payload second propagated upstream prefixOps := by
        intro prefixOps
        simp only [groupBySchema,resolveUpstreamSchemaForAgg,read.bare,read.isEvent]
      simp only [firstSources derivation member hasGroupBy upstream isSource,
        secondSources derivation member hasGroupBy upstream isSource,sameSchema]

theorem compiledOf_congr {entry : PayloadNode × Nat} (member : entry ∈ payload.zipIdx) :
    compiledOf env payload first propagated entry =
      compiledOf env payload second propagated entry := by
  obtain ⟨node,nodeIdx⟩ := entry
  have inPayload := List.fst_mem_of_mem_zipIdx member
  cases node with
  | derivation derivation =>
      simp only [compiledOf,compileDerivation]
      rw [List.filterMap_congr]
      rintro ⟨op,opIdx⟩ opMember
      cases op with
      | groupBy keys specs =>
          have hasGroupBy : derivation.hasGroupBy = true :=
            List.any_eq_true.mpr ⟨_,List.fst_mem_of_mem_zipIdx opMember,rfl⟩
          exact congrArg some (compileGroupBy_congr alike firstSources secondSources inPayload
            hasGroupBy nodeIdx opIdx keys specs)
      | _ => rfl
  | _ => rfl

end Sources

variable {env} in
theorem compiledNodes_congr {propagated : List (String × Schema)}
    {first second : RegistryInner Expr}
    (alike : ∀ derivation, .derivation derivation ∈ payload →
      ∀ upstream ∈ derivation.upstreams, ReadAlike payload first second upstream)
    (firstSources : SourcesNotTables payload first)
    (secondSources : SourcesNotTables payload second) :
    payload.zipIdx.filterMap (compiledOf env payload first propagated) =
      payload.zipIdx.filterMap (compiledOf env payload second propagated) :=
  List.filterMap_congr fun _ member => compiledOf_congr alike firstSources secondSources member

def payloadAggregations (current : RegistryInner Expr) (payload : List PayloadNode) :
    List (String × AggregationDescriptor Expr) :=
  (compileAggregationsFromNodes env payload current
    (validateExpressions env payload current).propagatedSchemas).1

end Beava.Registry
