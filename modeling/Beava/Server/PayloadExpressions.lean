/-
The expressions of an accepted payload.

Filters and columns are checked where the chain of their derivation is compiled, each
against the schema that the operators before it lead to.  The types of filters are
inferred and not looked at, and of a predicate only the fields are looked up; at run
time, whatever is not true drops the event.
-/

import Beava.Core.ExprCalls
import Beava.Server.Fed

namespace Beava.Server

open Beava.Core Beava.Registry

section

variable {Expr : Type} {env : Env Expr} {payload : List PayloadNode} {current : RegistryInner Expr}
variable {derivation : DerivationDescriptor}

theorem rowOps_propagate {state : Rule10 Expr} {nodeIdx : Nat}
    (hasSchemas : (upstreamSchemas payload current state.inBatch derivation).isEmpty = false)
    (hasRowOps : derivation.rowOps.isEmpty = false)
    (noErrors : (validateDerivationExpressions env payload current state nodeIdx
      derivation).errors = []) :
    (propagateFrom env 0 derivation.rowOps
      (unionSchemas (upstreamSchemas payload current state.inBatch derivation))).2 = [] := by
  have hasOps : derivation.ops.isEmpty = false := by
    rw [List.isEmpty_eq_false_iff] at hasRowOps ⊢
    intro noOps
    apply hasRowOps
    rw [DerivationDescriptor.rowOps,noOps,List.filter_nil]
  unfold validateDerivationExpressions at noErrors
  simp only [hasOps,hasSchemas,hasRowOps,Bool.false_eq_true,if_false] at noErrors
  split at noErrors
  · split at noErrors
    · rename_i chain final compiled
      exact (compile_eq_ok.mp compiled).1
    · rename_i failures failed
      exact absurd (List.append_eq_nil_iff.mp noErrors).2
        (compile_error_reported env (rowOps_isGroupBy derivation) failed nodeIdx)
  · rename_i noGroupBy
    rw [← rowOps_eq_ops (Bool.eq_false_iff.mpr noGroupBy)] at noErrors
    split at noErrors
    · rename_i chain final compiled
      exact (compile_eq_ok.mp compiled).1
    · rename_i failures failed
      exact absurd (List.append_eq_nil_iff.mp noErrors).2
        (compile_error_reported env (rowOps_isGroupBy derivation) failed nodeIdx)

variable (env payload current) in
def walkedBefore (position : Nat) : Rule10 Expr :=
  (payload.zipIdx.take position).foldl (walkNode env payload current) Rule10.start

theorem walked_noErrors {validated : ValidatedPayload Expr}
    (accepted : Accepted env current payload validated) {position : Nat}
    (atPosition : payload[position]? = some (.derivation derivation)) :
    (validateDerivationExpressions env payload current (walkedBefore env payload current position)
      position derivation).errors = [] := by
  have known : ∀ entry ∈ payload.zipIdx, ∀ other, entry.1 = .derivation other →
      UpstreamsKnown payload current other := by
    intro entry member other isDerivation
    exact accepted.upstreamsKnown (isDerivation ▸ List.fst_mem_of_mem_zipIdx member)
  have atEntry : payload.zipIdx[position]? = some (.derivation derivation,position) := by
    rw [List.getElem?_zipIdx,atPosition,Option.map_some,Nat.zero_add]
  obtain ⟨inBounds,isEntry⟩ := List.getElem?_eq_some_iff.mp atEntry
  have parts : payload.zipIdx = payload.zipIdx.take position ++
      (.derivation derivation,position) :: payload.zipIdx.drop (position + 1) := by
    rw [← isEntry,← List.drop_eq_getElem_cons inBounds,List.take_append_drop]
  have noErrors : (payload.zipIdx.foldl (walkNode env payload current) Rule10.start).errors = [] :=
    accepted.expressions
  rw [parts,List.foldl_append,List.foldl_cons] at noErrors
  exact (foldl_walkNode_chains (fun entry member => known entry (List.mem_of_mem_drop member))
    noErrors).1

end

section

variable (host : Host) (current : RegistryInner Expr) (payload : List PayloadNode)

/-- The schema that the operators before an index lead to, in the chain of the
derivation at a position. -/
def chainSchema (position : Nat) (derivation : DerivationDescriptor) (index : Nat) : Schema :=
  (propagateFrom host.env 0 (derivation.rowOps.take index)
    (unionSchemas (upstreamSchemas payload current
      (walkedBefore host.env payload current position).inBatch derivation))).1

structure ChainJudged (position : Nat) (derivation : DerivationDescriptor)
    (chain : OpChain Expr) : Prop where
  covered : ∀ row, ∀ call ∈ chainEvals host chain.ops row,
    ∃ (index : Nat) (op : CompiledOp Expr), chain.ops[index]? = some op ∧
      ∃ check ∈ op.checks host.env (chainSchema host current payload position derivation index),
        check.1 = call.1
  checked : ∀ (index : Nat) (op : CompiledOp Expr), chain.ops[index]? = some op →
    ∀ check ∈ op.checks host.env (chainSchema host current payload position derivation index),
      ExprJudged host check.2 check.1
  filters : ∀ (index : Nat) (ast : Expr), chain.ops[index]? = some (.filter ast) →
    FilterJudged host (chainSchema host current payload position derivation index) ast

/-- The fields of a predicate are in the schema that the `group_by` reads, and it
lets through the events on which it is true. -/
structure PredicateJudged (schema : Schema) (predicate : Expr) : Prop where
  declared : ∀ field ∈ predicate.referencedFields, field ∈ schema.fields
  passes : ∀ row, whereStopping host predicate row = some true ↔
    evalStopping host.floats row 0 predicate = some (.bool true)

structure ExpressionsJudged (validated : ValidatedPayload Expr) : Prop where
  chains : ∀ name chain, (name,chain) ∈ validated.compiledChains →
    ∃ (position : Nat) (derivation : DerivationDescriptor),
      payload[position]? = some (.derivation derivation) ∧ derivation.name = name ∧
        ChainJudged host current payload position derivation chain
  predicates : ∀ name agg, (name,agg) ∈ validated.compiledAggregations →
    ∀ feature ∈ agg.features, ∀ predicate, feature.descriptor.whereExpr = some predicate →
      ∃ derivation opIdx schema,
        CompiledAt host.env current payload validated.propagatedSchemas derivation opIdx agg ∧
        derivation.name = name ∧
        groupBySchema host.env payload current validated.propagatedSchemas agg.sourceNodeName
          ((derivation.ops.take opIdx).filter fun op => !op.isGroupBy) = some schema ∧
        PredicateJudged host schema predicate

end

section

variable {host : Host} {current : RegistryInner Expr} {payload : List PayloadNode}
  {validated : ValidatedPayload Expr}
variable {derivation : DerivationDescriptor}
variable {chain : OpChain Expr}

theorem declaredChain_some (declared : declaredChain host.env derivation = some chain) :
    derivation.upstreams.isEmpty = false ∧ derivation.rowOps.isEmpty = false ∧
      compileOps host.env 0 derivation.rowOps = .ok chain.ops := by
  unfold declaredChain at declared
  split at declared
  · cases declared
  · rename_i hasBoth
    rw [Bool.not_eq_true,Bool.or_eq_false_iff] at hasBoth
    split at declared
    · rename_i ops compiled
      cases declared
      exact ⟨hasBoth.1,hasBoth.2,compiled⟩
    · cases declared

theorem chain_judged (accepted : Accepted host.env current payload validated) {position : Nat}
    (atPosition : payload[position]? = some (.derivation derivation))
    (declared : declaredChain host.env derivation = some chain) :
    ChainJudged host current payload position derivation chain := by
  obtain ⟨hasUpstream,hasRowOps,compiled⟩ := declaredChain_some declared
  have hasSchemas := upstreamSchemas_isEmpty
    (accepted.upstreamsKnown (List.mem_of_getElem? atPosition))
    (walkedBefore host.env payload current position).inBatch
  rw [hasUpstream] at hasSchemas
  have propagated := rowOps_propagate hasSchemas hasRowOps (walked_noErrors accepted atPosition)
  constructor
  · intro row call evaluated
    obtain ⟨index,op,atIndex,inChecks⟩ := chainEvals_checked evaluated
    exact ⟨index,op,atIndex,inChecks _⟩
  · intro index op atIndex check member
    exact (chain_passed (rowOps_isGroupBy derivation) propagated compiled atIndex check
      member).judged
  · intro index ast atIndex
    exact filterJudged host _ ast

theorem predicate_judged (accepted : Accepted host.env current payload validated) {name : String}
    {agg : AggregationDescriptor Expr} (member : (name,agg) ∈ validated.compiledAggregations)
    {feature : NamedAggOp Expr} (isFeature : feature ∈ agg.features) {predicate : Expr}
    (isWhere : feature.descriptor.whereExpr = some predicate) :
    ∃ derivation opIdx schema,
      CompiledAt host.env current payload validated.propagatedSchemas derivation opIdx agg ∧
      derivation.name = name ∧
      groupBySchema host.env payload current validated.propagatedSchemas agg.sourceNodeName
        ((derivation.ops.take opIdx).filter fun op => !op.isGroupBy) = some schema ∧
      PredicateJudged host schema predicate := by
  rw [accepted.result] at member ⊢
  obtain ⟨other,-,isName,fromOther,-⟩ := mem_compileAggregationsFromNodes host.env member
  obtain ⟨derivation,opIdx,compiledAt⟩ := mem_compileAggregations member
  obtain ⟨nodeIdx,keys,specs,atOp,compiled⟩ := compiledAt.compiled
  obtain ⟨schema,isSchema,-,featuresOk⟩ := compileGroupBy_parts compiled
  obtain ⟨entry,ok⟩ := featuresOk feature isFeature
  refine ⟨derivation,opIdx,schema,compiledAt,?_,isSchema,?_,fun row => whereStopping_iff⟩
  · rw [← isName,← fromOther.nodeName]
    exact (compileGroupBy_some host.env atOp compiled).1.nodeName.symm
  · intro field mentioned
    exact compileFeature_where ok isWhere mentioned

/-- The expressions of an accepted payload, in its chains and in its aggregations. -/
theorem expressions_judged (ok : validatePayload host.env current payload = .ok validated) :
    ExpressionsJudged host current payload validated := by
  by_cases isEmpty : payload = []
  · subst isEmpty
    cases ok
    constructor
    · intro name chain member
      cases member
    · intro name agg member
      cases member
  · have accepted := validatePayload_ok host.env isEmpty ok
    constructor
    · intro name chain member
      rw [accepted.chains.1] at member
      obtain ⟨node,inPayload,isEntry⟩ := List.mem_filterMap.mp member
      obtain ⟨derivation,isDerivation,isChain⟩ := Option.bind_eq_some_iff.mp isEntry
      obtain ⟨found,declared,pairEq⟩ := Option.map_eq_some_iff.mp isChain
      cases pairEq
      cases node with
      | derivation other =>
          cases isDerivation
          obtain ⟨position,atPosition⟩ := List.getElem?_of_mem inPayload
          exact ⟨position,derivation,atPosition,rfl,
            chain_judged accepted atPosition declared⟩
      | _ => cases isDerivation
    · intro name agg member feature isFeature predicate isWhere
      exact predicate_judged accepted member isFeature isWhere

def parsingHost : Host :=
  { sampleHost with parse := parse sampleHost.floats sampleHost.texts }

def sampleDerivation (name upstream : String) (ops : List OpNode) : DerivationDescriptor :=
  { name := name
    outputKind := .event
    upstreams := [upstream]
    ops := ops
    schema := ⟨.ofList sampleColumns,[]⟩
    tablePrimaryKey := none
    registeredAtVersion := 0 }

def checkedPayload : List PayloadNode :=
  [sampleEvent "E",
    .derivation
      { sampleDerivation "A" "E"
          [.filter "(x > 1)",.withColumns (.ofList [("z","(x + y)")]),
            .groupBy ["k"]
              (.ofList [("n",AggSpec.mk "count" (.object [("where",.string "(z > 2)")]))])] with
        outputKind := .table
        tablePrimaryKey := some ["k"] }]

theorem checkedPayload_judged :
    ∃ validated, validatePayload parsingHost.env .empty checkedPayload = .ok validated ∧
      ExpressionsJudged parsingHost .empty checkedPayload validated := by
  have isOk : (validatePayload parsingHost.env .empty checkedPayload).isOk = true := by
    decide +kernel
  obtain ⟨validated,ok⟩ := (validates_iff_isOk parsingHost.env).mp isOk
  exact ⟨validated,ok,expressions_judged ok⟩

/-- `(x + 1)`. -/
def increment : Expr :=
  .binOp "+" (.field "x" ⟨1,2⟩) (.literal (.int 1) ⟨5,6⟩) ⟨0,7⟩

def incrementFilter : DerivationDescriptor :=
  sampleDerivation "D" "E" [.filter "(x + 1)"]

def filterPayload : List PayloadNode :=
  [sampleEvent "E",.derivation incrementFilter]

/-- A filter that is an integer is accepted. -/
theorem filterPayload_accepted :
    ∃ validated, validatePayload parsingHost.env .empty filterPayload = .ok validated ∧
      ("D",OpChain.mk [.filter increment]) ∈ validated.compiledChains ∧
      RowFits (chainSchema parsingHost .empty filterPayload 1 incrementFilter 0)
        ⟨[("x",.i64 7)]⟩ ∧
      evalStopping parsingHost.floats ⟨[("x",.i64 7)]⟩ 0 increment = some (.i64 8) := by
  have isOk : (validatePayload parsingHost.env .empty filterPayload).isOk = true := by
    decide +kernel
  obtain ⟨validated,ok⟩ := (validates_iff_isOk parsingHost.env).mp isOk
  have accepted := validatePayload_ok parsingHost.env (List.cons_ne_nil _ _) ok
  have isInt : (chainSchema parsingHost .empty filterPayload 1 incrementFilter 0).fields["x"]? =
      some .i64 := by
    decide +kernel
  refine ⟨validated,ok,?_,rowFits_single isInt rfl,by decide⟩
  rw [accepted.chains.1]
  exact List.mem_filterMap.mpr ⟨.derivation incrementFilter,List.mem_cons_of_mem _
    List.mem_cons_self,rfl⟩

end

end Beava.Server
