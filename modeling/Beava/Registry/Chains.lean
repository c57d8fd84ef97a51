/-
The compiled chain of a derivation.

Rule 10 compiles the operators of a derivation against the schemas of its
upstreams.  The schemas decide whether the operators are accepted; the chain
itself depends on the operators only.  In every registry the chain of a
derivation is the one its operators declare.
-/

import Beava.Registry.Registration

namespace Beava.Registry

open Beava.Core Beava.Apply

variable {Expr : Type} (env : Env Expr)
variable {ops : List OpNode} {opIndex : Nat} {failures : List PropagationError}
variable {derivation : DerivationDescriptor} {payload : List PayloadNode}
variable {current registry : RegistryInner Expr} {validated : ValidatedPayload Expr}
variable {batch : Batch Expr}
variable {op : OpNode} {state : Rule10 Expr} {nodes : List PayloadNode}

/-! ### Errors of the propagation -/

def Supported (failure : PropagationError) : Prop :=
  ∀ opIndex op, failure ≠ .unsupportedOp opIndex op

/-- No error of the list is about an operator without a compiled form. -/
def AllSupported (failures : List PropagationError) : Prop :=
  ∀ failure ∈ failures, Supported failure

theorem allSupported_nil : AllSupported [] :=
  fun _ member => nomatch member

theorem AllSupported.append {first second : List PropagationError}
    (firstSupported : AllSupported first) (secondSupported : AllSupported second) :
    AllSupported (first ++ second) := by
  intro failure member
  rcases List.mem_append.mp member with inFirst | inSecond
  · exact firstSupported failure inFirst
  · exact secondSupported failure inSecond

theorem allSupported_singleton {failure : PropagationError} (supported : Supported failure) :
    AllSupported [failure] := by
  intro other member
  rw [List.mem_singleton.mp member]
  exact supported

theorem supported_fieldMissing (opIndex : Nat) (field : String) :
    Supported (.fieldMissing opIndex field) := nofun

theorem supported_typeMismatch (opIndex : Nat) (reason : String) :
    Supported (.typeMismatch opIndex reason) := nofun

theorem supported_renameCollision (opIndex : Nat) (new : String) :
    Supported (.renameCollision opIndex new) := nofun

theorem supported_invalidExpr (opIndex : Nat) (parseError : ParseError) :
    Supported (.invalidExpr opIndex parseError) := nofun

theorem allSupported_mismatches (opIndex : Nat) (reasons : List String) :
    AllSupported (reasons.map (.typeMismatch opIndex)) := by
  intro failure member
  obtain ⟨reason,-,rfl⟩ := List.mem_map.mp member
  exact supported_typeMismatch opIndex reason

theorem allSupported_checkReferencedFields (opIndex : Nat) (ast : Expr) (schema : Schema) :
    AllSupported (checkReferencedFields env opIndex ast schema) := by
  intro failure member
  obtain ⟨field,-,isFailure⟩ := List.mem_filterMap.mp member
  split at isFailure
  · cases isFailure
  · cases isFailure
    exact supported_fieldMissing opIndex field

theorem allSupported_foldl {α : Type} {step : Propagated → α → Propagated}
    (keeps : ∀ state item, AllSupported state.2 → AllSupported (step state item).2)
    (items : List α) {state : Propagated} (supported : AllSupported state.2) :
    AllSupported (items.foldl step state).2 := by
  induction items generalizing state with
  | nil => exact supported
  | cons item rest ih => exact ih (keeps state item supported)

theorem allSupported_checkRename (opIndex : Nat) (mapping : StrMap String) (current : Schema)
    (entry : String × String) : AllSupported (checkRename opIndex mapping current entry) := by
  unfold checkRename
  refine AllSupported.append ?_ ?_
  · split
    · exact allSupported_nil
    · exact allSupported_singleton (supported_fieldMissing opIndex entry.1)
  · split
    · exact allSupported_singleton (supported_renameCollision opIndex entry.2)
    · exact allSupported_nil

theorem allSupported_addColumn (opIndex : Nat) (state : Propagated) (entry : String × String)
    (supported : AllSupported state.2) : AllSupported (addColumn env opIndex state entry).2 := by
  unfold addColumn
  split
  · exact supported.append (allSupported_singleton (supported_invalidExpr opIndex _))
  · rename_i ast _
    have errors := (supported.append
      (allSupported_checkReferencedFields env opIndex ast state.1)).append
        (allSupported_mismatches opIndex (env.inferExprType ast state.1).1)
    simp only
    split <;> exact errors

theorem allSupported_castField (opIndex : Nat) (state : Propagated) (entry : String × String)
    (supported : AllSupported state.2) : AllSupported (castField env opIndex state entry).2 := by
  unfold castField
  split
  · exact supported.append (allSupported_singleton (supported_fieldMissing opIndex _))
  · split
    · exact supported.append (allSupported_singleton (supported_typeMismatch opIndex _))
    · split
      · exact supported
      · exact supported.append (allSupported_singleton (supported_typeMismatch opIndex _))

theorem allSupported_propagateOp (opIndex : Nat) (isRowOp : op.isGroupBy = false) (current : Schema) :
    AllSupported (propagateOp env opIndex op current).2 := by
  cases op with
  | filter expr =>
      simp only [propagateOp,applyFilterSchema]
      split
      · exact allSupported_singleton (supported_invalidExpr opIndex _)
      · exact (allSupported_checkReferencedFields env opIndex _ current).append
          (allSupported_mismatches opIndex _)
  | select fields =>
      refine allSupported_foldl (fun state field supported => ?_) fields allSupported_nil
      unfold selectField
      split
      · exact supported
      · exact supported.append (allSupported_singleton (supported_fieldMissing opIndex field))
  | drop fields =>
      refine allSupported_foldl (fun state field supported => ?_) fields allSupported_nil
      unfold dropField
      split
      · exact supported
      · exact supported.append (allSupported_singleton (supported_fieldMissing opIndex field))
  | rename mapping =>
      intro failure member
      obtain ⟨entry,-,inEntry⟩ := List.mem_flatMap.mp member
      exact allSupported_checkRename opIndex mapping current entry failure inEntry
  | withColumns exprs | map exprs =>
      exact allSupported_foldl (allSupported_addColumn env opIndex) exprs.toList allSupported_nil
  | cast typeMap =>
      exact allSupported_foldl (allSupported_castField env opIndex) typeMap.toList
        allSupported_nil
  | fillna defaults =>
      refine allSupported_foldl (fun state entry supported => ?_) defaults.toList allSupported_nil
      unfold fillField
      split
      · exact supported
      · exact supported.append (allSupported_singleton (supported_fieldMissing opIndex entry.1))
  | groupBy keys agg => cases isRowOp

theorem allSupported_propagateFrom (rowOps : ∀ op ∈ ops, op.isGroupBy = false) (opIndex : Nat)
    (current : Schema) : AllSupported (propagateFrom env opIndex ops current).2 := by
  induction ops generalizing opIndex current with
  | nil => exact allSupported_nil
  | cons op rest ih =>
      exact (allSupported_propagateOp env opIndex (rowOps op List.mem_cons_self) current).append
        (ih (fun other member => rowOps other (List.mem_cons_of_mem op member)) _ _)

theorem parseAt_error {exprSrc : String} (failed : parseAt env opIndex exprSrc = .error failures) :
    failures ≠ [] ∧ AllSupported failures := by
  unfold parseAt at failed
  split at failed
  · cases failed
  · cases failed
    exact ⟨List.cons_ne_nil _ _,allSupported_singleton (supported_invalidExpr opIndex _)⟩

theorem compileColumns_error {columns : List (String × String)}
    (failed : compileColumns env opIndex columns = .error failures) :
    failures ≠ [] ∧ AllSupported failures := by
  induction columns with
  | nil => cases failed
  | cons column rest ih =>
      rcases Checked.bind_eq_error failed with parseFailed | ⟨ast,-,restFailed⟩
      · exact parseAt_error env parseFailed
      · rcases Checked.bind_eq_error restFailed with othersFailed | ⟨others,-,impossible⟩
        · exact ih othersFailed
        · cases impossible

theorem compileOp_error (failed : compileOp env opIndex op = .error failures) :
    failures ≠ [] ∧ AllSupported failures := by
  have columnsFailed : ∀ {exprs : StrMap String},
      (do let columns ← compileColumns env opIndex exprs.toList
          return some (CompiledOp.withColumns columns) :
        Except (List PropagationError) (Option (CompiledOp Expr))) = .error failures →
      failures ≠ [] ∧ AllSupported failures := by
    intro exprs failed
    rcases Checked.bind_eq_error failed with columnFailed | ⟨columns,-,impossible⟩
    · exact compileColumns_error env columnFailed
    · cases impossible
  cases op with
  | filter expr =>
      rcases Checked.bind_eq_error failed with parseFailed | ⟨ast,-,impossible⟩
      · exact parseAt_error env parseFailed
      · cases impossible
  | withColumns | map => exact columnsFailed failed
  | _ => cases failed

theorem compileOps_error (failed : compileOps env opIndex ops = .error failures) :
    failures ≠ [] ∧ AllSupported failures := by
  induction ops generalizing opIndex with
  | nil => cases failed
  | cons op rest ih =>
      rcases Checked.bind_eq_error failed with opFailed | ⟨compiled,-,restFailed⟩
      · exact compileOp_error env opFailed
      · rcases Checked.bind_eq_error restFailed with othersFailed | ⟨others,-,impossible⟩
        · exact ih othersFailed
        · cases impossible

theorem compile_error_reported (rowOps : ∀ op ∈ ops, op.isGroupBy = false) {schema : Schema}
    (failed : OpChain.compile env schema ops = .error failures) (nodeIdx : Nat) :
    compileErrors nodeIdx failures ≠ [] := by
  have notEmpty : failures ≠ [] ∧ AllSupported failures := by
    rcases Checked.bind_eq_error failed with propagationFailed | ⟨final,-,restFailed⟩
    · simp only [propagateSchema] at propagationFailed
      split at propagationFailed
      · cases propagationFailed
      · rename_i hasErrors
        cases propagationFailed
        exact ⟨fun isEmpty => hasErrors (by rw [isEmpty]; rfl),
          allSupported_propagateFrom env rowOps 0 schema⟩
    · rcases Checked.bind_eq_error restFailed with compileFailed | ⟨compiled,-,impossible⟩
      · exact compileOps_error env compileFailed
      · cases impossible
  obtain ⟨first,rest,rfl⟩ := List.exists_cons_of_ne_nil notEmpty.1
  have firstSupported := notEmpty.2 first List.mem_cons_self
  cases first with
  | unsupportedOp opIndex op => exact absurd rfl (firstSupported opIndex op)
  | _ => exact List.cons_ne_nil _ _

/-- The chain the operators of a derivation declare.  Without operators, or
without an upstream, there is none. -/
def declaredChain (derivation : DerivationDescriptor) : Option (OpChain Expr) :=
  if derivation.upstreams.isEmpty || derivation.rowOps.isEmpty then none
  else
    match compileOps env 0 derivation.rowOps with
    | .ok ops => some ⟨ops⟩
    | .error _ => none

/-- The schema rule 10 gives a derivation over the schemas of its upstreams. -/
def outputSchema (derivation : DerivationDescriptor) (schemas : List Schema) : Schema :=
  if derivation.ops.isEmpty then
    if schemas.isEmpty then derivation.schema else unionSchemas schemas
  else if schemas.isEmpty || derivation.hasGroupBy then derivation.schema
  else (propagateFrom env 0 derivation.ops (unionSchemas schemas)).1

structure Walked (payload : List PayloadNode) (current : RegistryInner Expr)
    (before after : Rule10 Expr) (derivation : DerivationDescriptor) : Prop where
  errors : before.errors = []
  compiles : derivation.upstreams ≠ [] → ∃ ops, compileOps env 0 derivation.rowOps = .ok ops
  compiledChains : after.compiledChains =
    before.compiledChains ++ ((declaredChain env derivation).map (derivation.name,·)).toList
  propagatedSchemas : after.propagatedSchemas = before.propagatedSchemas ++
    [(derivation.name,
      outputSchema env derivation (upstreamSchemas payload current before.inBatch derivation))]
  inBatch : after.inBatch = before.inBatch.insert derivation.name
    (outputSchema env derivation (upstreamSchemas payload current before.inBatch derivation))

variable {env}

theorem compile_ok {schema final : Schema} {chain : OpChain Expr}
    (ok : OpChain.compile env schema ops = .ok (chain,final)) :
    compileOps env 0 ops = .ok chain.ops ∧ final = (propagateFrom env 0 ops schema).1 := by
  obtain ⟨propagated,propagatedOk,ok⟩ := Checked.bind_eq_ok ok
  obtain ⟨compiled,compiledOk,ok⟩ := Checked.bind_eq_ok ok
  cases ok
  refine ⟨compiledOk,?_⟩
  simp only [propagateSchema] at propagatedOk
  split at propagatedOk
  · cases propagatedOk
    rfl
  · cases propagatedOk

theorem rowOps_isGroupBy (derivation : DerivationDescriptor) :
    ∀ op ∈ derivation.rowOps, op.isGroupBy = false := by
  intro op member
  simpa using (List.mem_filter.mp member).2

theorem rowOps_eq_ops (noGroupBy : derivation.hasGroupBy = false) :
    derivation.rowOps = derivation.ops := by
  rw [DerivationDescriptor.rowOps,List.filter_eq_self]
  intro op member
  rw [DerivationDescriptor.hasGroupBy,List.any_eq_false] at noGroupBy
  simpa using noGroupBy op member

theorem declaredChain_of_ok {ops : List (CompiledOp Expr)} (hasUpstream : derivation.upstreams ≠ [])
    (hasOps : derivation.rowOps ≠ []) (compiled : compileOps env 0 derivation.rowOps = .ok ops) :
    declaredChain env derivation = some ⟨ops⟩ := by
  have notEmpty : ¬(derivation.upstreams.isEmpty || derivation.rowOps.isEmpty) = true := by
    simp [hasUpstream,hasOps]
  rw [declaredChain,if_neg notEmpty,compiled]

theorem compileOps_isEmpty (isEmpty : ops.isEmpty = true) :
    ∃ compiled, compileOps env 0 ops = .ok compiled :=
  ⟨[],by rw [List.isEmpty_iff.mp isEmpty]; rfl⟩

theorem validateDerivationExpressions_walked
    {nodeIdx : Nat}
    (resolved : (upstreamSchemas payload current state.inBatch derivation).isEmpty =
      derivation.upstreams.isEmpty)
    (noErrors : (validateDerivationExpressions env payload current state nodeIdx
      derivation).errors = []) :
    Walked env payload current state
      (validateDerivationExpressions env payload current state nodeIdx derivation) derivation := by
  unfold validateDerivationExpressions at noErrors ⊢
  simp only at noErrors ⊢
  split at noErrors
  · rename_i noOps
    have noRowOps : derivation.rowOps.isEmpty = true := by
      rw [List.isEmpty_iff] at noOps ⊢
      rw [DerivationDescriptor.rowOps,noOps,List.filter_nil]
    have noChain : declaredChain env derivation = none := by
      rw [declaredChain,noRowOps,Bool.or_true,if_pos rfl]
    rw [if_pos noOps]
    refine ⟨noErrors,fun _ => compileOps_isEmpty noRowOps,?_,?_,?_⟩
    · simp [noChain,Rule10.propagated]
    · simp [outputSchema,noOps,Rule10.propagated]
    · simp [outputSchema,noOps,Rule10.propagated]
  · rename_i hasOps
    rw [if_neg hasOps]
    split at noErrors
    · rename_i noSchemas
      have noChain : declaredChain env derivation = none := by
        rw [declaredChain,← resolved,noSchemas,Bool.true_or,if_pos rfl]
      have noUpstream : derivation.upstreams = [] := by
        rw [noSchemas] at resolved
        exact List.isEmpty_iff.mp resolved.symm
      rw [if_pos noSchemas]
      refine ⟨noErrors,fun hasUpstream => absurd noUpstream hasUpstream,?_,?_,?_⟩
      · simp [noChain,Rule10.propagated]
      · simp [outputSchema,hasOps,noSchemas,Rule10.propagated]
      · simp [outputSchema,hasOps,noSchemas,Rule10.propagated]
    · rename_i hasSchemas
      have hasUpstream : derivation.upstreams ≠ [] := by
        intro noUpstream
        rw [noUpstream] at resolved
        exact hasSchemas resolved
      rw [if_neg hasSchemas]
      split at noErrors
      · rename_i hasGroupBy
        rw [if_pos hasGroupBy]
        split at noErrors
        · rename_i noRowOps
          have noChain : declaredChain env derivation = none := by
            rw [declaredChain,noRowOps,Bool.or_true,if_pos rfl]
          rw [if_pos noRowOps]
          refine ⟨noErrors,fun _ => compileOps_isEmpty noRowOps,?_,?_,?_⟩
          · simp [noChain,Rule10.propagated]
          · simp [outputSchema,hasOps,hasGroupBy,Rule10.propagated]
          · simp [outputSchema,hasOps,hasGroupBy,Rule10.propagated]
        · rename_i hasRowOps
          rw [if_neg hasRowOps]
          split at noErrors
          · rename_i chain final compiled
            have isChain := declaredChain_of_ok hasUpstream
              (fun isEmpty => hasRowOps (by rw [isEmpty]; rfl)) (compile_ok compiled).1
            refine ⟨noErrors,fun _ => ⟨chain.ops,(compile_ok compiled).1⟩,?_,?_,?_⟩
            · simp [isChain,Rule10.propagated,Rule10.withChain]
            · simp [outputSchema,hasOps,hasGroupBy,Rule10.propagated,Rule10.withChain]
            · simp [outputSchema,hasOps,hasGroupBy,Rule10.propagated,Rule10.withChain]
          · rename_i failures failed
            exact absurd (List.append_eq_nil_iff.mp noErrors).2
              (compile_error_reported env (rowOps_isGroupBy derivation) failed nodeIdx)
      · rename_i noGroupBy
        have rowOpsEq := rowOps_eq_ops (Bool.eq_false_iff.mpr noGroupBy)
        rw [if_neg noGroupBy]
        split at noErrors
        · rename_i chain final compiled
          obtain ⟨compiledOps,finalEq⟩ := compile_ok compiled
          rw [← rowOpsEq] at compiledOps
          have isChain := declaredChain_of_ok hasUpstream
            (fun isEmpty => hasOps (by rw [← rowOpsEq,isEmpty]; rfl)) compiledOps
          refine ⟨noErrors,fun _ => ⟨chain.ops,compiledOps⟩,?_,?_,?_⟩
          · simp [isChain,Rule10.propagated,Rule10.withChain]
          · simp [outputSchema,hasOps,hasSchemas,noGroupBy,finalEq,Rule10.propagated,
              Rule10.withChain]
          · simp [outputSchema,hasOps,hasSchemas,noGroupBy,finalEq,Rule10.propagated,
              Rule10.withChain]
        · rename_i failures failed
          rw [← rowOpsEq] at failed
          exact absurd (List.append_eq_nil_iff.mp noErrors).2
            (compile_error_reported env (rowOps_isGroupBy derivation) failed nodeIdx)

/-! ### The walk over the payload -/

theorem schemaOf_isSome {name : String} (known : registry.known name = true) :
    (registry.schemaOf name).isSome = true := by
  rw [RegistryInner.known,Bool.or_eq_true,Bool.or_eq_true] at known
  unfold RegistryInner.schemaOf
  split
  · rfl
  · rename_i noEvent
    split
    · rfl
    · rename_i noTable
      split
      · rfl
      · rename_i noDerivation
        simp [Std.ExtTreeMap.contains_eq_isSome_getElem?,noEvent,noTable,noDerivation] at known

def UpstreamsKnown (payload : List PayloadNode) (current : RegistryInner Expr)
    (derivation : DerivationDescriptor) : Prop :=
  ∀ upstream ∈ derivation.upstreams,
    ((payload.map PayloadNode.name).contains upstream || current.known upstream) = true

theorem resolveUpstreamSchema_isSome {upstream : String}
    (known : ((payload.map PayloadNode.name).contains upstream || current.known upstream) = true) :
    (resolveUpstreamSchema upstream payload current).isSome = true := by
  unfold resolveUpstreamSchema
  split
  · rfl
  · rename_i notInPayload
    refine schemaOf_isSome ?_
    rcases Bool.or_eq_true_iff.mp known with inPayload | inRegistry
    · rw [List.contains_iff_mem,List.mem_map] at inPayload
      obtain ⟨node,member,sameName⟩ := inPayload
      have notSame := List.find?_eq_none.mp notInPayload node member
      exact absurd sameName (by simpa using notSame)
    · exact inRegistry

theorem upstreamSchemas_isEmpty (known : UpstreamsKnown payload current derivation)
    (inBatch : StrMap Schema) :
    (upstreamSchemas payload current inBatch derivation).isEmpty =
      derivation.upstreams.isEmpty := by
  unfold upstreamSchemas
  cases upstreamsEq : derivation.upstreams with
  | nil => rfl
  | cons upstream rest =>
      rw [List.filterMap_cons]
      have found := known upstream (by rw [upstreamsEq]; exact List.mem_cons_self)
      cases inBatch[upstream]? with
      | some schema => rfl
      | none =>
          obtain ⟨schema,isSchema⟩ :=
            Option.isSome_iff_exists.mp (resolveUpstreamSchema_isSome found)
          simp only [isSchema]
          rfl

theorem validateUpstreams_nil_iff :
    validateUpstreams payload current = [] ↔
      ∀ derivation, .derivation derivation ∈ payload →
        UpstreamsKnown payload current derivation := by
  constructor
  · intro noErrors derivation member upstream isUpstream
    obtain ⟨position,atPosition⟩ := List.getElem?_of_mem member
    obtain ⟨j,passed⟩ := upstreamErrors_nil noErrors atPosition isUpstream
    split at passed
    · rename_i known
      exact known
    · cases passed
  · intro known
    refine List.flatMap_eq_nil_iff.mpr fun entry member => ?_
    obtain ⟨node,nodeIdx⟩ := entry
    cases node with
    | derivation derivation =>
        refine List.filterMap_eq_nil_iff.mpr fun upstream isUpstream => ?_
        exact if_pos (known derivation (List.fst_mem_of_mem_zipIdx member) upstream.1
          (List.fst_mem_of_mem_zipIdx isUpstream))
    | _ => rfl

theorem Accepted.upstreamsKnown (accepted : Accepted env current payload validated)
    (member : .derivation derivation ∈ payload) : UpstreamsKnown payload current derivation :=
  validateUpstreams_nil_iff.mp accepted.rules.1.1.2 derivation member

variable (env) in
def walkNode (payload : List PayloadNode) (current : RegistryInner Expr) (state : Rule10 Expr)
    (entry : PayloadNode × Nat) : Rule10 Expr :=
  match entry.1 with
  | .derivation derivation =>
      validateDerivationExpressions env payload current state entry.2 derivation
  | _ => state

variable (env) in
def chainEntry (node : PayloadNode) : Option (String × OpChain Expr) :=
  node.asDerivation.bind fun derivation =>
    (declaredChain env derivation).map (derivation.name,·)

theorem foldl_walkNode_chains
    {entries : List (PayloadNode × Nat)}
    (known : ∀ entry ∈ entries, ∀ derivation, entry.1 = .derivation derivation →
      UpstreamsKnown payload current derivation)
    (noErrors : (entries.foldl (walkNode env payload current) state).errors = []) :
    state.errors = [] ∧
      (entries.foldl (walkNode env payload current) state).compiledChains =
        state.compiledChains ++ (entries.map Prod.fst).filterMap (chainEntry env) ∧
      ∀ entry ∈ entries, ∀ derivation, entry.1 = .derivation derivation →
        derivation.upstreams ≠ [] → ∃ ops, compileOps env 0 derivation.rowOps = .ok ops := by
  induction entries generalizing state with
  | nil => exact ⟨noErrors,(List.append_nil _).symm,fun _ member => nomatch member⟩
  | cons entry rest ih =>
      obtain ⟨nextErrors,chains,compile⟩ :=
        ih (fun other member => known other (List.mem_cons_of_mem entry member)) noErrors
      obtain ⟨node,nodeIdx⟩ := entry
      cases node with
      | derivation derivation =>
          have walked := validateDerivationExpressions_walked
            (upstreamSchemas_isEmpty (known _ List.mem_cons_self derivation rfl) state.inBatch)
            nextErrors
          refine ⟨walked.errors,?_,?_⟩
          · rw [List.foldl_cons,chains]
            simp only [walkNode,walked.compiledChains,List.map_cons,List.filterMap_cons,
              chainEntry,PayloadNode.asDerivation,Option.bind_some]
            cases declaredChain env derivation with
            | none => simp
            | some chain => simp
          · intro other member found isDerivation
            rcases List.mem_cons.mp member with rfl | inRest
            · cases isDerivation
              exact walked.compiles
            · exact compile other inRest found isDerivation
      | event event =>
          refine ⟨nextErrors,chains,fun other member found isDerivation => ?_⟩
          rcases List.mem_cons.mp member with rfl | inRest
          · cases isDerivation
          · exact compile other inRest found isDerivation
      | table table =>
          refine ⟨nextErrors,chains,fun other member found isDerivation => ?_⟩
          rcases List.mem_cons.mp member with rfl | inRest
          · cases isDerivation
          · exact compile other inRest found isDerivation

/-- The chains of an accepted payload; the operators of every derivation with an
upstream compile. -/
theorem Accepted.chains (accepted : Accepted env current payload validated) :
    validated.compiledChains = payload.filterMap (chainEntry env) ∧
      ∀ derivation, .derivation derivation ∈ payload → derivation.upstreams ≠ [] →
        ∃ ops, compileOps env 0 derivation.rowOps = .ok ops := by
  have known : ∀ entry ∈ payload.zipIdx, ∀ derivation, entry.1 = .derivation derivation →
      UpstreamsKnown payload current derivation := by
    intro entry member derivation isDerivation
    exact accepted.upstreamsKnown (isDerivation ▸ List.fst_mem_of_mem_zipIdx member)
  have noErrors : (payload.zipIdx.foldl (walkNode env payload current) Rule10.start).errors = [] :=
    accepted.expressions
  obtain ⟨-,chains,compile⟩ := foldl_walkNode_chains known noErrors
  rw [List.zipIdx_map_fst] at chains
  refine ⟨?_,fun derivation member => ?_⟩
  · rw [accepted.result]
    exact chains
  · obtain ⟨position,atPosition⟩ := List.getElem?_of_mem member
    exact compile (.derivation derivation,position)
      (List.mk_mem_zipIdx_iff_getElem?.mpr atPosition) derivation rfl

theorem Accepted.batch_chains (accepted : Accepted env current payload validated)
    (member : .derivation derivation ∈ payload) :
    (Batch.ofValidated current validated).chains[derivation.name]? =
      declaredChain env derivation := by
  have isMap : (Batch.ofValidated current validated).chains =
      KeyMap.insertAll ∅ (payload.filterMap (chainEntry env)) := by
    rw [← accepted.chains.1]
    rfl
  have entryOf : ∀ {entry : String × OpChain Expr}, entry ∈ payload.filterMap (chainEntry env) →
      entry.1 = derivation.name → declaredChain env derivation = some entry.2 := by
    intro entry inEntries sameName
    obtain ⟨node,inPayload,isEntry⟩ := List.mem_filterMap.mp inEntries
    obtain ⟨other,isDerivation,chainEq⟩ := Option.bind_eq_some_iff.mp isEntry
    obtain ⟨chain,isChain,rfl⟩ := Option.map_eq_some_iff.mp chainEq
    cases node with
    | derivation found =>
        cases isDerivation
        have same := accepted.eq_of_name inPayload member sameName
        cases same
        exact isChain
    | _ => cases isDerivation
  rw [isMap]
  cases found : (KeyMap.insertAll (∅ : StrMap (OpChain Expr))
      (payload.filterMap (chainEntry env)))[derivation.name]? with
  | some chain =>
      rcases KeyMap.insertAll_eq_some found with inEntries | ⟨-,inEmpty⟩
      · exact (entryOf inEntries rfl).symm
      · simp at inEmpty
  | none =>
      cases isChain : declaredChain env derivation with
      | none => rfl
      | some chain =>
          have inEntries : (derivation.name,chain) ∈ payload.filterMap (chainEntry env) :=
            List.mem_filterMap.mpr ⟨_,member,by simp [chainEntry,PayloadNode.asDerivation,isChain]⟩
          have isSome : (KeyMap.insertAll (∅ : StrMap (OpChain Expr))
              (payload.filterMap (chainEntry env)))[derivation.name]?.isSome = true :=
            KeyMap.isSome_insertAll (List.mem_map_of_mem inEntries)
          rw [found] at isSome
          cases isSome

variable (env) in
/-- Every derivation has the chain it declares, and nothing else has one. -/
structure ChainsExact (registry : RegistryInner Expr) : Prop where
  chain : ∀ name : String,
    registry.compiledChains[name]? = registry.derivations[name]?.bind (declaredChain env)
  compiles : ∀ {name : String} {derivation : DerivationDescriptor},
    registry.derivations[name]? = some derivation → derivation.upstreams ≠ [] →
      ∃ ops, compileOps env 0 derivation.rowOps = .ok ops

theorem chainsExact_empty : ChainsExact env (.empty : RegistryInner Expr) := by
  constructor <;> simp [RegistryInner.empty]

theorem declaredChain_stored (batch : Batch Expr) (derivation : DerivationDescriptor) :
    declaredChain env (storedDerivation batch derivation) = declaredChain env derivation :=
  rfl

def ChainFor (env : Env Expr) (batch : Batch Expr) (derivation : DerivationDescriptor) : Prop :=
  batch.chains[derivation.name]? = declaredChain env derivation ∧
    (derivation.upstreams ≠ [] → ∃ ops, compileOps env 0 derivation.rowOps = .ok ops)

theorem withDerivation_chainsExact (exact_ : ChainsExact env registry)
    (absent : registry.derivations[derivation.name]? = none)
    (chained : ChainFor env batch derivation) :
    ChainsExact env (withDerivation batch registry derivation) where
  chain name := by
    simp only [withDerivation,KeyMap.lookup_insert,chained.1]
    split
    · rename_i chain isChain
      rw [KeyMap.lookup_insert]
      split
      · rw [Option.bind_some,declaredChain_stored,isChain]
      · exact exact_.chain name
    · rename_i noChain
      split
      · rename_i sameName
        rw [Option.bind_some,declaredChain_stored,noChain,← sameName,exact_.chain,absent]
        rfl
      · exact exact_.chain name
  compiles {name found} present := by
    simp only [withDerivation,KeyMap.lookup_insert] at present
    split at present
    · cases present
      exact chained.2
    · exact exact_.compiles present

theorem installNode_chainsExact (wellFormed : WellFormed env registry)
    (exact_ : ChainsExact env registry) {node : PayloadNode}
    (chained : ∀ derivation, node = .derivation derivation → ChainFor env batch derivation) :
    ChainsExact env (installNode env batch registry node) := by
  cases node with
  | event event =>
      simp only [installNode,installEvent]
      split <;> exact ⟨exact_.chain,exact_.compiles⟩
  | table table =>
      simp only [installNode,installTable]
      split <;> exact ⟨exact_.chain,exact_.compiles⟩
  | derivation derivation =>
      cases contained : registry.derivations.contains derivation.name with
      | true =>
          simp only [installNode,installDerivation,contained,if_true]
          exact exact_
      | false =>
          have absent := lookup_none_of_contains contained
          have stored : ChainsExact env (withDerivation batch registry derivation) :=
            withDerivation_chainsExact exact_ absent (chained derivation rfl)
          simp only [installNode]
          rw [installDerivation_eq env contained]
          cases hasAgg : batch.aggs[derivation.name]? with
          | none => exact stored
          | some compiled =>
              have storedOk : WellFormed env (withDerivation batch registry derivation) :=
                withDerivation_wellFormed wellFormed absent
              obtain ⟨nextClusterId,clusters,isInstall⟩ :=
                installAggregation_eq storedOk derivation.name compiled
              simp only
              rw [isInstall]
              exact ⟨stored.chain,stored.compiles⟩

theorem foldl_installNode_chainsExact (wellFormed : WellFormed env registry)
    (exact_ : ChainsExact env registry) (compiled : Compiled env batch nodes)
    (chained : ∀ derivation, .derivation derivation ∈ nodes → ChainFor env batch derivation) :
    ChainsExact env (nodes.foldl (installNode env batch) registry) := by
  induction nodes generalizing registry with
  | nil => exact exact_
  | cons node rest ih =>
      refine ih (installNode_spec wellFormed (compiled node List.mem_cons_self)).1 ?_
        (fun other member => compiled other (List.mem_cons_of_mem node member))
        (fun derivation member => chained derivation (List.mem_cons_of_mem node member))
      exact installNode_chainsExact wellFormed exact_ fun derivation isDerivation =>
        chained derivation (isDerivation ▸ List.mem_cons_self)

theorem applyRegistration_chainsExact (wellFormed : WellFormed env registry)
    (accepted : Accepted env registry nodes validated) (exact_ : ChainsExact env registry) :
    ChainsExact env (applyRegistration env registry validated) := by
  obtain ⟨-,refreshed⟩ := refreshNodes_spec wellFormed accepted
  have installed : ChainsExact env (installNodes env registry validated) := by
    rw [installNodes,accepted.nodes_eq]
    exact foldl_installNode_chainsExact wellFormed exact_ accepted.compiled
      fun derivation member =>
        ⟨accepted.batch_chains member,accepted.chains.2 derivation member⟩
  rw [applyRegistration_eq]
  refine ⟨fun name => ?_,fun {name derivation} present => ?_⟩
  · show (refreshNodes env registry validated).compiledChains[name]? =
      (refreshNodes env registry validated).derivations[name]?.bind (declaredChain env)
    rw [refreshed.compiledChains,refreshed.derivations]
    exact installed.chain name
  · have presentBefore : (refreshNodes env registry validated).derivations[name]? =
        some derivation := present
    rw [refreshed.derivations] at presentBefore
    exact installed.compiles presentBefore

end Beava.Registry
