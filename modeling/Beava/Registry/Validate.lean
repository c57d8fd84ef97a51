/-
Validation of a registration payload.

`validatePayload` runs the structural rules first; the expressions are compiled
only when these found nothing, and the aggregations only when the expressions
compiled.  Each rule returns the list of its errors.
-/

import Beava.Registry.Descriptor

namespace Beava.Registry

open Beava.Core

variable {Expr : Type} (env : Env Expr)

/-! ### Structural rules -/

def pathField (i : Nat) (suffix : String) : String :=
  s!"nodes[{i}].{suffix}"

def uniquenessErrors (seen : StrMap Nat) : Nat → List PayloadNode → List ValidationError
  | _, [] => []
  | i, node :: rest =>
      match seen[node.name]? with
      | some firstIdx =>
          ⟨.nameDuplicate,pathField i "name",
            s!"duplicate descriptor name '{node.name}'; first seen at nodes[{firstIdx}]"⟩ ::
          uniquenessErrors seen (i + 1) rest
      | none => uniquenessErrors (seen.insert node.name i) (i + 1) rest

def validateUniquenessWithinPayload (payload : List PayloadNode) : List ValidationError :=
  uniquenessErrors ∅ 0 payload

def validateNodeName (i : Nat) (node : PayloadNode) : List ValidationError :=
  match validateDescriptorName node.name with
  | none => []
  | some .empty =>
      [⟨.nameEmpty,pathField i "name","descriptor name must not be empty"⟩]
  | some (.badPattern name) =>
      [⟨.nameBadPattern,pathField i "name",
        s!"descriptor name '{name}' must match [A-Za-z_][A-Za-z0-9_]* (no hyphens or leading digits)"⟩]
  | some (.reservedPrefix name) =>
      [⟨.nameReservedPrefix,pathField i "name",
        s!"descriptor name '{name}' uses reserved prefix '_beava_'"⟩]
  | some (.tooLong len) =>
      [⟨.nameTooLong,pathField i "name",s!"descriptor name is {len} chars; maximum is 128"⟩]

def validateEvent (i : Nat) (event : EventDescriptor) : List ValidationError :=
  (if event.schema.fields.isEmpty then
    [⟨.eventSchemaEmpty,pathField i "schema.fields",
      "event schema must have at least one field"⟩]
   else []) ++
  (match event.dedupeKey with
   | some key =>
      if event.schema.fields.contains key then []
      else [⟨.dedupeKeyUnknownField,pathField i "dedupe_key",
        s!"dedupe_key '{key}' is not a field in schema"⟩]
   | none => []) ++
  (if event.dedupeWindowMs = some 0 then
    [⟨.dedupeWindowNonPositive,pathField i "dedupe_window_ms",
      "dedupe_window_ms must be positive (> 0)"⟩]
   else [])

def validateTable (i : Nat) (table : TableDescriptor) : List ValidationError :=
  if table.primaryKey.isEmpty then
    [⟨.tablePrimaryKeyEmpty,pathField i "primary_key",
      "primary_key must have at least 1 field"⟩]
  else
    (if 4 < table.primaryKey.length then
      [⟨.tablePrimaryKeyTooLong,pathField i "primary_key",
        s!"primary_key has {table.primaryKey.length} fields; maximum is 4"⟩]
     else []) ++
    table.primaryKey.zipIdx.filterMap fun entry =>
      if table.schema.fields.contains entry.1 then none
      else some ⟨.tablePrimaryKeyUnknownField,pathField i s!"primary_key[{entry.2}]",
        s!"primary_key field '{entry.1}' does not exist in schema.fields"⟩

def validateDerivationStruct (i : Nat) (derivation : DerivationDescriptor) :
    List ValidationError :=
  (if derivation.schema.fields.isEmpty && derivation.ops.isEmpty then
    [⟨.derivationSchemaEmpty,pathField i "schema.fields",
      "derivation schema must have at least one field"⟩]
   else []) ++
  (if derivation.outputKind = .table && derivation.tablePrimaryKey.isNone then
    [⟨.derivationOutputKindTableMissingPrimaryKey,pathField i "table_primary_key",
      "derivation with output_kind='table' must specify table_primary_key"⟩]
   else [])

def validateNode (i : Nat) (node : PayloadNode) : List ValidationError :=
  validateNodeName i node ++
  match node with
  | .event event => validateEvent i event
  | .table table => validateTable i table
  | .derivation derivation => validateDerivationStruct i derivation

def upstreamErrors (check : Nat → Nat → String → Option ValidationError)
    (payload : List PayloadNode) : List ValidationError :=
  payload.zipIdx.flatMap fun entry =>
    match entry.1 with
    | .derivation derivation =>
        derivation.upstreams.zipIdx.filterMap fun upstream => check entry.2 upstream.2 upstream.1
    | _ => []

def validateUpstreams (payload : List PayloadNode) (current : RegistryInner Expr) :
    List ValidationError :=
  upstreamErrors
    (fun i j upstream =>
      if (payload.map PayloadNode.name).contains upstream || current.known upstream then none
      else some ⟨.derivationUpstreamUnknown,pathField i s!"upstreams[{j}]",
        s!"upstream '{upstream}' is not declared in this payload or in the registry"⟩)
    payload

def payloadIndex (payload : List PayloadNode) : StrMap Nat :=
  payload.zipIdx.foldl (fun index entry => index.insert entry.1.name entry.2) ∅

def validateTopologicalOrder (payload : List PayloadNode) : List ValidationError :=
  upstreamErrors
    (fun i j upstream =>
      match (payloadIndex payload)[upstream]? with
      | some upstreamIdx =>
          if i < upstreamIdx then
            some ⟨.topologicalOrderViolation,pathField i s!"upstreams[{j}]",
              s!"upstream '{upstream}' appears later in payload at nodes[{upstreamIdx}]"⟩
          else none
      | none => none)
    payload

/-! ### Cycles -/

/-- The colours of the depth-first search: absent is white, `false` is gray and
`true` is black. -/
structure Dfs where
  color : StrMap Bool
  stack : List String

namespace Dfs

def enter (state : Dfs) (node : String) : Dfs :=
  { color := state.color.insert node false, stack := state.stack ++ [node] }

def leave (state : Dfs) (node : String) : Dfs :=
  { color := state.color.insert node true, stack := state.stack.dropLast }

/-- The part of the stack from `neighbor` on, closed. -/
def cycleFrom (state : Dfs) (neighbor : String) : List String :=
  state.stack.drop (state.stack.findIdx (· = neighbor)) ++ [neighbor]

end Dfs

def visitNeighbors (visit : String → Dfs → Except (List String) Dfs) :
    List String → Dfs → Except (List String) Dfs
  | [], state => .ok state
  | neighbor :: rest, state =>
      match state.color[neighbor]? with
      | some false => .error (state.cycleFrom neighbor)
      | some true => visitNeighbors visit rest state
      | none =>
          match visit neighbor state with
          | .error cycle => .error cycle
          | .ok state => visitNeighbors visit rest state

/-- `dfs_cycle`.  The fuel bounds the depth of the search; every call is on a
node that was white, so one more than the number of nodes is enough. -/
def dfsCycle (adj : StrMap (List String)) : Nat → String → Dfs → Except (List String) Dfs
  | 0, _, state => .ok state
  | fuel + 1, node, state =>
      match visitNeighbors (dfsCycle adj fuel) (adj.getD node []) (state.enter node) with
      | .error cycle => .error cycle
      | .ok state => .ok (state.leave node)

def searchFrom (adj : StrMap (List String)) (fuel : Nat) :
    List String → Dfs → Except (List String) Dfs
  | [], state => .ok state
  | start :: rest, state =>
      if state.color.contains start then searchFrom adj fuel rest state
      else
        match dfsCycle adj fuel start state with
        | .error cycle => .error cycle
        | .ok state => searchFrom adj fuel rest state

def findCycle (adj : StrMap (List String)) : Option (List String) :=
  match searchFrom adj (adj.size + 2) adj.keys ⟨∅,[]⟩ with
  | .error cycle => some cycle
  | .ok _ => none

def overlayGraph (payload : List PayloadNode) (current : RegistryInner Expr) :
    StrMap (List String) :=
  payload.foldl
    (fun adj node =>
      match node with
      | .derivation derivation => adj.insert derivation.name derivation.upstreams
      | _ => adj)
    (current.derivations.map fun _ derivation => derivation.upstreams)

def validateAcyclicity (payload : List PayloadNode) (current : RegistryInner Expr) :
    List ValidationError :=
  match findCycle (overlayGraph payload current) with
  | none => []
  | some cycle =>
      let path :=
        match (cycle.filterMap fun name => (payloadIndex payload)[name]?).head? with
        | some idx => s!"nodes[{idx}]"
        | none => "nodes"
      [⟨.registrationCycle,path,"cycle detected: " ++ " -> ".intercalate cycle⟩]

/-! ### Expressions and chains -/

/-- `resolve_upstream_schema`: the payload first, then the registry. -/
def resolveUpstreamSchema (upstream : String) (payload : List PayloadNode)
    (current : RegistryInner Expr) : Option Schema :=
  match payload.find? fun node => node.name = upstream with
  | some node => some node.schema
  | none => current.schemaOf upstream

def unionSchemas (schemas : List Schema) : Schema :=
  schemas.foldl
    (fun result schema =>
      { fields := schema.fields.toList.foldl (fun fields entry => fields.insert entry.1 entry.2)
          result.fields
        optionalFields := schema.optionalFields.foldl
          (fun names name => if names.contains name then names else names ++ [name])
          result.optionalFields })
    Schema.new

def propagationErrorToValidation (nodeIdx : Nat) (failure : PropagationError) : ValidationError :=
  let at_ := s!"nodes[{nodeIdx}].ops[{failure.opIndex}]"
  match failure with
  | .invalidExpr _ parseError =>
      ⟨.invalidExpression,at_ ++ ".expr",s!"col {parseError.col}: {parseError.reason}"⟩
  | .fieldMissing _ field =>
      ⟨.unknownFieldReference,at_ ++ ".expr",s!"field '{field}' not found in upstream schema"⟩
  | .typeMismatch _ reason => ⟨.schemaPropagationFailure,at_,reason⟩
  | .renameCollision _ new =>
      ⟨.schemaPropagationFailure,at_ ++ ".mapping",s!"rename collision on field '{new}'"⟩
  | .unsupportedOp .. =>
      ⟨.schemaPropagationFailure,at_,"unsupported op (pass-through in Phase 4)"⟩

def compileErrors (nodeIdx : Nat) (failures : List PropagationError) : List ValidationError :=
  failures.filterMap fun failure =>
    match failure with
    | .unsupportedOp .. => none
    | _ => some (propagationErrorToValidation nodeIdx failure)

/-- What rule 10 has collected; `inBatch` are the schemas of the derivations
of this payload that were already walked. -/
structure Rule10 (Expr : Type) where
  errors : List ValidationError
  compiledChains : List (String × OpChain Expr)
  propagatedSchemas : List (String × Schema)
  inBatch : StrMap Schema

namespace Rule10

def start : Rule10 Expr := ⟨[],[],[],∅⟩

def propagated (state : Rule10 Expr) (name : String) (schema : Schema) : Rule10 Expr :=
  { state with
    propagatedSchemas := state.propagatedSchemas ++ [(name,schema)]
    inBatch := state.inBatch.insert name schema }

def withChain (state : Rule10 Expr) (name : String) (chain : OpChain Expr) : Rule10 Expr :=
  { state with compiledChains := state.compiledChains ++ [(name,chain)] }

def withErrors (state : Rule10 Expr) (errors : List ValidationError) : Rule10 Expr :=
  { state with errors := state.errors ++ errors }

end Rule10

def upstreamSchemas (payload : List PayloadNode) (current : RegistryInner Expr)
    (inBatch : StrMap Schema) (derivation : DerivationDescriptor) : List Schema :=
  derivation.upstreams.filterMap fun upstream =>
    match inBatch[upstream]? with
    | some schema => some schema
    | none => resolveUpstreamSchema upstream payload current

def validateDerivationExpressions (payload : List PayloadNode) (current : RegistryInner Expr)
    (state : Rule10 Expr) (nodeIdx : Nat) (derivation : DerivationDescriptor) : Rule10 Expr :=
  let schemas := upstreamSchemas payload current state.inBatch derivation
  if derivation.ops.isEmpty then
    state.propagated derivation.name
      (if schemas.isEmpty then derivation.schema else unionSchemas schemas)
  else if schemas.isEmpty then
    state.propagated derivation.name derivation.schema
  else if derivation.hasGroupBy then
    -- The chain is compiled without the `group_by`; the schema after the
    -- aggregation is the one the client sent.
    let state :=
      if derivation.rowOps.isEmpty then state
      else
        match OpChain.compile env (unionSchemas schemas) derivation.rowOps with
        | .ok (chain,_) => state.withChain derivation.name chain
        | .error failures => state.withErrors (compileErrors nodeIdx failures)
    state.propagated derivation.name derivation.schema
  else
    match OpChain.compile env (unionSchemas schemas) derivation.ops with
    | .ok (chain,finalSchema) =>
        (state.withChain derivation.name chain).propagated derivation.name finalSchema
    | .error failures =>
        { state.withErrors (compileErrors nodeIdx failures) with
          inBatch := state.inBatch.insert derivation.name derivation.schema }

def validateExpressions (payload : List PayloadNode) (current : RegistryInner Expr) :
    Rule10 Expr :=
  payload.zipIdx.foldl
    (fun state entry =>
      match entry.1 with
      | .derivation derivation =>
          validateDerivationExpressions env payload current state entry.2 derivation
      | _ => state)
    Rule10.start

/-! ### Aggregations -/

def upstreamIsTable (upstream : String) (payload : List PayloadNode)
    (current : RegistryInner Expr) : Bool :=
  current.tables.contains upstream ||
  (match current.derivations[upstream]? with
   | some derivation => derivation.outputKind = .table
   | none => false) ||
  payload.any fun node =>
    match node with
    | .table table => table.name = upstream
    | .derivation derivation => derivation.name = upstream && derivation.outputKind = .table
    | .event _ => false

/-- `resolve_bare_upstream_schema`: a derivation of the payload has the schema
rule 10 propagated. -/
def resolveBareUpstreamSchema (upstream : String) (payload : List PayloadNode)
    (current : RegistryInner Expr) (propagated : List (String × Schema)) : Option Schema :=
  match payload.find? fun node => node.name = upstream with
  | some (.derivation derivation) => some ((propagated.lookup upstream).getD derivation.schema)
  | some node => some node.schema
  | none => current.schemaOf upstream

def isEventUpstream (upstream : String) (payload : List PayloadNode)
    (current : RegistryInner Expr) : Bool :=
  match payload.find? fun node => node.name = upstream with
  | some (.event _) => true
  | some _ => false
  | none => current.events.contains upstream

/-- The event derivations of the payload whose only upstream is this event add
the fields the client declared for them. -/
def addSiblingFields (upstream : String) (fields : StrMap FieldType) (node : PayloadNode) :
    StrMap FieldType :=
  match node with
  | .derivation derivation =>
      if derivation.outputKind = .event && derivation.upstreams = [upstream] then
        derivation.schema.fields.toList.foldl
          (fun fields entry => fields.insert entry.1 entry.2) fields
      else fields
  | _ => fields

/-- `resolve_upstream_schema_for_agg`. -/
def resolveUpstreamSchemaForAgg (upstream : String) (payload : List PayloadNode)
    (current : RegistryInner Expr) (propagated : List (String × Schema)) : Option Schema :=
  (resolveBareUpstreamSchema upstream payload current propagated).map fun schema =>
    if isEventUpstream upstream payload current then
      { schema with fields := payload.foldl (addSiblingFields upstream) schema.fields }
    else schema

def groupKeyErrors (schema : Schema) (nodeIdx opIdx : Nat) (keys : List String) :
    List ValidationError :=
  keys.zipIdx.filterMap fun entry =>
    let path := s!"nodes[{nodeIdx}].ops[{opIdx}].group_by[{entry.2}]"
    match schema.fields[entry.1]? with
    | none =>
        some ⟨.aggregationUnknownField,path,
          s!"group_by key '{entry.1}' does not exist in upstream schema"⟩
    | some .f64 =>
        some ⟨.aggregationUnknownField,path,
          s!"group_by key '{entry.1}' cannot be float-typed; cast to str/int/bool first"⟩
    | some _ => none

def compileFeatures (schema : Schema) (nodeIdx opIdx : Nat) (keys : List String) :
    List (String × AggSpec) → List ValidationError × List (NamedAggOp Expr)
  | [] => ([],[])
  | (featureName,spec) :: rest =>
      let later := compileFeatures schema nodeIdx opIdx keys rest
      match compileFeature env schema nodeIdx opIdx keys featureName spec with
      | .ok feature => (later.1,feature :: later.2)
      | .error errors => (errors ++ later.1,later.2)

/-- The schema a `group_by` reads: with operators before it, what they make of
the bare upstream schema; `none` skips the aggregation. -/
def groupBySchema (payload : List PayloadNode) (current : RegistryInner Expr)
    (propagated : List (String × Schema)) (upstream : String) (prefixOps : List OpNode) :
    Option Schema :=
  if prefixOps.isEmpty then resolveUpstreamSchemaForAgg upstream payload current propagated
  else
    match resolveBareUpstreamSchema upstream payload current propagated with
    | none => none
    | some bare =>
        match propagateSchema env bare prefixOps with
        | .ok schema => some schema
        | .error _ => none

/-- One `group_by` of a derivation. -/
def compileGroupBy (payload : List PayloadNode) (current : RegistryInner Expr)
    (propagated : List (String × Schema)) (nodeIdx : Nat) (derivation : DerivationDescriptor)
    (opIdx : Nat) (keys : List String) (agg : StrMap AggSpec) :
    List ValidationError × Option (AggregationDescriptor Expr) :=
  match derivation.upstreams.head? with
  | none =>
      ([⟨.aggregationOnTableNotSupported,s!"nodes[{nodeIdx}].upstreams",
        "aggregation derivation must have at least one upstream"⟩],none)
  | some upstream =>
      if upstreamIsTable upstream payload current then
        ([⟨.aggregationOnTableNotSupported,s!"nodes[{nodeIdx}].upstreams[0]",
          s!"aggregation source '{upstream}' is a Table; " ++
            "aggregation on Table is not supported in v0 (SDK-AGG-05)"⟩],none)
      else
        let prefixOps := (derivation.ops.take opIdx).filter fun op => !op.isGroupBy
        match groupBySchema env payload current propagated upstream prefixOps with
        | none => ([],none)
        | some schema =>
            let compiled := compileFeatures env schema nodeIdx opIdx keys agg.toList
            let errors := groupKeyErrors schema nodeIdx opIdx keys ++ compiled.1
            if errors.isEmpty then
              ([],some
                { nodeName := derivation.name
                  sourceNodeName := upstream
                  groupKeys := keys
                  features := compiled.2
                  aggId := 0
                  fieldNames := []
                  clusterId := 0 })
            else (errors,none)

/-- The aggregations of one derivation, one for each `group_by`. -/
def compileDerivation (payload : List PayloadNode) (current : RegistryInner Expr)
    (propagated : List (String × Schema)) (nodeIdx : Nat) (derivation : DerivationDescriptor) :
    List ValidationError × List (String × AggregationDescriptor Expr) :=
  let results := derivation.ops.zipIdx.filterMap fun entry =>
    match entry.1 with
    | .groupBy keys agg =>
        some (compileGroupBy env payload current propagated nodeIdx derivation entry.2 keys agg)
    | _ => none
  (results.flatMap Prod.fst,
   results.filterMap fun result => result.2.map fun agg => (derivation.name,agg))

/-- Feature names of the payload with the aggregation that declared them first. -/
structure NewFeatures where
  owners : StrMap String
  errors : List ValidationError

def addNewFeature (nodeName : String) (state : NewFeatures) (featureName : String) :
    NewFeatures :=
  match state.owners[featureName]? with
  | some existing =>
      if existing = nodeName then state
      else
        { state with
          errors := state.errors ++
            [⟨.aggregationFeatureNameCollisionAcrossAggregations,
              s!"nodes.{nodeName}.features.{featureName}",
              s!"feature name '{featureName}' is already defined by aggregation '{existing}'; " ++
                "feature names must be globally unique across aggregations"⟩] }
  | none => { state with owners := state.owners.insert featureName nodeName }

def newFeatures (compiled : List (String × AggregationDescriptor Expr)) : NewFeatures :=
  compiled.foldl
    (fun state entry =>
      (entry.2.features.map NamedAggOp.featureName).foldl (addNewFeature entry.1) state)
    ⟨∅,[]⟩

def registeredCollisions (owners : StrMap String) (current : RegistryInner Expr) :
    List ValidationError :=
  owners.toList.filterMap fun entry =>
    match current.featureIndex[entry.1]? with
    | some (existing,_) =>
        if existing = entry.2 then none
        else some ⟨.aggregationFeatureNameCollisionAcrossAggregations,
          s!"nodes.{entry.2}.features.{entry.1}",
          s!"feature name '{entry.1}' is already registered by aggregation '{existing}'; " ++
            "feature names must be globally unique across aggregations"⟩
    | none => none

/-- `compile_aggregations_from_nodes`. -/
def compileAggregationsFromNodes (payload : List PayloadNode) (current : RegistryInner Expr)
    (propagated : List (String × Schema)) :
    List (String × AggregationDescriptor Expr) × List ValidationError :=
  let results := payload.zipIdx.filterMap fun entry =>
    match entry.1 with
    | .derivation derivation =>
        some (compileDerivation env payload current propagated entry.2 derivation)
    | _ => none
  let errors := results.flatMap Prod.fst
  let compiled := results.flatMap Prod.snd
  if errors.isEmpty then
    let features := newFeatures compiled
    (compiled,features.errors ++ registeredCollisions features.owners current)
  else (compiled,errors)

structure ValidatedPayload (Expr : Type) where
  nodes : List PayloadNode
  compiledChains : List (String × OpChain Expr)
  propagatedSchemas : List (String × Schema)
  compiledAggregations : List (String × AggregationDescriptor Expr)

def structuralErrors (current : RegistryInner Expr) (payload : List PayloadNode) :
    List ValidationError :=
  validateUniquenessWithinPayload payload ++
  payload.zipIdx.flatMap (fun entry => validateNode entry.2 entry.1) ++
  validateUpstreams payload current ++
  validateTopologicalOrder payload ++
  validateAcyclicity payload current

/-- `validate_payload`. -/
def validatePayload (current : RegistryInner Expr) (payload : List PayloadNode) :
    Except (List ValidationError) (ValidatedPayload Expr) :=
  if payload.isEmpty then .ok ⟨payload,[],[],[]⟩
  else
    match structuralErrors current payload with
    | [] =>
        let rule10 := validateExpressions env payload current
        match rule10.errors with
        | [] =>
            let rule11 :=
              compileAggregationsFromNodes env payload current rule10.propagatedSchemas
            match rule11.2 with
            | [] =>
                .ok ⟨payload,rule10.compiledChains,rule10.propagatedSchemas,rule11.1⟩
            | errors => .error errors
        | errors => .error errors
    | errors => .error errors

end Beava.Registry
