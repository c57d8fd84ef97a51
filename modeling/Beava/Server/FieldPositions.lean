/-
Positions of fields over sequences of register calls.

As long as no source has more than 256 names that its aggregations declare,
every position in every registry that calls reach is unset or the place of its
field.  One call with a wider table is enough to have a feature read another
column.
-/

import Beava.Registry.Positions
import Beava.Server.Extraction

namespace Beava.Server

open Beava.Core Beava.Apply Beava.Registry

variable {Expr : Type} {env : Env Expr}
variable {registry : RegistryInner Expr}

/-- What a register call makes of the registry; the flag is whether its append
to the log succeeds. -/
def registerStep (env : Env Expr) (registry : RegistryInner Expr) (call : RegisterCall × AppendOutcome) :
    RegistryInner Expr :=
  (dispatchRegister env registry call.1 call.2).registry

/-- If the payload is valid after the removals of the call, no source has more
than 256 names that the aggregations which stay and those of the payload declare. -/
def CallWithinByte (env : Env Expr) (registry : RegistryInner Expr) (call : RegisterCall × AppendOutcome) :
    Prop :=
  ∀ validated : ValidatedPayload Expr,
    validatePayload env (call.1.remaining env registry) call.1.parsedNodes = .ok validated →
      DeclaresWithinByte (call.1.remaining env registry) validated

/-- The positions of every aggregation, in every registry that is reached. -/
structure AllPlaced (registry : RegistryInner Expr) : Prop where
  fresh : FreshUnlessResolved registry
  placed : ∀ (name : String) (agg : AggregationDescriptor Expr),
    registry.compiledAggregations[name]? = some agg → Placed registry agg

theorem allPlaced_empty : AllPlaced (.empty : RegistryInner Expr) where
  fresh := freshUnlessResolved_empty
  placed name agg compiled := by
    simp [RegistryInner.empty] at compiled

theorem Removed.allPlaced {names : List String} {before after : RegistryInner Expr}
    (removed : Removed names before after) (closed : SourcesClosed names before)
    (allPlaced : AllPlaced before) : AllPlaced after where
  fresh name agg compiled notResolved := by
    obtain ⟨-,compiledBefore,sameSource⟩ := removed.survivor closed compiled
    apply allPlaced.fresh name agg compiledBefore
    rw [← notResolved]
    exact (resolvedIn_congr rfl (by rw [sameSource])).symm
  placed name agg compiled := by
    obtain ⟨-,compiledBefore,sameSource⟩ := removed.survivor closed compiled
    exact (allPlaced.placed name agg compiledBefore).congr sameSource

theorem AllPlaced.step (reached : Reached env registry) (allPlaced : AllPlaced registry)
    {call : RegisterCall × AppendOutcome} (within : CallWithinByte env registry call) :
    AllPlaced (registerStep env registry call) := by
  have remaining : AllPlaced (call.1.remaining env registry) :=
    (remaining_removed reached.wellFormed call.1).allPlaced
      (removedNames_sourcesClosed reached.wellFormed call.1) allPlaced
  refine dispatchRegister_keeps allPlaced remaining fun validated applied _ => ?_
  have wellFormed := remaining_wellFormed reached.wellFormed call.1
  constructor
  · exact applyRegistration_fresh wellFormed applied.validates remaining.fresh
  · intro name agg compiled
    exact applyRegistration_placed wellFormed applied.validates
      (within validated applied.accepted) remaining.fresh remaining.placed compiled

theorem run_allPlaced {calls : List (RegisterCall × AppendOutcome)} (reached : Reached env registry)
    (allPlaced : AllPlaced registry)
    (within : Machine.Meets (registerStep env) (CallWithinByte env) registry calls) :
    AllPlaced (Machine.run (registerStep env) registry calls) := by
  induction calls generalizing registry with
  | nil => exact allPlaced
  | cons call rest ih =>
      exact ih (reached.step call.1 call.2) (allPlaced.step reached within.1) within.2

def columnSpec (column : String) : AggSpec :=
  AggSpec.mk "last" (.object [("field",.string column)])

def columnFeature (column : String) : NamedAggOp Empty :=
  assembleFeature column .last (extractAggParams sampleEnv (columnSpec column).params) none none

def columnEvent (columns : List String) : EventDescriptor :=
  { name := "E"
    schema :=
      ⟨mapOfList ((columns.map fun column => (column,FieldType.i64)) ++ [("k",FieldType.str)]),
        []⟩
    dedupeKey := none
    dedupeWindowMs := none
    keepEventsForMs := none
    coldAfterMs := none
    registeredAtVersion := 0
    applyFieldNames := [] }

/-- The features by name. -/
def columnSpecs (columns : List String) : StrMap AggSpec :=
  mapOfList (columns.map fun column => (column,columnSpec column))

def columnTable (columns : List String) : DerivationDescriptor :=
  { name := "T"
    outputKind := .table
    upstreams := ["E"]
    ops := [.groupBy ["k"] (columnSpecs columns)]
    schema := ⟨.ofList [("k",FieldType.str)],[]⟩
    tablePrimaryKey := some ["k"]
    registeredAtVersion := 0 }

def columnNodes (columns : List String) : List PayloadNode :=
  [.event (columnEvent columns),.derivation (columnTable columns)]

def columnNames (columns : List String) : List String :=
  (columnSpecs columns).toList.map Prod.fst

/-- What the table compiles to. -/
def columnAgg (columns : List String) : AggregationDescriptor Empty :=
  { nodeName := "T"
    sourceNodeName := "E"
    groupKeys := ["k"]
    features := (columnNames columns).map columnFeature
    aggId := 0
    fieldNames := []
    clusterId := 0 }

section Columns

variable (columns : List String)
variable {column : String} {agg : AggregationDescriptor Empty}
variable {schema : Schema}

theorem mem_columnSpecs {columns : List String} {entry : String × AggSpec}
    (member : entry ∈ (columnSpecs columns).toList) :
    entry.1 ∈ columns ∧ entry.2 = columnSpec entry.1 := by
  obtain ⟨name,spec⟩ := entry
  have found := Std.ExtTreeMap.mem_toList_iff_getElem?_eq_some.mp member
  rcases KeyMap.insertAll_eq_some found with inEntries | ⟨-,inEmpty⟩
  · obtain ⟨column,isColumn,same⟩ := List.mem_map.mp inEntries
    cases same
    exact ⟨isColumn,rfl⟩
  · simp at inEmpty

theorem mem_columnNames {columns : List String} :
    column ∈ columnNames columns ↔ column ∈ columns := by
  constructor
  · intro member
    obtain ⟨entry,inSpecs,rfl⟩ := List.mem_map.mp member
    exact (mem_columnSpecs inSpecs).1
  · intro isColumn
    have present : (columnSpecs columns)[column]?.isSome = true := by
      apply KeyMap.isSome_insertAll
      rw [List.map_map]
      exact List.mem_map.mpr ⟨column,isColumn,rfl⟩
    obtain ⟨spec,found⟩ := Option.isSome_iff_exists.mp present
    exact List.mem_map.mpr
      ⟨(column,spec),Std.ExtTreeMap.mem_toList_iff_getElem?_eq_some.mpr found,rfl⟩

theorem columnEvent_key :
    (columnEvent columns).schema.fields["k"]? = some FieldType.str := by
  show (KeyMap.insertAll ∅ (_ ++ [("k",FieldType.str)]))["k"]? = some FieldType.str
  rw [KeyMap.insertAll,List.foldl_append,List.foldl_cons,List.foldl_nil,
    KeyMap.lookup_insert_self]

theorem columnEvent_contains {columns : List String} (isColumn : column ∈ columns) :
    (columnEvent columns).schema.fields.contains column = true := by
  rw [Std.ExtTreeMap.contains_eq_isSome_getElem?]
  apply KeyMap.isSome_insertAll
  rw [List.map_append,List.map_map]
  exact List.mem_append_left _ (List.mem_map.mpr ⟨column,isColumn,rfl⟩)

theorem columnEvent_valid : validateNode 0 (.event (columnEvent columns)) = [] := by
  have notEmpty : (columnEvent columns).schema.fields.isEmpty = false := by
    rw [Std.ExtTreeMap.isEmpty_eq_false_iff]
    intro isEmpty
    have noKey := columnEvent_key columns
    rw [isEmpty,Std.ExtTreeMap.getElem?_empty] at noKey
    cases noKey
  have named : validateDescriptorName (PayloadNode.event (columnEvent columns)).name = none := by
    show validateDescriptorName "E" = none
    decide
  simp only [validateNode,validateNodeName,named,validateEvent,notEmpty]
  rfl

theorem columnTable_valid : validateNode 1 (.derivation (columnTable columns)) = [] := by
  have someOp : (columnTable columns).ops.isEmpty = false := rfl
  have keyed : (columnTable columns).tablePrimaryKey.isNone = false := rfl
  have named :
      validateDescriptorName (PayloadNode.derivation (columnTable columns)).name = none := by
    show validateDescriptorName "T" = none
    decide
  simp only [validateNode,validateNodeName,named,validateDerivationStruct,someOp,keyed,
    Bool.and_false,Bool.false_eq_true,if_false,List.append_nil]

theorem columnNodes_structural :
    structuralErrors (.empty : RegistryInner Empty) (columnNodes columns) = [] := by
  have unique : validateUniquenessWithinPayload (columnNodes columns) = [] := by
    simp [validateUniquenessWithinPayload,columnNodes,uniquenessErrors,PayloadNode.name,
      columnEvent,columnTable]
  have nodes : ((columnNodes columns).zipIdx.flatMap fun entry =>
      validateNode entry.2 entry.1) = [] := by
    simp only [columnNodes,List.zipIdx_cons,List.zipIdx_nil,List.flatMap_cons,
      List.flatMap_nil,Nat.zero_add,columnEvent_valid,columnTable_valid,List.append_nil]
  have upstreams : validateUpstreams (columnNodes columns) (.empty : RegistryInner Empty) = [] := by
    simp [validateUpstreams,upstreamErrors,columnNodes,columnTable,PayloadNode.name,
      columnEvent]
  have ordered : validateTopologicalOrder (columnNodes columns) = [] := by
    have upstreamAt : (payloadIndex (columnNodes columns))["E"]? = some 0 := by
      have sameIndex : payloadIndex (columnNodes columns) = payloadIndex (columnNodes []) := rfl
      rw [sameIndex]
      decide
    simp only [validateTopologicalOrder,upstreamErrors,columnNodes,List.zipIdx_cons,
      List.zipIdx_nil,List.flatMap_cons,List.flatMap_nil] at upstreamAt ⊢
    have upstreams : (columnTable columns).upstreams = ["E"] := rfl
    simp [upstreams,upstreamAt]
  have acyclic : validateAcyclicity (columnNodes columns) (.empty : RegistryInner Empty) = [] := by
    have graph : overlayGraph (columnNodes columns) (.empty : RegistryInner Empty) =
        overlayGraph (columnNodes []) .empty := rfl
    have noCycle : findCycle (overlayGraph (columnNodes []) (.empty : RegistryInner Empty)) =
        none := by decide
    rw [validateAcyclicity,graph,noCycle]
  simp only [structuralErrors,unique,nodes,upstreams,ordered,acyclic,List.append_nil]

theorem compileFeature_column {nodeIdx opIdx : Nat} (known : schema.fields.contains column = true)
    (notKey : column ≠ "k") :
    compileFeature sampleEnv schema nodeIdx opIdx ["k"] column (columnSpec column) =
      .ok (columnFeature column) := by
  have free : ["k"].contains column = false := by simpa using notKey
  have kindOk : ∀ path, checkKind path (columnSpec column).op = .ok .last := fun path => rfl
  have keyOk : ∀ path, checkKeyCollision path column ["k"] = .ok () := by
    intro path
    rw [checkKeyCollision,free]
    rfl
  have fieldOk : ∀ path, checkField schema path (columnSpec column).op .last
      (extractAggParams sampleEnv (columnSpec column).params) = .ok () := by
    intro path
    have field : (extractAggParams sampleEnv (columnSpec column).params).field = some column := rfl
    simp only [checkField,field,known]
    rfl
  simp only [compileFeature,kindOk,keyOk,fieldOk,bind,Except.bind]
  rfl

theorem compileFeatures_columns {nodeIdx opIdx : Nat}
    {specs : List (String × AggSpec)}
    (good : ∀ entry ∈ specs, entry.2 = columnSpec entry.1 ∧
      schema.fields.contains entry.1 = true ∧ entry.1 ≠ "k") :
    compileFeatures sampleEnv schema nodeIdx opIdx ["k"] specs =
      ([],(specs.map Prod.fst).map columnFeature) := by
  induction specs with
  | nil => rfl
  | cons entry rest ih =>
      obtain ⟨name,spec⟩ := entry
      obtain ⟨isSpec,known,notKey⟩ := good (name,spec) List.mem_cons_self
      simp only at isSpec known notKey
      rw [compileFeatures,ih fun entry member => good entry (List.mem_cons_of_mem _ member),
        isSpec,compileFeature_column known notKey]
      rfl

theorem columns_groupBy {columns : List String} (noKey : "k" ∉ columns) (propagated) :
    compileGroupBy sampleEnv (columnNodes columns) .empty propagated 1 (columnTable columns) 0
      ["k"] (columnSpecs columns) = ([],some (columnAgg columns)) := by
  have source : (columnTable columns).upstreams.head? = some "E" := rfl
  have notTable : upstreamIsTable "E" (columnNodes columns) (.empty : RegistryInner Empty) =
      false := by
    simp [upstreamIsTable,columnNodes,columnTable,RegistryInner.empty]
  have schema : groupBySchema sampleEnv (columnNodes columns) .empty propagated "E" [] =
      some (columnEvent columns).schema := rfl
  have keys : groupKeyErrors (columnEvent columns).schema 1 0 ["k"] = [] := by
    simp only [groupKeyErrors,List.zipIdx_cons,List.zipIdx_nil,List.filterMap_cons,
      List.filterMap_nil,columnEvent_key]
  have features : compileFeatures sampleEnv (columnEvent columns).schema 1 0 ["k"]
      (columnSpecs columns).toList = ([],(columnNames columns).map columnFeature) := by
    apply compileFeatures_columns
    intro entry member
    obtain ⟨isColumn,isSpec⟩ := mem_columnSpecs member
    exact ⟨isSpec,columnEvent_contains isColumn,fun isKey => noKey (isKey ▸ isColumn)⟩
  have noPrefix : ((columnTable columns).ops.take 0).filter (fun op => !op.isGroupBy) = [] := rfl
  unfold compileGroupBy
  rw [source]
  simp only [notTable,noPrefix,schema,keys,features,Bool.false_eq_true,if_false,
    List.append_nil,List.isEmpty_nil,if_true]
  rfl

theorem foldl_addNewFeature_one {nodeName : String} {names : List String} {state : NewFeatures}
    (owners : ∀ (feature owner : String), state.owners[feature]? = some owner → owner = nodeName)
    (noErrors : state.errors = []) :
    (names.foldl (addNewFeature nodeName) state).errors = [] := by
  induction names generalizing state with
  | nil => exact noErrors
  | cons name rest ih =>
      rw [List.foldl_cons]
      cases found : state.owners[name]? with
      | some existing =>
          have unchanged : addNewFeature nodeName state name = state := by
            simp only [addNewFeature,found,owners name existing found,if_true]
          rw [unchanged]
          exact ih owners noErrors
      | none =>
          apply ih
          · intro feature owner isOwner
            simp only [addNewFeature,found,KeyMap.lookup_insert] at isOwner
            split at isOwner
            · exact (Option.some.inj isOwner).symm
            · exact owners feature owner isOwner
          · simp only [addNewFeature,found,noErrors]

theorem columns_aggregations {columns : List String} (noKey : "k" ∉ columns) (propagated) :
    compileAggregationsFromNodes sampleEnv (columnNodes columns) .empty propagated =
      ([("T",columnAgg columns)],[]) := by
  have derivation : compileDerivation sampleEnv (columnNodes columns) .empty propagated 1
      (columnTable columns) = ([],[("T",columnAgg columns)]) := by
    have ops : (columnTable columns).ops = [.groupBy ["k"] (columnSpecs columns)] := rfl
    simp only [compileDerivation,ops,List.zipIdx_cons,List.zipIdx_nil,List.filterMap_cons,
      List.filterMap_nil,columns_groupBy noKey,List.flatMap_cons,List.flatMap_nil,
      List.append_nil,Option.map_some]
    rfl
  have features : (newFeatures [("T",columnAgg columns)]).errors = [] := by
    rw [newFeatures,List.foldl_cons,List.foldl_nil]
    apply foldl_addNewFeature_one
    · intro feature owner found
      simp at found
    · rfl
  have noCollisions : ∀ owners : StrMap String,
      registeredCollisions owners (.empty : RegistryInner Empty) = [] := by
    intro owners
    simp [registeredCollisions,RegistryInner.empty]
  simp only [compileAggregationsFromNodes,columnNodes,List.zipIdx_cons,List.zipIdx_nil,
    List.filterMap_cons,List.filterMap_nil,Nat.zero_add,List.flatMap_cons,List.flatMap_nil]
  have derived := derivation
  simp only [columnNodes] at derived
  simp only [derived,List.append_nil,List.isEmpty_nil,if_true,features,noCollisions]

def columnCall (columns : List String) : RegisterCall := ⟨columnNodes columns,false,false⟩

def columnValidated (columns : List String) : ValidatedPayload Empty :=
  { nodes := columnNodes columns
    compiledChains := []
    propagatedSchemas := [("T",(columnTable columns).schema)]
    compiledAggregations := [("T",columnAgg columns)] }

theorem columns_accepted {columns : List String} (noKey : "k" ∉ columns) :
    Accepted sampleEnv .empty (columnNodes columns) (columnValidated columns) := by
  have expressions : validateExpressions sampleEnv (columnNodes columns) .empty =
      Rule10.start.propagated "T" (columnTable columns).schema := rfl
  constructor
  · exact columnNodes_structural columns
  · rw [expressions]
    rfl
  · rw [columns_aggregations noKey]
  · rw [columns_aggregations noKey,expressions]
    rfl

theorem columns_registered {columns : List String} (noKey : "k" ∉ columns) :
    dispatchRegister sampleEnv .empty (columnCall columns) .durable =
      ⟨applyRegistration sampleEnv .empty (columnValidated columns),
        some ⟨1,columnNodes columns,[]⟩,.success 1 ["E","T"] ["T","E"] []⟩ := by
  have validated : validatePayload sampleEnv .empty (columnNodes columns) =
      .ok (columnValidated columns) :=
    validatePayload_of_accepted sampleEnv (List.cons_ne_nil _ _) (columns_accepted noKey)
  have diff : classifyRegisterDiff sampleEnv.debugStr (.empty : RegistryInner Empty)
      (columnNodes columns) =
        ⟨[.newDescriptor "derivation" "T",.newDescriptor "event" "E"],[],[]⟩ := by
    have sameDiff : classifyRegisterDiff sampleEnv.debugStr (.empty : RegistryInner Empty)
        (columnNodes columns) =
          classifyRegisterDiff sampleEnv.debugStr .empty (columnNodes []) := rfl
    rw [sameDiff]
    decide
  have executed : executeRegister sampleEnv .empty (columnNodes columns) [] .durable =
      ⟨applyRegistration sampleEnv .empty (columnValidated columns),
        some ⟨1,columnNodes columns,[]⟩,.success 1 ["E","T"] ["T","E"] []⟩ := by
    have notEmpty : (columnNodes columns).isEmpty = false := rfl
    have nodes : (columnValidated columns).nodes = columnNodes columns := rfl
    simp only [executeRegister,notEmpty,validated,nodes,diff]
    rfl
  have parsed : (columnCall columns).nodes.map PayloadNode.parsed = columnNodes columns := rfl
  have noTable : (columnNodes columns).find? (fun node => node.kindStr = "table") = none := rfl
  have notDry : (columnCall columns).dryRun = false := rfl
  have notForced : (columnCall columns).force = false := rfl
  simp only [dispatchRegister,parsed,noTable,diff,notDry,notForced,List.isEmpty_nil,
    Bool.not_true,Bool.false_and,Bool.false_eq_true,if_false,executed]

theorem features_of_core {columns : List String}
    (sameCore : aggCore agg = aggCore (columnAgg columns)) :
    agg.features.map declaredFeature = (columnNames columns).map columnFeature := by
  refine (congrArg AggregationDescriptor.features sameCore).trans ?_
  show ((columnNames columns).map columnFeature).map declaredFeature = _
  rw [List.map_map]
  rfl

theorem onlyFields_of_core {columns : List String}
    (sameCore : aggCore agg = aggCore (columnAgg columns)) :
    ∀ feature ∈ agg.features,
      declaredFields feature.descriptor = feature.descriptor.field.toList := by
  intro feature member
  have inDeclared : declaredFeature feature ∈ agg.features.map declaredFeature :=
    List.mem_map_of_mem member
  rw [features_of_core sameCore] at inDeclared
  obtain ⟨column,-,same⟩ := List.mem_map.mp inDeclared
  have fields : declaredFields (declaredFeature feature).descriptor = [column] := by
    rw [← same]
    rfl
  have field : (declaredFeature feature).descriptor.field = some column := by
    rw [← same]
    rfl
  have fieldEq : feature.descriptor.field = some column := field
  rw [fieldEq]
  exact fields

theorem aggFields_columnAgg (columns : List String) :
    aggFields (columnAgg columns) = columnNames columns := by
  show ((columnNames columns).map columnFeature).flatMap _ = _
  rw [List.flatMap_map]
  exact List.flatMap_singleton' (columnNames columns)

theorem columns_resolved {columns : List String} (noKey : "k" ∉ columns)
    (sameCore : aggCore agg = aggCore (columnAgg columns)) :
    resolvedIn (applyRegistration sampleEnv .empty (columnValidated columns)) agg = true := by
  have events := applyRegistration_events (wellFormed_empty sampleEnv) (columns_accepted noKey) "E"
  have entry : (columnNodes columns).findSome?
      (eventEntry (Batch.ofValidated .empty (columnValidated columns)) "E") =
        some (storedEvent (Batch.ofValidated (.empty : RegistryInner Empty)
          (columnValidated columns)) (columnEvent columns)) := rfl
  have noEvent : (RegistryInner.empty : RegistryInner Empty).events["E"]? = none := by
    simp [RegistryInner.empty]
  rw [entry,noEvent,Option.none_or,Option.map_some] at events
  obtain ⟨event,isEvent,sameEvent⟩ := Option.map_eq_some_iff.mp events
  have sameSchema : event.schema = (columnEvent columns).schema := by
    have coreSchema := congrArg EventDescriptor.schema sameEvent
    exact coreSchema
  have source : agg.sourceNodeName = "E" := sourceNodeName_of_core sameCore
  rw [resolvedIn,source,isEvent]
  simp only [sameSchema,Option.isNone_iff_eq_none]
  rw [missingField_eq_of_core sameCore,missingField,List.findSome?_eq_none_iff]
  intro feature member
  obtain ⟨column,isName,rfl⟩ := List.mem_map.mp member
  have known := columnEvent_contains (mem_columnNames.mp isName)
  have found : ∀ label, reportMissing (columnAgg columns) (columnEvent columns).schema
      (columnFeature column) label column = none := by
    intro label
    rw [reportMissing,if_pos known]
  have field : (columnFeature column).descriptor.field = some column := rfl
  have noLat : (columnFeature column).descriptor.ext.latField = none := rfl
  have noLon : (columnFeature column).descriptor.ext.lonField = none := rfl
  simp only [missingFieldOf,field,noLat,noLon,Option.bind_some,Option.bind_none,found,
    Option.or_none]

theorem columns_core {columns : List String} (noKey : "k" ∉ columns) :
    (applyRegistration sampleEnv .empty
      (columnValidated columns)).compiledAggregations["T"]?.map aggCore =
        some (aggCore (columnAgg columns)) := by
  have inBatch : (Batch.ofValidated (.empty : RegistryInner Empty)
      (columnValidated columns)).aggs["T"]? = some (columnAgg columns) :=
    KeyMap.lookup_insert_self _ _ _
  have entry : (columnNodes columns).findSome?
      (derivationEntry (Batch.ofValidated .empty (columnValidated columns)) "T") =
        some (storedDerivation (Batch.ofValidated (.empty : RegistryInner Empty)
          (columnValidated columns)) (columnTable columns)) := rfl
  have noDerivation : (RegistryInner.empty : RegistryInner Empty).derivations["T"]? = none := by
    simp [RegistryInner.empty]
  rw [applyRegistration_aggs (wellFormed_empty sampleEnv) (columns_accepted noKey),entry,
    aggAfter,noDerivation]
  simp only [Option.bind_some,inBatch,Option.map_some]

theorem registryAfter_columnCall {columns : List String} (noKey : "k" ∉ columns) :
    registryAfter sampleEnv [(columnCall columns,.durable)] =
      applyRegistration sampleEnv .empty (columnValidated columns) :=
  congrArg RegisterResult.registry (columns_registered noKey)

theorem columns_beyond {columns : List String} (distinct : columns.Nodup)
    (noKey : "k" ∉ columns) (wide : 256 < columns.length) :
    ∃ agg feature,
      (registryAfter sampleEnv [(columnCall columns,.durable)]).compiledAggregations["T"]? =
        some agg ∧ feature ∈ agg.features ∧
          ¬ IndexTrue agg.fieldNames feature.descriptor.field feature.descriptor.fieldIdx := by
  rw [registryAfter_columnCall noKey]
  obtain ⟨agg,compiled,sameCore⟩ := Option.map_eq_some_iff.mp (columns_core noKey)
  obtain ⟨before,schema,sourceNames,succeeded⟩ :=
    applyRegistration_resolved (wellFormed_empty sampleEnv) (columns_accepted noKey)
      (fun name => by simp [RegistryInner.empty]) compiled (columns_resolved noKey sameCore)
  have beyond : 256 < (aggFields agg).dedup.length := by
    rw [aggFields_eq_of_core sameCore,aggFields_columnAgg]
    refine Nat.lt_of_lt_of_le wide (distinct.subperm ?_).length_le
    intro column isColumn
    exact List.mem_dedup.mpr (mem_columnNames.mpr isColumn)
  obtain ⟨feature,member,wrong⟩ :=
    resolveFieldIndices_beyond succeeded (onlyFields_of_core sameCore) beyond
  exact ⟨agg,feature,compiled,member,wrong⟩

theorem columns_within {columns : List String} (noKey : "k" ∉ columns)
    (narrow : columns.length ≤ 256) :
    CallWithinByte sampleEnv .empty (columnCall columns,.durable) := by
  intro validated ok source
  have isValidated : validatePayload sampleEnv .empty (columnNodes columns) =
      .ok (columnValidated columns) :=
    validatePayload_of_accepted sampleEnv (List.cons_ne_nil _ _) (columns_accepted noKey)
  cases Except.ok.inj (isValidated.symm.trans ok)
  refine Nat.le_trans ?_ narrow
  refine ((List.nodup_dedup _).subperm ?_).length_le
  intro name member
  obtain ⟨agg,isAgg,inFields⟩ := List.mem_flatMap.mp (List.mem_dedup.mp member)
  have inBatch : agg ∈ (columnValidated columns).compiledAggregations.map Prod.snd := by
    rcases List.mem_append.mp isAgg with registered | compiled
    · have nothing : ((columnCall columns).remaining sampleEnv
          .empty).aggregationsForSource source = [] := by
        simp [RegisterCall.remaining,RegisterCall.removedNames,columnCall,
          forceRemoveDescriptors,RegistryInner.aggregationsForSource,RegistryInner.empty]
      rw [nothing] at registered
      cases registered
    · exact (List.mem_filter.mp compiled).1
  have isColumnAgg : agg = columnAgg columns := List.mem_singleton.mp inBatch
  have fields : name ∈ aggFields (columnAgg columns) := isColumnAgg ▸ inFields
  rw [aggFields_columnAgg] at fields
  exact mem_columnNames.mp fields

end Columns

/-- Along a run of calls within the bound every index is unset or the place of
its field. -/
theorem field_indices_true (env : Env Expr) (calls : List (RegisterCall × AppendOutcome))
    (within : Machine.Meets (registerStep env) (CallWithinByte env) .empty calls) (count : Nat)
    (name : String) (agg : AggregationDescriptor Expr)
    (compiled : (registryAfter env (calls.take count)).compiledAggregations[name]? = some agg)
    (feature : NamedAggOp Expr) (member : feature ∈ agg.features) :
    IndicesTrue agg.fieldNames
      (sourceNames (registryAfter env (calls.take count)) agg.sourceNodeName)
      feature.descriptor := by
  have allPlaced := run_allPlaced reached_empty allPlaced_empty (within.take _ count)
  exact (allPlaced.placed name agg compiled).indicesTrue member

theorem field_indices_true_two :
    ∃ agg feature,
      (registryAfter sampleEnv [(columnCall ["x","y"],.durable)]).compiledAggregations["T"]? =
        some agg ∧ feature ∈ agg.features ∧
          IndicesTrue agg.fieldNames
            (sourceNames (registryAfter sampleEnv [(columnCall ["x","y"],.durable)])
              agg.sourceNodeName)
            feature.descriptor := by
  have noKey : "k" ∉ ["x","y"] := by decide
  obtain ⟨agg,compiled,sameCore⟩ := Option.map_eq_some_iff.mp (columns_core noKey)
  rw [← registryAfter_columnCall noKey] at compiled
  have isFeature : declaredFeature (columnFeature "x") ∈ agg.features.map declaredFeature := by
    rw [features_of_core sameCore]
    exact List.mem_map_of_mem (mem_columnNames.mpr List.mem_cons_self)
  obtain ⟨feature,member,-⟩ := List.mem_map.mp isFeature
  exact ⟨agg,feature,compiled,member,
    field_indices_true sampleEnv [(columnCall ["x","y"],.durable)]
      ⟨columns_within noKey (by decide),trivial⟩ 1 "T" agg compiled feature member⟩

/-- The columns `c`, `cc`, `ccc` and so on. -/
def repeatedColumns (count : Nat) : List String :=
  (List.range count).map fun i => String.ofList (List.replicate (i + 1) 'c')

theorem repeatedColumns_nodup (count : Nat) : (repeatedColumns count).Nodup := by
  apply List.Nodup.map_on ?_ List.nodup_range
  intro first _ second _ same
  have lengths := congrArg List.length (String.ofList_inj.mp same)
  rw [List.length_replicate,List.length_replicate] at lengths
  omega

theorem repeatedColumns_noKey (count : Nat) : "k" ∉ repeatedColumns count := by
  intro isColumn
  obtain ⟨i,-,same⟩ := List.mem_map.mp isColumn
  have heads := congrArg (fun text : String => text.toList.head?) same
  simp [List.replicate_succ] at heads

/-- A table over 257 columns is registered, and one of its features has the
position of another column. -/
theorem wide_table_reads_another :
    (dispatchRegister sampleEnv .empty (columnCall (repeatedColumns 257))
        .durable).outcome.accepted = true ∧
      ∃ agg feature,
        (registryAfter sampleEnv
          [(columnCall (repeatedColumns 257),.durable)]).compiledAggregations["T"]? = some agg ∧
        feature ∈ agg.features ∧
          ¬ IndexTrue agg.fieldNames feature.descriptor.field feature.descriptor.fieldIdx := by
  constructor
  · rw [columns_registered (repeatedColumns_noKey 257)]
    rfl
  · apply columns_beyond (repeatedColumns_nodup 257) (repeatedColumns_noKey 257)
    rw [repeatedColumns,List.length_map,List.length_range]
    decide

end Beava.Server
