/-
Changes of the registry: registration, forced removal and reinstallation.

`applyRegistration` inserts what is absent and leaves what is present.  A new
aggregation gets an id, the cluster of its group keys and the positions of its
fields; afterwards the field positions of all aggregations of its source are
computed again.
-/

import Beava.Lib.KeyMap
import Beava.Registry.Validate

namespace Beava.Registry

open Beava.Core

variable {Expr : Type} (env : Env Expr)

/-! ### Field positions -/

def declaredFields (descriptor : AggOpDescriptor Expr) : List String :=
  descriptor.field.toList ++ descriptor.ext.latField.toList ++ descriptor.ext.lonField.toList

def reportMissing (agg : AggregationDescriptor Expr) (schema : Schema)
    (feature : NamedAggOp Expr) (label field : String) : Option String :=
  if schema.fields.contains field then none
  else some (s!"aggregation '{agg.nodeName}': {label} '{field}' referenced by feature " ++
    s!"'{feature.featureName}' is not in source schema for event '{agg.sourceNodeName}'")

def missingFieldOf (agg : AggregationDescriptor Expr) (schema : Schema)
    (feature : NamedAggOp Expr) : Option String :=
  let report := reportMissing agg schema feature
  ((feature.descriptor.field.bind (report "field")).or
    (feature.descriptor.ext.latField.bind (report "geo lat_field"))).or
    (feature.descriptor.ext.lonField.bind (report "geo lon_field"))

def missingField (agg : AggregationDescriptor Expr) (schema : Schema) : Option String :=
  agg.features.findSome? (missingFieldOf agg schema)

def positionOrPush (names : List String) (name : String) : List String × Nat :=
  match names.idxOf? name with
  | some position => (names,position)
  | none => (names ++ [name],names.length)

def assignField (names : List String) : Option String → List String × UInt8
  | some field => ((positionOrPush names field).1,UInt8.ofNat (positionOrPush names field).2)
  | none => (names,fieldIdxNone)

def assignCoordinates (names : List String) :
    Option String → Option String → List String × UInt8 × UInt8
  | some lat, some lon =>
      let latAt := positionOrPush names lat
      let lonAt := positionOrPush latAt.1 lon
      (lonAt.1,UInt8.ofNat latAt.2,UInt8.ofNat lonAt.2)
  | _, _ => (names,fieldIdxNone,fieldIdxNone)

/-- `field_idx`, `lat_idx` and `lon_idx` of one feature as positions in the
list of the aggregation's own fields. -/
def assignFeature (names : List String) (feature : NamedAggOp Expr) :
    List String × NamedAggOp Expr :=
  let ext := feature.descriptor.ext
  let afterField := assignField names feature.descriptor.field
  let afterGeo := assignCoordinates afterField.1 ext.latField ext.lonField
  (afterGeo.1,
   { feature with
     descriptor :=
       { feature.descriptor with
         fieldIdx := afterField.2
         fieldIdxIntoEventExtracted := []
         ext := { ext with latIdx := afterGeo.2.1, lonIdx := afterGeo.2.2 } } })

def assignFeatures : List String → List (NamedAggOp Expr) → List String × List (NamedAggOp Expr)
  | names, [] => (names,[])
  | names, feature :: rest =>
      let here := assignFeature names feature
      let later := assignFeatures here.1 rest
      (later.1,here.2 :: later.2)

def unionLookup (sourceUnion : List String) : StrMap UInt8 :=
  sourceUnion.zipIdx.foldl (fun lookup entry => lookup.insert entry.1 (UInt8.ofNat entry.2)) ∅

/-- The mapping from the aggregation's own positions to the source's positions;
the coordinates are re-pointed to the source's positions. -/
def mapFeature (names : List String) (lookup : StrMap UInt8) (feature : NamedAggOp Expr) :
    NamedAggOp Expr :=
  if (declaredFields feature.descriptor).isEmpty then feature
  else
    let ext := feature.descriptor.ext
    let geo : UInt8 × UInt8 :=
      match ext.latField.bind (lookup[·]?), ext.lonField.bind (lookup[·]?) with
      | some lat, some lon => (lat,lon)
      | _, _ => (ext.latIdx,ext.lonIdx)
    { feature with
      descriptor :=
        { feature.descriptor with
          fieldIdxIntoEventExtracted := names.map fun name => lookup.getD name fieldIdxNone
          ext := { ext with latIdx := geo.1, lonIdx := geo.2 } } }

/-- `resolve_field_indices_for_agg_mut_inner`. -/
def resolveFieldIndices (agg : AggregationDescriptor Expr) (schema : Schema)
    (sourceUnion : List String) : Except String (AggregationDescriptor Expr) :=
  match missingField agg schema with
  | some message => .error message
  | none =>
      let assigned := assignFeatures [] agg.features
      .ok { agg with
        fieldNames := assigned.1
        features :=
          if sourceUnion.isEmpty then assigned.2
          else assigned.2.map (mapFeature assigned.1 (unionLookup sourceUnion)) }

def resolveOrKeep (agg : AggregationDescriptor Expr) (schema : Schema)
    (sourceUnion : List String) : AggregationDescriptor Expr :=
  match resolveFieldIndices agg schema sourceUnion with
  | .ok resolved => resolved
  | .error _ => agg

def fieldUnion (aggs : List (AggregationDescriptor Expr)) : List String :=
  KeyMap.sortDedup compare
    (aggs.flatMap fun agg => agg.features.flatMap fun feature => declaredFields feature.descriptor)

/-! ### Registration -/

/-- What `validate_payload` produced, by name. -/
structure Batch (Expr : Type) where
  newVersion : Nat
  schemas : StrMap Schema
  chains : StrMap (OpChain Expr)
  aggs : StrMap (AggregationDescriptor Expr)
  compiled : List (String × AggregationDescriptor Expr)

def mapOfList {α : Type} (entries : List (String × α)) : StrMap α :=
  KeyMap.insertAll ∅ entries

def Batch.ofValidated (registry : RegistryInner Expr) (validated : ValidatedPayload Expr) :
    Batch Expr :=
  { newVersion := registry.version + 1
    schemas := mapOfList validated.propagatedSchemas
    chains := mapOfList validated.compiledChains
    aggs := mapOfList validated.compiledAggregations
    compiled := validated.compiledAggregations }

def Batch.aggsOf (batch : Batch Expr) (source : String) : List (AggregationDescriptor Expr) :=
  (batch.compiled.map Prod.snd).filter fun agg => agg.sourceNodeName = source

def installEvent (batch : Batch Expr) (registry : RegistryInner Expr) (event : EventDescriptor) :
    RegistryInner Expr :=
  if registry.events.contains event.name then registry
  else
    let fields :=
      if (batch.aggsOf event.name).isEmpty then event.applyFieldNames
      else fieldUnion (batch.aggsOf event.name)
    { registry with
      events := registry.events.insert event.name
        { event with
          registeredAtVersion := batch.newVersion
          applyFieldNames := fields } }

def installTable (batch : Batch Expr) (registry : RegistryInner Expr) (table : TableDescriptor) :
    RegistryInner Expr :=
  if registry.tables.contains table.name then registry
  else
    { registry with
      tables := registry.tables.insert table.name
        { table with registeredAtVersion := batch.newVersion } }

def assignCluster (registry : RegistryInner Expr) (keys : List String) :
    RegistryInner Expr × Nat :=
  let signature := env.clusterSignature keys
  match registry.clusterIdBySignature[signature]? with
  | some existing => (registry,existing)
  | none =>
      ({ registry with
         nextClusterId := registry.nextClusterId + 1
         clusterIdBySignature :=
           registry.clusterIdBySignature.insert signature registry.nextClusterId },
       registry.nextClusterId)

/-- The aggregation with its id, its cluster and, when its source is an event,
its field positions. -/
def numberAggregation (registry : RegistryInner Expr) (compiled : AggregationDescriptor Expr) :
    AggregationDescriptor Expr :=
  let numbered :=
    { compiled with
      aggId := registry.nextAggId
      clusterId := (assignCluster env registry compiled.groupKeys).2 }
  match registry.events[numbered.sourceNodeName]? with
  | some event => resolveOrKeep numbered event.schema event.applyFieldNames
  | none => numbered

def installAggregation (registry : RegistryInner Expr) (name : String)
    (compiled : AggregationDescriptor Expr) : RegistryInner Expr :=
  let agg := numberAggregation env registry compiled
  { (assignCluster env registry compiled.groupKeys).1 with
    nextAggId := registry.nextAggId + 1
    aggregationsBySource := registry.aggregationsBySource.insert agg.sourceNodeName
      (registry.aggregationsForSource agg.sourceNodeName ++ [agg])
    compiledAggregations := registry.compiledAggregations.insert name agg }

def installDerivation (batch : Batch Expr) (registry : RegistryInner Expr)
    (derivation : DerivationDescriptor) : RegistryInner Expr :=
  if registry.derivations.contains derivation.name then registry
  else
    let name := derivation.name
    let withChain :=
      match batch.chains[name]? with
      | some chain => { registry with compiledChains := registry.compiledChains.insert name chain }
      | none => registry
    let withAgg :=
      match batch.aggs[name]? with
      | some agg => installAggregation env withChain name agg
      | none => withChain
    { withAgg with
      derivations := withAgg.derivations.insert name
        { derivation with
          registeredAtVersion := batch.newVersion
          schema := batch.schemas.getD name derivation.schema } }

def installNode (batch : Batch Expr) (registry : RegistryInner Expr) (node : PayloadNode) :
    RegistryInner Expr :=
  match node with
  | .event event => installEvent batch registry event
  | .table table => installTable batch registry table
  | .derivation derivation => installDerivation env batch registry derivation

def newAggNames (batch : Batch Expr) (registry : RegistryInner Expr) :
    List PayloadNode → List String
  | [] => []
  | node :: rest =>
      let later := newAggNames batch (installNode env batch registry node) rest
      match node with
      | .derivation derivation =>
          if !registry.derivations.contains derivation.name &&
              batch.aggs.contains derivation.name then
            derivation.name :: later
          else later
      | _ => later

/-- The fields of a source and the positions in all its aggregations are
computed anew. -/
def refreshSource (registry : RegistryInner Expr) (source : String) : RegistryInner Expr :=
  let aggs := registry.aggregationsForSource source
  let fields := fieldUnion aggs
  match registry.events[source]? with
  | none => registry
  | some event =>
      let resolved := aggs.map fun agg => resolveOrKeep agg event.schema fields
      { registry with
        events := registry.events.insert source { event with applyFieldNames := fields }
        aggregationsBySource := registry.aggregationsBySource.modify source fun _ => resolved
        compiledAggregations :=
          KeyMap.replaceAll AggregationDescriptor.nodeName registry.compiledAggregations resolved }

def affectedSources (registry : RegistryInner Expr) (names : List String) : List String :=
  KeyMap.sortDedup compare
    (names.filterMap fun name =>
      registry.compiledAggregations[name]?.map AggregationDescriptor.sourceNodeName)

def indexEntries (registry : RegistryInner Expr) (name : String) :
    List (String × String × Nat) :=
  match registry.compiledAggregations[name]? with
  | some agg => agg.features.zipIdx.map fun entry => (entry.1.featureName,name,entry.2)
  | none => []

def indexFeatures (registry : RegistryInner Expr) (names : List String) : RegistryInner Expr :=
  { registry with
    featureIndex := (names.flatMap (indexEntries registry)).foldl
      (fun index entry => index.insertIfNew entry.1 entry.2) registry.featureIndex }

def applyRegistration (registry : RegistryInner Expr) (validated : ValidatedPayload Expr) :
    RegistryInner Expr :=
  let batch := Batch.ofValidated registry validated
  let names := newAggNames env batch registry validated.nodes
  let installed := validated.nodes.foldl (installNode env batch) registry
  let refreshed := (affectedSources installed names).foldl refreshSource installed
  { indexFeatures refreshed names with version := batch.newVersion }

def dropAggregation (registry : RegistryInner Expr) (name : String) : RegistryInner Expr :=
  match registry.compiledAggregations[name]? with
  | none => registry
  | some agg =>
      { registry with
        compiledAggregations := registry.compiledAggregations.erase name
        aggregationsBySource := registry.aggregationsBySource.modify agg.sourceNodeName
          fun aggs => aggs.filter fun other => other.nodeName ≠ agg.nodeName
        featureIndex := registry.featureIndex.filter fun _ owner => owner.1 ≠ agg.nodeName }

def forceRemoveDescriptor (registry : RegistryInner Expr) (name : String) : RegistryInner Expr :=
  dropAggregation
    { registry with
      events := registry.events.erase name
      tables := registry.tables.erase name
      derivations := registry.derivations.erase name
      compiledChains := registry.compiledChains.erase name }
    name

/-- `force_remove_descriptors`. -/
def forceRemoveDescriptors (registry : RegistryInner Expr) (names : List String) :
    RegistryInner Expr :=
  names.foldl forceRemoveDescriptor registry

/-- `clear`; the counters keep their values. -/
def RegistryInner.clear (registry : RegistryInner Expr) : RegistryInner Expr :=
  { RegistryInner.empty with
    version := registry.version + 1
    nextAggId := registry.nextAggId
    nextClusterId := registry.nextClusterId }

/-- `RegistryDescriptorsOnly`. -/
structure RegistryDescriptorsOnly where
  version : Nat
  events : StrMap EventDescriptor
  tables : StrMap TableDescriptor
  derivations : StrMap DerivationDescriptor

def RegistryDescriptorsOnly.ofRegistry (registry : RegistryInner Expr) :
    RegistryDescriptorsOnly :=
  { version := registry.version
    events := registry.events
    tables := registry.tables
    derivations := registry.derivations }

def RegistryDescriptorsOnly.payload (body : RegistryDescriptorsOnly) : List PayloadNode :=
  (body.events.toList.map fun entry =>
    PayloadNode.event { entry.2 with applyFieldNames := [] }) ++
  (body.tables.toList.map fun entry => PayloadNode.table entry.2) ++
  (body.derivations.toList.map fun entry => PayloadNode.derivation entry.2)

def installDescriptorsOnly (body : RegistryDescriptorsOnly) : RegistryInner Expr :=
  { RegistryInner.empty with
    version := body.version
    events := body.events
    tables := body.tables
    derivations := body.derivations }

/-- `install_from_descriptors`. -/
def installFromDescriptors (body : RegistryDescriptorsOnly) : RegistryInner Expr :=
  match validatePayload env (RegistryInner.empty : RegistryInner Expr) body.payload with
  | .error _ => installDescriptorsOnly body
  | .ok validated =>
      { applyRegistration env RegistryInner.empty validated with version := body.version }

end Beava.Registry
