/-
Applying one event to the aggregations of its source.

The loop has three views of the pushed row: the row itself gives the entity key,
once per cluster of group keys; a list of fields extracted from it gives the
values of resolved fields; and the row after the derivation's chain gives the
predicates and every field that was not resolved.
-/

import Beava.Apply.StateTable
import Beava.Registry.Apply

namespace Beava.Apply

open Beava.Core Beava.Registry

variable {Expr Op : Type} (env : Env Expr) (ops : Operators Expr Op)

inductive FieldAccess where
  | fieldless
  | preVal
  | byName
  | geo
  deriving DecidableEq, Repr

/-- The dispatch of `update_with_extracted_no_where`. -/
def fieldAccess : AggKind → FieldAccess
  | .sum | .avg | .min | .max | .variance | .stdDev => .preVal
  | .countDistinct | .percentile | .topK | .bloomMember | .entropy => .preVal
  | .first | .last | .firstN | .lastN | .lag | .eventTypeMix => .preVal
  | .ewma | .ewVar | .ewZScore | .decayedSum | .twa => .byName
  | .rateOfChange | .deltaFromPrev | .trend | .trendResidual => .byName
  | .outlierCount | .valueChangeCount | .zScore | .seasonalDeviation => .byName
  | .histogram | .mostRecentN | .reservoirSample => .byName
  | .geoVelocity | .geoDistance | .geoSpread | .distanceFromHome => .geo
  | _ => .fieldless

/-- The extracted fields of the source, in the order of `apply_field_names`. -/
abbrev ExtractedFields := List (Option Value)

def extractedAt (extracted : ExtractedFields) (idx : UInt8) : Option Value :=
  (extracted[idx.toNat]?).join

def fieldByName (descriptor : AggOpDescriptor Expr) (row : Row) : Option Value :=
  descriptor.field.bind row.get

/-- The pre-extracted value of a feature, or the field by name when there is no
position for it. -/
def preVal (descriptor : AggOpDescriptor Expr) (extracted : ExtractedFields) (aggRow : Row) :
    Option Value :=
  if descriptor.fieldIdx = fieldIdxNone then fieldByName descriptor aggRow
  else
    match descriptor.fieldIdxIntoEventExtracted[descriptor.fieldIdx.toNat]? with
    | some unionIdx =>
        if unionIdx = fieldIdxNone then fieldByName descriptor aggRow
        else extractedAt extracted unionIdx
    | none => fieldByName descriptor aggRow

def latName (descriptor : AggOpDescriptor Expr) : String :=
  descriptor.ext.latField.getD "lat"

def lonName (descriptor : AggOpDescriptor Expr) : String :=
  descriptor.ext.lonField.getD "lon"

def coordinates (descriptor : AggOpDescriptor Expr) (extracted : ExtractedFields)
    (aggRow : Row) : Option Value × Option Value :=
  if descriptor.ext.latIdx = fieldIdxNone then
    (aggRow.get (latName descriptor),aggRow.get (lonName descriptor))
  else
    (extractedAt extracted descriptor.ext.latIdx,extractedAt extracted descriptor.ext.lonIdx)

/-- `evaluate_where_predicate`, with no predicate holding always. -/
def whereMatched (descriptor : AggOpDescriptor Expr) (row : Row) : Bool :=
  match descriptor.whereExpr with
  | none => true
  | some ast => (env.eval ast row).isTrue

/-- The field value for a kind: the pre-extracted one, the one by name, or
none. -/
def fieldValue (access : FieldAccess) (extracted byName : Option Value) : Option Value :=
  match access with
  | .preVal => extracted
  | .byName => byName
  | _ => none

def featureInput (descriptor : AggOpDescriptor Expr) (extracted : ExtractedFields)
    (aggRow : Row) (nowMs : Int64) : OpInput :=
  let access := fieldAccess descriptor.kind
  { value := fieldValue access (preVal descriptor extracted aggRow) (fieldByName descriptor aggRow)
    lat := if access = .geo then (coordinates descriptor extracted aggRow).1 else none
    lon := if access = .geo then (coordinates descriptor extracted aggRow).2 else none
    nowMs := nowMs
    whereMatched := whereMatched env descriptor aggRow }

def updateRow (inputOf : AggOpDescriptor Expr → OpInput) :
    List Op → List (NamedAggOp Expr) → List Op
  | op :: row, feature :: features =>
      ops.update (declared feature.descriptor) op (inputOf feature.descriptor) ::
        updateRow inputOf row features
  | row, [] => row
  | [], _ => []

def updateTable (agg : AggregationDescriptor Expr) (inputOf : AggOpDescriptor Expr → OpInput)
    (shape : EntityKeyShape) (nowMs : Int64) (coldAfterMs : Option Nat)
    (table : AggStateTable Op) : AggStateTable Op :=
  let now := nowMs.toUInt64.toNat
  let table :=
    match coldAfterMs with
    | some ttl => table.evictIfCold shape now ttl
    | none => table
  let found := table.getOrInitByShape ops shape agg
  let table :=
    { found.2 with
      rows := found.2.rows.insert shape (updateRow ops inputOf found.1 agg.features) }
  match coldAfterMs with
  | some _ => table.recordLastSeen shape now
  | none => table

abbrev ShapeCache := Std.ExtTreeMap Nat (Option EntityKeyShape)

structure LoopState (Op : Type) where
  tables : StateTables Op
  cache : ShapeCache

/-- The row the aggregation sees; `none` when the chain drops it. -/
def chainRow (registry : RegistryInner Expr) (name : String) (row : Row) : Option Row :=
  match registry.compiledChains[name]? with
  | some chain => chain.apply env row
  | none => some row

def clusterShape (cache : ShapeCache) (agg : AggregationDescriptor Expr) (row : Row) :
    Option EntityKeyShape :=
  match cache[agg.clusterId]? with
  | some cached => cached
  | none => EntityKeyShape.fromRow env agg.groupKeys row

def applyToAggregation (registry : RegistryInner Expr) (row : Row) (nowMs : Int64)
    (coldAfterMs : Option Nat) (extracted : ExtractedFields) (state : LoopState Op)
    (agg : AggregationDescriptor Expr) : LoopState Op :=
  match chainRow env registry agg.nodeName row with
  | none => state
  | some aggRow =>
      let shape := clusterShape env state.cache agg row
      let cache := state.cache.insert agg.clusterId shape
      match shape with
      | none => { state with cache := cache }
      | some shape =>
          { tables := StateTables.setTable state.tables agg.aggId
              (updateTable ops agg
                (fun descriptor => featureInput env descriptor extracted aggRow nowMs)
                shape nowMs coldAfterMs (StateTables.tableAt state.tables agg.aggId))
            cache := cache }

def extractFields (registry : RegistryInner Expr) (source : String) (row : Row)
    (aggs : List (AggregationDescriptor Expr)) : ExtractedFields :=
  if aggs.isEmpty then []
  else
    match registry.events[source]? with
    | some event => event.applyFieldNames.map row.get
    | none => []

def applyEventWithDescs (registry : RegistryInner Expr) (source : String) (row : Row)
    (nowMs : Int64) (coldAfterMs : Option Nat) (aggs : List (AggregationDescriptor Expr))
    (tables : StateTables Op) : StateTables Op :=
  let extracted := extractFields registry source row aggs
  (aggs.foldl (applyToAggregation env ops registry row nowMs coldAfterMs extracted)
    ⟨tables,∅⟩).tables

def applyEvent (registry : RegistryInner Expr) (source : String) (row : Row) (nowMs : Int64)
    (coldAfterMs : Option Nat) (tables : StateTables Op) : StateTables Op :=
  applyEventWithDescs env ops registry source row nowMs coldAfterMs
    (registry.aggregationsForSource source) tables

def applyEventReplay (registry : RegistryInner Expr) (source : String) (row : Row)
    (nowMs : Int64) (eventRv : Nat) (coldAfterMs : Option Nat) (tables : StateTables Op) :
    StateTables Op :=
  applyEventWithDescs env ops registry source row nowMs coldAfterMs
    (registry.aggregationsForSourceAtRv source eventRv) tables

end Beava.Apply
