/-
What one event does to one aggregation.

The loop over the aggregations of a source shares the entity keys of a cluster
and writes all tables of one vector.  Here it is taken apart: the table of an
aggregation after an event is a function of its table before, of the chain, keys
and features of the aggregation and of the event.
-/

import Beava.Apply.Resolution

namespace Beava.Apply

open Beava.Core Beava.Registry

variable {Expr Op : Type} (env : Env Expr) (ops : Operators Expr Op)

/-! ### The loop -/

def stepTable (registry : RegistryInner Expr) (row : Row) (nowMs : Int64)
    (coldAfterMs : Option Nat) (extracted : ExtractedFields) (agg : AggregationDescriptor Expr)
    (table : AggStateTable Op) : AggStateTable Op :=
  match chainRow env registry agg.nodeName row, EntityKeyShape.fromRow env agg.groupKeys row with
  | some aggRow, some shape =>
      updateTable ops agg (fun descriptor => featureInput env descriptor extracted aggRow nowMs)
        shape nowMs coldAfterMs table
  | _, _ => table

def ClustersExact (aggs : List (AggregationDescriptor Expr)) : Prop :=
  ∀ first ∈ aggs, ∀ second ∈ aggs,
    first.clusterId = second.clusterId → first.groupKeys = second.groupKeys

/-- A cached key is the key of every aggregation that may read it. -/
def CacheExact (row : Row) (aggs : List (AggregationDescriptor Expr)) (cache : ShapeCache) :
    Prop :=
  ∀ agg ∈ aggs, ∀ shape, cache[agg.clusterId]? = some shape →
    shape = EntityKeyShape.fromRow env agg.groupKeys row

section Loop

variable (registry : RegistryInner Expr) (row : Row) (nowMs : Int64) (coldAfterMs : Option Nat)
  (extracted : ExtractedFields)
variable {aggs : List (AggregationDescriptor Expr)} {agg : AggregationDescriptor Expr}
variable {state : LoopState Op}
variable {cache : ShapeCache}

theorem CacheExact.shape_eq {row : Row} (exact_ : CacheExact env row aggs cache)
    (member : agg ∈ aggs) :
    clusterShape env cache agg row = EntityKeyShape.fromRow env agg.groupKeys row := by
  unfold clusterShape
  cases cached : cache[agg.clusterId]? with
  | none => rfl
  | some shape => exact exact_ agg member shape cached

theorem CacheExact.insert {row : Row} (exact_ : CacheExact env row aggs cache)
    (clusters : ClustersExact aggs) (member : agg ∈ aggs) :
    CacheExact env row aggs
      (cache.insert agg.clusterId (EntityKeyShape.fromRow env agg.groupKeys row)) := by
  intro other otherMember shape found
  rw [KeyMap.lookup_insert] at found
  split at found
  · rename_i sameCluster
    rw [← clusters agg member other otherMember sameCluster]
    exact (Option.some.inj found).symm
  · exact exact_ other otherMember shape found

theorem applyToAggregation_tableAt (exact_ : CacheExact env row aggs state.cache)
    (member : agg ∈ aggs) (aggId : Nat) :
    StateTables.tableAt
        (applyToAggregation env ops registry row nowMs coldAfterMs extracted state agg).tables
        aggId =
      if agg.aggId = aggId then
        stepTable env ops registry row nowMs coldAfterMs extracted agg
          (StateTables.tableAt state.tables aggId)
      else StateTables.tableAt state.tables aggId := by
  simp only [applyToAggregation,exact_.shape_eq env member,stepTable]
  cases chainRow env registry agg.nodeName row with
  | none => simp
  | some aggRow =>
      cases EntityKeyShape.fromRow env agg.groupKeys row with
      | none => simp
      | some shape =>
          simp only [StateTables.tableAt_setTable]
          split
          · rename_i same
            rw [same]
          · rfl

theorem applyToAggregation_cacheExact (clusters : ClustersExact aggs)
    (exact_ : CacheExact env row aggs state.cache) (member : agg ∈ aggs) :
    CacheExact env row aggs
      (applyToAggregation env ops registry row nowMs coldAfterMs extracted state agg).cache := by
  simp only [applyToAggregation,exact_.shape_eq env member]
  cases chainRow env registry agg.nodeName row with
  | none => exact exact_
  | some aggRow =>
      have inserted := exact_.insert env clusters member
      cases shapeEq : EntityKeyShape.fromRow env agg.groupKeys row with
      | none =>
          rw [shapeEq] at inserted
          exact inserted
      | some shape =>
          rw [shapeEq] at inserted
          exact inserted

/-- After the loop the table of an id has made the step of the aggregation with
this id, if there is one. -/
theorem foldl_applyToAggregation_tableAt (clusters : ClustersExact aggs)
    {rest : List (AggregationDescriptor Expr)} (subset : rest ⊆ aggs)
    (distinct : (rest.map AggregationDescriptor.aggId).Nodup)
    (exact_ : CacheExact env row aggs state.cache) (aggId : Nat) :
    StateTables.tableAt
        (rest.foldl (applyToAggregation env ops registry row nowMs coldAfterMs extracted)
          state).tables aggId =
      match rest.find? fun agg => agg.aggId = aggId with
      | some agg =>
          stepTable env ops registry row nowMs coldAfterMs extracted agg
            (StateTables.tableAt state.tables aggId)
      | none => StateTables.tableAt state.tables aggId := by
  induction rest generalizing state with
  | nil => rfl
  | cons agg rest ih =>
      have member : agg ∈ aggs := subset List.mem_cons_self
      have tailSubset : rest ⊆ aggs := fun other inRest => subset (List.mem_cons_of_mem agg inRest)
      rw [List.map_cons,List.nodup_cons] at distinct
      rw [List.foldl_cons,ih tailSubset distinct.2
        (applyToAggregation_cacheExact env ops registry row nowMs coldAfterMs extracted clusters
          exact_ member),
        applyToAggregation_tableAt env ops registry row nowMs coldAfterMs extracted exact_ member]
      by_cases here : agg.aggId = aggId
      · have notLater : rest.find? (fun other => other.aggId = aggId) = none := by
          rw [List.find?_eq_none]
          intro other inRest sameId
          refine distinct.1 (List.mem_map.mpr ⟨other,inRest,?_⟩)
          rw [here]
          exact of_decide_eq_true sameId
        simp [here,notLater]
      · simp [here]

end Loop

def extractedOf (registry : RegistryInner Expr) (source : String) (row : Row) : ExtractedFields :=
  match registry.events[source]? with
  | some event => event.applyFieldNames.map row.get
  | none => []

theorem applyEventWithDescs_tableAt (registry : RegistryInner Expr) (source : String) (row : Row)
    (nowMs : Int64) (coldAfterMs : Option Nat) {aggs : List (AggregationDescriptor Expr)}
    (clusters : ClustersExact aggs) (distinct : (aggs.map AggregationDescriptor.aggId).Nodup)
    (tables : StateTables Op) (aggId : Nat) :
    StateTables.tableAt
        (applyEventWithDescs env ops registry source row nowMs coldAfterMs aggs tables) aggId =
      match aggs.find? fun agg => agg.aggId = aggId with
      | some agg =>
          stepTable env ops registry row nowMs coldAfterMs (extractedOf registry source row) agg
            (StateTables.tableAt tables aggId)
      | none => StateTables.tableAt tables aggId := by
  have emptyExact : CacheExact env row aggs (∅ : ShapeCache) := by
    intro agg _ shape found
    simp at found
  cases aggs with
  | nil => rfl
  | cons agg rest =>
      exact foldl_applyToAggregation_tableAt env ops registry row nowMs coldAfterMs
        (extractedOf registry source row) clusters (List.Subset.refl _) distinct emptyExact aggId

/-! ### Meanings -/

/-- Whether the fields of the aggregation are all fields of the event it reads,
so that it reads them from the pushed row. -/
def resolvedIn (registry : RegistryInner Expr) (agg : AggregationDescriptor Expr) : Bool :=
  match registry.events[agg.sourceNodeName]? with
  | some event => (missingField agg event.schema).isNone
  | none => false

structure Meaning (Expr : Type) where
  chain : Option (OpChain Expr)
  core : AggregationDescriptor Expr
  resolved : Bool

def meaningOf (registry : RegistryInner Expr) (agg : AggregationDescriptor Expr) : Meaning Expr :=
  { chain := registry.compiledChains[agg.nodeName]?
    core := aggCore agg
    resolved := resolvedIn registry agg }

def Meaning.chainRow (meaning : Meaning Expr) (row : Row) : Option Row :=
  match meaning.chain with
  | some chain => chain.apply env row
  | none => some row

/-- The change of the table of an aggregation with this meaning. -/
def Meaning.step (meaning : Meaning Expr) (row : Row) (nowMs : Int64) (coldAfterMs : Option Nat)
    (table : AggStateTable Op) : AggStateTable Op :=
  match meaning.chainRow env row, EntityKeyShape.fromRow env meaning.core.groupKeys row with
  | some aggRow, some shape =>
      updateTable ops meaning.core
        (fun descriptor => readInput env meaning.resolved descriptor row aggRow nowMs)
        shape nowMs coldAfterMs table
  | _, _ => table

/-- The positions of the aggregation read what its meaning says. -/
def Reads (registry : RegistryInner Expr) (agg : AggregationDescriptor Expr) : Prop :=
  ∀ feature ∈ agg.features, ∀ row aggRow nowMs,
    featureInput env feature.descriptor (extractedOf registry agg.sourceNodeName row) aggRow nowMs =
      readInput env (resolvedIn registry agg) feature.descriptor row aggRow nowMs

theorem initRow_core (agg : AggregationDescriptor Expr) :
    AggStateTable.initRow ops (aggCore agg) = AggStateTable.initRow ops agg := by
  simp only [AggStateTable.initRow,aggCore,List.map_map]
  rfl

theorem updateRow_declared {inputOf declaredInputOf : AggOpDescriptor Expr → OpInput}
    {features : List (NamedAggOp Expr)}
    (same : ∀ feature ∈ features,
      declaredInputOf (declared feature.descriptor) = inputOf feature.descriptor)
    (row : List Op) :
    updateRow ops declaredInputOf row (features.map declaredFeature) =
      updateRow ops inputOf row features := by
  induction features generalizing row with
  | nil => cases row <;> rfl
  | cons feature rest ih =>
      cases row with
      | nil => rfl
      | cons op row =>
          have tailEq := ih (fun other inRest => same other (List.mem_cons_of_mem feature inRest)) row
          have headEq := same feature List.mem_cons_self
          simp only [List.map_cons,updateRow,tailEq]
          rw [show (declaredFeature feature).descriptor = declared feature.descriptor from rfl,
            declared_idem,headEq]

theorem updateTable_core {agg : AggregationDescriptor Expr}
    {inputOf declaredInputOf : AggOpDescriptor Expr → OpInput}
    (same : ∀ feature ∈ agg.features,
      declaredInputOf (declared feature.descriptor) = inputOf feature.descriptor)
    (shape : EntityKeyShape) (nowMs : Int64) (coldAfterMs : Option Nat)
    (table : AggStateTable Op) :
    updateTable ops (aggCore agg) declaredInputOf shape nowMs coldAfterMs table =
      updateTable ops agg inputOf shape nowMs coldAfterMs table := by
  have rowEq : ∀ row : List Op, updateRow ops declaredInputOf row (aggCore agg).features =
      updateRow ops inputOf row agg.features :=
    updateRow_declared ops same
  have foundEq : ∀ table : AggStateTable Op,
      table.getOrInitByShape ops shape (aggCore agg) = table.getOrInitByShape ops shape agg := by
    intro table
    simp only [AggStateTable.getOrInitByShape,initRow_core]
    rfl
  simp only [updateTable,rowEq,foundEq]

theorem stepTable_eq_step {registry : RegistryInner Expr} {agg : AggregationDescriptor Expr}
    (reads : Reads env registry agg) (row : Row) (nowMs : Int64) (coldAfterMs : Option Nat)
    (table : AggStateTable Op) :
    stepTable env ops registry row nowMs coldAfterMs
        (extractedOf registry agg.sourceNodeName row) agg table =
      (meaningOf registry agg).step env ops row nowMs coldAfterMs table := by
  have chainEq : (meaningOf registry agg).chainRow env row =
      chainRow env registry agg.nodeName row := rfl
  have keysEq : (meaningOf registry agg).core.groupKeys = agg.groupKeys := rfl
  simp only [stepTable,Meaning.step,chainEq,keysEq]
  split
  · rename_i aggRow shape _ _
    refine (updateTable_core ops (fun feature member => ?_) shape nowMs coldAfterMs table).symm
    rw [readInput_declared,reads feature member row aggRow nowMs]
    rfl
  · rfl

theorem missingField_eq_of_core {first second : AggregationDescriptor Expr}
    (same : aggCore first = aggCore second) (schema : Schema) :
    missingField first schema = missingField second schema := by
  have throughCore : ∀ agg : AggregationDescriptor Expr,
      missingField agg schema = missingField (aggCore agg) schema := by
    intro agg
    rw [missingField,missingField,aggCore,List.findSome?_map]
    rfl
  rw [throughCore,same,← throughCore]

theorem aggFields_eq_of_core {first second : AggregationDescriptor Expr}
    (same : aggCore first = aggCore second) : aggFields first = aggFields second :=
  aggFields_eq_of_declared (congrArg AggregationDescriptor.features same)

end Beava.Apply
