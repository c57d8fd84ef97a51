/-
The events that reach a table.

The loop over the aggregations of a source takes an event to the table of an
aggregation when the chain keeps its row and the key of the cluster is there.  The
table then updates the row of this entity, which has been evicted before when it
was cold, and leaves the rows of all others.
-/

import Beava.Apply.Meaning

namespace Beava.Apply

open Beava.Core Beava.Registry

variable {Expr Op : Type} (env : Env Expr) (ops : Operators Expr Op)

/-- The row and the key with which the loop gets to the table of an id. -/
def reaches (registry : RegistryInner Expr) (row : Row) (aggId : Nat) :
    List (AggregationDescriptor Expr) → ShapeCache → Option (Row × EntityKeyShape)
  | [], _ => none
  | agg :: rest, cache =>
      match chainRow env registry agg.nodeName row with
      | none => if agg.aggId = aggId then none else reaches registry row aggId rest cache
      | some aggRow =>
          let shape := clusterShape env cache agg row
          if agg.aggId = aggId then shape.map fun shape => (aggRow,shape)
          else reaches registry row aggId rest (cache.insert agg.clusterId shape)

section Loop

variable (registry : RegistryInner Expr) (row : Row) (nowMs : Int64) (coldAfterMs : Option Nat)
  (extracted : ExtractedFields)
variable {agg : AggregationDescriptor Expr}
variable {aggId : Nat}

theorem applyToAggregation_other (state : LoopState Op) (different : agg.aggId ≠ aggId) :
    StateTables.tableAt
        (applyToAggregation env ops registry row nowMs coldAfterMs extracted state agg).tables
        aggId =
      StateTables.tableAt state.tables aggId := by
  unfold applyToAggregation
  split
  · rfl
  · dsimp only
    split
    · rfl
    · rw [StateTables.tableAt_setTable,if_neg different]

theorem foldl_applyToAggregation_other {rest : List (AggregationDescriptor Expr)}
    (absent : aggId ∉ rest.map AggregationDescriptor.aggId) (state : LoopState Op) :
    StateTables.tableAt
        (rest.foldl (applyToAggregation env ops registry row nowMs coldAfterMs extracted)
          state).tables aggId =
      StateTables.tableAt state.tables aggId := by
  induction rest generalizing state with
  | nil => rfl
  | cons agg rest ih =>
      rw [List.map_cons,List.mem_cons,not_or] at absent
      rw [List.foldl_cons,ih absent.2,
        applyToAggregation_other env ops registry row nowMs coldAfterMs extracted state
          (Ne.symm absent.1)]

theorem foldl_applyToAggregation_reaches {aggs : List (AggregationDescriptor Expr)}
    (member : agg ∈ aggs) (distinct : (aggs.map AggregationDescriptor.aggId).Nodup)
    (state : LoopState Op) :
    StateTables.tableAt
        (aggs.foldl (applyToAggregation env ops registry row nowMs coldAfterMs extracted)
          state).tables agg.aggId =
      match reaches env registry row agg.aggId aggs state.cache with
      | none => StateTables.tableAt state.tables agg.aggId
      | some (aggRow,shape) =>
          updateTable ops agg
            (fun descriptor => featureInput env descriptor extracted aggRow nowMs) shape nowMs
            coldAfterMs (StateTables.tableAt state.tables agg.aggId) := by
  induction aggs generalizing state with
  | nil => cases member
  | cons head rest ih =>
      rw [List.map_cons,List.nodup_cons] at distinct
      rw [List.foldl_cons]
      rcases List.mem_cons.mp member with rfl | inRest
      · rw [foldl_applyToAggregation_other env ops registry row nowMs coldAfterMs extracted
          distinct.1,reaches,applyToAggregation]
        cases chainRow env registry agg.nodeName row with
        | none => simp only [if_true]
        | some aggRow =>
            simp only [if_true]
            cases clusterShape env state.cache agg row with
            | none => rfl
            | some shape => exact (StateTables.tableAt_setTable ..).trans (if_pos rfl)
      · have different : head.aggId ≠ agg.aggId := by
          intro same
          rw [same] at distinct
          exact distinct.1 (List.mem_map_of_mem inRest)
        rw [ih inRest distinct.2,applyToAggregation_other env ops registry row nowMs coldAfterMs
          extracted state different,reaches,applyToAggregation]
        cases chainRow env registry head.nodeName row with
        | none => simp only [if_neg different]
        | some aggRow =>
            simp only [if_neg different]
            cases clusterShape env state.cache head row with
            | none => rfl
            | some shape => rfl

end Loop

theorem reaches_of_exact (registry : RegistryInner Expr) (row : Row)
    {aggs : List (AggregationDescriptor Expr)} (clusters : ClustersExact aggs)
    {rest : List (AggregationDescriptor Expr)} (subset : rest ⊆ aggs) {cache : ShapeCache}
    (exact_ : CacheExact env row aggs cache) {agg : AggregationDescriptor Expr}
    (member : agg ∈ rest) (distinct : (rest.map AggregationDescriptor.aggId).Nodup) :
    reaches env registry row agg.aggId rest cache =
      (chainRow env registry agg.nodeName row).bind fun aggRow =>
        (EntityKeyShape.fromRow env agg.groupKeys row).map fun shape => (aggRow,shape) := by
  induction rest generalizing cache with
  | nil => cases member
  | cons head rest ih =>
      have inAggs := subset List.mem_cons_self
      have tailSubset : rest ⊆ aggs := fun other inRest => subset (List.mem_cons_of_mem head inRest)
      rw [List.map_cons,List.nodup_cons] at distinct
      rw [reaches]
      rcases List.mem_cons.mp member with rfl | inRest
      · cases chainRow env registry agg.nodeName row with
        | none => simp only [if_true,Option.bind_none]
        | some aggRow =>
            simp only [if_true,Option.bind_some,exact_.shape_eq env inAggs]
      · have different : head.aggId ≠ agg.aggId := by
          intro same
          rw [same] at distinct
          exact distinct.1 (List.mem_map_of_mem inRest)
        cases chainRow env registry head.nodeName row with
        | none =>
            simp only [if_neg different]
            exact ih tailSubset exact_ inRest distinct.2
        | some aggRow =>
            simp only [if_neg different,exact_.shape_eq env inAggs]
            exact ih tailSubset (exact_.insert env clusters inAggs) inRest distinct.2

section Table

variable {ops} {agg : AggregationDescriptor Expr} {inputOf : AggOpDescriptor Expr → OpInput}
  {shape : EntityKeyShape} {nowMs : Int64} {coldAfterMs : Option Nat} {table : AggStateTable Op}

/-- The time as the table keeps it. -/
def seenMs (nowMs : Int64) : Nat := nowMs.toUInt64.toNat

/-- The entity was last seen too long ago. -/
def AggStateTable.cold (table : AggStateTable Op) (shape : EntityKeyShape) (nowMs : Int64)
    (coldAfterMs : Option Nat) : Bool :=
  match coldAfterMs, table.lastSeen.get shape with
  | some ttl, some lastSeen => !decide (seenMs nowMs - lastSeen ≤ ttl)
  | _, _ => false

theorem getOrInit_insert_get (table : AggStateTable Op) (changed : List Op)
    (other : EntityKeyShape) :
    ((table.getOrInitByShape ops shape agg).2.rows.insert shape changed).get other =
      if shape = other then some changed else table.rows.get other := by
  rw [ShapeMap.get_insert]
  by_cases same : shape = other
  · rw [if_pos same,if_pos same]
  · rw [if_neg same,if_neg same,AggStateTable.getOrInitByShape]
    cases table.rows.get shape with
    | some row => rfl
    | none => exact (ShapeMap.get_insert ..).trans (if_neg same)

theorem getOrInit_row (table : AggStateTable Op) :
    (table.getOrInitByShape ops shape agg).1 =
      (table.rows.get shape).getD (AggStateTable.initRow ops agg) := by
  rw [AggStateTable.getOrInitByShape]
  cases table.rows.get shape <;> rfl

theorem getOrInit_lastSeen (table : AggStateTable Op) :
    (table.getOrInitByShape ops shape agg).2.lastSeen = table.lastSeen := by
  rw [AggStateTable.getOrInitByShape]
  cases table.rows.get shape <;> rfl

theorem evictIfCold_rows (ttl : Nat) (other : EntityKeyShape) :
    (table.evictIfCold shape (seenMs nowMs) ttl).rows.get other =
      if shape = other ∧ table.cold shape nowMs (some ttl) = true then none
      else table.rows.get other := by
  unfold AggStateTable.evictIfCold AggStateTable.cold
  cases table.lastSeen.get shape with
  | none => simp
  | some lastSeen =>
      by_cases warm : seenMs nowMs - lastSeen ≤ ttl
      · simp [warm]
      · simp [warm,ShapeMap.get_erase]

theorem updateTable_get (other : EntityKeyShape) :
    (updateTable ops agg inputOf shape nowMs coldAfterMs table).rows.get other =
      if shape = other then
        some (updateRow ops inputOf
          (if table.cold shape nowMs coldAfterMs then AggStateTable.initRow ops agg
            else (table.rows.get shape).getD (AggStateTable.initRow ops agg)) agg.features)
      else table.rows.get other := by
  cases coldAfterMs with
  | none =>
      have warm : table.cold shape nowMs none = false := rfl
      simp only [updateTable,getOrInit_insert_get,getOrInit_row,warm,Bool.false_eq_true,
        if_false]
  | some ttl =>
      let found := (table.evictIfCold shape (seenMs nowMs) ttl).getOrInitByShape ops shape agg
      show (found.2.rows.insert shape (updateRow ops inputOf found.1 agg.features)).get other = _
      rw [getOrInit_insert_get,getOrInit_row,evictIfCold_rows,evictIfCold_rows]
      by_cases same : shape = other
      · rw [if_pos same,if_pos same]
        cases table.cold shape nowMs (some ttl) with
        | false => simp
        | true => simp
      · simp [same]

theorem updateTable_lastSeen (ttl : Nat) (other : EntityKeyShape) :
    (updateTable ops agg inputOf shape nowMs (some ttl) table).lastSeen.get other =
      if shape = other then some (seenMs nowMs) else table.lastSeen.get other := by
  show ((((table.evictIfCold shape (seenMs nowMs) ttl).getOrInitByShape ops shape
    agg).2.lastSeen).insert shape (seenMs nowMs)).get other = _
  rw [getOrInit_lastSeen,ShapeMap.get_insert]
  by_cases same : shape = other
  · rw [if_pos same,if_pos same]
  · rw [if_neg same,if_neg same]
    unfold AggStateTable.evictIfCold
    cases table.lastSeen.get shape with
    | none => rfl
    | some lastSeen =>
        dsimp only
        split
        · rfl
        · exact (ShapeMap.get_erase ..).trans (if_neg same)

end Table

end Beava.Apply
