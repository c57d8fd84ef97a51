/-
Reading a feature with a window.

A push is routed to the bucket of its time, at most 64 buckets are kept for an
entity and a read folds those that are in the window.  Over all of this a read
answers what an operator without a window answers that is made anew and takes in
the events of the entity, since its last cold gap, whose bucket started in the
window.
-/

import Beava.Agg.Inputs
import Beava.Agg.WindowFold
import Beava.Server.ColdAfter

namespace Beava.Server

open Beava.Core Beava.Apply Beava.Registry Beava.Agg

variable {kernel : Kernel} {Expr Op : Type} {env : Env Expr}

/-- The row of an entity as the source keeps it: for every event one call of each operator. -/
def calledRow (env : Env Expr) (registry : RegistryInner Expr) (agg : AggregationDescriptor Expr)
    (visits : List Visit) : List (AggOp kernel) :=
  visits.foldl
    (fun row visit =>
      updateEntityRow env (extractedOf registry agg.sourceNodeName visit.row) visit.aggRow
        visit.nowMs row agg.features)
    (agg.features.map fun feature => .new feature.descriptor)

theorem calledRow_reads (registry : RegistryInner Expr) (agg : AggregationDescriptor Expr)
    (visits : List Visit) :
    RowReads (calledRow env registry agg visits : List (AggOp kernel)) agg.features ∧
      foldRow env (aggOperators kernel Expr) registry agg visits =
        calledRow env registry agg visits := by
  induction visits using List.reverseRecOn with
  | nil => exact ⟨rowReads_new agg.features,rfl⟩
  | append_singleton visits visit ih =>
      obtain ⟨reads,same⟩ := ih
      have called : (calledRow env registry agg (visits ++ [visit]) : List (AggOp kernel)) =
          updateEntityRow env (extractedOf registry agg.sourceNodeName visit.row) visit.aggRow
            visit.nowMs (calledRow env registry agg visits) agg.features := by
        rw [calledRow,List.foldl_append]
        rfl
      rw [foldRow_append_singleton,called,same]
      exact ⟨reads.updateEntityRow env _ visit.aggRow visit.nowMs,
        reads.updateRow_eq env _ visit.aggRow visit.nowMs⟩

/-- The events of an entity leave its row the same under the inputs as under the calls of the
loop. -/
theorem foldRow_aggOperators (env : Env Expr) (registry : RegistryInner Expr)
    (agg : AggregationDescriptor Expr) (visits : List Visit) :
    foldRow env (aggOperators kernel Expr) registry agg visits =
      calledRow env registry agg visits :=
  (calledRow_reads registry agg visits).2

section Feature

variable (ops : Operators Expr Op)
variable {position : Nat} {feature : NamedAggOp Expr}

theorem updateRow_getElem? (inputOf : AggOpDescriptor Expr → OpInput) {row : List Op}
    {features : List (NamedAggOp Expr)} (found : features[position]? = some feature) :
    (updateRow ops inputOf row features)[position]? =
      row[position]?.map fun op =>
        ops.update (declared feature.descriptor) op (inputOf feature.descriptor) := by
  induction features generalizing row position with
  | nil => cases found
  | cons first rest ih =>
      cases row with
      | nil => rfl
      | cons op row =>
          cases position with
          | zero =>
              obtain rfl : first = feature := Option.some.inj found
              rfl
          | succ position => exact ih found

theorem foldRow_getElem? (registry : RegistryInner Expr) {agg : AggregationDescriptor Expr}
    (found : agg.features[position]? = some feature) (visits : List Visit) :
    (foldRow env ops registry agg visits)[position]? =
      some (visits.foldl
        (fun op visit =>
          ops.update (declared feature.descriptor) op
            (visitInput env registry agg visit feature.descriptor))
        (ops.new (declared feature.descriptor))) := by
  induction visits using List.reverseRecOn with
  | nil =>
      have atStart : (AggStateTable.initRow ops agg)[position]? =
          some (ops.new (declared feature.descriptor)) := by
        rw [AggStateTable.initRow,List.getElem?_map,found,Option.map_some]
      exact atStart
  | append_singleton visits visit ih =>
      rw [foldRow_append_singleton,updateRow_getElem? ops _ found,ih,List.foldl_append]
      rfl

end Feature

def OpInput.windowed (input : OpInput) : WindowedUpdate Expr :=
  .updateAt input.value [input.lat,input.lon] 0 1 input.nowMs input.whereMatched

section Windowed

variable (registry : RegistryInner Expr) (agg : AggregationDescriptor Expr)
  (descriptor : AggOpDescriptor Expr)

def featureUpdates (env : Env Expr) (visits : List Visit) : List (WindowedUpdate Expr) :=
  visits.map fun visit => OpInput.windowed (visitInput env registry agg visit descriptor)

theorem featureUpdates_nowMs (visits : List Visit) :
    (featureUpdates registry agg descriptor env visits).map WindowedUpdate.nowMs =
      visits.map Visit.nowMs := by
  rw [featureUpdates,List.map_map]
  rfl

theorem foldl_windowed (op : WindowedOp kernel) (visits : List Visit) :
    visits.foldl
        (fun op visit => (aggOperators kernel Expr).update (declared descriptor) op
          (visitInput env registry agg visit descriptor)) (.windowed op) =
      .windowed ((featureUpdates registry agg descriptor env visits).foldl
        (WindowedUpdate.apply env) op) := by
  induction visits generalizing op with
  | nil => rfl
  | cons visit visits ih => exact ih _

end Windowed

def textShape : CompoundKey → EntityKeyShape
  | [(_,text)] => .singleStr text
  | key => .multi key

theorem entityOps_of_row {table : AggStateTable Op} {key : CompoundKey} {row : List Op}
    (present : table.rows.get (textShape key) = some row) : entityOps table key = some row := by
  unfold textShape at present
  split at present
  · rw [entityOps,present]
    rfl
  · rename_i notSingle
    unfold entityOps
    split
    · rename_i name text
      exact absurd rfl (notSingle name text)
    · exact present

section Reads

variable {ops : Operators Expr Op}

theorem run_push_registry (live : Live Expr Op) (pushes : List TimedPush) :
    (Machine.run (Live.next env ops) live (pushes.map TimedPush.action)).registry =
      live.registry := by
  induction pushes generalizing live with
  | nil => rfl
  | cons push pushes ih => exact (ih _).trans (push_registry live push)

def sessionOf (env : Env Expr) (registry : RegistryInner Expr) (agg : AggregationDescriptor Expr)
    (pushes : List TimedPush) (shape : EntityKeyShape) : List Visit :=
  Sessions.current (withinMs (coldAfterMsOf registry agg.sourceNodeName))
    (entityVisits shape (visitsOf env registry agg pushes))

theorem dispatchGetSingle_pushed (query : Op → Int64 → Value) {actions : List Action}
    {pushes : List TimedPush} {live : Live Expr Op} (isLive : liveAfter env ops actions = live)
    {name key : String} {agg : AggregationDescriptor Expr} {position : Nat}
    {found : NamedAggOp Expr} {entityKey : CompoundKey}
    (compiled : live.registry.compiledAggregations[name]? = some agg)
    (atPosition : agg.features[position]? = some found)
    (blank : StateTables.tableAt live.tables agg.aggId = .new)
    (parsed : parseEntityKey key agg.groupKeys = some entityKey)
    (seen : sessionOf env live.registry agg pushes (textShape entityKey) ≠ [])
    (queryTimeMs : Int64) :
    dispatchGetSingle query
        (Machine.run (Live.next env ops) live (pushes.map TimedPush.action)).registry
        (Machine.run (Live.next env ops) live (pushes.map TimedPush.action)).tables
        found.featureName key queryTimeMs =
      .value (query
        ((sessionOf env live.registry agg pushes (textShape entityKey)).foldl
          (fun op visit =>
            ops.update (declared found.descriptor) op
              (visitInput env live.registry agg visit found.descriptor))
          (ops.new (declared found.descriptor)))
        queryTimeMs) := by
  subst isLive
  have row := (liveAfter_keepsSessions compiled blank pushes).rows (textShape entityKey)
  rw [entityRow,if_neg (by rwa [List.isEmpty_iff])] at row
  have indexed : (liveAfter env ops actions).registry.featureIndex[found.featureName]? =
      some (name,position) :=
    ((liveAfter_reached env ops actions).features found.featureName name position).mpr
      ⟨agg,compiled,by rw [atPosition,Option.map_some]⟩
  rw [run_push_registry,dispatchGetSingle,indexed]
  dsimp only
  rw [compiled]
  dsimp only
  rw [parsed]
  dsimp only
  rw [queryFeature,entityOps_of_row row,Option.bind_some,foldRow_getElem? ops _ atPosition,
    Option.map_some]
  rfl

end Reads

/-- The feature is registered with a window, and its kind keeps buckets. -/
structure WindowedFeature (registry : RegistryInner Expr) (agg : AggregationDescriptor Expr)
    (found : NamedAggOp Expr) (windowMs : Nat) : Prop where
  compiled : ∃ name : String, registry.compiledAggregations[name]? = some agg
  member : found ∈ agg.features
  wrapped : supportsWindowedWrap found.descriptor.kind = true
  windowed : found.descriptor.windowMs = some windowMs
  positive : 0 < windowMs
  finite : windowMs < 2 ^ 63

/-- A table with the sum of `x` over the last second. -/
def windowTable : PayloadNode :=
  .derivation
    { name := "T"
      outputKind := .table
      upstreams := ["E"]
      ops := [.groupBy ["k"] (.ofList [("s",AggSpec.mk "sum"
        (.object [("field",.string "x"),("window",.string "1s")]))])]
      schema := ⟨.ofList [("s",FieldType.f64)],[]⟩
      tablePrimaryKey := some ["k"]
      registeredAtVersion := 0 }

abbrev windowKernel : Kernel := rationalKernel.withSketches sampleParts

abbrev windowServer : Live Empty (AggOp windowKernel) :=
  liveAfter sampleEnv (aggOperators windowKernel Empty)
    [sampleRegister [sampleEvent "E",windowTable] false]

def windowAgg : AggregationDescriptor Empty :=
  windowServer.registry.compiledAggregations["T"]?.get (by decide)

def windowFeature : NamedAggOp Empty :=
  windowAgg.features.head (by decide)

def windowPushes : List TimedPush :=
  [⟨"E",sampleRow "a" 1 0,100⟩,⟨"E",sampleRow "b" 7 0,1400⟩,⟨"E",sampleRow "a" 2 0,1500⟩,
    ⟨"E",sampleRow "a" 4 0,2000⟩]

/-- The events of the entity that is read, with what the loop hands on of them. -/
def windowVisits : List Visit :=
  [⟨sampleRow "a" 1 0,sampleRow "a" 1 0,100,.singleStr "a"⟩,
    ⟨sampleRow "a" 2 0,sampleRow "a" 2 0,1500,.singleStr "a"⟩,
    ⟨sampleRow "a" 4 0,sampleRow "a" 4 0,2000,.singleStr "a"⟩]

theorem windowFeature_holds :
    WindowedFeature windowServer.registry windowAgg windowFeature 1000 where
  compiled := ⟨"T",(Option.some_get _).symm⟩
  member := List.head_mem _
  wrapped := by decide
  windowed := by decide
  positive := by decide
  finite := by decide

theorem windowVisits_arrive : Arrives (windowVisits.map Visit.nowMs) where
  ascending := by decide
  sinceEpoch := by
    intro time member
    simp only [windowVisits,List.map_cons,List.map_nil,List.mem_cons,List.not_mem_nil,
      or_false] at member
    rcases member with rfl | rfl | rfl <;> decide

end Beava.Server
