/-
What an entity keeps under a time to live.

A source can say after which time without an event an entity is cold.  The row of
an entity is then the fold of the operators over its current session, which is
everything since the last gap that was too long.  The one row of a table without
group keys is no exception.
-/

import Beava.Apply.Reaching
import Beava.Lib.Sessions
import Beava.Server.Lookup

namespace Beava.Server

open Beava.Core Beava.Apply Beava.Registry

variable {Expr Op : Type} {env : Env Expr} {ops : Operators Expr Op}
variable {name : String} {agg : AggregationDescriptor Expr} {registry : RegistryInner Expr}

structure TimedPush where
  eventName : String
  row : Row
  nowMs : Int64

def TimedPush.action (push : TimedPush) : Action :=
  .push push.eventName push.row push.nowMs

structure Visit where
  row : Row
  aggRow : Row
  nowMs : Int64
  shape : EntityKeyShape

/-- The event reaches the table of the aggregation when its push is accepted and the loop
gets to it. -/
def visitOf (env : Env Expr) (registry : RegistryInner Expr) (agg : AggregationDescriptor Expr)
    (push : TimedPush) : Option Visit :=
  if push.eventName = agg.sourceNodeName ∧
      pushError registry push.eventName push.row = none then
    (reaches env registry push.row agg.aggId
      (registry.aggregationsForSource push.eventName) ∅).map fun found =>
        { row := push.row, aggRow := found.1, nowMs := push.nowMs, shape := found.2 }
  else none

def visitsOf (env : Env Expr) (registry : RegistryInner Expr) (agg : AggregationDescriptor Expr)
    (pushes : List TimedPush) : List Visit :=
  pushes.filterMap (visitOf env registry agg)

def entityVisits (shape : EntityKeyShape) (visits : List Visit) : List Visit :=
  visits.filter fun visit => visit.shape = shape

/-- The time from one event to the next, nothing when it steps back, is in bounds. -/
def withinMs (coldAfterMs : Option Nat) (first second : Visit) : Bool :=
  match coldAfterMs with
  | some ttl => decide (seenMs second.nowMs - seenMs first.nowMs ≤ ttl)
  | none => true

section Fold

variable (env) (ops) (registry : RegistryInner Expr) (agg : AggregationDescriptor Expr)

def visitInput (visit : Visit) (descriptor : AggOpDescriptor Expr) : OpInput :=
  featureInput env descriptor (extractedOf registry agg.sourceNodeName visit.row) visit.aggRow
    visit.nowMs

def foldRow (visits : List Visit) : List Op :=
  visits.foldl (fun row visit => updateRow ops (visitInput env registry agg visit) row agg.features)
    (AggStateTable.initRow ops agg)

def entityRow (visits : List Visit) : Option (List Op) :=
  if visits.isEmpty then none else some (foldRow env ops registry agg visits)

theorem foldRow_append_singleton (visits : List Visit) (visit : Visit) :
    foldRow env ops registry agg (visits ++ [visit]) =
      updateRow ops (visitInput env registry agg visit) (foldRow env ops registry agg visits)
        agg.features := by
  rw [foldRow,List.foldl_append]
  rfl

theorem entityRow_append_singleton (visits : List Visit) (visit : Visit) :
    entityRow env ops registry agg (visits ++ [visit]) =
      some (updateRow ops (visitInput env registry agg visit)
        (foldRow env ops registry agg visits) agg.features) := by
  have notEmpty : (visits ++ [visit]).isEmpty = false := by cases visits <;> rfl
  rw [entityRow,notEmpty,foldRow_append_singleton]
  rfl

end Fold

section Push

variable {live : Live Expr Op} (wellFormed : WellFormed env live.registry) {name : String}
  {agg : AggregationDescriptor Expr}
  (compiled : live.registry.compiledAggregations[name]? = some agg)

include wellFormed compiled

theorem push_table (push : TimedPush) :
    StateTables.tableAt (live.next env ops push.action).tables agg.aggId =
      match visitOf env live.registry agg push with
      | none => StateTables.tableAt live.tables agg.aggId
      | some visit =>
          updateTable ops agg (visitInput env live.registry agg visit) visit.shape visit.nowMs
            (coldAfterMsOf live.registry agg.sourceNodeName)
            (StateTables.tableAt live.tables agg.aggId) := by
  have distinct := aggIds_nodup wellFormed
    (List.Sublist.refl (live.registry.aggregationsForSource push.eventName))
  unfold TimedPush.action Live.next visitOf
  dsimp only
  cases outcome : pushError live.registry push.eventName push.row with
  | some code => simp
  | none =>
      by_cases sameSource : push.eventName = agg.sourceNodeName
      · have member := (mem_aggregationsForSource wellFormed compiled).mpr sameSource
        have notEmpty : (live.registry.aggregationsForSource push.eventName).isEmpty = false := by
          cases listed : live.registry.aggregationsForSource push.eventName with
          | nil =>
              rw [listed] at member
              cases member
          | cons head rest => rfl
        have extracted : extractFields live.registry push.eventName push.row
            (live.registry.aggregationsForSource push.eventName) =
              extractedOf live.registry push.eventName push.row := by
          rw [extractFields,notEmpty]
          rfl
        simp only [and_true,if_pos sameSource,applyEvent,applyEventWithDescs,extracted]
        rw [foldl_applyToAggregation_reaches env ops live.registry push.row push.nowMs
          (coldAfterMsOf live.registry push.eventName)
          (extractedOf live.registry push.eventName push.row) member distinct]
        cases reaches env live.registry push.row agg.aggId
            (live.registry.aggregationsForSource push.eventName) ∅ with
        | none => rfl
        | some found =>
            simp only [Option.map_some,sameSource]
            rfl
      · have absent : agg.aggId ∉ (live.registry.aggregationsForSource push.eventName).map
            AggregationDescriptor.aggId := by
          intro inIds
          obtain ⟨other,member,sameId⟩ := List.mem_map.mp inIds
          have same := eq_of_aggId wellFormed (List.Sublist.refl _) compiled member sameId
          rw [same] at member
          exact sameSource ((mem_aggregationsForSource wellFormed compiled).mp member)
        simp only [and_true,if_neg sameSource]
        exact foldl_applyToAggregation_other env ops live.registry push.row push.nowMs _ _ absent _

end Push

theorem push_registry (live : Live Expr Op) (push : TimedPush) :
    (live.next env ops push.action).registry = live.registry := by
  unfold TimedPush.action Live.next
  dsimp only
  cases pushError live.registry push.eventName push.row <;> rfl

/-- Every entity has the row of its current session, and when entities can get cold the
table knows when it was last seen. -/
structure KeepsSessions (env : Env Expr) (ops : Operators Expr Op)
    (registry : RegistryInner Expr) (agg : AggregationDescriptor Expr) (coldAfterMs : Option Nat)
    (visits : List Visit) (table : AggStateTable Op) : Prop where
  rows : ∀ shape, table.rows.get shape =
    entityRow env ops registry agg
      (Sessions.current (withinMs coldAfterMs) (entityVisits shape visits))
  lastSeen : coldAfterMs ≠ none → ∀ shape, table.lastSeen.get shape =
    (entityVisits shape visits).getLast?.map fun visit => seenMs visit.nowMs

section Sessions

variable {registry : RegistryInner Expr} {agg : AggregationDescriptor Expr}
  {coldAfterMs : Option Nat} {visits : List Visit} {table : AggStateTable Op}

theorem keepsSessions_new :
    KeepsSessions env ops registry agg coldAfterMs [] (.new : AggStateTable Op) where
  rows shape := ShapeMap.get_empty shape
  lastSeen _ shape := ShapeMap.get_empty shape

theorem entityVisits_append_same (visit : Visit) :
    entityVisits visit.shape (visits ++ [visit]) = entityVisits visit.shape visits ++ [visit] := by
  simp only [entityVisits,List.filter_append,List.filter_singleton,decide_true,cond_true]

theorem entityVisits_append_other {shape : EntityKeyShape} {visit : Visit}
    (different : visit.shape ≠ shape) :
    entityVisits shape (visits ++ [visit]) = entityVisits shape visits := by
  simp only [entityVisits,List.filter_append,List.filter_singleton,decide_eq_false different,
    cond_false,List.append_nil]

theorem KeepsSessions.cold (keeps : KeepsSessions env ops registry agg coldAfterMs visits table)
    {visit last : Visit} (isLast : (entityVisits visit.shape visits).getLast? = some last) :
    table.cold visit.shape visit.nowMs coldAfterMs = !withinMs coldAfterMs last visit := by
  cases coldAfterMs with
  | none => rfl
  | some ttl =>
      have seen := keeps.lastSeen (Option.some_ne_none ttl) visit.shape
      rw [isLast,Option.map_some] at seen
      simp only [AggStateTable.cold,seen,withinMs]

theorem KeepsSessions.visit (keeps : KeepsSessions env ops registry agg coldAfterMs visits table)
    (visit : Visit) :
    KeepsSessions env ops registry agg coldAfterMs (visits ++ [visit])
      (updateTable ops agg (visitInput env registry agg visit) visit.shape visit.nowMs
        coldAfterMs table) where
  rows := by
    intro shape
    rw [updateTable_get]
    by_cases same : visit.shape = shape
    · subst same
      have before : Sessions.IsCurrent (withinMs coldAfterMs) (entityVisits visit.shape visits) _ :=
        Sessions.current_isCurrent _
      rw [if_pos rfl,entityVisits_append_same,Sessions.current_append_singleton,Sessions.goOn,
        before.getLast?,keeps.rows]
      cases isLast : (entityVisits visit.shape visits).getLast? with
      | none =>
          have isEmpty := List.getLast?_eq_none_iff.mp isLast
          rw [isEmpty]
          cases table.cold visit.shape visit.nowMs coldAfterMs <;> rfl
      | some last =>
          rw [keeps.cold isLast]
          have notEmpty : Sessions.current (withinMs coldAfterMs)
              (entityVisits visit.shape visits) ≠ [] := by
            intro isEmpty
            have sameLast := before.getLast?
            rw [isEmpty,isLast] at sameLast
            cases sameLast
          cases within : withinMs coldAfterMs last visit with
          | false =>
              simp only [Bool.not_false,within,Bool.false_eq_true,if_true,if_false]
              rfl
          | true =>
              simp only [Bool.not_true,within,Bool.false_eq_true,if_false,if_true]
              rw [entityRow_append_singleton,entityRow,if_neg (by
                rw [List.isEmpty_iff]
                exact notEmpty)]
              rfl
    · rw [if_neg same,entityVisits_append_other same]
      exact keeps.rows shape
  lastSeen := by
    intro isSome shape
    cases coldAfterMs with
    | none => exact absurd rfl isSome
    | some ttl =>
        rw [updateTable_lastSeen]
        by_cases same : visit.shape = shape
        · subst same
          rw [if_pos rfl,entityVisits_append_same,List.getLast?_append_of_ne_nil _
            (List.cons_ne_nil visit [])]
          rfl
        · rw [if_neg same,entityVisits_append_other same]
          exact keeps.lastSeen isSome shape

end Sessions

section Runs

variable {live : Live Expr Op} (wellFormed : WellFormed env live.registry) {name : String}
  {agg : AggregationDescriptor Expr}
  (compiled : live.registry.compiledAggregations[name]? = some agg)

include wellFormed compiled

theorem run_keepsSessions {visits : List Visit}
    (keeps : KeepsSessions env ops live.registry agg
      (coldAfterMsOf live.registry agg.sourceNodeName) visits
      (StateTables.tableAt live.tables agg.aggId))
    (pushes : List TimedPush) :
    KeepsSessions env ops live.registry agg (coldAfterMsOf live.registry agg.sourceNodeName)
      (visits ++ visitsOf env live.registry agg pushes)
      (StateTables.tableAt
        (Machine.run (Live.next env ops) live (pushes.map TimedPush.action)).tables
        agg.aggId) := by
  induction pushes generalizing live visits with
  | nil =>
      rw [visitsOf,List.filterMap_nil,List.append_nil]
      exact keeps
  | cons push rest ih =>
      have sameRegistry : (live.next env ops push.action).registry = live.registry :=
        push_registry live push
      rw [List.map_cons,Machine.run_cons,visitsOf,List.filterMap_cons]
      have table : StateTables.tableAt (live.next env ops push.action).tables agg.aggId = _ :=
        push_table wellFormed compiled push
      cases visited : visitOf env live.registry agg push with
      | none =>
          rw [visited] at table
          have next := @ih (live.next env ops push.action) (by rw [sameRegistry]; exact wellFormed)
            (by rw [sameRegistry]; exact compiled) visits (by
              rw [sameRegistry,table]
              exact keeps)
          rw [sameRegistry] at next
          exact next
      | some visit =>
          rw [visited] at table
          have next := @ih (live.next env ops push.action) (by rw [sameRegistry]; exact wellFormed)
            (by rw [sameRegistry]; exact compiled) (visits ++ [visit]) (by
              rw [sameRegistry,table]
              exact keeps.visit visit)
          rw [sameRegistry,List.append_assoc] at next
          exact next

end Runs

theorem liveAfter_keepsSessions {actions : List Action}
    (compiled : (liveAfter env ops actions).registry.compiledAggregations[name]? = some agg)
    (blank : StateTables.tableAt (liveAfter env ops actions).tables agg.aggId = .new)
    (pushes : List TimedPush) :
    KeepsSessions env ops (liveAfter env ops actions).registry agg
      (coldAfterMsOf (liveAfter env ops actions).registry agg.sourceNodeName)
      (visitsOf env (liveAfter env ops actions).registry agg pushes)
      (StateTables.tableAt (Machine.run (Live.next env ops) (liveAfter env ops actions)
        (pushes.map TimedPush.action)).tables agg.aggId) := by
  have wellFormed := (liveAfter_reached env ops actions).wellFormed
  have keeps : KeepsSessions env ops _ agg _ _ _ := run_keepsSessions wellFormed compiled
    (by rw [blank]; exact keepsSessions_new) pushes
  rwa [List.nil_append] at keeps

/-- From an empty table on, the row of an entity is the fold of the operators over the longest
suffix of its events in which no two that follow each other are too far apart. -/
theorem session_kept (env : Env Expr) (ops : Operators Expr Op) (actions : List Action)
    (pushes : List TimedPush) {name : String} {agg : AggregationDescriptor Expr} {ttl : Nat}
    (compiled : (liveAfter env ops actions).registry.compiledAggregations[name]? = some agg)
    (coldAfter : coldAfterMsOf (liveAfter env ops actions).registry agg.sourceNodeName = some ttl)
    (blank : StateTables.tableAt (liveAfter env ops actions).tables agg.aggId = .new)
    (shape : EntityKeyShape) :
    ∃ session,
      Sessions.IsCurrent (withinMs (some ttl))
        (entityVisits shape (visitsOf env (liveAfter env ops actions).registry agg pushes))
        session ∧
      (StateTables.tableAt (Machine.run (Live.next env ops) (liveAfter env ops actions)
          (pushes.map TimedPush.action)).tables agg.aggId).rows.get shape =
        entityRow env ops (liveAfter env ops actions).registry agg session := by
  have rows := (liveAfter_keepsSessions compiled blank pushes).rows shape
  rw [coldAfter] at rows
  exact ⟨_,Sessions.current_isCurrent _,rows⟩

theorem visitOf_global (wellFormed : WellFormed env registry)
    (signatures : SignaturesExact env registry)
    (compiled : registry.compiledAggregations[name]? = some agg) (isGlobal : agg.groupKeys = [])
    {push : TimedPush} {visit : Visit} (visited : visitOf env registry agg push = some visit) :
    visit.shape = .multi [] := by
  unfold visitOf at visited
  split at visited
  · rename_i conditions
    have all := List.Sublist.refl (registry.aggregationsForSource push.eventName)
    have member := (mem_aggregationsForSource wellFormed compiled).mpr conditions.1
    have emptyExact : CacheExact env push.row (registry.aggregationsForSource push.eventName)
        (∅ : ShapeCache) := by
      intro agg _ shape found
      rw [Std.ExtTreeMap.getElem?_empty] at found
      cases found
    rw [reaches_of_exact env registry push.row (clustersExact wellFormed all signatures)
      (List.Subset.refl _) emptyExact member (aggIds_nodup wellFormed all),isGlobal] at visited
    cases seen : chainRow env registry agg.nodeName push.row with
    | none =>
        rw [seen] at visited
        cases visited
    | some aggRow =>
        rw [seen] at visited
        cases visited
        rfl
  · cases visited

theorem entityVisits_global (wellFormed : WellFormed env registry)
    (signatures : SignaturesExact env registry)
    (compiled : registry.compiledAggregations[name]? = some agg) (isGlobal : agg.groupKeys = [])
    (pushes : List TimedPush) :
    entityVisits (.multi []) (visitsOf env registry agg pushes) =
      visitsOf env registry agg pushes := by
  apply List.filter_eq_self.mpr
  intro visit member
  obtain ⟨push,-,visited⟩ := List.mem_filterMap.mp member
  exact decide_eq_true (visitOf_global wellFormed signatures compiled isGlobal visited)

/-- The row of a global table is the fold over all its events as long as no two of them that
follow each other are too far apart. -/
theorem global_kept (env : Env Expr) (ops : Operators Expr Op) (actions : List Action)
    (pushes : List TimedPush) {name : String} {agg : AggregationDescriptor Expr}
    (signatures : SignaturesExact env (liveAfter env ops actions).registry)
    (compiled : (liveAfter env ops actions).registry.compiledAggregations[name]? = some agg)
    (isGlobal : agg.groupKeys = [])
    (blank : StateTables.tableAt (liveAfter env ops actions).tables agg.aggId = .new)
    (noGap : (visitsOf env (liveAfter env ops actions).registry agg pushes).IsChain
      fun first second =>
        withinMs (coldAfterMsOf (liveAfter env ops actions).registry agg.sourceNodeName) first
          second = true) :
    (StateTables.tableAt (Machine.run (Live.next env ops) (liveAfter env ops actions)
        (pushes.map TimedPush.action)).tables agg.aggId).rows.get (.multi []) =
      entityRow env ops (liveAfter env ops actions).registry agg
        (visitsOf env (liveAfter env ops actions).registry agg pushes) := by
  have wellFormed := (liveAfter_reached env ops actions).wellFormed
  have rows := (liveAfter_keepsSessions compiled blank pushes).rows (.multi [])
  rw [entityVisits_global wellFormed signatures compiled isGlobal,
    Sessions.current_eq_self noGap] at rows
  exact rows

/-- An event whose entities are cold after a second. -/
def coldSource : PayloadNode :=
  .event
    { name := "E"
      schema := ⟨.ofList sampleColumns,[]⟩
      dedupeKey := none
      dedupeWindowMs := none
      keepEventsForMs := none
      coldAfterMs := some 1000
      registeredAtVersion := 0
      applyFieldNames := [] }

/-- A table with the first value of `x`, by the keys. -/
def firstTable (keys : List String) : PayloadNode :=
  .derivation
    { name := "T"
      outputKind := .table
      upstreams := ["E"]
      ops := [.groupBy keys (.ofList [("v",AggSpec.mk "first"
        (.object [("field",.string "x")]))])]
      schema := ⟨.ofList [("v",FieldType.i64)],[]⟩
      tablePrimaryKey := some keys
      registeredAtVersion := 0 }

abbrev coldServer (keys : List String) : Live Empty (Option Int64) :=
  liveAfter sampleEnv sampleOps [sampleRegister [coldSource,firstTable keys] false]

def gapPushes : List TimedPush :=
  [⟨"E",sampleRow "a" 1 0,0⟩,⟨"E",sampleRow "a" 2 0,2000⟩]

def keyedAgg : AggregationDescriptor Empty :=
  (coldServer ["k"]).registry.compiledAggregations["T"]?.get (by decide)

def globalAgg : AggregationDescriptor Empty :=
  (coldServer []).registry.compiledAggregations["T"]?.get (by decide)

/-- The second event starts a session. -/
theorem session_kept_gap :
    ∃ session,
      Sessions.IsCurrent (withinMs (some 1000)) (entityVisits (.singleStr "a")
        (visitsOf sampleEnv (coldServer ["k"]).registry keyedAgg gapPushes)) session ∧
      (StateTables.tableAt (Machine.run (Live.next sampleEnv sampleOps) (coldServer ["k"])
          (gapPushes.map TimedPush.action)).tables keyedAgg.aggId).rows.get (.singleStr "a") =
        entityRow sampleEnv sampleOps (coldServer ["k"]).registry keyedAgg session :=
  session_kept sampleEnv sampleOps [sampleRegister [coldSource,firstTable ["k"]] false] gapPushes
    (Option.some_get _).symm (by decide) rfl (.singleStr "a")

def warmPushes : List TimedPush :=
  [⟨"E",sampleRow "a" 1 0,0⟩,⟨"E",sampleRow "b" 2 0,1000⟩]

theorem global_kept_warm :
    (StateTables.tableAt (Machine.run (Live.next sampleEnv sampleOps) (coldServer [])
        (warmPushes.map TimedPush.action)).tables globalAgg.aggId).rows.get (.multi []) =
      entityRow sampleEnv sampleOps (coldServer []).registry globalAgg
        (visitsOf sampleEnv (coldServer []).registry globalAgg warmPushes) :=
  global_kept sampleEnv sampleOps [sampleRegister [coldSource,firstTable []] false] warmPushes
    (by decide) (Option.some_get _).symm (by decide) rfl (by decide)

/-- Two seconds without an event take the first value from a global table. -/
theorem global_evicted :
    globalAgg.groupKeys = [] ∧ SignaturesExact sampleEnv (coldServer []).registry ∧
    (StateTables.tableAt (Machine.run (Live.next sampleEnv sampleOps) (coldServer [])
        (gapPushes.map TimedPush.action)).tables globalAgg.aggId).rows.get (.multi []) =
      some [some 2] ∧
    entityRow sampleEnv sampleOps (coldServer []).registry globalAgg
        (visitsOf sampleEnv (coldServer []).registry globalAgg gapPushes) = some [some 1] := by
  decide

end Beava.Server
