/-
What pushes to different entities and sources have to do with each other.

All aggregations of a source share one pass of the apply loop and its cache of
entity keys, and all tables live in one vector.  Still the row of an entity is
changed by the events that reach this entity only, and the tables of a source by
the events of this source only.  So reads do not see how the pushes of different
entities were interleaved, and the state of the server does not depend on how the
streams of different sources were.
-/

import Beava.Lib.Views
import Beava.Server.ColdAfter

namespace Beava.Server

open Beava.Core Beava.Apply Beava.Registry

variable {Expr Op : Type} {env : Env Expr} {ops : Operators Expr Op}

variable (env ops) in
/-- The server after pushes, accepted or refused. -/
def pushAll (live : Live Expr Op) (pushes : List TimedPush) : Live Expr Op :=
  Machine.run (Live.next env ops) live
    (pushes.map TimedPush.action)

structure EntityView (Op : Type) where
  row : Option (List Op)
  lastSeen : Option Nat

def entityView (aggId : Nat) (shape : EntityKeyShape) (live : Live Expr Op) : EntityView Op :=
  let table := StateTables.tableAt live.tables aggId
  ⟨table.rows.get shape,table.lastSeen.get shape⟩

def shownTo (env : Env Expr) (registry : RegistryInner Expr) (agg : AggregationDescriptor Expr)
    (shape : EntityKeyShape) (push : TimedPush) : Option Visit :=
  (visitOf env registry agg push).filter fun visit => visit.shape = shape

theorem filterMap_shownTo (registry : RegistryInner Expr) (agg : AggregationDescriptor Expr)
    (shape : EntityKeyShape) (pushes : List TimedPush) :
    pushes.filterMap (shownTo env registry agg shape) =
      entityVisits shape (visitsOf env registry agg pushes) := by
  rw [entityVisits,visitsOf,List.filter_filterMap]
  rfl

def EntityView.cold (view : EntityView Op) (nowMs : Int64) (coldAfterMs : Option Nat) : Bool :=
  match coldAfterMs, view.lastSeen with
  | some ttl, some lastSeen => !decide (seenMs nowMs - lastSeen ≤ ttl)
  | _, _ => false

def EntityView.visit (ops : Operators Expr Op) (inputOf : Visit → AggOpDescriptor Expr → OpInput)
    (agg : AggregationDescriptor Expr) (coldAfterMs : Option Nat) (view : EntityView Op)
    (visit : Visit) : EntityView Op :=
  { row := some (updateRow ops (inputOf visit)
      (if view.cold visit.nowMs coldAfterMs then AggStateTable.initRow ops agg
        else view.row.getD (AggStateTable.initRow ops agg)) agg.features)
    lastSeen :=
      match coldAfterMs with
      | some _ => some (seenMs visit.nowMs)
      | none => view.lastSeen }

theorem updateTable_none_lastSeen (agg : AggregationDescriptor Expr)
    (inputOf : AggOpDescriptor Expr → OpInput) (shape : EntityKeyShape) (nowMs : Int64)
    (table : AggStateTable Op) :
    (updateTable ops agg inputOf shape nowMs none table).lastSeen = table.lastSeen := by
  simp only [updateTable,getOrInit_lastSeen]

section Entity

variable {registry : RegistryInner Expr} (wellFormed : WellFormed env registry) {name : String}
  {agg : AggregationDescriptor Expr}
  (compiled : registry.compiledAggregations[name]? = some agg)

include wellFormed compiled

variable (ops) in
theorem entityView_isView (shape : EntityKeyShape) :
    Machine.View (fun live push => Live.next env ops live (TimedPush.action push))
      (fun live => live.registry = registry) (entityView agg.aggId shape)
      (shownTo env registry agg shape)
      (EntityView.visit ops (visitInput env registry agg) agg
        (coldAfterMsOf registry agg.sourceNodeName)) where
  keeps live push isRegistry := (push_registry live push).trans isRegistry
  step live push isRegistry := by
    subst isRegistry
    have table : StateTables.tableAt (live.next env ops push.action).tables agg.aggId = _ :=
      push_table wellFormed compiled push
    simp only [entityView,table,shownTo]
    cases visited : visitOf env live.registry agg push with
    | none => rfl
    | some visit =>
        simp only
        by_cases same : visit.shape = shape
        · subst same
          rw [Option.filter_some,if_pos (decide_eq_true rfl),updateTable_get,if_pos rfl]
          cases ttl : coldAfterMsOf live.registry agg.sourceNodeName with
          | none =>
              rw [updateTable_none_lastSeen]
              rfl
          | some ttl =>
              rw [updateTable_lastSeen,if_pos rfl]
              rfl
        · rw [Option.filter_some,if_neg (by simpa using same),updateTable_get,if_neg same]
          cases coldAfterMsOf live.registry agg.sourceNodeName with
          | none => rw [updateTable_none_lastSeen]
          | some ttl => rw [updateTable_lastSeen,if_neg same]

end Entity

theorem pushAll_eq_run (live : Live Expr Op) (pushes : List TimedPush) :
    pushAll env ops live pushes =
      Machine.run (fun live push => Live.next env ops live (TimedPush.action push)) live
        pushes := by
  rw [pushAll,Machine.run,Machine.run,List.foldl_map]

def addressed (key : CompoundKey) : List EntityKeyShape :=
  match key with
  | [(_,text)] => [.singleStr text,.multi key]
  | key => [.multi key]

theorem entityOps_congr {first second : AggStateTable Op} {key : CompoundKey}
    (same : ∀ shape ∈ addressed key, first.rows.get shape = second.rows.get shape) :
    entityOps first key = entityOps second key := by
  unfold addressed at same
  unfold entityOps
  split
  · simp only [List.forall_mem_cons,List.not_mem_nil,IsEmpty.forall_iff,implies_true,
      and_true] at same
    rw [same.1,same.2]
  · rename_i notSingle
    split at same
    · rename_i column text
      exact absurd rfl (notSingle column text)
    · exact same _ (List.mem_singleton.mpr rfl)

/-- The aggregation a name leads to: through a feature, or by its own name. -/
def aggregationNamed (registry : RegistryInner Expr) (name : String) : Option String :=
  match registry.featureIndex[name]? with
  | some owner => some owner.1
  | none => if registry.compiledAggregations.contains name then some name else none

def LooksAt (registry : RegistryInner Expr) (name key : String)
    (holds : AggregationDescriptor Expr → EntityKeyShape → Prop) : Prop :=
  ∀ node ∈ aggregationNamed registry name, ∀ agg ∈ registry.compiledAggregations[node]?,
    ∀ entityKey ∈ parseEntityKey key agg.groupKeys, ∀ shape ∈ addressed entityKey,
      holds agg shape

theorem dispatchGetSingle_congr (query : Op → Int64 → Value) {registry : RegistryInner Expr}
    {first second : StateTables Op} {name key : String}
    (same : LooksAt registry name key fun agg shape =>
      (StateTables.tableAt first agg.aggId).rows.get shape =
        (StateTables.tableAt second agg.aggId).rows.get shape) (queryTimeMs : Int64) :
    dispatchGetSingle query registry first name key queryTimeMs =
      dispatchGetSingle query registry second name key queryTimeMs := by
  have sameOps : ∀ node agg entityKey, aggregationNamed registry name = some node →
      registry.compiledAggregations[node]? = some agg →
      parseEntityKey key agg.groupKeys = some entityKey →
        entityOps (StateTables.tableAt first agg.aggId) entityKey =
          entityOps (StateTables.tableAt second agg.aggId) entityKey :=
    fun node agg entityKey named compiled parsed =>
      entityOps_congr (same node named agg compiled entityKey parsed)
  unfold dispatchGetSingle
  cases indexed : registry.featureIndex[name]? with
  | some owner =>
      simp only
      cases compiled : registry.compiledAggregations[owner.1]? with
      | none => rfl
      | some agg =>
          simp only
          cases parsed : parseEntityKey key agg.groupKeys with
          | none => rfl
          | some entityKey =>
              have named : aggregationNamed registry name = some owner.1 := by
                rw [aggregationNamed,indexed]
              simp only [queryFeature,sameOps owner.1 agg entityKey named compiled parsed]
  | none =>
      simp only
      cases compiled : registry.compiledAggregations[name]? with
      | none => rfl
      | some agg =>
          simp only
          cases parsed : parseEntityKey key agg.groupKeys with
          | none => rfl
          | some entityKey =>
              have named : aggregationNamed registry name = some name := by
                have contained : registry.compiledAggregations.contains name = true :=
                  (KeyMap.contains_iff_exists _ _).mpr ⟨agg,compiled⟩
                simp only [aggregationNamed,indexed,contained,if_true]
              simp only [queryRow,queryFeature,sameOps name agg entityKey named compiled parsed]

deriving instance DecidableEq for Visit

/-- The two lists of pushes bring the same events to the entities that a read looks at. -/
def SameVisits (env : Env Expr) (registry : RegistryInner Expr) (left right : List TimedPush)
    (name key : String) : Prop :=
  LooksAt registry name key fun agg shape =>
    entityVisits shape (visitsOf env registry agg left) =
      entityVisits shape (visitsOf env registry agg right)

instance (registry : RegistryInner Expr) (left right : List TimedPush) (name key : String) :
    Decidable (SameVisits env registry left right name key) :=
  inferInstanceAs (Decidable (∀ node ∈ aggregationNamed registry name,
    ∀ agg ∈ registry.compiledAggregations[node]?,
      ∀ entityKey ∈ parseEntityKey key agg.groupKeys, ∀ shape ∈ addressed entityKey, _ = _))

def isolatedRun : List Action :=
  [sampleRegister [sampleEvent "E",sampleEvent "F",sampleTable "A" "E" [] "a" "last" "x",
    sampleTable "B" "F" [] "b" "first" "x"] false]

/-- Three pushes of which one goes to the entity `u` of the first table. -/
def crowdedPushes : List TimedPush :=
  [⟨"E",sampleRow "v" 7 8,10⟩,⟨"E",sampleRow "u" 1 2,20⟩,⟨"F",sampleRow "u" 3 4,30⟩]

/-- The integer that `first` and `last` keep. -/
def keptInteger (op : Option Int64) (_ : Int64) : Value :=
  match op with
  | some number => .i64 number
  | none => .null

section Source

variable {registry : RegistryInner Expr} (wellFormed : WellFormed env registry)
variable {agg : AggregationDescriptor Expr}

include wellFormed

variable (ops) in
theorem tableView_isView {name : String}
    (compiled : registry.compiledAggregations[name]? = some agg) :
    Machine.View (fun live push => Live.next env ops live (TimedPush.action push))
      (fun live => live.registry = registry)
      (fun live => StateTables.tableAt live.tables agg.aggId) (visitOf env registry agg)
      (fun table visit => updateTable ops agg (visitInput env registry agg visit) visit.shape
        visit.nowMs (coldAfterMsOf registry agg.sourceNodeName) table) where
  keeps live push isRegistry := (push_registry live push).trans isRegistry
  step live push isRegistry := by
    subst isRegistry
    have table : StateTables.tableAt (live.next env ops push.action).tables agg.aggId = _ :=
      push_table wellFormed compiled push
    rw [table]
    cases visitOf env live.registry agg push <;> rfl

omit wellFormed in
theorem visitOf_otherSource {push : TimedPush}
    (other : decide (push.eventName = agg.sourceNodeName) = false) :
    visitOf env registry agg push = none :=
  if_neg fun both => of_decide_eq_false other both.1

end Source

/-- The same pushes with the stream of `F` first. -/
def reorderedPushes : List TimedPush :=
  [⟨"F",sampleRow "u" 3 4,30⟩,⟨"E",sampleRow "v" 7 8,10⟩,⟨"E",sampleRow "u" 1 2,20⟩]

end Beava.Server
