/-
Fields that are extracted once for all aggregations of an event.

A feature finds its field through two lists of positions, which are computed
again for every aggregation of a source when one is added.  In every registry
that calls reach, the positions are unset or belong to the fields that the event
extracts now, so that the operator is updated as by the row itself.
-/

import Beava.Agg.TwoPaths
import Beava.Server.History
import Beava.Server.Reached

namespace Beava.Server

open Beava.Core Beava.Apply Beava.Registry Beava.Agg

variable {Expr : Type} {env : Env Expr}
variable {feature : NamedAggOp Expr} {agg : AggregationDescriptor Expr}
variable {registry : RegistryInner Expr}

def ReferencedWithinByte (registry : RegistryInner Expr) : Prop :=
  ∀ entry ∈ registry.events.toList, entry.2.applyFieldNames.length ≤ 255

instance (registry : RegistryInner Expr) : Decidable (ReferencedWithinByte registry) :=
  inferInstanceAs (Decidable (∀ entry ∈ registry.events.toList, _))

theorem readsRow_of_unresolved {descriptor : AggOpDescriptor Expr}
    (unresolved : Unresolved descriptor) (extracted : ExtractedFields) (row : Row) :
    ReadsRow descriptor extracted row where
  value := if_pos unresolved.1
  place := if_pos unresolved.2

theorem readsRow_mapFeature {union names : List String}
    (covers : Covers union (declaredFields feature.descriptor))
    (assigned : Assigned names feature.descriptor) (namesInByte : names.length ≤ 255) (row : Row) :
    ReadsRow (mapFeature names (unionLookup union) feature).descriptor (union.map row.get) row := by
  have sameField : (mapFeature names (unionLookup union) feature).descriptor.field =
      feature.descriptor.field := by
    unfold mapFeature
    split <;> rfl
  have sameLat : latName (mapFeature names (unionLookup union) feature).descriptor =
      latName feature.descriptor := by
    unfold mapFeature
    split <;> rfl
  have sameLon : lonName (mapFeature names (unionLookup union) feature).descriptor =
      lonName feature.descriptor := by
    unfold mapFeature
    split <;> rfl
  constructor
  · rw [preVal_mapFeature covers assigned namesInByte,fieldByName,fieldByName,sameField]
  · rw [coordinates_mapFeature covers assigned,sameLat,sameLon,readCoordinates]
    simp only [ite_self]

theorem readsRow_resolved {resolved : AggregationDescriptor Expr} {schema : Schema}
    {union : List String} (succeeded : resolveFieldIndices agg schema union = .ok resolved)
    (covers : Covers union (aggFields agg)) (member : feature ∈ resolved.features) (row : Row) :
    ReadsRow feature.descriptor (union.map row.get) row := by
  rcases feature_resolved succeeded covers member with
    ⟨-,unresolved⟩ | ⟨names,before,rfl,featureCovers,assigned,namesInByte⟩
  · exact readsRow_of_unresolved unresolved _ row
  · exact readsRow_mapFeature featureCovers assigned namesInByte row

/-- The aggregation has no positions, or those of the fields that its event
extracts. -/
def Positioned (registry : RegistryInner Expr) (agg : AggregationDescriptor Expr) : Prop :=
  (∀ feature ∈ agg.features, Unresolved feature.descriptor) ∨
    ∃ event, registry.events[agg.sourceNodeName]? = some event ∧
      (event.applyFieldNames.length ≤ 255 → ∀ feature ∈ agg.features, ∀ row,
        ReadsRow feature.descriptor (event.applyFieldNames.map row.get) row)

theorem Positioned.readsRow (positioned : Positioned registry agg)
    (within : ReferencedWithinByte registry) (member : feature ∈ agg.features) (row : Row) :
    ReadsRow feature.descriptor (extractedOf registry agg.sourceNodeName row) row := by
  rcases positioned with unresolved | ⟨event,isEvent,reads⟩
  · exact readsRow_of_unresolved (unresolved feature member) _ row
  · rw [extractedOf,isEvent]
    exact reads
      (within _ (Std.ExtTreeMap.mem_toList_iff_getElem?_eq_some.mpr isEvent)) feature member row

theorem Positioned.congr {before after : RegistryInner Expr} (positioned : Positioned before agg)
    (sameEvent : after.events[agg.sourceNodeName]? = before.events[agg.sourceNodeName]?) :
    Positioned after agg := by
  rw [Positioned,sameEvent]
  exact positioned

theorem Positioned.installed {newVersion : Nat} {before after : RegistryInner Expr}
    (positioned : Positioned before agg) (installed : Installed newVersion before after) :
    Positioned after agg := by
  rcases positioned with unresolved | ⟨event,isEvent,reads⟩
  · exact .inl unresolved
  · exact .inr ⟨event,installed.events isEvent,reads⟩

theorem refreshSource_positioned
    (wellFormed : WellFormed env registry) {name : String}
    (compiled : (refreshSource registry agg.sourceNodeName).compiledAggregations[name]? =
      some agg) :
    Positioned (refreshSource registry agg.sourceNodeName) agg := by
  cases resolved : resolvedIn (refreshSource registry agg.sourceNodeName) agg with
  | false =>
      have wellFormedAfter := refreshSource_wellFormed wellFormed agg.sourceNodeName
      exact .inl (wellFormedAfter.unresolved compiled resolved)
  | true =>
      obtain ⟨before,event,inSource,eventAfter,succeeded⟩ :=
        refreshSource_resolved wellFormed compiled rfl resolved
      refine .inr ⟨_,eventAfter,fun fits feature member row => ?_⟩
      exact readsRow_resolved succeeded (covers_fieldUnion fits inSource) member row

def AllPositioned (registry : RegistryInner Expr) : Prop :=
  ∀ (name : String) (agg : AggregationDescriptor Expr),
    registry.compiledAggregations[name]? = some agg → Positioned registry agg

theorem allPositioned_empty : AllPositioned (.empty : RegistryInner Expr) := by
  intro name agg compiled
  simp [RegistryInner.empty] at compiled

theorem Removed.allPositioned {names : List String} {before after : RegistryInner Expr}
    (removed : Removed names before after) (closed : SourcesClosed names before)
    (allPositioned : AllPositioned before) : AllPositioned after := by
  intro name agg compiled
  obtain ⟨-,compiledBefore,sameSource⟩ := removed.survivor closed compiled
  exact (allPositioned name agg compiledBefore).congr sameSource

theorem applyRegistration_allPositioned {nodes : List PayloadNode}
    {validated : ValidatedPayload Expr} (wellFormed : WellFormed env registry)
    (accepted : Accepted env registry nodes validated) (allPositioned : AllPositioned registry) :
    AllPositioned (applyRegistration env registry validated) := by
  obtain ⟨-,installed⟩ := installNodes_spec wellFormed accepted
  intro name agg compiled
  exact applyRegistration_every wellFormed accepted (fun _ => True) (fun _ _ _ => trivial) trivial
    Positioned (fun ok _ compiled => refreshSource_positioned ok compiled) Positioned.congr
    (fun compiled => (allPositioned _ _ compiled).installed installed) compiled

section Step

variable {registry : RegistryInner Expr} (reached : Reached env registry)
  (allPositioned : AllPositioned registry)

include reached allPositioned

theorem AllPositioned.remaining (call : RegisterCall) :
    AllPositioned (call.remaining env registry) :=
  (remaining_removed reached.wellFormed call).allPositioned
    (removedNames_sourcesClosed reached.wellFormed call) allPositioned

theorem AllPositioned.step (call : RegisterCall) (append : AppendOutcome) :
    AllPositioned (dispatchRegister env registry call append).registry := by
  have remaining := allPositioned.remaining reached call
  refine dispatchRegister_keeps allPositioned remaining fun validated applied _ => ?_
  exact applyRegistration_allPositioned (remaining_wellFormed reached.wellFormed call)
    applied.validates remaining

end Step

theorem run_allPositioned {calls : List (RegisterCall × AppendOutcome)}
    (reached : Reached env registry) (allPositioned : AllPositioned registry) :
    AllPositioned (Machine.run
      (fun registry call => (dispatchRegister env registry call.1 call.2).registry) registry
        calls) := by
  induction calls generalizing registry with
  | nil => exact allPositioned
  | cons call rest ih =>
      exact ih (reached.step call.1 call.2) (allPositioned.step reached call.1 call.2)

theorem registryAfter_allPositioned (env : Env Expr) (calls : List (RegisterCall × AppendOutcome)) :
    AllPositioned (registryAfter env calls) :=
  run_allPositioned reached_empty allPositioned_empty

/-- Without a chain, what the event extracts and the row itself update the
operator alike. -/
theorem updateWithExtracted_eq_updateWithRow {kernel : Kernel} (env : Env Expr)
    (calls : List (RegisterCall × AppendOutcome)) (within : ReferencedWithinByte (registryAfter env calls))
    {name : String} {agg : AggregationDescriptor Expr}
    (compiled : (registryAfter env calls).compiledAggregations[name]? = some agg)
    (noChain : (registryAfter env calls).compiledChains[agg.nodeName]? = none)
    {feature : NamedAggOp Expr} (member : feature ∈ agg.features) {op : AggOp kernel}
    (made : Made env feature.descriptor op) (row : Row) (nowMs : Int64) {aggRow : Row}
    (seen : chainRow env (registryAfter env calls) agg.nodeName row = some aggRow) :
    op.updateWithExtracted env
        (preVal feature.descriptor
          (extractedOf (registryAfter env calls) agg.sourceNodeName row) aggRow)
        nowMs feature.descriptor.whereExpr aggRow feature.descriptor.field
        (extractedOf (registryAfter env calls) agg.sourceNodeName row)
        feature.descriptor.ext.latIdx feature.descriptor.ext.lonIdx =
      op.updateWithRow env row nowMs feature.descriptor.field feature.descriptor.whereExpr := by
  rw [chainRow,noChain] at seen
  cases seen
  have positioned := registryAfter_allPositioned env calls name agg compiled
  exact made.serves.updateWithExtracted_eq (positioned.readsRow within member row) nowMs
    feature.descriptor.whereExpr

/-- The second batch puts a field before the one that `T` reads. -/
def widenedCalls : List (RegisterCall × AppendOutcome) :=
  [(⟨[sampleEvent "E",sampleTable "T" "E" [] "total" "sum" "y"],false,false⟩,.durable),
   (⟨[sampleEvent "E",sampleTable "T" "E" [] "total" "sum" "y",
    sampleTable "U" "E" [] "latest" "last" "x"],false,false⟩,.durable)]

theorem widenedCalls_updateWithExtracted :
    ∃ agg feature, (registryAfter sampleEnv widenedCalls).compiledAggregations["T"]? = some agg ∧
      feature ∈ agg.features ∧ feature.descriptor.fieldIdxIntoEventExtracted = [1] ∧
        (AggOp.new feature.descriptor : AggOp wholeKernel).updateWithExtracted sampleEnv
            (preVal feature.descriptor
              (extractedOf (registryAfter sampleEnv widenedCalls) agg.sourceNodeName
                (sampleRow "a" 3 4)) (sampleRow "a" 3 4))
            1000 feature.descriptor.whereExpr (sampleRow "a" 3 4) feature.descriptor.field
            (extractedOf (registryAfter sampleEnv widenedCalls) agg.sourceNodeName
              (sampleRow "a" 3 4))
            feature.descriptor.ext.latIdx feature.descriptor.ext.lonIdx =
          (AggOp.new feature.descriptor).updateWithRow sampleEnv (sampleRow "a" 3 4) 1000
            feature.descriptor.field feature.descriptor.whereExpr := by
  have positions : ((registryAfter sampleEnv widenedCalls).compiledAggregations["T"]?.map
      fun agg => agg.features.map fun feature =>
        feature.descriptor.fieldIdxIntoEventExtracted) = some [[1]] := by
    decide
  have noChain : (registryAfter sampleEnv widenedCalls).compiledChains["T"]?.isNone = true := by
    decide
  obtain ⟨agg,compiled,ofAgg⟩ := Option.map_eq_some_iff.mp positions
  obtain ⟨feature,isFeatures,ofFeature⟩ := List.map_eq_singleton_iff.mp ofAgg
  have named := (registryAfter_reached sampleEnv widenedCalls).wellFormed.named compiled
  rw [Option.isNone_iff_eq_none,← named] at noChain
  have member : feature ∈ agg.features := by simp [isFeatures]
  refine ⟨agg,feature,compiled,member,ofFeature,?_⟩
  exact updateWithExtracted_eq_updateWithRow sampleEnv widenedCalls (by decide) compiled
    noChain member Made.new (sampleRow "a" 3 4) 1000 (by rw [chainRow,noChain])

end Beava.Server
