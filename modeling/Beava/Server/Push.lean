/-
A push, seen from one aggregation.

The aggregations of a source share the entity keys of a cluster, and the loop
writes all tables of one vector.  When the signatures of group keys do not
collide, each table makes the step of its own aggregation and no other.
-/

import Beava.Server.History
import Beava.Server.Removal

namespace Beava.Server

open Beava.Core Beava.Apply Beava.Registry

variable {Expr Op : Type} {env : Env Expr} {ops : Operators Expr Op}
variable {registry : RegistryInner Expr}

def FieldsWithinByte (registry : RegistryInner Expr) : Prop :=
  ∀ entry ∈ registry.aggregationsBySource.toList, (fieldUnion entry.2).length ≤ 255

instance (registry : RegistryInner Expr) : Decidable (FieldsWithinByte registry) :=
  inferInstanceAs (Decidable (∀ entry ∈ registry.aggregationsBySource.toList, _))

theorem fieldsFit_of_withinByte (within : FieldsWithinByte registry) : FieldsFit registry := by
  intro source
  rw [RegistryInner.aggregationsForSource,Std.ExtTreeMap.getD_eq_getD_getElem?]
  cases found : registry.aggregationsBySource[source]? with
  | none => exact Nat.zero_le 255
  | some aggs =>
      exact within (source,aggs) (Std.ExtTreeMap.mem_toList_iff_getElem?_eq_some.mpr found)

/-- Aggregations of one source whose keys have the same signature have the same
keys. -/
def SignaturesExact (env : Env Expr) (registry : RegistryInner Expr) : Prop :=
  ∀ first ∈ registry.compiledAggregations.toList, ∀ second ∈ registry.compiledAggregations.toList,
    first.2.sourceNodeName = second.2.sourceNodeName →
      env.clusterSignature first.2.groupKeys = env.clusterSignature second.2.groupKeys →
        first.2.groupKeys = second.2.groupKeys

instance (env : Env Expr) (registry : RegistryInner Expr) :
    Decidable (SignaturesExact env registry) :=
  inferInstanceAs (Decidable (∀ first ∈ registry.compiledAggregations.toList, _))

section Source

variable {registry : RegistryInner Expr} (wellFormed : WellFormed env registry)
  {aggs : List (AggregationDescriptor Expr)} {source : String}
  (subset : List.Sublist aggs (registry.aggregationsForSource source))

include wellFormed subset

theorem mem_compiled {agg : AggregationDescriptor Expr} (member : agg ∈ aggs) :
    registry.compiledAggregations[agg.nodeName]? = some agg ∧ agg.sourceNodeName = source :=
  wellFormed.grouped.mp (subset.subset member)

theorem clustersExact (exact_ : SignaturesExact env registry) : ClustersExact aggs := by
  intro first firstMember second secondMember sameCluster
  obtain ⟨firstCompiled,firstSource⟩ := mem_compiled wellFormed subset firstMember
  obtain ⟨secondCompiled,secondSource⟩ := mem_compiled wellFormed subset secondMember
  have firstCluster := wellFormed.clustered firstCompiled
  have secondCluster := wellFormed.clustered secondCompiled
  rw [← sameCluster] at secondCluster
  exact exact_ (first.nodeName,first)
    (Std.ExtTreeMap.mem_toList_iff_getElem?_eq_some.mpr firstCompiled) (second.nodeName,second)
    (Std.ExtTreeMap.mem_toList_iff_getElem?_eq_some.mpr secondCompiled)
    (firstSource.trans secondSource.symm)
    (wellFormed.clustersDistinct firstCluster secondCluster)

theorem aggIds_nodup : (aggs.map AggregationDescriptor.aggId).Nodup := by
  have namesNodup : (aggs.map AggregationDescriptor.nodeName).Nodup :=
    (wellFormed.listed source).sublist (subset.map _)
  refine List.Nodup.map_on ?_ (List.Nodup.of_map _ namesNodup)
  intro first firstMember second secondMember sameId
  have firstCompiled := (mem_compiled wellFormed subset firstMember).1
  have secondCompiled := (mem_compiled wellFormed subset secondMember).1
  have sameName := wellFormed.idsDistinct firstCompiled secondCompiled sameId
  rw [sameName,secondCompiled] at firstCompiled
  exact (Option.some.inj firstCompiled).symm

theorem eq_of_aggId {name : String} {agg other : AggregationDescriptor Expr}
    (compiled : registry.compiledAggregations[name]? = some agg) (member : other ∈ aggs)
    (sameId : other.aggId = agg.aggId) : other = agg := by
  have otherCompiled := (mem_compiled wellFormed subset member).1
  have sameName := wellFormed.idsDistinct otherCompiled compiled sameId
  rw [sameName,compiled] at otherCompiled
  exact (Option.some.inj otherCompiled).symm

section Table

variable (exact_ : SignaturesExact env registry) {name : String}
  {agg : AggregationDescriptor Expr}
  (compiled : registry.compiledAggregations[name]? = some agg) (row : Row) (nowMs : Int64)
  (coldAfterMs : Option Nat) (tables : StateTables Op)

include exact_ compiled

theorem applyEventWithDescs_stepTable (member : agg ∈ aggs) :
    StateTables.tableAt
        (applyEventWithDescs env ops registry source row nowMs coldAfterMs aggs tables) agg.aggId =
      stepTable env ops registry row nowMs coldAfterMs (extractedOf registry source row) agg
        (StateTables.tableAt tables agg.aggId) := by
  have found : aggs.find? (fun other => other.aggId = agg.aggId) = some agg := by
    cases search : aggs.find? (fun other => other.aggId = agg.aggId) with
    | none =>
        rw [List.find?_eq_none] at search
        exact absurd (decide_eq_true rfl) (search agg member)
    | some other =>
        have sameId : other.aggId = agg.aggId := by simpa using List.find?_some search
        rw [eq_of_aggId wellFormed subset compiled (List.mem_of_find?_eq_some search) sameId]
  rw [applyEventWithDescs_tableAt env ops registry source row nowMs coldAfterMs
    (clustersExact wellFormed subset exact_) (aggIds_nodup wellFormed subset),found]

theorem applyEventWithDescs_of_mem (reads : Reads env registry agg) (member : agg ∈ aggs) :
    StateTables.tableAt
        (applyEventWithDescs env ops registry source row nowMs coldAfterMs aggs tables) agg.aggId =
      (meaningOf registry agg).step env ops row nowMs coldAfterMs
        (StateTables.tableAt tables agg.aggId) := by
  rw [applyEventWithDescs_stepTable wellFormed subset exact_ compiled row nowMs coldAfterMs tables
    member,← (mem_compiled wellFormed subset member).2]
  exact stepTable_eq_step env ops reads row nowMs coldAfterMs _

theorem applyEventWithDescs_of_notMem (notMember : agg ∉ aggs) :
    StateTables.tableAt
        (applyEventWithDescs env ops registry source row nowMs coldAfterMs aggs tables) agg.aggId =
      StateTables.tableAt tables agg.aggId := by
  have notFound : aggs.find? (fun other => other.aggId = agg.aggId) = none := by
    rw [List.find?_eq_none]
    intro other member sameId
    have same := eq_of_aggId wellFormed subset compiled member (of_decide_eq_true sameId)
    exact notMember (same ▸ member)
  rw [applyEventWithDescs_tableAt env ops registry source row nowMs coldAfterMs
    (clustersExact wellFormed subset exact_) (aggIds_nodup wellFormed subset),notFound]

end Table

end Source

section Push

variable {registry : RegistryInner Expr} (wellFormed : WellFormed env registry)
  (exact_ : SignaturesExact env registry) {name : String} {agg : AggregationDescriptor Expr}
  (compiled : registry.compiledAggregations[name]? = some agg) (reads : Reads env registry agg)

include wellFormed compiled

theorem mem_aggregationsForSource {source : String} :
    agg ∈ registry.aggregationsForSource source ↔ source = agg.sourceNodeName := by
  rw [wellFormed.grouped,wellFormed.named compiled]
  exact ⟨fun both => both.2.symm,fun same => ⟨compiled,same.symm⟩⟩

include exact_ reads

theorem applyEvent_table (eventName : String) (row : Row) (nowMs : Int64)
    (tables : StateTables Op) :
    StateTables.tableAt
        (applyEvent env ops registry eventName row nowMs (coldAfterMsOf registry eventName) tables)
        agg.aggId =
      if eventName = agg.sourceNodeName then
        (meaningOf registry agg).step env ops row nowMs
          (coldAfterMsOf registry agg.sourceNodeName) (StateTables.tableAt tables agg.aggId)
      else StateTables.tableAt tables agg.aggId := by
  have sublist : List.Sublist (registry.aggregationsForSource eventName)
      (registry.aggregationsForSource eventName) := List.Sublist.refl _
  split
  · rename_i sameSource
    have member := (mem_aggregationsForSource wellFormed compiled).mpr sameSource
    rw [applyEvent,
      applyEventWithDescs_of_mem wellFormed sublist exact_ compiled _ _ _ _ reads member,
      sameSource]
  · rename_i otherSource
    have notMember : agg ∉ registry.aggregationsForSource eventName :=
      fun member => otherSource ((mem_aggregationsForSource wellFormed compiled).mp member)
    exact applyEventWithDescs_of_notMem wellFormed sublist exact_ compiled _ _ _ _ notMember

end Push

theorem applyEvent_blank (wellFormed : WellFormed env registry)
    (signatures : SignaturesExact env registry) {aggId : Nat} (unused : registry.nextAggId ≤ aggId)
    (eventName : String) (row : Row) (nowMs : Int64) (coldAfterMs : Option Nat)
    (tables : StateTables Op) :
    StateTables.tableAt (applyEvent env ops registry eventName row nowMs coldAfterMs tables) aggId =
      StateTables.tableAt tables aggId := by
  have all : List.Sublist (registry.aggregationsForSource eventName)
      (registry.aggregationsForSource eventName) := List.Sublist.refl _
  have notFound : (registry.aggregationsForSource eventName).find?
      (fun agg => agg.aggId = aggId) = none := by
    rw [List.find?_eq_none]
    intro agg member sameId
    have below := wellFormed.numbered (mem_compiled wellFormed all member).1
    have idEq : agg.aggId = aggId := of_decide_eq_true sameId
    omega
  rw [applyEvent,applyEventWithDescs_tableAt env ops registry eventName row nowMs coldAfterMs
    (clustersExact wellFormed all signatures) (aggIds_nodup wellFormed all),notFound]

end Beava.Server
