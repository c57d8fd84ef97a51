/-
The invariant of the registry and what a registration keeps.

A registered aggregation belongs to a registered derivation and is listed under
its source; ids and clusters are not shared by accident.  `Extends` says what
one registry keeps of an earlier one: descriptors, chains, and aggregations up
to their field positions.
-/

import Beava.Apply.Meaning
import Beava.Registry.Accepted

namespace Beava.Registry

open Beava.Core Beava.Apply

variable {Expr : Type} (env : Env Expr)
variable {agg compiled : AggregationDescriptor Expr} {registry : RegistryInner Expr}
variable {other : AggregationDescriptor Expr} {schema : Schema}

def eventCore (event : EventDescriptor) : EventDescriptor :=
  { event with applyFieldNames := [] }

structure WellFormed (registry : RegistryInner Expr) : Prop where
  eventNamed : ∀ {name : String} {event : EventDescriptor},
    registry.events[name]? = some event → event.name = name
  derivationNamed : ∀ {name : String} {derivation : DerivationDescriptor},
    registry.derivations[name]? = some derivation → derivation.name = name
  derived : ∀ {name : String} {agg : AggregationDescriptor Expr},
    registry.compiledAggregations[name]? = some agg →
      ∃ derivation, registry.derivations[name]? = some derivation ∧
        CompiledFrom env derivation agg
  grouped : ∀ {source : String} {agg : AggregationDescriptor Expr},
    agg ∈ registry.aggregationsForSource source ↔
      registry.compiledAggregations[agg.nodeName]? = some agg ∧ agg.sourceNodeName = source
  listed : ∀ source : String,
    ((registry.aggregationsForSource source).map AggregationDescriptor.nodeName).Nodup
  numbered : ∀ {name : String} {agg : AggregationDescriptor Expr},
    registry.compiledAggregations[name]? = some agg → agg.aggId < registry.nextAggId
  idsDistinct : ∀ {name other : String} {agg otherAgg : AggregationDescriptor Expr},
    registry.compiledAggregations[name]? = some agg →
      registry.compiledAggregations[other]? = some otherAgg →
        agg.aggId = otherAgg.aggId → name = other
  clustered : ∀ {name : String} {agg : AggregationDescriptor Expr},
    registry.compiledAggregations[name]? = some agg →
      registry.clusterIdBySignature[env.clusterSignature agg.groupKeys]? = some agg.clusterId
  clustersBelow : ∀ {signature : UInt64} {cluster : Nat},
    registry.clusterIdBySignature[signature]? = some cluster → cluster < registry.nextClusterId
  clustersDistinct : ∀ {signature other : UInt64} {cluster : Nat},
    registry.clusterIdBySignature[signature]? = some cluster →
      registry.clusterIdBySignature[other]? = some cluster → signature = other
  unresolved : ∀ {name : String} {agg : AggregationDescriptor Expr},
    registry.compiledAggregations[name]? = some agg → resolvedIn registry agg = false →
      ∀ feature ∈ agg.features, Unresolved feature.descriptor

theorem wellFormed_empty : WellFormed env (RegistryInner.empty : RegistryInner Expr) := by
  constructor <;> simp [RegistryInner.empty,RegistryInner.aggregationsForSource]

theorem nodeName_of_core (same : aggCore other = aggCore agg) : other.nodeName = agg.nodeName := by
  have coreEq := congrArg AggregationDescriptor.nodeName same
  exact coreEq

theorem sourceNodeName_of_core (same : aggCore other = aggCore agg) :
    other.sourceNodeName = agg.sourceNodeName := by
  have coreEq := congrArg AggregationDescriptor.sourceNodeName same
  exact coreEq

theorem groupKeys_of_core (same : aggCore other = aggCore agg) :
    other.groupKeys = agg.groupKeys := by
  have coreEq := congrArg AggregationDescriptor.groupKeys same
  exact coreEq

theorem CompiledFrom.of_core {derivation : DerivationDescriptor}
    (compiled : CompiledFrom env derivation agg) (same : aggCore other = aggCore agg) :
    CompiledFrom env derivation other := by
  have featuresEq : other.features.map declaredFeature = agg.features.map declaredFeature :=
    congrArg AggregationDescriptor.features same
  obtain ⟨opIdx,specs,atOp,features⟩ := compiled.groupBy
  refine ⟨(nodeName_of_core same).trans compiled.nodeName,?_,opIdx,specs,?_,?_⟩
  · rw [sourceNodeName_of_core same]
    exact compiled.source
  · rw [groupKeys_of_core same]
    exact atOp
  · rw [featuresEq]
    exact features

theorem CompiledFrom.of_derivation {derivation other : DerivationDescriptor}
    (compiled : CompiledFrom env derivation agg) (name : other.name = derivation.name)
    (upstreams : other.upstreams = derivation.upstreams) (ops : other.ops = derivation.ops) :
    CompiledFrom env other agg :=
  ⟨name ▸ compiled.nodeName,upstreams ▸ compiled.source,ops ▸ compiled.groupBy⟩

/-- What resolving positions keeps. -/
structure SameAgg (agg other : AggregationDescriptor Expr) : Prop where
  core : aggCore other = aggCore agg
  aggId : other.aggId = agg.aggId
  clusterId : other.clusterId = agg.clusterId

namespace SameAgg

variable {agg other third : AggregationDescriptor Expr}

theorem rfl' (agg : AggregationDescriptor Expr) : SameAgg agg agg := ⟨rfl,rfl,rfl⟩

theorem trans (first : SameAgg agg other) (second : SameAgg other third) : SameAgg agg third :=
  ⟨second.core.trans first.core,second.aggId.trans first.aggId,
    second.clusterId.trans first.clusterId⟩

theorem nodeName (same : SameAgg agg other) : other.nodeName = agg.nodeName :=
  nodeName_of_core same.core

theorem sourceNodeName (same : SameAgg agg other) : other.sourceNodeName = agg.sourceNodeName :=
  sourceNodeName_of_core same.core

theorem groupKeys (same : SameAgg agg other) : other.groupKeys = agg.groupKeys :=
  groupKeys_of_core same.core

end SameAgg

theorem resolveOrKeep_same (agg : AggregationDescriptor Expr) (schema : Schema)
    (union : List String) : SameAgg agg (resolveOrKeep agg schema union) := by
  unfold resolveOrKeep
  split
  · rename_i resolved succeeded
    obtain ⟨-,names,features,rfl,same⟩ := resolveFieldIndices_ok succeeded
    refine ⟨?_,rfl,rfl⟩
    simp only [aggCore,same]
  · exact SameAgg.rfl' agg

theorem resolveOrKeep_of_missing (missing : (missingField agg schema).isNone = false)
    (union : List String) : resolveOrKeep agg schema union = agg := by
  unfold resolveOrKeep resolveFieldIndices
  cases found : missingField agg schema with
  | none =>
      rw [found] at missing
      cases missing
  | some message => rfl

theorem resolveOrKeep_of_found (nothingMissing : (missingField agg schema).isNone = true)
    (union : List String) :
    resolveFieldIndices agg schema union = .ok (resolveOrKeep agg schema union) := by
  unfold resolveOrKeep resolveFieldIndices
  cases found : missingField agg schema with
  | none => rfl
  | some message =>
      rw [found] at nothingMissing
      cases nothingMissing

theorem resolvedIn_eq (registry : RegistryInner Expr) (agg : AggregationDescriptor Expr) :
    resolvedIn registry agg =
      match registry.events[agg.sourceNodeName]?.map EventDescriptor.schema with
      | some schema => (missingField agg schema).isNone
      | none => false := by
  unfold resolvedIn
  cases registry.events[agg.sourceNodeName]? <;> rfl

/-- Resolution depends on the core of the aggregation and on the schema of its
source. -/
theorem resolvedIn_congr {before after : RegistryInner Expr}
    (same : aggCore other = aggCore agg)
    (schemas : after.events[agg.sourceNodeName]?.map EventDescriptor.schema =
      before.events[agg.sourceNodeName]?.map EventDescriptor.schema) :
    resolvedIn after other = resolvedIn before agg := by
  rw [resolvedIn_eq,resolvedIn_eq,sourceNodeName_of_core same,schemas]
  simp only [missingField_eq_of_core same]

theorem unresolved_of_fresh (fresh : Fresh agg) :
    ∀ feature ∈ agg.features, Unresolved feature.descriptor := by
  intro feature member
  rw [← fresh] at member
  obtain ⟨before,-,rfl⟩ := List.mem_map.mp member
  exact ⟨rfl,rfl⟩

namespace WellFormed

variable {env} {registry : RegistryInner Expr}
variable {name : String}

theorem named (wellFormed : WellFormed env registry) {agg : AggregationDescriptor Expr}
    (compiled : registry.compiledAggregations[name]? = some agg) : agg.nodeName = name := by
  obtain ⟨derivation,present,compiledFrom⟩ := wellFormed.derived compiled
  exact compiledFrom.nodeName.trans (wellFormed.derivationNamed present)

theorem notCompiled (wellFormed : WellFormed env registry)
    (absent : registry.derivations[name]? = none) :
    registry.compiledAggregations[name]? = none := by
  cases compiled : registry.compiledAggregations[name]? with
  | none => rfl
  | some agg =>
      obtain ⟨derivation,present,-⟩ := wellFormed.derived compiled
      rw [absent] at present
      cases present

theorem withRest (wellFormed : WellFormed env registry) (version : Nat)
    (tables : StrMap TableDescriptor) (chains : StrMap (OpChain Expr))
    (index : StrMap (String × Nat)) :
    WellFormed env
      { registry with
        version := version
        tables := tables
        compiledChains := chains
        featureIndex := index } where
  eventNamed := wellFormed.eventNamed
  derivationNamed := wellFormed.derivationNamed
  derived := wellFormed.derived
  grouped := wellFormed.grouped
  listed := wellFormed.listed
  numbered := wellFormed.numbered
  idsDistinct := wellFormed.idsDistinct
  clustered := wellFormed.clustered
  clustersBelow := wellFormed.clustersBelow
  clustersDistinct := wellFormed.clustersDistinct
  unresolved := wellFormed.unresolved

/-- New events leave the invariant when every event that an aggregation reads
keeps its schema.  An aggregation whose source was no event has no positions. -/
theorem withEvents (wellFormed : WellFormed env registry) {events : StrMap EventDescriptor}
    (eventNamed : ∀ {name : String} {event : EventDescriptor},
      events[name]? = some event → event.name = name)
    (schemas : ∀ {name : String} {event : EventDescriptor}, registry.events[name]? = some event →
      events[name]?.map EventDescriptor.schema = some event.schema) :
    WellFormed env { registry with events := events } :=
  { wellFormed with
    eventNamed := eventNamed
    unresolved := by
      intro name agg compiled notResolved
      refine wellFormed.unresolved compiled ?_
      cases source : registry.events[agg.sourceNodeName]? with
      | none => rw [resolvedIn,source]
      | some event =>
          rw [← notResolved]
          refine (resolvedIn_congr rfl ?_).symm
          rw [source]
          exact schemas source }

theorem insertDerivation (wellFormed : WellFormed env registry)
    {derivation : DerivationDescriptor}
    (absent : registry.derivations[derivation.name]? = none) :
    WellFormed env
      { registry with
        derivations := registry.derivations.insert derivation.name derivation } :=
  { wellFormed with
    derivationNamed := by
      intro name found present
      rcases KeyMap.lookup_insert_cases present with ⟨rfl,rfl⟩ | ⟨-,old⟩
      · rfl
      · exact wellFormed.derivationNamed old
    derived := by
      intro name agg compiled
      obtain ⟨found,present,compiledFrom⟩ := wellFormed.derived compiled
      refine ⟨found,?_,compiledFrom⟩
      have different : derivation.name ≠ name := by
        intro same
        rw [same,present] at absent
        cases absent
      rw [KeyMap.lookup_insert_ne _ _ different]
      exact present }

end WellFormed

structure ClusterAssigned (registry after : RegistryInner Expr) (keys : List String)
    (cluster : Nat) : Prop where
  rest : ∃ nextClusterId clusters, after =
    { registry with nextClusterId := nextClusterId, clusterIdBySignature := clusters }
  found : after.clusterIdBySignature[env.clusterSignature keys]? = some cluster
  kept : ∀ {signature : UInt64} {old : Nat},
    registry.clusterIdBySignature[signature]? = some old →
      after.clusterIdBySignature[signature]? = some old
  below : ∀ {signature : UInt64} {old : Nat},
    after.clusterIdBySignature[signature]? = some old → old < after.nextClusterId
  distinct : ∀ {signature other : UInt64} {old : Nat},
    after.clusterIdBySignature[signature]? = some old →
      after.clusterIdBySignature[other]? = some old → signature = other

theorem assignCluster_spec (wellFormed : WellFormed env registry) (keys : List String) :
    ClusterAssigned env registry (assignCluster env registry keys).1 keys
      (assignCluster env registry keys).2 := by
  unfold assignCluster
  simp only
  cases found : registry.clusterIdBySignature[env.clusterSignature keys]? with
  | some existing =>
      exact ⟨⟨_,_,rfl⟩,found,id,wellFormed.clustersBelow,wellFormed.clustersDistinct⟩
  | none =>
      refine ⟨⟨_,_,rfl⟩,KeyMap.lookup_insert_self _ _ _,?_,?_,?_⟩
      · intro signature old before
        have different : env.clusterSignature keys ≠ signature := by
          intro same
          rw [same,before] at found
          cases found
        exact (KeyMap.lookup_insert_ne _ _ different).trans before
      · intro signature old after
        simp only [KeyMap.lookup_insert] at after
        split at after
        · cases after
          exact Nat.lt_succ_self _
        · exact Nat.lt_succ_of_lt (wellFormed.clustersBelow after)
      · intro signature other old first second
        simp only [KeyMap.lookup_insert] at first second
        split at first <;> split at second
        · rename_i isFirst isSecond
          exact isFirst.symm.trans isSecond
        · cases first
          exact absurd (wellFormed.clustersBelow second) (Nat.lt_irrefl _)
        · cases second
          exact absurd (wellFormed.clustersBelow first) (Nat.lt_irrefl _)
        · exact wellFormed.clustersDistinct first second

theorem numberAggregation_spec (registry : RegistryInner Expr)
    (compiled : AggregationDescriptor Expr) :
    SameAgg
      { compiled with
        aggId := registry.nextAggId
        clusterId := (assignCluster env registry compiled.groupKeys).2 }
      (numberAggregation env registry compiled) := by
  unfold numberAggregation
  simp only
  split
  · exact resolveOrKeep_same _ _ _
  · exact SameAgg.rfl' _

theorem numberAggregation_features
    (notResolved : resolvedIn registry (numberAggregation env registry compiled) = false) :
    (numberAggregation env registry compiled).features = compiled.features := by
  have sameCore := (numberAggregation_spec env registry compiled).core
  have notResolvedBefore : resolvedIn registry compiled = false := by
    rw [← notResolved]
    exact (resolvedIn_congr sameCore rfl).symm
  unfold resolvedIn at notResolvedBefore
  unfold numberAggregation
  simp only
  cases source : registry.events[compiled.sourceNodeName]? with
  | none => rfl
  | some event =>
      rw [source] at notResolvedBefore
      simp only at notResolvedBefore ⊢
      rw [resolveOrKeep_of_missing]
      exact notResolvedBefore

theorem numberAggregation_unresolved (fresh : Fresh compiled)
    (notResolved : resolvedIn registry (numberAggregation env registry compiled) = false) :
    ∀ feature ∈ (numberAggregation env registry compiled).features,
      Unresolved feature.descriptor := by
  rw [numberAggregation_features env notResolved]
  exact unresolved_of_fresh fresh

theorem aggregationsForSource_insert (registry : RegistryInner Expr)
    (bySource : StrMap (List (AggregationDescriptor Expr))) (key source : String)
    (aggs : List (AggregationDescriptor Expr))
    (isInsert : bySource = registry.aggregationsBySource.insert key aggs) :
    bySource.getD source [] =
      if key = source then aggs else registry.aggregationsForSource source := by
  rw [isInsert,Std.ExtTreeMap.getD_eq_getD_getElem?,KeyMap.lookup_insert]
  split
  · rfl
  · rw [RegistryInner.aggregationsForSource,Std.ExtTreeMap.getD_eq_getD_getElem?]

theorem WellFormed.notListed (wellFormed : WellFormed env registry) {name : String}
    (absent : registry.compiledAggregations[name]? = none) (source : String) :
    name ∉ (registry.aggregationsForSource source).map AggregationDescriptor.nodeName := by
  intro inNames
  obtain ⟨other,member,rfl⟩ := List.mem_map.mp inNames
  rw [(wellFormed.grouped.mp member).1] at absent
  cases absent

theorem compiled_insert_iff (absent : registry.compiledAggregations[agg.nodeName]? = none) :
    (registry.compiledAggregations.insert agg.nodeName agg)[other.nodeName]? = some other ↔
      other = agg ∨ registry.compiledAggregations[other.nodeName]? = some other := by
  constructor
  · intro lookup
    rcases KeyMap.lookup_insert_cases lookup with ⟨-,isNew⟩ | ⟨-,old⟩
    · exact .inl isNew
    · exact .inr old
  · rintro (rfl | old)
    · rw [KeyMap.lookup_insert_self]
    · have different : agg.nodeName ≠ other.nodeName := by
        intro sameName
        rw [sameName,old] at absent
        cases absent
      rw [KeyMap.lookup_insert_ne _ _ different,old]

/-- The lists of the sources after `agg` is put behind that of its own source. -/
theorem WellFormed.mem_grouped_insert_iff (wellFormed : WellFormed env registry) {source : String}
    :
    (other ∈ if agg.sourceNodeName = source then
        registry.aggregationsForSource agg.sourceNodeName ++ [agg]
      else registry.aggregationsForSource source) ↔
      (other = agg ∨ registry.compiledAggregations[other.nodeName]? = some other) ∧
        other.sourceNodeName = source := by
  split
  · rename_i sameSource
    subst sameSource
    rw [List.mem_append,List.mem_singleton,wellFormed.grouped]
    constructor
    · rintro (⟨old,fromSource⟩ | rfl)
      · exact ⟨.inr old,fromSource⟩
      · exact ⟨.inl rfl,rfl⟩
    · rintro ⟨rfl | old,fromSource⟩
      · exact .inr rfl
      · exact .inl ⟨old,fromSource⟩
  · rename_i otherSource
    rw [wellFormed.grouped]
    constructor
    · rintro ⟨old,fromSource⟩
      exact ⟨.inr old,fromSource⟩
    · rintro ⟨rfl | old,fromSource⟩
      · exact absurd fromSource otherSource
      · exact ⟨old,fromSource⟩

theorem WellFormed.insertAggregation {registry : RegistryInner Expr}
    (wellFormed : WellFormed env registry) {derivation : DerivationDescriptor}
    (present : registry.derivations[derivation.name]? = some derivation)
    (absent : registry.compiledAggregations[derivation.name]? = none)
    {compiled : AggregationDescriptor Expr} (compiledFrom : CompiledFrom env derivation compiled)
    (fresh : Fresh compiled) :
    WellFormed env (installAggregation env registry derivation.name compiled) := by
  have cluster := assignCluster_spec env wellFormed compiled.groupKeys
  have number := numberAggregation_spec env registry compiled
  have unresolved : resolvedIn registry (numberAggregation env registry compiled) = false → _ :=
    numberAggregation_unresolved env fresh
  have newName : (numberAggregation env registry compiled).nodeName = derivation.name :=
    number.nodeName.trans compiledFrom.nodeName
  have newKeys : (numberAggregation env registry compiled).groupKeys = compiled.groupKeys :=
    number.groupKeys
  have newId : (numberAggregation env registry compiled).aggId = registry.nextAggId := number.aggId
  have newCluster : (numberAggregation env registry compiled).clusterId =
      (assignCluster env registry compiled.groupKeys).2 := number.clusterId
  have newFrom : CompiledFrom env derivation (numberAggregation env registry compiled) :=
    CompiledFrom.of_core env compiledFrom number.core
  unfold installAggregation
  simp only
  generalize numberAggregation env registry compiled = agg at *
  generalize (assignCluster env registry compiled.groupKeys).2 = clusterId at *
  generalize (assignCluster env registry compiled.groupKeys).1 = clustered at *
  obtain ⟨nextClusterId,clusters,rfl⟩ := cluster.rest
  rw [← newName] at present absent ⊢
  have forSource (source : String) := aggregationsForSource_insert registry _ agg.sourceNodeName source
    (registry.aggregationsForSource agg.sourceNodeName ++ [agg]) rfl
  exact
    { eventNamed := wellFormed.eventNamed
      derivationNamed := wellFormed.derivationNamed
      derived := by
        intro name found lookup
        rcases KeyMap.lookup_insert_cases lookup with ⟨rfl,rfl⟩ | ⟨-,old⟩
        · exact ⟨derivation,present,newFrom⟩
        · exact wellFormed.derived old
      grouped := by
        intro source other
        show other ∈ (registry.aggregationsBySource.insert _ _).getD source [] ↔ _
        rw [forSource,compiled_insert_iff absent]
        exact wellFormed.mem_grouped_insert_iff
      listed := by
        intro source
        show (((registry.aggregationsBySource.insert _ _).getD source []).map _).Nodup
        rw [forSource]
        split
        · rw [List.map_append,List.map_singleton,← List.concat_eq_append]
          exact (wellFormed.listed _).concat (wellFormed.notListed env absent _)
        · exact wellFormed.listed source
      numbered := by
        intro name found lookup
        rcases KeyMap.lookup_insert_cases lookup with ⟨-,rfl⟩ | ⟨-,old⟩
        · show found.aggId < registry.nextAggId + 1
          omega
        · exact Nat.lt_succ_of_lt (wellFormed.numbered old)
      idsDistinct := by
        intro name other found otherFound first second sameId
        rcases KeyMap.lookup_insert_cases first with ⟨rfl,rfl⟩ | ⟨-,old⟩ <;>
          rcases KeyMap.lookup_insert_cases second with ⟨rfl,rfl⟩ | ⟨-,otherOld⟩
        · rfl
        · have below := wellFormed.numbered otherOld
          omega
        · have below := wellFormed.numbered old
          omega
        · exact wellFormed.idsDistinct old otherOld sameId
      clustered := by
        intro name found lookup
        rcases KeyMap.lookup_insert_cases lookup with ⟨-,rfl⟩ | ⟨-,old⟩
        · rw [newKeys,newCluster]
          exact cluster.found
        · exact cluster.kept (wellFormed.clustered old)
      clustersBelow := cluster.below
      clustersDistinct := cluster.distinct
      unresolved := by
        intro name found lookup notResolved
        rcases KeyMap.lookup_insert_cases lookup with ⟨-,rfl⟩ | ⟨-,old⟩
        · exact unresolved notResolved
        · exact wellFormed.unresolved old notResolved }

/-- What happens to an aggregation when the positions of `source` are computed
again. -/
def refreshed (registry : RegistryInner Expr) (source : String) (event : EventDescriptor)
    (agg : AggregationDescriptor Expr) : AggregationDescriptor Expr :=
  if agg.sourceNodeName = source then
    resolveOrKeep agg event.schema (fieldUnion (registry.aggregationsForSource source))
  else agg

theorem refreshed_same (registry : RegistryInner Expr) (source : String) (event : EventDescriptor)
    (agg : AggregationDescriptor Expr) : SameAgg agg (refreshed registry source event agg) := by
  unfold refreshed
  split
  · exact resolveOrKeep_same agg _ _
  · exact SameAgg.rfl' agg

theorem map_refreshed (wellFormed : WellFormed env registry) (source : String)
    (event : EventDescriptor) :
    (registry.aggregationsForSource source).map (refreshed registry source event) =
      (registry.aggregationsForSource source).map fun agg =>
        resolveOrKeep agg event.schema (fieldUnion (registry.aggregationsForSource source)) := by
  refine List.map_congr_left fun agg member => ?_
  rw [refreshed,if_pos (wellFormed.grouped.mp member).2]

section Refresh

variable {env} {registry : RegistryInner Expr} {source : String} {event : EventDescriptor}

theorem refreshSource_eq (isEvent : registry.events[source]? = some event) :
    refreshSource registry source =
      let resolved := (registry.aggregationsForSource source).map fun agg =>
        resolveOrKeep agg event.schema (fieldUnion (registry.aggregationsForSource source))
      { registry with
        events := registry.events.insert source
          { event with applyFieldNames := fieldUnion (registry.aggregationsForSource source) }
        aggregationsBySource := registry.aggregationsBySource.modify source fun _ => resolved
        compiledAggregations :=
          KeyMap.replaceAll AggregationDescriptor.nodeName registry.compiledAggregations
            resolved } := by
  simp only [refreshSource,isEvent]

theorem refreshSource_of_noEvent (noEvent : registry.events[source]? = none) :
    refreshSource registry source = registry := by
  simp only [refreshSource,noEvent]

theorem refreshSource_events (isEvent : registry.events[source]? = some event) :
    (refreshSource registry source).events = registry.events.insert source
      { event with applyFieldNames := fieldUnion (registry.aggregationsForSource source) } := by
  rw [refreshSource_eq isEvent]

theorem refreshSource_compiled (wellFormed : WellFormed env registry)
    (isEvent : registry.events[source]? = some event) (name : String) :
    (refreshSource registry source).compiledAggregations[name]? =
      registry.compiledAggregations[name]?.map (refreshed registry source event) := by
  rw [refreshSource_eq isEvent,← map_refreshed env wellFormed]
  simp only
  have namesEq : ((registry.aggregationsForSource source).map
      (refreshed registry source event)).map AggregationDescriptor.nodeName =
        (registry.aggregationsForSource source).map AggregationDescriptor.nodeName := by
    rw [List.map_map]
    exact List.map_congr_left fun agg _ => (refreshed_same registry source event agg).nodeName
  by_cases inNames : name ∈
      (registry.aggregationsForSource source).map AggregationDescriptor.nodeName
  · obtain ⟨agg,member,rfl⟩ := List.mem_map.mp inNames
    have compiled := (wellFormed.grouped.mp member).1
    have replaced := KeyMap.replaceAll_of_mem registry.compiledAggregations
      (by rw [namesEq]; exact wellFormed.listed source)
      (List.mem_map_of_mem member : refreshed registry source event agg ∈ _)
    rw [(refreshed_same registry source event agg).nodeName] at replaced
    rw [replaced,compiled]
    rfl
  · rw [KeyMap.replaceAll_of_notMem _ (by rw [namesEq]; exact inNames)]
    cases compiled : registry.compiledAggregations[name]? with
    | none => rfl
    | some agg =>
        have otherSource : agg.sourceNodeName ≠ source := by
          intro fromSource
          have nameEq := wellFormed.named compiled
          refine inNames (List.mem_map.mpr ⟨agg,wellFormed.grouped.mpr ⟨?_,fromSource⟩,nameEq⟩)
          rw [nameEq]
          exact compiled
        rw [Option.map_some,refreshed,if_neg otherSource]

theorem refreshSource_forSource (wellFormed : WellFormed env registry)
    (isEvent : registry.events[source]? = some event) (other : String) :
    (refreshSource registry source).aggregationsForSource other =
      (registry.aggregationsForSource other).map (refreshed registry source event) := by
  rw [refreshSource_eq isEvent]
  simp only [RegistryInner.aggregationsForSource,Std.ExtTreeMap.getD_eq_getD_getElem?,
    KeyMap.lookup_modify]
  split
  · rename_i sameSource
    subst sameSource
    have asMapped := map_refreshed env wellFormed source event
    simp only [RegistryInner.aggregationsForSource,Std.ExtTreeMap.getD_eq_getD_getElem?]
      at asMapped
    rw [asMapped]
    cases registry.aggregationsBySource[source]? <;> rfl
  · rename_i otherSource
    refine (List.map_congr_left fun agg member => ?_).trans (List.map_id _) |>.symm
    have inOther : agg ∈ registry.aggregationsForSource other := by
      rw [RegistryInner.aggregationsForSource,Std.ExtTreeMap.getD_eq_getD_getElem?]
      exact member
    have fromOther := (wellFormed.grouped.mp inOther).2
    rw [refreshed,if_neg (fun same => otherSource (same.symm.trans fromOther))]
    rfl

theorem refreshSource_before (wellFormed : WellFormed env registry)
    (isEvent : registry.events[source]? = some event) (name : String)
    (found : AggregationDescriptor Expr)
    (lookup : (refreshSource registry source).compiledAggregations[name]? = some found) :
    ∃ agg, registry.compiledAggregations[name]? = some agg ∧
      refreshed registry source event agg = found := by
  rw [refreshSource_compiled wellFormed isEvent] at lookup
  exact Option.map_eq_some_iff.mp lookup

theorem refreshSource_schemas (isEvent : registry.events[source]? = some event) (name : String) :
    (refreshSource registry source).events[name]?.map EventDescriptor.schema =
      registry.events[name]?.map EventDescriptor.schema := by
  rw [refreshSource_events isEvent,KeyMap.lookup_insert]
  split
  · rename_i sameName
    rw [← sameName,isEvent]
    rfl
  · rfl

theorem refreshSource_grouped (wellFormed : WellFormed env registry)
    (isEvent : registry.events[source]? = some event) (other : String)
    (found : AggregationDescriptor Expr) :
    found ∈ (refreshSource registry source).aggregationsForSource other ↔
      (refreshSource registry source).compiledAggregations[found.nodeName]? = some found ∧
        found.sourceNodeName = other := by
  rw [refreshSource_forSource wellFormed isEvent,List.mem_map]
  constructor
  · rintro ⟨agg,member,rfl⟩
    have same := refreshed_same registry source event agg
    obtain ⟨compiled,fromOther⟩ := wellFormed.grouped.mp member
    refine ⟨?_,same.sourceNodeName.trans fromOther⟩
    rw [refreshSource_compiled wellFormed isEvent,same.nodeName,compiled]
    rfl
  · rintro ⟨lookup,fromOther⟩
    obtain ⟨agg,compiled,isFound⟩ := refreshSource_before wellFormed isEvent _ _ lookup
    have same := refreshed_same registry source event agg
    rw [isFound] at same
    refine ⟨agg,wellFormed.grouped.mpr ⟨?_,?_⟩,isFound⟩
    · rw [← same.nodeName]
      exact compiled
    · rw [← same.sourceNodeName]
      exact fromOther

theorem refreshed_of_unresolved (isEvent : registry.events[source]? = some event)
    (notResolved : resolvedIn registry agg = false) :
    refreshed registry source event agg = agg := by
  unfold refreshed
  split
  · rename_i fromSource
    refine resolveOrKeep_of_missing ?_ _
    rw [resolvedIn,fromSource,isEvent] at notResolved
    exact notResolved
  · rfl

theorem refreshSource_wellFormed (wellFormed : WellFormed env registry) (source : String) :
    WellFormed env (refreshSource registry source) := by
  cases isEvent : registry.events[source]? with
  | none =>
      rw [refreshSource_of_noEvent isEvent]
      exact wellFormed
  | some event =>
      have same := refreshed_same registry source event
      have forSourceEq := refreshSource_forSource wellFormed isEvent
      have grouped := refreshSource_grouped wellFormed isEvent
      have before := refreshSource_before wellFormed isEvent
      have schemas := refreshSource_schemas isEvent
      have eventsEq := refreshSource_events isEvent
      obtain ⟨events,bySource,compiledAggregations,after⟩ :
          ∃ events bySource compiledAggregations, refreshSource registry source =
            { registry with
              events := events
              aggregationsBySource := bySource
              compiledAggregations := compiledAggregations } :=
        ⟨_,_,_,refreshSource_eq isEvent⟩
      rw [after] at forSourceEq grouped before schemas eventsEq ⊢
      exact
        { wellFormed with
          eventNamed := by
            intro name found lookup
            rw [eventsEq] at lookup
            rcases KeyMap.lookup_insert_cases lookup with ⟨rfl,rfl⟩ | ⟨-,old⟩
            · have named : event.name = name := wellFormed.eventNamed isEvent
              exact named
            · exact wellFormed.eventNamed old
          derived := by
            intro name found lookup
            obtain ⟨agg,compiled,rfl⟩ := before _ _ lookup
            obtain ⟨derivation,present,compiledFrom⟩ := wellFormed.derived compiled
            exact ⟨derivation,present,CompiledFrom.of_core env compiledFrom (same agg).core⟩
          grouped := grouped _ _
          listed := by
            intro other
            rw [forSourceEq,List.map_map]
            have namesEq : ∀ agg ∈ registry.aggregationsForSource other,
                (AggregationDescriptor.nodeName ∘ refreshed registry source event) agg =
                  agg.nodeName := fun agg _ => (same agg).nodeName
            rw [List.map_congr_left namesEq]
            exact wellFormed.listed other
          numbered := by
            intro name found lookup
            obtain ⟨agg,compiled,rfl⟩ := before _ _ lookup
            rw [(same agg).aggId]
            exact wellFormed.numbered compiled
          idsDistinct := by
            intro name other found otherFound first second sameId
            obtain ⟨agg,compiled,rfl⟩ := before _ _ first
            obtain ⟨otherAgg,otherCompiled,rfl⟩ := before _ _ second
            rw [(same agg).aggId,(same otherAgg).aggId] at sameId
            exact wellFormed.idsDistinct compiled otherCompiled sameId
          clustered := by
            intro name found lookup
            obtain ⟨agg,compiled,rfl⟩ := before _ _ lookup
            rw [(same agg).groupKeys,(same agg).clusterId]
            exact wellFormed.clustered compiled
          unresolved := by
            intro name found lookup notResolved
            obtain ⟨agg,compiled,rfl⟩ := before _ _ lookup
            rw [resolvedIn_congr (same agg).core (schemas agg.sourceNodeName)] at notResolved
            rw [refreshed_of_unresolved isEvent notResolved]
            exact wellFormed.unresolved compiled notResolved }

end Refresh

end Beava.Registry
