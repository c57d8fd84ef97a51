/-
What a registration does to the registry as a whole.

The registration installs the new nodes one after the other, computes the field
positions of the affected sources again and indexes the features.  Installing
keeps everything that is there; refreshing keeps everything but positions.
-/

import Beava.Registry.Invariant

namespace Beava.Registry

open Beava.Core Beava.Apply

variable {Expr : Type} (env : Env Expr)
variable {registry : RegistryInner Expr} {agg : AggregationDescriptor Expr}
variable {aggs : List (AggregationDescriptor Expr)} {sources : List String}

/-! ### Reading the right fields -/

/-- Every aggregation reads what its meaning says. -/
def AllRead (registry : RegistryInner Expr) : Prop :=
  ∀ (name : String) (agg : AggregationDescriptor Expr),
    registry.compiledAggregations[name]? = some agg → Reads env registry agg

/-- The fields of every source fit a byte, the value 255 aside. -/
def FieldsFit (registry : RegistryInner Expr) : Prop :=
  ∀ source : String, (fieldUnion (registry.aggregationsForSource source)).length ≤ 255

variable {env}

theorem reads_of_unresolved (notResolved : resolvedIn registry agg = false)
    (unresolved : ∀ feature ∈ agg.features, Unresolved feature.descriptor) :
    Reads env registry agg := by
  intro feature member row aggRow nowMs
  rw [notResolved]
  exact (unresolved feature member).featureInput_eq env _ row aggRow nowMs

theorem reads_congr {before after : RegistryInner Expr} (reads : Reads env before agg)
    (source : after.events[agg.sourceNodeName]? = before.events[agg.sourceNodeName]?) :
    Reads env after agg := by
  intro feature member row aggRow nowMs
  have resolvedEq : resolvedIn after agg = resolvedIn before agg :=
    resolvedIn_congr rfl (by rw [source])
  have extractedEq : extractedOf after agg.sourceNodeName row =
      extractedOf before agg.sourceNodeName row := by
    rw [extractedOf,extractedOf,source]
  rw [resolvedEq,extractedEq]
  exact reads feature member row aggRow nowMs

theorem covers_fieldUnion (fits : (fieldUnion aggs).length ≤ 255) (member : agg ∈ aggs) :
    Covers (fieldUnion aggs) (aggFields agg) where
  nodup := KeyMap.nodup_sortDedup _
  inByte := fits
  subset name inFields := by
    rw [fieldUnion,KeyMap.mem_sortDedup]
    exact List.mem_flatMap.mpr ⟨agg,member,inFields⟩

theorem fieldUnion_map {change : AggregationDescriptor Expr → AggregationDescriptor Expr}
    (same : ∀ agg ∈ aggs, aggCore (change agg) = aggCore agg) :
    fieldUnion (aggs.map change) = fieldUnion aggs := by
  have fieldsEq : (aggs.map change).flatMap aggFields = aggs.flatMap aggFields := by
    rw [List.flatMap_map]
    exact List.flatMap_congr fun agg member => aggFields_eq_of_core (same agg member)
  exact congrArg (KeyMap.sortDedup compare) fieldsEq

section Refresh

variable {registry : RegistryInner Expr}
variable {agg : AggregationDescriptor Expr}
variable {source : String}

/-- An aggregation of the source that finds its fields in the event has new
positions after the refresh. -/
theorem refreshSource_resolved (wellFormed : WellFormed env registry) {name : String}
    (compiled : (refreshSource registry source).compiledAggregations[name]? = some agg)
    (fromSource : agg.sourceNodeName = source)
    (resolved : resolvedIn (refreshSource registry source) agg = true) :
    ∃ (before : AggregationDescriptor Expr) (event : EventDescriptor),
      before ∈ registry.aggregationsForSource source ∧
      (refreshSource registry source).events[source]? = some
        { event with applyFieldNames := fieldUnion (registry.aggregationsForSource source) } ∧
      resolveFieldIndices before event.schema
        (fieldUnion (registry.aggregationsForSource source)) = .ok agg := by
  cases isEvent : registry.events[source]? with
  | none =>
      rw [refreshSource_of_noEvent isEvent,resolvedIn,fromSource,isEvent] at resolved
      cases resolved
  | some event =>
      have compiledBefore := compiled
      rw [refreshSource_compiled wellFormed isEvent] at compiledBefore
      obtain ⟨before,beforeCompiled,isAgg⟩ := Option.map_eq_some_iff.mp compiledBefore
      have same := refreshed_same registry source event before
      rw [isAgg] at same
      have beforeSource : before.sourceNodeName = source :=
        same.sourceNodeName.symm.trans fromSource
      have inSource : before ∈ registry.aggregationsForSource source := by
        refine wellFormed.grouped.mpr ⟨?_,beforeSource⟩
        rw [wellFormed.named beforeCompiled]
        exact beforeCompiled
      have eventAfter := KeyMap.lookup_insert_self registry.events source
        { event with applyFieldNames := fieldUnion (registry.aggregationsForSource source) }
      rw [← refreshSource_events isEvent] at eventAfter
      have nothingMissing : (missingField before event.schema).isNone = true := by
        rw [resolvedIn,fromSource,eventAfter] at resolved
        rw [missingField_eq_of_core same.core.symm]
        exact resolved
      rw [refreshed,if_pos beforeSource] at isAgg
      have succeeded := resolveOrKeep_of_found nothingMissing
        (fieldUnion (registry.aggregationsForSource source))
      rw [isAgg] at succeeded
      exact ⟨before,event,inSource,eventAfter,succeeded⟩

theorem refreshSource_reads_source (wellFormed : WellFormed env registry)
    (fits : (fieldUnion (registry.aggregationsForSource source)).length ≤ 255) {name : String}
    (compiled : (refreshSource registry source).compiledAggregations[name]? = some agg)
    (fromSource : agg.sourceNodeName = source) : Reads env (refreshSource registry source) agg := by
  have wellFormedAfter := refreshSource_wellFormed wellFormed source
  cases resolved : resolvedIn (refreshSource registry source) agg with
  | false => exact reads_of_unresolved resolved (wellFormedAfter.unresolved compiled resolved)
  | true =>
      obtain ⟨before,event,inSource,eventAfter,succeeded⟩ :=
        refreshSource_resolved wellFormed compiled fromSource resolved
      intro feature member row aggRow nowMs
      rw [resolved,extractedOf,fromSource,eventAfter]
      exact featureInput_resolved env succeeded (covers_fieldUnion fits inSource) member row
        aggRow nowMs

theorem refreshSource_other (wellFormed : WellFormed env registry) {name : String}
    (otherSource : agg.sourceNodeName ≠ source)
    (compiled : (refreshSource registry source).compiledAggregations[name]? = some agg) :
    registry.compiledAggregations[name]? = some agg ∧
      (refreshSource registry source).events[agg.sourceNodeName]? =
        registry.events[agg.sourceNodeName]? := by
  cases isEvent : registry.events[source]? with
  | none =>
      rw [refreshSource_of_noEvent isEvent] at compiled ⊢
      exact ⟨compiled,rfl⟩
  | some event =>
      rw [refreshSource_compiled wellFormed isEvent] at compiled
      obtain ⟨before,beforeCompiled,isAgg⟩ := Option.map_eq_some_iff.mp compiled
      have same := refreshed_same registry source event before
      rw [isAgg] at same
      have unchanged : before = agg := by
        rw [refreshed,if_neg (fun fromSource =>
          otherSource (same.sourceNodeName.trans fromSource))] at isAgg
        exact isAgg
      refine ⟨unchanged ▸ beforeCompiled,?_⟩
      rw [refreshSource_events isEvent,KeyMap.lookup_insert_ne _ _ (Ne.symm otherSource)]

theorem refreshSource_fieldUnion (wellFormed : WellFormed env registry) (source other : String) :
    fieldUnion ((refreshSource registry source).aggregationsForSource other) =
      fieldUnion (registry.aggregationsForSource other) := by
  cases isEvent : registry.events[source]? with
  | none => rw [refreshSource_of_noEvent isEvent]
  | some event =>
      rw [refreshSource_forSource wellFormed isEvent,
        fieldUnion_map fun agg _ => (refreshed_same registry source event agg).core]

/-- What refreshing any number of sources keeps. -/
structure Refreshed (before after : RegistryInner Expr) : Prop where
  version : after.version = before.version
  events : ∀ name : String, after.events[name]?.map eventCore = before.events[name]?.map eventCore
  tables : after.tables = before.tables
  derivations : after.derivations = before.derivations
  compiledChains : after.compiledChains = before.compiledChains
  aggs : ∀ name : String,
    after.compiledAggregations[name]?.map (fun agg => (aggCore agg,agg.aggId,agg.clusterId)) =
      before.compiledAggregations[name]?.map fun agg => (aggCore agg,agg.aggId,agg.clusterId)
  featureIndex : after.featureIndex = before.featureIndex
  nextAggId : after.nextAggId = before.nextAggId

theorem Refreshed.trans {first second third : RegistryInner Expr} (before : Refreshed first second)
    (after : Refreshed second third) : Refreshed first third where
  version := after.version.trans before.version
  events name := (after.events name).trans (before.events name)
  tables := after.tables.trans before.tables
  derivations := after.derivations.trans before.derivations
  compiledChains := after.compiledChains.trans before.compiledChains
  aggs name := (after.aggs name).trans (before.aggs name)
  featureIndex := after.featureIndex.trans before.featureIndex
  nextAggId := after.nextAggId.trans before.nextAggId

theorem refreshed_rfl (registry : RegistryInner Expr) : Refreshed registry registry :=
  ⟨rfl,fun _ => rfl,rfl,rfl,rfl,fun _ => rfl,rfl,rfl⟩

theorem refreshSource_refreshed (wellFormed : WellFormed env registry) (source : String) :
    Refreshed registry (refreshSource registry source) := by
  cases isEvent : registry.events[source]? with
  | none =>
      rw [refreshSource_of_noEvent isEvent]
      exact refreshed_rfl registry
  | some event =>
      refine ⟨?_,?_,?_,?_,?_,?_,?_,?_⟩
      · rw [refreshSource_eq isEvent]
      · intro name
        rw [refreshSource_events isEvent,KeyMap.lookup_insert]
        split
        · rename_i sameName
          rw [← sameName,isEvent]
          rfl
        · rfl
      · rw [refreshSource_eq isEvent]
      · rw [refreshSource_eq isEvent]
      · rw [refreshSource_eq isEvent]
      · intro name
        rw [refreshSource_compiled wellFormed isEvent,Option.map_map]
        cases registry.compiledAggregations[name]? with
        | none => rfl
        | some agg =>
            have same := refreshed_same registry source event agg
            simp only [Option.map_some,Function.comp_apply,same.core,same.aggId,same.clusterId]
      · rw [refreshSource_eq isEvent]
      · rw [refreshSource_eq isEvent]

end Refresh

/-- Refreshing a list of sources: the aggregations of all other sources have to
read the right fields before. -/
theorem foldl_refreshSource_spec (wellFormed : WellFormed env registry) :
    WellFormed env (sources.foldl refreshSource registry) ∧
      Refreshed registry (sources.foldl refreshSource registry) := by
  induction sources generalizing registry with
  | nil => exact ⟨wellFormed,refreshed_rfl registry⟩
  | cons source rest ih =>
      obtain ⟨wellFormedAfter,later⟩ := ih (refreshSource_wellFormed wellFormed source)
      exact ⟨wellFormedAfter,(refreshSource_refreshed wellFormed source).trans later⟩

theorem foldl_refreshSource_fieldUnion (wellFormed : WellFormed env registry) (other : String) :
    fieldUnion ((sources.foldl refreshSource registry).aggregationsForSource other) =
      fieldUnion (registry.aggregationsForSource other) := by
  induction sources generalizing registry with
  | nil => rfl
  | cons source rest ih =>
      rw [List.foldl_cons,ih (refreshSource_wellFormed wellFormed source),
        refreshSource_fieldUnion wellFormed]

theorem refreshSource_fits (wellFormed : WellFormed env registry) (fits : FieldsFit registry)
    (source : String) : FieldsFit (refreshSource registry source) := by
  intro other
  rw [refreshSource_fieldUnion wellFormed]
  exact fits other

/-- What holds of every aggregation right after the refresh of its source, and
depends on its source only, holds after the refreshes of a list of sources. -/
theorem foldl_refreshSource_all
    (wellFormed : WellFormed env registry) (good : RegistryInner Expr → Prop)
    (goodKept : ∀ {registry : RegistryInner Expr}, WellFormed env registry → good registry →
      ∀ source, good (refreshSource registry source))
    (isGood : good registry)
    (reading : RegistryInner Expr → AggregationDescriptor Expr → Prop)
    (ofRefresh : ∀ {registry : RegistryInner Expr} {name : String}
      {agg : AggregationDescriptor Expr}, WellFormed env registry → good registry →
        (refreshSource registry agg.sourceNodeName).compiledAggregations[name]? = some agg →
          reading (refreshSource registry agg.sourceNodeName) agg)
    (congr : ∀ {before after agg}, reading before agg →
      after.events[agg.sourceNodeName]? = before.events[agg.sourceNodeName]? → reading after agg)
    (others : ∀ {name : String} {agg : AggregationDescriptor Expr},
      registry.compiledAggregations[name]? = some agg → agg.sourceNodeName ∉ sources →
        reading registry agg) {name : String}
    (compiled : (sources.foldl refreshSource registry).compiledAggregations[name]? = some agg) :
    reading (sources.foldl refreshSource registry) agg := by
  induction sources generalizing registry with
  | nil => exact others compiled List.not_mem_nil
  | cons source rest ih =>
      refine ih (refreshSource_wellFormed wellFormed source) (goodKept wellFormed isGood source) ?_
        compiled
      intro other found foundCompiled notLater
      by_cases fromSource : found.sourceNodeName = source
      · subst fromSource
        exact ofRefresh wellFormed isGood foundCompiled
      · obtain ⟨before,sameEvent⟩ := refreshSource_other wellFormed fromSource foundCompiled
        exact congr
          (others before (List.not_mem_cons_of_ne_of_not_mem fromSource notLater)) sameEvent

/-! ### Installing nodes -/

/-- Derivations stay, and what is new carries the new version. -/
structure Enlarged (newVersion : Nat) (before after : RegistryInner Expr) : Prop where
  derivations : ∀ {name : String} {derivation : DerivationDescriptor},
    before.derivations[name]? = some derivation → after.derivations[name]? = some derivation
  chains : ∀ {name : String} {derivation : DerivationDescriptor},
    before.derivations[name]? = some derivation →
      after.compiledChains[name]? = before.compiledChains[name]?
  newDerivations : ∀ {name : String} {derivation : DerivationDescriptor},
    after.derivations[name]? = some derivation → before.derivations[name]? = none →
      derivation.registeredAtVersion = newVersion
  newAggs : ∀ {name : String} {agg : AggregationDescriptor Expr},
    after.compiledAggregations[name]? = some agg → before.compiledAggregations[name]? = none →
      before.nextAggId ≤ agg.aggId ∧ before.derivations[name]? = none ∧
        ∃ derivation, after.derivations[name]? = some derivation ∧
          derivation.registeredAtVersion = newVersion
  nextAggId : before.nextAggId ≤ after.nextAggId

/-- What installing nodes keeps and what it adds. -/
structure Installed (newVersion : Nat) (before after : RegistryInner Expr) : Prop
    extends Enlarged newVersion before after where
  events : ∀ {name : String} {event : EventDescriptor},
    before.events[name]? = some event → after.events[name]? = some event
  aggs : ∀ {name : String} {agg : AggregationDescriptor Expr},
    before.compiledAggregations[name]? = some agg → after.compiledAggregations[name]? = some agg

theorem installed_rfl (newVersion : Nat) (registry : RegistryInner Expr) :
    Installed newVersion registry registry where
  events := id
  derivations := id
  chains _ := rfl
  aggs := id
  newDerivations present absent := by
    rw [absent] at present
    cases present
  newAggs compiled absent := by
    rw [absent] at compiled
    cases compiled
  nextAggId := Nat.le_refl _

theorem Installed.trans {newVersion : Nat} {first second third : RegistryInner Expr}
    (before : Installed newVersion first second) (after : Installed newVersion second third) :
    Installed newVersion first third where
  events present := after.events (before.events present)
  derivations present := after.derivations (before.derivations present)
  chains present := (after.chains (before.derivations present)).trans (before.chains present)
  aggs compiled := after.aggs (before.aggs compiled)
  newDerivations {name derivation} present absent := by
    cases between : second.derivations[name]? with
    | none => exact after.newDerivations present between
    | some middle =>
        have unchanged := after.derivations between
        rw [unchanged] at present
        cases present
        exact before.newDerivations between absent
  newAggs {name agg} compiled absent := by
    cases between : second.compiledAggregations[name]? with
    | none =>
        obtain ⟨idLe,absentBetween,stamped⟩ := after.newAggs compiled between
        refine ⟨Nat.le_trans before.nextAggId idLe,?_,stamped⟩
        cases present : first.derivations[name]? with
        | none => rfl
        | some derivation => exact nomatch absentBetween.symm.trans (before.derivations present)
    | some middle =>
        have unchanged := after.aggs between
        rw [unchanged] at compiled
        cases compiled
        obtain ⟨idLe,isNew,derivation,present,stamp⟩ := before.newAggs between absent
        exact ⟨idLe,isNew,derivation,after.derivations present,stamp⟩
  nextAggId := Nat.le_trans before.nextAggId after.nextAggId

section Install

variable {registry : RegistryInner Expr} {batch : Batch Expr}
variable {name : String} {derivation : DerivationDescriptor} {node : PayloadNode}
variable {agg : AggregationDescriptor Expr} {nodes : List PayloadNode}
variable {event : EventDescriptor}

theorem lookup_none_of_contains {α : Type} {map : StrMap α} (absent : map.contains name = false) :
    map[name]? = none := by
  rw [Std.ExtTreeMap.contains_eq_isSome_getElem?] at absent
  exact Option.not_isSome_iff_eq_none.mp (by rw [absent]; exact Bool.false_ne_true)

theorem installEvent_spec (wellFormed : WellFormed env registry) (event : EventDescriptor) :
    WellFormed env (installEvent batch registry event) ∧
      Installed batch.newVersion registry (installEvent batch registry event) := by
  unfold installEvent
  split
  · exact ⟨wellFormed,installed_rfl batch.newVersion registry⟩
  · rename_i notContained
    have absent := lookup_none_of_contains (Bool.eq_false_iff.mpr notContained)
    have otherName : ∀ {name : String} {found : EventDescriptor},
        registry.events[name]? = some found → event.name ≠ name := by
      intro name found present same
      rw [← same,absent] at present
      cases present
    refine ⟨wellFormed.withEvents ?_ ?_,?_⟩
    · intro name found lookup
      rcases KeyMap.lookup_insert_cases lookup with ⟨rfl,rfl⟩ | ⟨-,old⟩
      · rfl
      · exact wellFormed.eventNamed old
    · intro name found present
      rw [KeyMap.lookup_insert_ne _ _ (otherName present),present]
      rfl
    · exact
        { installed_rfl batch.newVersion registry with
          events := fun present =>
            (KeyMap.lookup_insert_ne _ _ (otherName present)).trans present }

theorem installTable_spec (wellFormed : WellFormed env registry) (table : TableDescriptor) :
    WellFormed env (installTable batch registry table) ∧
      Installed batch.newVersion registry (installTable batch registry table) := by
  unfold installTable
  split
  · exact ⟨wellFormed,installed_rfl batch.newVersion registry⟩
  · refine ⟨wellFormed.withRest registry.version _ registry.compiledChains registry.featureIndex,
      ?_⟩
    exact { installed_rfl batch.newVersion registry with }

def storedDerivation (batch : Batch Expr) (derivation : DerivationDescriptor) :
    DerivationDescriptor :=
  { derivation with
    registeredAtVersion := batch.newVersion
    schema := batch.schemas.getD derivation.name derivation.schema }

def withDerivation (batch : Batch Expr) (registry : RegistryInner Expr)
    (derivation : DerivationDescriptor) : RegistryInner Expr :=
  { registry with
    compiledChains :=
      match batch.chains[derivation.name]? with
      | some chain => registry.compiledChains.insert derivation.name chain
      | none => registry.compiledChains
    derivations := registry.derivations.insert derivation.name (storedDerivation batch derivation) }

variable (env) in
theorem installDerivation_eq (absent : registry.derivations.contains derivation.name = false) :
    installDerivation env batch registry derivation =
      match batch.aggs[derivation.name]? with
      | some agg =>
          installAggregation env (withDerivation batch registry derivation) derivation.name agg
      | none => withDerivation batch registry derivation := by
  simp only [installDerivation,absent,Bool.false_eq_true,if_false]
  cases batch.aggs[derivation.name]? with
  | none => cases chain : batch.chains[derivation.name]? <;> simp [withDerivation,chain] <;> rfl
  | some agg =>
      cases chain : batch.chains[derivation.name]? <;>
        simp only [withDerivation,chain,installAggregation,numberAggregation,assignCluster] <;>
        cases registry.clusterIdBySignature[env.clusterSignature agg.groupKeys]? <;> rfl

theorem installAggregation_eq (wellFormed : WellFormed env registry) (name : String)
    (compiled : AggregationDescriptor Expr) :
    ∃ nextClusterId clusters, installAggregation env registry name compiled =
      let agg := numberAggregation env registry compiled
      { registry with
        nextAggId := registry.nextAggId + 1
        aggregationsBySource := registry.aggregationsBySource.insert agg.sourceNodeName
          (registry.aggregationsForSource agg.sourceNodeName ++ [agg])
        compiledAggregations := registry.compiledAggregations.insert name agg
        nextClusterId := nextClusterId
        clusterIdBySignature := clusters } := by
  obtain ⟨nextClusterId,clusters,clusterEq⟩ :=
    (assignCluster_spec env wellFormed compiled.groupKeys).rest
  refine ⟨nextClusterId,clusters,?_⟩
  simp only [installAggregation,clusterEq]

theorem withDerivation_wellFormed (wellFormed : WellFormed env registry)
    (absent : registry.derivations[derivation.name]? = none) :
    WellFormed env (withDerivation batch registry derivation) := by
  have withChain := wellFormed.withRest registry.version registry.tables
    (match batch.chains[derivation.name]? with
      | some chain => registry.compiledChains.insert derivation.name chain
      | none => registry.compiledChains) registry.featureIndex
  have stored : (storedDerivation batch derivation).name = derivation.name := rfl
  rw [← stored] at absent
  exact withChain.insertDerivation absent

theorem withDerivation_installed (absent : registry.derivations[derivation.name]? = none) :
    Installed batch.newVersion registry (withDerivation batch registry derivation) := by
  have different : ∀ {name : String} {found : DerivationDescriptor},
      registry.derivations[name]? = some found → derivation.name ≠ name := by
    intro name found present same
    rw [← same,absent] at present
    cases present
  exact
    { events := id
      derivations := fun present =>
        (KeyMap.lookup_insert_ne _ _ (different present)).trans present
      chains := by
        intro name found present
        simp only [withDerivation]
        split
        · exact KeyMap.lookup_insert_ne _ _ (different present)
        · rfl
      aggs := id
      newDerivations := by
        intro name found present absentBefore
        simp only [withDerivation,KeyMap.lookup_insert] at present
        split at present
        · cases present
          rfl
        · rw [absentBefore] at present
          cases present
      newAggs := fun compiled noneBefore => nomatch noneBefore.symm.trans compiled
      nextAggId := Nat.le_refl _ }

def BatchFor (env : Env Expr) (batch : Batch Expr) (derivation : DerivationDescriptor) : Prop :=
  ∀ agg, batch.aggs[derivation.name]? = some agg → CompiledFrom env derivation agg ∧ Fresh agg

theorem installDerivation_spec (wellFormed : WellFormed env registry)
    (compiledFor : BatchFor env batch derivation) :
    WellFormed env (installDerivation env batch registry derivation) ∧
      Installed batch.newVersion registry (installDerivation env batch registry derivation) := by
  cases contained : registry.derivations.contains derivation.name with
  | true =>
      have unchanged : installDerivation env batch registry derivation = registry := by
        simp only [installDerivation,contained,if_true]
      rw [unchanged]
      exact ⟨wellFormed,installed_rfl batch.newVersion registry⟩
  | false =>
      have absent := lookup_none_of_contains contained
      have stored : WellFormed env (withDerivation batch registry derivation) :=
        withDerivation_wellFormed wellFormed absent
      have storedInstalled :
          Installed batch.newVersion registry (withDerivation batch registry derivation) :=
        withDerivation_installed absent
      rw [installDerivation_eq env contained]
      cases hasAgg : batch.aggs[derivation.name]? with
      | none => exact ⟨stored,storedInstalled⟩
      | some compiled =>
          obtain ⟨compiledFrom,fresh⟩ := compiledFor compiled hasAgg
          have noAgg : registry.compiledAggregations[derivation.name]? = none :=
            wellFormed.notCompiled absent
          have storedFrom : CompiledFrom env (storedDerivation batch derivation) compiled :=
            CompiledFrom.of_derivation env compiledFrom rfl rfl rfl
          have isStored : (withDerivation batch registry derivation).derivations[derivation.name]? =
              some (storedDerivation batch derivation) :=
            KeyMap.lookup_insert_self _ _ _
          have inserted := @WellFormed.insertAggregation _ env _ stored
            (storedDerivation batch derivation) isStored noAgg compiled storedFrom fresh
          refine ⟨inserted,?_⟩
          obtain ⟨nextClusterId,clusters,isInstall⟩ :=
            installAggregation_eq stored derivation.name compiled
          have newId := (numberAggregation_spec env (withDerivation batch registry derivation)
            compiled).aggId
          simp only
          rw [isInstall]
          exact
            { events := id
              derivations := storedInstalled.derivations
              chains := storedInstalled.chains
              aggs := by
                intro name agg old
                have otherName : derivation.name ≠ name := by
                  intro same
                  rw [← same] at old
                  exact nomatch noAgg.symm.trans old
                exact (KeyMap.lookup_insert_ne _ _ otherName).trans old
              newDerivations := storedInstalled.newDerivations
              newAggs := by
                intro name agg compiledAfter noneBefore
                simp only [KeyMap.lookup_insert] at compiledAfter
                split at compiledAfter
                · rename_i sameName
                  cases compiledAfter
                  exact ⟨Nat.le_of_eq newId.symm,sameName ▸ absent,_,sameName ▸ isStored,rfl⟩
                · exact nomatch noneBefore.symm.trans compiledAfter
              nextAggId := Nat.le_succ _ }

theorem installNode_numbered (wellFormed : WellFormed env registry)
    (compiled : (installNode env batch registry node).compiledAggregations[name]? = some agg)
    (noneBefore : registry.compiledAggregations[name]? = none) :
    ∃ derivation fromBatch, node = .derivation derivation ∧ derivation.name = name ∧
      registry.derivations.contains name = false ∧
        batch.aggs[derivation.name]? = some fromBatch ∧
          agg = numberAggregation env (withDerivation batch registry derivation) fromBatch := by
  cases node with
  | event event =>
      simp only [installNode,installEvent] at compiled
      split at compiled <;> exact nomatch noneBefore.symm.trans compiled
  | table table =>
      simp only [installNode,installTable] at compiled
      split at compiled <;> exact nomatch noneBefore.symm.trans compiled
  | derivation derivation =>
      simp only [installNode] at compiled
      cases contained : registry.derivations.contains derivation.name with
      | true =>
          simp only [installDerivation,contained,if_true] at compiled
          exact nomatch noneBefore.symm.trans compiled
      | false =>
          have absent := lookup_none_of_contains contained
          have stored : WellFormed env (withDerivation batch registry derivation) :=
            withDerivation_wellFormed wellFormed absent
          rw [installDerivation_eq env contained] at compiled
          cases hasAgg : batch.aggs[derivation.name]? with
          | none =>
              rw [hasAgg] at compiled
              exact nomatch noneBefore.symm.trans compiled
          | some fromBatch =>
              obtain ⟨nextClusterId,clusters,isInstall⟩ :=
                installAggregation_eq stored derivation.name fromBatch
              rw [hasAgg] at compiled
              simp only [isInstall,KeyMap.lookup_insert] at compiled
              split at compiled
              · rename_i sameName
                cases compiled
                exact ⟨derivation,fromBatch,rfl,sameName,sameName ▸ contained,hasAgg,rfl⟩
              · exact nomatch noneBefore.symm.trans compiled

theorem installNode_newAgg (wellFormed : WellFormed env registry)
    (compiledFor : ∀ derivation, node = .derivation derivation → BatchFor env batch derivation)
    (compiled : (installNode env batch registry node).compiledAggregations[name]? = some agg)
    (noneBefore : registry.compiledAggregations[name]? = none) :
    ∃ derivation, node = .derivation derivation ∧ derivation.name = name ∧
      registry.derivations.contains name = false ∧ batch.aggs.contains name = true ∧
        derivation.upstreams.head? = some agg.sourceNodeName := by
  obtain ⟨derivation,fromBatch,isDerivation,sameName,contained,hasAgg,rfl⟩ :=
    installNode_numbered wellFormed compiled noneBefore
  have number := numberAggregation_spec env (withDerivation batch registry derivation) fromBatch
  refine ⟨derivation,isDerivation,sameName,contained,?_,?_⟩
  · rw [KeyMap.contains_iff_exists,← sameName]
    exact ⟨fromBatch,hasAgg⟩
  · rw [number.sourceNodeName]
    exact (compiledFor derivation isDerivation fromBatch hasAgg).1.source

theorem installNode_spec (wellFormed : WellFormed env registry)
    (compiledFor : ∀ derivation, node = .derivation derivation → BatchFor env batch derivation) :
    WellFormed env (installNode env batch registry node) ∧
      Installed batch.newVersion registry (installNode env batch registry node) := by
  cases node with
  | event event => exact installEvent_spec wellFormed event
  | table table => exact installTable_spec wellFormed table
  | derivation derivation => exact installDerivation_spec wellFormed (compiledFor derivation rfl)

def Compiled (env : Env Expr) (batch : Batch Expr) (nodes : List PayloadNode) : Prop :=
  ∀ node ∈ nodes, ∀ derivation, node = .derivation derivation → BatchFor env batch derivation

theorem foldl_installNode_spec (wellFormed : WellFormed env registry)
    (compiled : Compiled env batch nodes) :
    WellFormed env (nodes.foldl (installNode env batch) registry) ∧
      Installed batch.newVersion registry (nodes.foldl (installNode env batch) registry) := by
  induction nodes generalizing registry with
  | nil => exact ⟨wellFormed,installed_rfl batch.newVersion registry⟩
  | cons node rest ih =>
      obtain ⟨wellFormedNext,installed⟩ :=
        installNode_spec wellFormed (compiled node List.mem_cons_self)
      obtain ⟨wellFormedAfter,later⟩ := ih wellFormedNext
        fun other member => compiled other (List.mem_cons_of_mem node member)
      exact ⟨wellFormedAfter,installed.trans later⟩

theorem mem_newAggNames (wellFormed : WellFormed env registry)
    (compiledNodes : Compiled env batch nodes)
    (compiled : (nodes.foldl (installNode env batch) registry).compiledAggregations[name]? =
      some agg)
    (noneBefore : registry.compiledAggregations[name]? = none) :
    name ∈ newAggNames env batch registry nodes := by
  induction nodes generalizing registry with
  | nil => exact nomatch noneBefore.symm.trans compiled
  | cons node rest ih =>
      have compiledHere := compiledNodes node List.mem_cons_self
      obtain ⟨wellFormedNext,-⟩ := installNode_spec wellFormed compiledHere
      cases next : (installNode env batch registry node).compiledAggregations[name]? with
      | none =>
          have inRest := ih wellFormedNext
            (fun other member => compiledNodes other (List.mem_cons_of_mem node member)) compiled next
          cases node with
          | derivation derivation =>
              simp only [newAggNames]
              split
              · exact List.mem_cons_of_mem _ inRest
              · exact inRest
          | _ => exact inRest
      | some here =>
          obtain ⟨derivation,rfl,sameName,absent,hasAgg,-⟩ :=
            installNode_newAgg wellFormed compiledHere next noneBefore
          subst sameName
          simp only [newAggNames,absent,hasAgg,Bool.not_false,Bool.and_self,if_true]
          exact List.mem_cons_self

theorem installDerivation_events (derivation : DerivationDescriptor) :
    (installDerivation env batch registry derivation).events = registry.events := by
  cases contained : registry.derivations.contains derivation.name with
  | true => simp only [installDerivation,contained,if_true]
  | false =>
      rw [installDerivation_eq env contained]
      cases batch.aggs[derivation.name]? with
      | none => rfl
      | some compiled =>
          simp only [installAggregation,assignCluster]
          split <;> rfl

theorem installNode_newEvent
    (present : (installNode env batch registry node).events[name]? = some event)
    (noneBefore : registry.events[name]? = none) :
    ∃ declared, node = .event declared ∧ declared.name = name := by
  cases node with
  | event declared =>
      refine ⟨declared,rfl,?_⟩
      simp only [installNode,installEvent] at present
      split at present
      · exact nomatch noneBefore.symm.trans present
      · rw [KeyMap.lookup_insert] at present
        split at present
        · rename_i sameName
          exact sameName
        · exact nomatch noneBefore.symm.trans present
  | table table =>
      simp only [installNode,installTable] at present
      split at present <;> exact nomatch noneBefore.symm.trans present
  | derivation derivation =>
      simp only [installNode,installDerivation_events] at present
      exact nomatch noneBefore.symm.trans present

theorem mem_of_newEvent (wellFormed : WellFormed env registry)
    (compiledNodes : Compiled env batch nodes)
    (present : (nodes.foldl (installNode env batch) registry).events[name]? = some event)
    (noneBefore : registry.events[name]? = none) :
    ∃ declared, .event declared ∈ nodes ∧ declared.name = name := by
  induction nodes generalizing registry with
  | nil => exact nomatch noneBefore.symm.trans present
  | cons node rest ih =>
      have compiledHere := compiledNodes node List.mem_cons_self
      obtain ⟨wellFormedNext,-⟩ := installNode_spec wellFormed compiledHere
      cases next : (installNode env batch registry node).events[name]? with
      | none =>
          obtain ⟨declared,member,sameName⟩ := ih wellFormedNext
            (fun other member => compiledNodes other (List.mem_cons_of_mem node member)) present next
          exact ⟨declared,List.mem_cons_of_mem node member,sameName⟩
      | some here =>
          obtain ⟨declared,rfl,sameName⟩ := installNode_newEvent next noneBefore
          exact ⟨declared,List.mem_cons_self,sameName⟩

end Install

/-! ### The whole registration -/

section Whole

variable {registry : RegistryInner Expr} {nodes : List PayloadNode}
  {validated : ValidatedPayload Expr}

theorem Accepted.batchFor (accepted : Accepted env registry nodes validated)
    {derivation : DerivationDescriptor} (member : .derivation derivation ∈ nodes) :
    BatchFor env (Batch.ofValidated registry validated) derivation := by
  intro agg inBatch
  have inCompiled : (derivation.name,agg) ∈ validated.compiledAggregations := by
    rcases KeyMap.insertAll_eq_some inBatch with inEntries | ⟨-,inEmpty⟩
    · exact inEntries
    · simp at inEmpty
  rw [accepted.result] at inCompiled
  obtain ⟨other,otherMember,sameName,compiledFrom,fresh⟩ :=
    mem_compileAggregationsFromNodes env inCompiled
  have same : PayloadNode.derivation other = .derivation derivation :=
    accepted.eq_of_name otherMember member sameName
  cases same
  exact ⟨compiledFrom,fresh⟩

theorem Accepted.compiled (accepted : Accepted env registry nodes validated) :
    Compiled env (Batch.ofValidated registry validated) nodes := by
  intro node member derivation isDerivation
  exact accepted.batchFor (isDerivation ▸ member)

/-- What a registration keeps and what it adds. -/
structure Registered (before after : RegistryInner Expr) : Prop
    extends Enlarged (before.version + 1) before after where
  version : after.version = before.version + 1
  aggs : ∀ {name : String} {agg : AggregationDescriptor Expr},
    before.compiledAggregations[name]? = some agg →
      ∃ later, after.compiledAggregations[name]? = some later ∧ SameAgg agg later
  events : ∀ {name : String} {event : EventDescriptor}, before.events[name]? = some event →
    after.events[name]?.map eventCore = some (eventCore event)

section RefreshedAggs

variable {before after : RegistryInner Expr} (refreshed : Refreshed before after) {name : String}
  {agg : AggregationDescriptor Expr}

include refreshed

theorem Refreshed.aggAfter (compiled : before.compiledAggregations[name]? = some agg) :
    ∃ later, after.compiledAggregations[name]? = some later ∧ SameAgg agg later := by
  have identities := refreshed.aggs name
  rw [compiled] at identities
  obtain ⟨later,compiledLater,same⟩ := Option.map_eq_some_iff.mp identities
  simp only [Prod.mk.injEq] at same
  exact ⟨later,compiledLater,same.1,same.2.1,same.2.2⟩

theorem Refreshed.aggBefore (compiled : after.compiledAggregations[name]? = some agg) :
    ∃ earlier, before.compiledAggregations[name]? = some earlier ∧ SameAgg earlier agg := by
  have identities := refreshed.aggs name
  rw [compiled] at identities
  obtain ⟨earlier,compiledEarlier,same⟩ := Option.map_eq_some_iff.mp identities.symm
  simp only [Prod.mk.injEq] at same
  exact ⟨earlier,compiledEarlier,same.1.symm,same.2.1.symm,same.2.2.symm⟩

end RefreshedAggs

def installNodes (env : Env Expr) (registry : RegistryInner Expr)
    (validated : ValidatedPayload Expr) : RegistryInner Expr :=
  validated.nodes.foldl (installNode env (Batch.ofValidated registry validated)) registry

def refreshNodes (env : Env Expr) (registry : RegistryInner Expr)
    (validated : ValidatedPayload Expr) : RegistryInner Expr :=
  (affectedSources (installNodes env registry validated)
    (newAggNames env (Batch.ofValidated registry validated) registry validated.nodes)).foldl
      refreshSource (installNodes env registry validated)

theorem applyRegistration_eq (env : Env Expr) (registry : RegistryInner Expr)
    (validated : ValidatedPayload Expr) :
    applyRegistration env registry validated =
      { indexFeatures (refreshNodes env registry validated)
          (newAggNames env (Batch.ofValidated registry validated) registry validated.nodes) with
        version := registry.version + 1 } :=
  rfl

theorem Accepted.nodes_eq (accepted : Accepted env registry nodes validated) :
    validated.nodes = nodes := by
  rw [accepted.result]

section AcceptedNodes

variable (wellFormed : WellFormed env registry) (accepted : Accepted env registry nodes validated)
variable {agg : AggregationDescriptor Expr}
variable {name : String}

include wellFormed accepted

theorem installNodes_spec :
    WellFormed env (installNodes env registry validated) ∧
      Installed (registry.version + 1) registry (installNodes env registry validated) := by
  have spec := foldl_installNode_spec wellFormed accepted.compiled
  rw [installNodes,accepted.nodes_eq]
  exact spec

theorem refreshNodes_spec :
    WellFormed env (refreshNodes env registry validated) ∧
      Refreshed (installNodes env registry validated) (refreshNodes env registry validated) :=
  foldl_refreshSource_spec (installNodes_spec wellFormed accepted).1

theorem applyRegistration_wellFormed :
    WellFormed env (applyRegistration env registry validated) := by
  obtain ⟨refreshedOk,-⟩ := refreshNodes_spec wellFormed accepted
  rw [applyRegistration_eq]
  exact refreshedOk.withRest _ _ _ _

theorem applyRegistration_registered :
    Registered registry (applyRegistration env registry validated) := by
  obtain ⟨-,installed⟩ := installNodes_spec wellFormed accepted
  obtain ⟨-,refreshed⟩ := refreshNodes_spec wellFormed accepted
  rw [applyRegistration_eq]
  exact
    { version := rfl
      derivations := by
        intro name derivation present
        show (refreshNodes env registry validated).derivations[name]? = some derivation
        rw [refreshed.derivations]
        exact installed.derivations present
      chains := by
        intro name derivation present
        show (refreshNodes env registry validated).compiledChains[name]? = _
        rw [refreshed.compiledChains]
        exact installed.chains present
      aggs := fun compiled => refreshed.aggAfter (installed.aggs compiled)
      events := by
        intro name event present
        refine (refreshed.events name).trans ?_
        rw [installed.events present]
        rfl
      newDerivations := by
        intro name derivation present absent
        have presentBefore : (refreshNodes env registry validated).derivations[name]? =
            some derivation := present
        rw [refreshed.derivations] at presentBefore
        exact installed.newDerivations presentBefore absent
      newAggs := by
        intro name agg compiled noneBefore
        obtain ⟨earlier,compiledEarlier,same⟩ := refreshed.aggBefore compiled
        obtain ⟨idLe,isNew,derivation,present,stamp⟩ :=
          installed.newAggs compiledEarlier noneBefore
        rw [same.aggId]
        refine ⟨idLe,isNew,derivation,?_,stamp⟩
        show (refreshNodes env registry validated).derivations[name]? = some derivation
        rw [refreshed.derivations]
        exact present
      nextAggId := by
        show registry.nextAggId ≤ (refreshNodes env registry validated).nextAggId
        rw [refreshed.nextAggId]
        exact installed.nextAggId }

/-- A property of aggregations that holds right after the refresh of their source
holds after the registration, if the installation of the nodes keeps it. -/
theorem applyRegistration_every (good : RegistryInner Expr → Prop)
    (goodKept : ∀ {registry : RegistryInner Expr}, WellFormed env registry → good registry →
      ∀ source, good (refreshSource registry source))
    (isGood : good (installNodes env registry validated))
    (reading : RegistryInner Expr → AggregationDescriptor Expr → Prop)
    (ofRefresh : ∀ {registry : RegistryInner Expr} {name : String}
      {agg : AggregationDescriptor Expr}, WellFormed env registry → good registry →
        (refreshSource registry agg.sourceNodeName).compiledAggregations[name]? = some agg →
          reading (refreshSource registry agg.sourceNodeName) agg)
    (congr : ∀ {before after agg}, reading before agg →
      after.events[agg.sourceNodeName]? = before.events[agg.sourceNodeName]? → reading after agg)
    (kept : ∀ {name : String} {agg : AggregationDescriptor Expr},
      registry.compiledAggregations[name]? = some agg →
        reading (installNodes env registry validated) agg)
    (compiled : (applyRegistration env registry validated).compiledAggregations[name]? = some agg) :
    reading (applyRegistration env registry validated) agg := by
  obtain ⟨installedOk,installed⟩ := installNodes_spec wellFormed accepted
  have refreshedReads : reading (refreshNodes env registry validated) agg := by
    refine foldl_refreshSource_all installedOk good goodKept isGood reading ofRefresh congr ?_
      compiled
    intro other found foundCompiled notAffected
    cases compiledBefore : registry.compiledAggregations[other]? with
    | some old =>
        have unchanged := installed.aggs compiledBefore
        rw [unchanged] at foundCompiled
        cases foundCompiled
        exact kept compiledBefore
    | none =>
        refine absurd ?_ notAffected
        rw [affectedSources,KeyMap.mem_sortDedup,List.mem_filterMap]
        refine ⟨other,?_,by rw [foundCompiled]; rfl⟩
        have isNew := mem_newAggNames wellFormed accepted.compiled
          (by rw [installNodes,accepted.nodes_eq] at foundCompiled; exact foundCompiled)
          compiledBefore
        rw [accepted.nodes_eq]
        exact isNew
  rw [applyRegistration_eq]
  exact congr refreshedReads rfl

theorem applyRegistration_all
    (reading : RegistryInner Expr → AggregationDescriptor Expr → Prop)
    (ofReads : ∀ {registry agg}, Reads env registry agg → reading registry agg)
    (congr : ∀ {before after agg}, reading before agg →
      after.events[agg.sourceNodeName]? = before.events[agg.sourceNodeName]? → reading after agg)
    (kept : ∀ {name : String} {agg : AggregationDescriptor Expr},
      registry.compiledAggregations[name]? = some agg →
        reading (installNodes env registry validated) agg)
    (fits : FieldsFit (applyRegistration env registry validated))
    (compiled : (applyRegistration env registry validated).compiledAggregations[name]? = some agg) :
    reading (applyRegistration env registry validated) agg := by
  obtain ⟨installedOk,-⟩ := installNodes_spec wellFormed accepted
  have fitsBefore : FieldsFit (installNodes env registry validated) := by
    intro source
    have fitsSource := fits source
    rw [applyRegistration_eq] at fitsSource
    exact (foldl_refreshSource_fieldUnion installedOk source) ▸ fitsSource
  exact applyRegistration_every wellFormed accepted FieldsFit refreshSource_fits fitsBefore reading
    (fun ok fits compiled => ofReads (refreshSource_reads_source ok (fits _) compiled rfl)) congr
    kept compiled

end AcceptedNodes

/-- A new event is installed for nobody who reads its name already. -/
def NoReaders (registry : RegistryInner Expr) (event : EventDescriptor) : Prop :=
  registry.events.contains event.name = false →
    ∀ {name : String} {agg : AggregationDescriptor Expr},
      registry.compiledAggregations[name]? = some agg → agg.sourceNodeName ≠ event.name

section NoTakeover

variable (wellFormed : WellFormed env registry) (accepted : Accepted env registry nodes validated)
  (noReaders : ∀ event, .event event ∈ nodes → NoReaders registry event)
variable {agg : AggregationDescriptor Expr}
variable {name : String}

include wellFormed accepted noReaders

theorem installNodes_sources (compiled : registry.compiledAggregations[name]? = some agg) :
    (installNodes env registry validated).events[agg.sourceNodeName]? =
      registry.events[agg.sourceNodeName]? := by
  obtain ⟨-,installed⟩ := installNodes_spec wellFormed accepted
  cases before : registry.events[agg.sourceNodeName]? with
  | some event => exact installed.events before
  | none =>
      cases after : (installNodes env registry validated).events[agg.sourceNodeName]? with
      | none => rfl
      | some event =>
          rw [installNodes,accepted.nodes_eq] at after
          obtain ⟨declared,member,sameName⟩ :=
            mem_of_newEvent wellFormed accepted.compiled after before
          have absent : registry.events.contains declared.name = false := by
            rw [sameName,Std.ExtTreeMap.contains_eq_isSome_getElem?,before]
            rfl
          exact absurd sameName.symm (noReaders declared member absent compiled)

theorem applyRegistration_sources (compiled : registry.compiledAggregations[name]? = some agg) :
    (applyRegistration env registry validated).events[agg.sourceNodeName]?.map eventCore =
      registry.events[agg.sourceNodeName]?.map eventCore := by
  obtain ⟨-,refreshed⟩ := refreshNodes_spec wellFormed accepted
  refine (refreshed.events agg.sourceNodeName).trans ?_
  rw [installNodes_sources wellFormed accepted noReaders compiled]

/-- The registration leaves every aggregation reading the right fields when the
fields of the sources fit. -/
theorem applyRegistration_allRead (allRead : AllRead env registry)
    (fits : FieldsFit (applyRegistration env registry validated)) :
    AllRead env (applyRegistration env registry validated) := by
  intro name agg compiled
  refine applyRegistration_all wellFormed accepted (Reads env) (fun reads => reads) reads_congr ?_
    fits compiled
  intro other found foundCompiled
  exact reads_congr (allRead other found foundCompiled)
    (installNodes_sources wellFormed accepted noReaders foundCompiled)

end NoTakeover

end Whole

end Beava.Registry
