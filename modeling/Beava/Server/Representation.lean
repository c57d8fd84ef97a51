/-
The representation of the registry over its whole life.

Registrations, forced removals, resets and reinstallations keep the maps of the
registry in step.  Ids grow from one operation to the next; only a
reinstallation numbers the aggregations anew.
-/

import Beava.Server.Reached
import Beava.Server.History

namespace Beava.Server

open Beava.Core Beava.Apply Beava.Registry

variable {Expr : Type}

inductive RegistryOp where
  | register (nodes : List PayloadNode)
  | remove (names : List String)
  | clear
  | install (body : RegistryDescriptorsOnly)

/-- A payload that fails validation is not applied. -/
def stepRegistry (env : Env Expr) (registry : RegistryInner Expr) :
    RegistryOp → RegistryInner Expr
  | .register nodes =>
      match validatePayload env registry nodes with
      | .ok validated => applyRegistration env registry validated
      | .error _ => registry
  | .remove names => forceRemoveDescriptors registry names
  | .clear => registry.clear
  | .install body => installFromDescriptors env body

/-- The maps of a snapshot body are keyed by the names of the descriptors. -/
def KeyedByName (body : RegistryDescriptorsOnly) : Prop :=
  (∀ (name : String) (event : EventDescriptor),
    body.events[name]? = some event → event.name = name) ∧
  ∀ (name : String) (derivation : DerivationDescriptor),
    body.derivations[name]? = some derivation → derivation.name = name

/-- Removals are closed under readers, and bodies are those of snapshots. -/
def Admissible (registry : RegistryInner Expr) : RegistryOp → Prop
  | .remove names => DownstreamClosed registry.derivations names
  | .install body => KeyedByName body
  | _ => True

def RegistryOp.isInstall : RegistryOp → Bool
  | .install _ => true
  | _ => false

def registryRun (env : Env Expr) (operations : List RegistryOp) : RegistryInner Expr :=
  Machine.run (stepRegistry env) RegistryInner.empty operations

def ChainsOwned (registry : RegistryInner Expr) : Prop :=
  ∀ (name : String) (chain : OpChain Expr), registry.compiledChains[name]? = some chain →
    ∃ derivation, registry.derivations[name]? = some derivation

/-- The signature hash tells the key lists of the registry's aggregations apart. -/
def SignaturesInjective (env : Env Expr) (registry : RegistryInner Expr) : Prop :=
  ∀ (name other : String) (agg otherAgg : AggregationDescriptor Expr),
    registry.compiledAggregations[name]? = some agg →
      registry.compiledAggregations[other]? = some otherAgg →
        env.clusterSignature agg.groupKeys = env.clusterSignature otherAgg.groupKeys →
          agg.groupKeys = otherAgg.groupKeys

structure Represents (env : Env Expr) (registry : RegistryInner Expr) : Prop where
  bySource : ∀ (source : String) (agg : AggregationDescriptor Expr),
    agg ∈ registry.aggregationsForSource source ↔
      registry.compiledAggregations[agg.nodeName]? = some agg ∧ agg.sourceNodeName = source
  named : ∀ (name : String) (agg : AggregationDescriptor Expr),
    registry.compiledAggregations[name]? = some agg → agg.nodeName = name
  noDuplicates : ∀ source : String, (registry.aggregationsForSource source).Nodup
  chainOwned : ChainsOwned registry
  aggOwned : ∀ (name : String) (agg : AggregationDescriptor Expr),
    registry.compiledAggregations[name]? = some agg →
      ∃ derivation, registry.derivations[name]? = some derivation
  idBelow : ∀ (name : String) (agg : AggregationDescriptor Expr),
    registry.compiledAggregations[name]? = some agg → agg.aggId < registry.nextAggId
  idsDistinct : ∀ (name other : String) (agg otherAgg : AggregationDescriptor Expr),
    registry.compiledAggregations[name]? = some agg →
      registry.compiledAggregations[other]? = some otherAgg →
        agg.aggId = otherAgg.aggId → name = other
  features : ∀ (feature name : String) (position : Nat),
    registry.featureIndex[feature]? = some (name,position) ↔
      ∃ agg, registry.compiledAggregations[name]? = some agg ∧
        agg.features[position]?.map NamedAggOp.featureName = some feature
  clusters : SignaturesInjective env registry →
    ∀ (name other : String) (agg otherAgg : AggregationDescriptor Expr),
      registry.compiledAggregations[name]? = some agg →
        registry.compiledAggregations[other]? = some otherAgg →
          agg.clusterId = otherAgg.clusterId → agg.groupKeys = otherAgg.groupKeys

/-- An id that was given out before belongs to the aggregation it was given to. -/
def IdsKept (before after : RegistryInner Expr) : Prop :=
  before.nextAggId ≤ after.nextAggId ∧
    ∀ (name : String) (agg : AggregationDescriptor Expr),
      after.compiledAggregations[name]? = some agg → agg.aggId < before.nextAggId →
        ∃ earlier, before.compiledAggregations[name]? = some earlier ∧ SameAgg earlier agg

/-- What every operation keeps. -/
structure Kept (env : Env Expr) (registry : RegistryInner Expr) : Prop where
  wellFormed : WellFormed env registry
  features : FeaturesExact registry
  chains : ChainsOwned registry

variable {env : Env Expr}

theorem Kept.represents {registry : RegistryInner Expr} (kept : Kept env registry) :
    Represents env registry where
  bySource _ _ := kept.wellFormed.grouped
  named _ _ compiled := kept.wellFormed.named compiled
  noDuplicates source := List.Nodup.of_map _ (kept.wellFormed.listed source)
  chainOwned := kept.chains
  aggOwned name agg compiled := by
    obtain ⟨derivation,present,-⟩ := kept.wellFormed.derived compiled
    exact ⟨derivation,present⟩
  idBelow _ _ compiled := kept.wellFormed.numbered compiled
  idsDistinct _ _ _ _ first second same := kept.wellFormed.idsDistinct first second same
  features := kept.features
  clusters injective name other agg otherAgg first second same := by
    have firstCluster := kept.wellFormed.clustered first
    have secondCluster := kept.wellFormed.clustered second
    rw [← same] at secondCluster
    exact injective name other agg otherAgg first second
      (kept.wellFormed.clustersDistinct firstCluster secondCluster)

theorem kept_empty : Kept env (RegistryInner.empty : RegistryInner Expr) where
  wellFormed := wellFormed_empty env
  features := featuresExact_empty
  chains _ _ found := by simp [RegistryInner.empty] at found

/-! ### Registration -/

section Chains

variable {registry : RegistryInner Expr} {batch : Batch Expr}

theorem withDerivation_chainsOwned (owned : ChainsOwned registry)
    (derivation : DerivationDescriptor) :
    ChainsOwned (withDerivation batch registry derivation) := by
  intro name chain found
  by_cases same : derivation.name = name
  · exact ⟨_,by rw [withDerivation,same]; exact KeyMap.lookup_insert_self _ _ _⟩
  · have foundBefore : registry.compiledChains[name]? = some chain := by
      simp only [withDerivation] at found
      split at found
      · rwa [KeyMap.lookup_insert_ne _ _ same] at found
      · exact found
    obtain ⟨owner,present⟩ := owned name chain foundBefore
    exact ⟨owner,(KeyMap.lookup_insert_ne _ _ same).trans present⟩

theorem installNode_chainsOwned (owned : ChainsOwned registry) (node : PayloadNode) :
    ChainsOwned (installNode env batch registry node) := by
  cases node with
  | event event =>
      simp only [installNode,installEvent]
      split <;> exact owned
  | table table =>
      simp only [installNode,installTable]
      split <;> exact owned
  | derivation derivation =>
      simp only [installNode]
      cases contained : registry.derivations.contains derivation.name with
      | true =>
          rw [installDerivation_of_contains contained]
          exact owned
      | false =>
          have stored := @withDerivation_chainsOwned _ _ batch owned derivation
          rw [installDerivation_eq env contained]
          split
          · intro name chain found
            rw [installAggregation_derivations]
            refine stored name chain ?_
            rw [← found,installAggregation,assignCluster]
            split <;> rfl
          · exact stored

theorem foldl_installNode_chainsOwned (owned : ChainsOwned registry) (nodes : List PayloadNode) :
    ChainsOwned (nodes.foldl (installNode env batch) registry) := by
  induction nodes generalizing registry with
  | nil => exact owned
  | cons node rest ih => exact ih (installNode_chainsOwned owned node)

end Chains

section Registration

variable {registry : RegistryInner Expr} {nodes : List PayloadNode}
  {validated : ValidatedPayload Expr}

theorem Kept.accepted (kept : Kept env registry)
    (accepted : Accepted env registry nodes validated) :
    Kept env (applyRegistration env registry validated) where
  wellFormed := applyRegistration_wellFormed kept.wellFormed accepted
  features := applyRegistration_featuresExact kept.wellFormed accepted kept.features
  chains := by
    obtain ⟨-,refreshed⟩ := refreshNodes_spec kept.wellFormed accepted
    have installed : ChainsOwned (installNodes env registry validated) :=
      foldl_installNode_chainsOwned kept.chains validated.nodes
    intro name chain found
    change (refreshNodes env registry validated).compiledChains[name]? = some chain at found
    show ∃ derivation, (refreshNodes env registry validated).derivations[name]? = some derivation
    rw [refreshed.compiledChains] at found
    rw [refreshed.derivations]
    exact installed name chain found

theorem idsKept_rfl (registry : RegistryInner Expr) : IdsKept registry registry :=
  ⟨Nat.le_refl _,fun _ agg compiled _ => ⟨agg,compiled,SameAgg.rfl' agg⟩⟩

theorem IdsKept.trans {first second third : RegistryInner Expr} (before : IdsKept first second)
    (after : IdsKept second third) : IdsKept first third := by
  refine ⟨Nat.le_trans before.1 after.1,?_⟩
  intro name agg compiled below
  obtain ⟨middle,inMiddle,same⟩ := after.2 name agg compiled (Nat.lt_of_lt_of_le below before.1)
  obtain ⟨earlier,inFirst,sameBefore⟩ :=
    before.2 name middle inMiddle (by rw [← same.aggId]; exact below)
  exact ⟨earlier,inFirst,sameBefore.trans same⟩

theorem idsKept_of_registered {before after : RegistryInner Expr}
    (registered : Registered before after) : IdsKept before after := by
  refine ⟨registered.nextAggId,?_⟩
  intro name agg compiled below
  cases inBefore : before.compiledAggregations[name]? with
  | none =>
      have fresh := (registered.newAggs compiled inBefore).1
      omega
  | some earlier =>
      obtain ⟨later,inAfter,same⟩ := registered.aggs inBefore
      rw [compiled] at inAfter
      cases inAfter
      exact ⟨earlier,rfl,same⟩

theorem applyRegistration_empty (registry : RegistryInner Expr) :
    applyRegistration env registry ⟨[],[],[],[]⟩ =
      { registry with version := registry.version + 1 } := by
  have noSources : affectedSources registry [] = [] := by
    rw [List.eq_nil_iff_forall_not_mem]
    intro source member
    rw [affectedSources,KeyMap.mem_sortDedup] at member
    cases member
  have noNames : newAggNames env (Batch.ofValidated registry ⟨[],[],[],[]⟩) registry [] = [] := rfl
  rw [applyRegistration_eq,refreshNodes,installNodes,noNames]
  simp only [List.foldl_nil,noSources,indexFeatures,List.flatMap_nil]

theorem Kept.withVersion (kept : Kept env registry) (version : Nat) :
    Kept env { registry with version := version } where
  wellFormed := kept.wellFormed.withRest version registry.tables registry.compiledChains
    registry.featureIndex
  features := kept.features
  chains := kept.chains

theorem Kept.registered (kept : Kept env registry)
    (ok : validatePayload env registry nodes = .ok validated) :
    Kept env (applyRegistration env registry validated) ∧
      IdsKept registry (applyRegistration env registry validated) := by
  cases nodes with
  | nil =>
      cases ok
      rw [applyRegistration_empty]
      exact ⟨kept.withVersion _,idsKept_rfl registry⟩
  | cons node rest =>
      have accepted := validatePayload_ok env (List.cons_ne_nil node rest) ok
      exact ⟨kept.accepted accepted,
        idsKept_of_registered (applyRegistration_registered kept.wellFormed accepted)⟩

end Registration

section Others

variable {registry : RegistryInner Expr}

theorem Kept.removed (kept : Kept env registry) {names : List String}
    (closed : DownstreamClosed registry.derivations names) :
    Kept env (forceRemoveDescriptors registry names) ∧
      IdsKept registry (forceRemoveDescriptors registry names) := by
  have listed := listed_of_wellFormed kept.wellFormed
  have removed := forceRemoveDescriptors_removed listed names
  have sources := sourcesClosed_of_downstream kept.wellFormed closed
  refine ⟨⟨removed.wellFormed sources kept.wellFormed,?_,?_⟩,?_,?_⟩
  · exact removed.featuresExact kept.features
      (forceRemoveDescriptors_featureIndex listed kept.features names)
  · intro name chain found
    rw [removed.compiledChains] at found
    rw [removed.derivations]
    split at found
    · cases found
    · rename_i stays
      rw [if_neg stays]
      exact kept.chains name chain found
  · exact Nat.le_of_eq removed.nextAggId.symm
  · intro name agg compiled _
    exact ⟨agg,(removed.survivor sources compiled).2.1,SameAgg.rfl' agg⟩

theorem kept_of_noneCompiled
    (eventNamed : ∀ {name : String} {event : EventDescriptor},
      registry.events[name]? = some event → event.name = name)
    (derivationNamed : ∀ {name : String} {derivation : DerivationDescriptor},
      registry.derivations[name]? = some derivation → derivation.name = name)
    (noChains : registry.compiledChains = ∅) (noAggs : registry.compiledAggregations = ∅)
    (noFeatures : registry.featureIndex = ∅) (noSources : registry.aggregationsBySource = ∅)
    (noClusters : registry.clusterIdBySignature = ∅) : Kept env registry := by
  refine ⟨⟨eventNamed,derivationNamed,?_,?_,?_,?_,?_,?_,?_,?_,?_⟩,?_,?_⟩ <;>
    simp [RegistryInner.aggregationsForSource,FeaturesExact,ChainsOwned,noChains,noAggs,
      noFeatures,noSources,noClusters]

theorem kept_clear (registry : RegistryInner Expr) :
    Kept env registry.clear ∧ IdsKept registry registry.clear := by
  refine ⟨kept_of_noneCompiled ?_ ?_ rfl rfl rfl rfl rfl,Nat.le_refl _,?_⟩
  all_goals simp [RegistryInner.clear,RegistryInner.empty]

theorem kept_installFromDescriptors {body : RegistryDescriptorsOnly} (keyed : KeyedByName body) :
    Kept env (installFromDescriptors env body : RegistryInner Expr) := by
  unfold installFromDescriptors
  split
  · exact kept_of_noneCompiled (keyed.1 _ _) (keyed.2 _ _) rfl rfl rfl rfl rfl
  · rename_i validated ok
    exact (kept_empty.registered ok).1.withVersion body.version

theorem Kept.keyedByName (kept : Kept env registry) :
    KeyedByName (RegistryDescriptorsOnly.ofRegistry registry) :=
  ⟨fun _ _ present => kept.wellFormed.eventNamed present,
    fun _ _ present => kept.wellFormed.derivationNamed present⟩

/-! ### Runs -/

theorem Kept.step (kept : Kept env registry) (operation : RegistryOp)
    (admissible : Admissible registry operation) :
    Kept env (stepRegistry env registry operation) ∧
      (operation.isInstall = false → IdsKept registry (stepRegistry env registry operation)) := by
  cases operation with
  | register nodes =>
      simp only [stepRegistry]
      split
      · rename_i validated ok
        obtain ⟨keptAfter,idsKept⟩ := kept.registered ok
        exact ⟨keptAfter,fun _ => idsKept⟩
      · exact ⟨kept,fun _ => idsKept_rfl registry⟩
  | remove names =>
      obtain ⟨keptAfter,idsKept⟩ := kept.removed admissible
      exact ⟨keptAfter,fun _ => idsKept⟩
  | clear =>
      obtain ⟨keptAfter,idsKept⟩ := @kept_clear _ env registry
      exact ⟨keptAfter,fun _ => idsKept⟩
  | install body => exact ⟨kept_installFromDescriptors admissible,fun notInstall => nomatch notInstall⟩

variable {operations : List RegistryOp}

theorem Kept.run (kept : Kept env registry)
    (meets : Machine.Meets (stepRegistry env) Admissible registry operations) :
    Kept env (Machine.run (stepRegistry env) registry operations) :=
  Machine.invariant_run (stepRegistry env)
    (fun _ operation keptBefore admissible => (keptBefore.step operation admissible).1) kept meets

theorem Kept.run_idsKept (kept : Kept env registry)
    (meets : Machine.Meets (stepRegistry env) Admissible registry operations)
    (noInstall : ∀ operation ∈ operations, operation.isInstall = false) :
    IdsKept registry (Machine.run (stepRegistry env) registry operations) := by
  induction operations generalizing registry with
  | nil => exact idsKept_rfl registry
  | cons operation rest ih =>
      obtain ⟨keptAfter,idsKept⟩ := kept.step operation meets.1
      refine (idsKept (noInstall operation List.mem_cons_self)).trans (ih keptAfter meets.2 ?_)
      exact fun later member => noInstall later (List.mem_cons_of_mem operation member)

end Others

/-- In every registry that is reached the maps agree, and from there on an id
stays with its aggregation until the registry is reinstalled. -/
theorem registryRun_represents (env : Env Expr) (operations later : List RegistryOp)
    (meets : Machine.Meets (stepRegistry env) Admissible RegistryInner.empty
      (operations ++ later)) :
    Represents env (registryRun env operations) ∧
      ((∀ operation ∈ later, operation.isInstall = false) →
        IdsKept (registryRun env operations) (registryRun env (operations ++ later))) := by
  rw [Machine.meets_append] at meets
  have kept : Kept env (registryRun env operations) := kept_empty.run meets.1
  refine ⟨kept.represents,fun noInstall => ?_⟩
  rw [registryRun,registryRun,Machine.run_append]
  exact kept.run_idsKept meets.2 noInstall

def sampleLife : List RegistryOp :=
  [.register [sampleEvent "E",sampleTable "A" "E" [] "a" "last" "x"],.remove ["A"]]

/-- A snapshot with another table. -/
def otherBody : RegistryDescriptorsOnly :=
  .ofRegistry (registryRun sampleEnv
    [.register [sampleEvent "E",sampleTable "B" "E" [] "b" "last" "y"]])

def idOf (registry : RegistryInner Expr) (name : String) : Option Nat :=
  registry.compiledAggregations[name]?.map AggregationDescriptor.aggId

theorem sampleLife_admissible (later : List RegistryOp)
    (meets : Machine.Meets (stepRegistry sampleEnv) Admissible (registryRun sampleEnv sampleLife)
      later) :
    Machine.Meets (stepRegistry sampleEnv) Admissible RegistryInner.empty (sampleLife ++ later) := by
  rw [Machine.meets_append]
  refine ⟨⟨trivial,?_,trivial⟩,meets⟩
  exact downstreamClosed_of_nil (by decide)

theorem sampleLife_represents :
    idOf (registryRun sampleEnv sampleLife) "A" = none ∧
      idOf (registryRun sampleEnv
        (sampleLife ++ [.register [sampleTable "A" "E" [] "a" "last" "x"]])) "A" = some 1 ∧
      Represents sampleEnv (registryRun sampleEnv sampleLife) ∧
      IdsKept (registryRun sampleEnv sampleLife) (registryRun sampleEnv
        (sampleLife ++ [.register [sampleTable "A" "E" [] "a" "last" "x"]])) := by
  have represented := registryRun_represents sampleEnv sampleLife
    [.register [sampleTable "A" "E" [] "a" "last" "x"]] (sampleLife_admissible _ ⟨trivial,trivial⟩)
  refine ⟨by decide,by decide +kernel,represented.1,represented.2 ?_⟩
  intro operation member
  rw [List.mem_singleton] at member
  rw [member]
  rfl

/-- The id of the removed table goes to the table of the snapshot. -/
theorem install_reuses_id :
    Machine.Meets (stepRegistry sampleEnv) Admissible RegistryInner.empty
      (sampleLife ++ [.install otherBody]) ∧
    idOf (registryRun sampleEnv (sampleLife.take 1)) "A" = some 0 ∧
    idOf (registryRun sampleEnv sampleLife) "A" = none ∧
    idOf (registryRun sampleEnv (sampleLife ++ [.install otherBody])) "B" = some 0 := by
  refine ⟨sampleLife_admissible _ ⟨?_,trivial⟩,by decide⟩
  have kept : Kept sampleEnv (registryRun sampleEnv
      [.register [sampleEvent "E",sampleTable "B" "E" [] "b" "last" "y"]]) :=
    kept_empty.run ⟨trivial,trivial⟩
  exact kept.keyedByName

end Beava.Server
