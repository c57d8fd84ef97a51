/-
What a register call answered with success has installed.

The diff that decides between success and no-op compares only some attributes of
a node with the registered descriptor, and the registration only inserts what is
absent.  A payload is installed when no descriptor that stays differs from its
node and no feature belongs to a `group_by` that is not in effect.
-/

import Beava.Registry.InEffect
import Beava.Server.History
import Beava.Server.Reached

namespace Beava.Server

open Beava.Core Beava.Apply Beava.Registry

variable {Expr : Type} (env : Env Expr)
variable {registry : RegistryInner Expr} {call : RegisterCall} {validated : ValidatedPayload Expr}
variable {result : RegisterResult Expr} {derivation : DerivationDescriptor}
variable {α : Type} {stays : Option α} {matches_ : α → Prop}

def EventMatches (held event : EventDescriptor) : Prop :=
  { held with
    registeredAtVersion := event.registeredAtVersion
    applyFieldNames := event.applyFieldNames } = event

def TableMatches (held table : TableDescriptor) : Prop :=
  { held with registeredAtVersion := table.registeredAtVersion } = table

def DerivationMatches (held derivation : DerivationDescriptor) : Prop :=
  { held with
    registeredAtVersion := derivation.registeredAtVersion
    schema := derivation.schema } = derivation

instance (held event : EventDescriptor) : Decidable (EventMatches held event) :=
  inferInstanceAs (Decidable (_ = _))

instance (held table : TableDescriptor) : Decidable (TableMatches held table) :=
  inferInstanceAs (Decidable (_ = _))

instance (held derivation : DerivationDescriptor) : Decidable (DerivationMatches held derivation) :=
  inferInstanceAs (Decidable (_ = _))

def NodeHeld (registry : RegistryInner Expr) : PayloadNode → Prop
  | .event event => ∃ held ∈ registry.events[event.name]?, EventMatches held event
  | .table table => ∃ held ∈ registry.tables[table.name]?, TableMatches held table
  | .derivation derivation =>
      ∃ held ∈ registry.derivations[derivation.name]?, DerivationMatches held derivation

/-- The features the `group_by`s of a derivation declare. -/
def declaredSpecs (derivation : DerivationDescriptor) : List (String × AggSpec) :=
  derivation.ops.flatMap fun op =>
    match op with
    | .groupBy _ specs => specs.toList
    | _ => []

/-- The index leads from the feature to the aggregation of the derivation, and
there to the operator and the parameters that are declared. -/
def FeatureInstalled (registry : RegistryInner Expr) (name : String) (spec : String × AggSpec) :
    Prop :=
  ∃ owner ∈ registry.featureIndex[spec.1]?, owner.1 = name ∧
    ∃ agg ∈ registry.compiledAggregations[name]?, ∃ feature ∈ agg.features[owner.2]?,
      featureOfSpec env spec = some (declaredFeature feature)

def PayloadInstalled (registry : RegistryInner Expr) (nodes : List PayloadNode) : Prop :=
  (∀ node ∈ nodes, NodeHeld registry node) ∧
    ∀ derivation ∈ nodes.filterMap PayloadNode.asDerivation, ∀ spec ∈ declaredSpecs derivation,
      FeatureInstalled env registry derivation.name spec

def RegisterCall.Changes (registry : RegistryInner Expr) (call : RegisterCall) : Prop :=
  call.removedNames env registry ≠ [] ∨
    newDescriptorNames (classifyRegisterDiff env.debugStr registry call.parsedNodes) ≠ []

/-- What stays under a name is the descriptor of the node; a node without a
descriptor of its kind comes with a change. -/
def Fits {α : Type} (stays : Option α) (matches_ : α → Prop) (changes : Prop) : Prop :=
  (∀ held ∈ stays, matches_ held) ∧ (stays = none → changes)

def NodeFits (registry : RegistryInner Expr) (call : RegisterCall) : PayloadNode → Prop
  | .event event =>
      Fits (call.remaining env registry).events[event.name]? (EventMatches · event)
        (call.Changes env registry)
  | .table table =>
      Fits (call.remaining env registry).tables[table.name]? (TableMatches · table)
        (call.Changes env registry)
  | .derivation derivation =>
      Fits (call.remaining env registry).derivations[derivation.name]?
        (DerivationMatches · derivation) (call.Changes env registry)

/-- The features of the `group_by` in effect: of the registered aggregation, or of
the last `group_by` of a new derivation that is not skipped. -/
def featuresInEffect (remaining : RegistryInner Expr) (nodes : List PayloadNode)
    (derivation : DerivationDescriptor) : List (NamedAggOp Expr) :=
  match remaining.derivations[derivation.name]? with
  | some _ =>
      match remaining.compiledAggregations[derivation.name]? with
      | some agg => (aggCore agg).features
      | none => []
  | none =>
      match (resolvedGroupBys env nodes remaining
          (validateExpressions env nodes remaining).propagatedSchemas derivation).getLast? with
      | some groupBy => groupBy.2.toList.filterMap (featureOfSpec env)
      | none => []

/-- Every feature of the payload is a feature of the `group_by` in effect. -/
def FeaturesFit (remaining : RegistryInner Expr) (nodes : List PayloadNode) : Prop :=
  ∀ derivation ∈ nodes.filterMap PayloadNode.asDerivation, ∀ spec ∈ declaredSpecs derivation,
    ∃ feature ∈ featuresInEffect env remaining nodes derivation,
      featureOfSpec env spec = some feature

variable {env}

theorem exists_mem_map {β : Type} {found : Option α} {change : α → β} {holds : α → Prop}
    {holdsAfter : β → Prop} (same : ∀ value, holdsAfter (change value) ↔ holds value) :
    (∃ value ∈ found.map change, holdsAfter value) ↔ ∃ value ∈ found, holds value := by
  cases found with
  | none => simp
  | some value => simp [same value]

theorem exists_or_iff_fits {stored : α} {changes : Prop} (isMatch : matches_ stored)
    (changed : changes) :
    (∃ held ∈ stays.or (some stored), matches_ held) ↔ Fits stays matches_ changes := by
  cases stays with
  | none => simp [Fits,isMatch,changed]
  | some held => simp [Fits]

theorem exists_iff_fits_of_unchanged {changes : Prop} (unchanged : ¬changes) :
    (∃ held ∈ stays, matches_ held) ↔ Fits stays matches_ changes := by
  cases stays with
  | none => simp [Fits,unchanged]
  | some held => simp [Fits]

theorem AppliedCall.changes (applied : AppliedCall env registry call validated result) :
    call.Changes env registry := by
  by_cases noneRemoved : call.removedNames env registry = []
  · exact .inr (applied.someAdded noneRemoved)
  · exact .inl noneRemoved

theorem NoopCall.noChanges (noop : NoopCall env registry call result) :
    ¬call.Changes env registry := by
  rintro (someRemoved | someAdded)
  · exact someRemoved noop.noneRemoved
  · exact someAdded noop.noneAdded

theorem NoopCall.remaining_eq (noop : NoopCall env registry call result) :
    call.remaining env registry = registry := by
  rw [RegisterCall.remaining,noop.noneRemoved]
  rfl

theorem AppliedCall.nodeHeld_iff (reached : Reached env registry)
    (applied : AppliedCall env registry call validated result)
    (noTables : ∀ node ∈ call.parsedNodes, node.kindStr ≠ "table") {node : PayloadNode}
    (member : node ∈ call.parsedNodes) :
    NodeHeld result.registry node ↔ NodeFits env registry call node := by
  have remainingOk := (reached.remaining call).wellFormed
  rw [applied.applied]
  cases node with
  | event event =>
      have eventsEq := applyRegistration_events remainingOk applied.validates event.name
      rw [applied.validates.eventEntry_eq _ member] at eventsEq
      have throughCore : ∀ found : Option EventDescriptor,
          (∃ held ∈ found.map eventCore, EventMatches held event) ↔
            ∃ held ∈ found, EventMatches held event :=
        fun found => exists_mem_map fun _ => Iff.rfl
      rw [NodeHeld,← throughCore,eventsEq,throughCore]
      exact exists_or_iff_fits rfl applied.changes
  | table table => exact absurd rfl (noTables (.table table) member)
  | derivation derivation =>
      rw [NodeHeld,applyRegistration_derivations remainingOk applied.validates,
        applied.validates.derivationEntry_eq _ member]
      exact exists_or_iff_fits rfl applied.changes

theorem NoopCall.nodeHeld_iff (noop : NoopCall env registry call result) (node : PayloadNode) :
    NodeHeld result.registry node ↔ NodeFits env registry call node := by
  rw [noop.unchanged]
  cases node <;> rw [NodeHeld,NodeFits,noop.remaining_eq] <;>
    exact exists_iff_fits_of_unchanged noop.noChanges

theorem featureInstalled_iff (exact_ : FeaturesExact registry) (name : String)
    (spec : String × AggSpec) :
    FeatureInstalled env registry name spec ↔
      ∃ core ∈ registry.compiledAggregations[name]?.map aggCore, ∃ feature ∈ core.features,
        featureOfSpec env spec = some feature := by
  constructor
  · rintro ⟨owner,-,-,agg,compiled,feature,atPosition,isFeature⟩
    refine ⟨aggCore agg,Option.mem_map_of_mem aggCore compiled,declaredFeature feature,?_,
      isFeature⟩
    exact List.mem_map_of_mem (List.mem_of_getElem? atPosition)
  · rintro ⟨core,isCore,feature,inCore,isFeature⟩
    obtain ⟨agg,compiled,rfl⟩ := Option.map_eq_some_iff.mp isCore
    obtain ⟨found,inFeatures,rfl⟩ := List.mem_map.mp inCore
    obtain ⟨position,atPosition⟩ := List.getElem?_of_mem inFeatures
    have named : (declaredFeature found).featureName = spec.1 := featureOfSpec_name isFeature
    have indexed := (exact_ spec.1 name position).mpr
      ⟨agg,compiled,by rw [atPosition,Option.map_some]; exact congrArg some named⟩
    exact ⟨(name,position),indexed,rfl,agg,compiled,found,atPosition,isFeature⟩

theorem AppliedCall.featureInstalled_iff (reached : Reached env registry)
    (applied : AppliedCall env registry call validated result)
    (noTables : ∀ node ∈ call.parsedNodes, node.kindStr ≠ "table")
    (member : .derivation derivation ∈ call.parsedNodes) (spec : String × AggSpec) :
    FeatureInstalled env result.registry derivation.name spec ↔
      ∃ feature ∈ featuresInEffect env (call.remaining env registry) call.parsedNodes derivation,
        featureOfSpec env spec = some feature := by
  have remainingOk := (reached.remaining call).wellFormed
  have aggsEq := applyRegistration_aggs remainingOk applied.validates derivation.name
  rw [applied.validates.derivationEntry_eq _ member,← applied.applied] at aggsEq
  rw [Server.featureInstalled_iff (reached.applied applied noTables).features,aggsEq,aggAfter,
    featuresInEffect]
  cases (call.remaining env registry).derivations[derivation.name]? with
  | some held =>
      simp only
      cases (call.remaining env registry).compiledAggregations[derivation.name]? <;> simp
  | none =>
      have propagatedEq : validated.propagatedSchemas =
          (validateExpressions env call.parsedNodes
            (call.remaining env registry)).propagatedSchemas := by
        rw [applied.validates.result]
      simp only [Option.bind_some,applied.validates.batch_aggs member,propagatedEq]
      cases (resolvedGroupBys env call.parsedNodes (call.remaining env registry)
          (validateExpressions env call.parsedNodes (call.remaining env registry)).propagatedSchemas
          derivation).getLast? with
      | none => simp
      | some groupBy =>
          rw [Option.map_some,Option.map_some,aggCore_declaredAgg]
          simp only [Option.mem_some_iff,exists_eq_left']
          rfl

theorem NoopCall.featureInstalled_iff (reached : Reached env registry)
    (noop : NoopCall env registry call result)
    (held : NodeHeld result.registry (.derivation derivation)) (spec : String × AggSpec) :
    FeatureInstalled env result.registry derivation.name spec ↔
      ∃ feature ∈ featuresInEffect env (call.remaining env registry) call.parsedNodes derivation,
        featureOfSpec env spec = some feature := by
  obtain ⟨descriptor,present,-⟩ := held
  rw [noop.unchanged] at present ⊢
  rw [Server.featureInstalled_iff reached.features,noop.remaining_eq,featuresInEffect,present]
  simp only
  cases registry.compiledAggregations[derivation.name]? <;> simp

/-- A payload answered with success is installed exactly when what stays under
the names and kinds of its nodes are its nodes, a no-op has nothing to install,
and all its features belong to `group_by`s in effect. -/
theorem payload_installed_iff (env : Env Expr) (calls : List (RegisterCall × AppendOutcome))
    (call : RegisterCall) (append : AppendOutcome)
    (accepted : (dispatchRegister env (registryAfter env calls) call append).outcome.accepted =
      true) :
    PayloadInstalled env (dispatchRegister env (registryAfter env calls) call append).registry
        call.parsedNodes ↔
      (∀ node ∈ call.parsedNodes, NodeFits env (registryAfter env calls) call node) ∧
        FeaturesFit env (call.remaining env (registryAfter env calls)) call.parsedNodes := by
  have reached := registryAfter_reached env calls
  have memberOf : ∀ {derivation : DerivationDescriptor},
      derivation ∈ call.parsedNodes.filterMap PayloadNode.asDerivation →
        .derivation derivation ∈ call.parsedNodes := by
    intro derivation member
    obtain ⟨node,inNodes,isDerivation⟩ := List.mem_filterMap.mp member
    cases node <;> cases isDerivation
    exact inNodes
  have nodes : ∀ node ∈ call.parsedNodes,
      (NodeHeld (dispatchRegister env (registryAfter env calls) call append).registry node ↔
        NodeFits env (registryAfter env calls) call node) := by
    intro node member
    rcases dispatchRegister_accepted accepted with noop | ⟨validated,applied⟩
    · exact noop.nodeHeld_iff node
    · exact applied.nodeHeld_iff reached (parsedNodes_noTables accepted) member
  have features : ∀ {derivation : DerivationDescriptor},
      .derivation derivation ∈ call.parsedNodes →
      NodeHeld (dispatchRegister env (registryAfter env calls) call append).registry
        (.derivation derivation) → ∀ spec,
      (FeatureInstalled env (dispatchRegister env (registryAfter env calls) call append).registry
          derivation.name spec ↔
        ∃ feature ∈ featuresInEffect env (call.remaining env (registryAfter env calls))
          call.parsedNodes derivation, featureOfSpec env spec = some feature) := by
    intro derivation member held spec
    rcases dispatchRegister_accepted accepted with noop | ⟨validated,applied⟩
    · exact noop.featureInstalled_iff reached held spec
    · exact applied.featureInstalled_iff reached (parsedNodes_noTables accepted) member spec
  constructor
  · rintro ⟨held,installed⟩
    refine ⟨fun node member => (nodes node member).mp (held node member),?_⟩
    intro derivation member spec declares
    have inNodes := memberOf member
    exact (features inNodes (held _ inNodes) spec).mp (installed derivation member spec declares)
  · rintro ⟨fits,inEffect⟩
    have held : ∀ node ∈ call.parsedNodes,
        NodeHeld (dispatchRegister env (registryAfter env calls) call append).registry node :=
      fun node member => (nodes node member).mpr (fits node member)
    refine ⟨held,fun derivation member spec declares => ?_⟩
    have inNodes := memberOf member
    exact (features inNodes (held _ inNodes) spec).mpr (inEffect derivation member spec declares)

def lastCall : RegisterCall :=
  ⟨[sampleEvent "E",sampleTable "A" "E" [] "a" "last" "x"],false,false⟩

def addingCall : RegisterCall :=
  ⟨[sampleEvent "E",sampleTable "A" "E" [] "a" "last" "x",
    sampleTable "B" "E" swapColumns "b" "first" "y"],false,false⟩

theorem payload_installed_iff_adding :
    (dispatchRegister sampleEnv (registryAfter sampleEnv [(lastCall,.durable)]) addingCall
      .durable).outcome.accepted = true ∧
    (PayloadInstalled sampleEnv (dispatchRegister sampleEnv
        (registryAfter sampleEnv [(lastCall,.durable)]) addingCall .durable).registry
        addingCall.parsedNodes ↔
      (∀ node ∈ addingCall.parsedNodes,
        NodeFits sampleEnv (registryAfter sampleEnv [(lastCall,.durable)]) addingCall node) ∧
        FeaturesFit sampleEnv (addingCall.remaining sampleEnv
          (registryAfter sampleEnv [(lastCall,.durable)])) addingCall.parsedNodes) :=
  ⟨by decide,
    payload_installed_iff sampleEnv [(lastCall,.durable)] addingCall .durable (by decide)⟩

/-- The feature reads another field.  The diff compares its operator and its
window only. -/
def otherFieldCall : RegisterCall :=
  ⟨[sampleEvent "E",sampleTable "A" "E" [] "a" "last" "y"],false,false⟩

/-- The call is answered with success and the registry keeps the old table. -/
theorem otherFieldCall_not_installed :
    (dispatchRegister sampleEnv (registryAfter sampleEnv [(lastCall,.durable)]) otherFieldCall
      .durable).outcome.accepted = true ∧
    ¬PayloadInstalled sampleEnv (dispatchRegister sampleEnv
      (registryAfter sampleEnv [(lastCall,.durable)]) otherFieldCall .durable).registry
      otherFieldCall.parsedNodes := by
  refine ⟨by decide,fun installed => ?_⟩
  have held := installed.1 (sampleTable "A" "E" [] "a" "last" "y") (by decide)
  exact absurd held (by
    rw [sampleTable,NodeHeld]
    decide)

end Beava.Server
