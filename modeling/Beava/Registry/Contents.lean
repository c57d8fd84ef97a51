/-
What a registry contains after a registration.

A name keeps the descriptor it has; a name without one gets the descriptor of
the payload.  The aggregation of a derivation comes with its descriptor, and the
feature index has exactly the features of the aggregations.
-/

import Beava.Registry.Chains

namespace Beava.Registry

open Beava.Core Beava.Apply

variable {Expr : Type} {env : Env Expr}
variable {state : NewFeatures} {compiled : List (String × AggregationDescriptor Expr)}
variable {name : String} {agg : AggregationDescriptor Expr}
variable {names : List String} {feature : String} {other : AggregationDescriptor Expr}

/-! ### Descriptors -/

def storedEvent (batch : Batch Expr) (event : EventDescriptor) : EventDescriptor :=
  { event with
    registeredAtVersion := batch.newVersion
    applyFieldNames :=
      if (batch.aggsOf event.name).isEmpty then event.applyFieldNames
      else fieldUnion (batch.aggsOf event.name) }

/-- What the node stores as the event `name`. -/
def eventEntry (batch : Batch Expr) (name : String) : PayloadNode → Option EventDescriptor
  | .event event => if event.name = name then some (storedEvent batch event) else none
  | _ => none

/-- What the node stores as the derivation `name`. -/
def derivationEntry (batch : Batch Expr) (name : String) :
    PayloadNode → Option DerivationDescriptor
  | .derivation derivation =>
      if derivation.name = name then some (storedDerivation batch derivation) else none
  | _ => none

section Install

variable {registry : RegistryInner Expr} {batch : Batch Expr}

theorem installNode_events (node : PayloadNode) (name : String) :
    (installNode env batch registry node).events[name]? =
      registry.events[name]?.or (eventEntry batch name node) := by
  cases node with
  | event event =>
      simp only [installNode,installEvent,eventEntry]
      cases contained : registry.events.contains event.name with
      | true =>
          obtain ⟨old,present⟩ := (KeyMap.contains_iff_exists _ _).mp contained
          simp only [if_true]
          split
          · rename_i sameName
            rw [← sameName,present,Option.some_or]
          · rw [Option.or_none]
      | false =>
          simp only [Bool.false_eq_true,if_false]
          rw [KeyMap.lookup_insert]
          split
          · rename_i sameName
            rw [← sameName,lookup_none_of_contains contained,Option.none_or]
            rfl
          · rw [Option.or_none]
  | table table =>
      simp only [installNode,installTable,eventEntry,Option.or_none]
      split <;> rfl
  | derivation derivation =>
      simp only [installNode,installDerivation_events,eventEntry,Option.or_none]

theorem installDerivation_of_contains {derivation : DerivationDescriptor}
    (contained : registry.derivations.contains derivation.name = true) :
    installDerivation env batch registry derivation = registry := by
  simp only [installDerivation,contained,if_true]

theorem installAggregation_derivations (name : String) (compiled : AggregationDescriptor Expr) :
    (installAggregation env registry name compiled).derivations = registry.derivations := by
  simp only [installAggregation,assignCluster]
  split <;> rfl

theorem installAggregation_compiled (name : String) (compiled : AggregationDescriptor Expr) :
    (installAggregation env registry name compiled).compiledAggregations =
      registry.compiledAggregations.insert name (numberAggregation env registry compiled) := by
  simp only [installAggregation]

theorem installNode_derivations (node : PayloadNode) (name : String) :
    (installNode env batch registry node).derivations[name]? =
      registry.derivations[name]?.or (derivationEntry batch name node) := by
  cases node with
  | event event =>
      simp only [installNode,installEvent,derivationEntry,Option.or_none]
      split <;> rfl
  | table table =>
      simp only [installNode,installTable,derivationEntry,Option.or_none]
      split <;> rfl
  | derivation derivation =>
      simp only [installNode,derivationEntry]
      cases contained : registry.derivations.contains derivation.name with
      | true =>
          obtain ⟨old,present⟩ := (KeyMap.contains_iff_exists _ _).mp contained
          rw [installDerivation_of_contains contained]
          split
          · rename_i sameName
            rw [← sameName,present,Option.some_or]
          · rw [Option.or_none]
      | false =>
          have stored : (installDerivation env batch registry derivation).derivations =
              registry.derivations.insert derivation.name (storedDerivation batch derivation) := by
            rw [installDerivation_eq env contained]
            split
            · exact installAggregation_derivations _ _
            · rfl
          rw [stored,KeyMap.lookup_insert]
          split
          · rename_i sameName
            rw [← sameName,lookup_none_of_contains contained,Option.none_or]
          · rw [Option.or_none]

theorem installNode_featureIndex (node : PayloadNode) :
    (installNode env batch registry node).featureIndex = registry.featureIndex := by
  cases node with
  | event event =>
      simp only [installNode,installEvent]
      split <;> rfl
  | table table =>
      simp only [installNode,installTable]
      split <;> rfl
  | derivation derivation =>
      simp only [installNode]
      cases contained : registry.derivations.contains derivation.name with
      | true => rw [installDerivation_of_contains contained]
      | false =>
          rw [installDerivation_eq env contained]
          split
          · simp only [installAggregation,assignCluster]
            split <;> rfl
          · rfl

theorem foldl_installNode_featureIndex (nodes : List PayloadNode) :
    (nodes.foldl (installNode env batch) registry).featureIndex = registry.featureIndex := by
  induction nodes generalizing registry with
  | nil => rfl
  | cons node rest ih => rw [List.foldl_cons,ih,installNode_featureIndex]

theorem foldl_installNode_tables {nodes : List PayloadNode}
    (noTables : ∀ node ∈ nodes, node.kindStr ≠ "table") :
    (nodes.foldl (installNode env batch) registry).tables = registry.tables := by
  induction nodes generalizing registry with
  | nil => rfl
  | cons node rest ih =>
      rw [List.foldl_cons,ih fun other member => noTables other (List.mem_cons_of_mem node member)]
      cases node with
      | event event =>
          simp only [installNode,installEvent]
          split <;> rfl
      | table table => exact absurd rfl (noTables (.table table) List.mem_cons_self)
      | derivation derivation =>
          simp only [installNode]
          cases contained : registry.derivations.contains derivation.name with
          | true => rw [installDerivation_of_contains contained]
          | false =>
              rw [installDerivation_eq env contained]
              split
              · simp only [installAggregation,assignCluster]
                split <;> rfl
              · rfl

theorem foldl_installNode_events (nodes : List PayloadNode) (name : String) :
    (nodes.foldl (installNode env batch) registry).events[name]? =
      registry.events[name]?.or (nodes.findSome? (eventEntry batch name)) := by
  induction nodes generalizing registry with
  | nil => rw [List.foldl_nil,List.findSome?_nil,Option.or_none]
  | cons node rest ih =>
      rw [List.foldl_cons,ih,installNode_events,Option.or_assoc,List.findSome?_cons]
      cases eventEntry batch name node <;> rfl

theorem foldl_installNode_derivations (nodes : List PayloadNode) (name : String) :
    (nodes.foldl (installNode env batch) registry).derivations[name]? =
      registry.derivations[name]?.or (nodes.findSome? (derivationEntry batch name)) := by
  induction nodes generalizing registry with
  | nil => rw [List.foldl_nil,List.findSome?_nil,Option.or_none]
  | cons node rest ih =>
      rw [List.foldl_cons,ih,installNode_derivations,Option.or_assoc,List.findSome?_cons]
      cases derivationEntry batch name node <;> rfl

/-- The aggregation a registered derivation has, or the one of the batch that a
new derivation gets, without ids and positions. -/
def aggAfter (batch : Batch Expr) (registry : RegistryInner Expr) (name : String)
    (entry : Option DerivationDescriptor) : Option (AggregationDescriptor Expr) :=
  match registry.derivations[name]? with
  | some _ => registry.compiledAggregations[name]?.map aggCore
  | none => entry.bind fun _ => batch.aggs[name]?.map aggCore

theorem installNode_aggs (wellFormed : WellFormed env registry) (node : PayloadNode)
    (name : String) :
    (installNode env batch registry node).compiledAggregations[name]?.map aggCore =
      aggAfter batch registry name (derivationEntry batch name node) := by
  have unchanged : (derivationEntry batch name node = none ∨ registry.derivations[name]?.isSome) →
      (installNode env batch registry node).compiledAggregations[name]? =
        registry.compiledAggregations[name]? →
      (installNode env batch registry node).compiledAggregations[name]?.map aggCore =
        aggAfter batch registry name (derivationEntry batch name node) := by
    intro noEntry same
    rw [same,aggAfter]
    cases present : registry.derivations[name]? with
    | some old => rfl
    | none =>
        rw [wellFormed.notCompiled present]
        rcases noEntry with isNone | isSome
        · rw [isNone]
          rfl
        · rw [present] at isSome
          cases isSome
  cases node with
  | event event =>
      refine unchanged (.inl rfl) ?_
      simp only [installNode,installEvent]
      split <;> rfl
  | table table =>
      refine unchanged (.inl rfl) ?_
      simp only [installNode,installTable]
      split <;> rfl
  | derivation derivation =>
      cases contained : registry.derivations.contains derivation.name with
      | true =>
          refine unchanged ?_ (by simp only [installNode,installDerivation_of_contains contained])
          simp only [derivationEntry]
          split
          · rename_i sameName
            rw [Std.ExtTreeMap.contains_eq_isSome_getElem?,sameName] at contained
            exact .inr contained
          · exact .inl rfl
      | false =>
          have absent := lookup_none_of_contains contained
          have noAgg := wellFormed.notCompiled absent
          by_cases sameName : derivation.name = name
          · subst sameName
            simp only [installNode,aggAfter,absent,derivationEntry,if_true,Option.bind_some]
            rw [installDerivation_eq env contained]
            cases batch.aggs[derivation.name]? with
            | none => exact congrArg (Option.map aggCore) noAgg
            | some compiled =>
                simp only [installAggregation_compiled,KeyMap.lookup_insert_self,Option.map_some,
                  (numberAggregation_spec env (withDerivation batch registry derivation)
                    compiled).core]
                rfl
          · refine unchanged (.inl (by simp only [derivationEntry,if_neg sameName])) ?_
            simp only [installNode]
            rw [installDerivation_eq env contained]
            cases batch.aggs[derivation.name]? with
            | none => rfl
            | some compiled =>
                simp only [installAggregation_compiled,KeyMap.lookup_insert_ne _ _ sameName]
                rfl

theorem foldl_installNode_aggs {nodes : List PayloadNode} (wellFormed : WellFormed env registry)
    (compiled : Compiled env batch nodes) (name : String) :
    (nodes.foldl (installNode env batch) registry).compiledAggregations[name]?.map aggCore =
      aggAfter batch registry name (nodes.findSome? (derivationEntry batch name)) := by
  induction nodes generalizing registry with
  | nil =>
      rw [List.foldl_nil,List.findSome?_nil,aggAfter]
      cases absent : registry.derivations[name]? with
      | none =>
          rw [wellFormed.notCompiled absent]
          rfl
      | some old => rfl
  | cons node rest ih =>
      have next := (installNode_spec wellFormed (compiled node List.mem_cons_self)).1
      rw [List.foldl_cons,
        ih next fun other member => compiled other (List.mem_cons_of_mem node member)]
      have here := @installNode_aggs _ env registry batch wellFormed node name
      rw [List.findSome?_cons]
      simp only [aggAfter,installNode_derivations] at here ⊢
      cases present : registry.derivations[name]? with
      | some old =>
          rw [present] at here
          exact here
      | none =>
          rw [present] at here
          cases entry : derivationEntry batch name node with
          | none => rfl
          | some stored =>
              rw [entry] at here
              exact here

end Install

section Entries

variable {registry : RegistryInner Expr} {nodes : List PayloadNode}
  {validated : ValidatedPayload Expr} (accepted : Accepted env registry nodes validated)
  (batch : Batch Expr)

include accepted

theorem Accepted.eventEntry_eq {event : EventDescriptor} (member : .event event ∈ nodes) :
    nodes.findSome? (eventEntry batch event.name) = some (storedEvent batch event) := by
  have isSome : (nodes.findSome? (eventEntry batch event.name)).isSome = true :=
    List.findSome?_isSome_iff.mpr ⟨_,member,by simp [eventEntry]⟩
  obtain ⟨stored,isStored⟩ := Option.isSome_iff_exists.mp isSome
  obtain ⟨node,inNodes,isEntry⟩ := List.exists_of_findSome?_eq_some isStored
  rw [isStored,← isEntry]
  cases node with
  | event found =>
      simp only [eventEntry] at isEntry ⊢
      split at isEntry
      · rename_i sameName
        have same := accepted.eq_of_name inNodes member sameName
        cases same
        rw [if_pos rfl]
      · cases isEntry
  | _ => cases isEntry

theorem Accepted.derivationEntry_eq {derivation : DerivationDescriptor}
    (member : .derivation derivation ∈ nodes) :
    nodes.findSome? (derivationEntry batch derivation.name) =
      some (storedDerivation batch derivation) := by
  have isSome : (nodes.findSome? (derivationEntry batch derivation.name)).isSome = true :=
    List.findSome?_isSome_iff.mpr ⟨_,member,by simp [derivationEntry]⟩
  obtain ⟨stored,isStored⟩ := Option.isSome_iff_exists.mp isSome
  obtain ⟨node,inNodes,isEntry⟩ := List.exists_of_findSome?_eq_some isStored
  rw [isStored,← isEntry]
  cases node with
  | derivation found =>
      simp only [derivationEntry] at isEntry ⊢
      split at isEntry
      · rename_i sameName
        have same := accepted.eq_of_name inNodes member sameName
        cases same
        rw [if_pos rfl]
      · cases isEntry
  | _ => cases isEntry

end Entries

section Whole

variable {registry : RegistryInner Expr} {nodes : List PayloadNode}
  {validated : ValidatedPayload Expr} (wellFormed : WellFormed env registry)
  (accepted : Accepted env registry nodes validated)

include wellFormed accepted

theorem applyRegistration_events (name : String) :
    (applyRegistration env registry validated).events[name]?.map eventCore =
      (registry.events[name]?.or
        (nodes.findSome? (eventEntry (Batch.ofValidated registry validated) name))).map
          eventCore := by
  obtain ⟨-,refreshed⟩ := refreshNodes_spec wellFormed accepted
  refine (refreshed.events name).trans ?_
  rw [installNodes,accepted.nodes_eq,foldl_installNode_events]

theorem applyRegistration_tables (noTables : ∀ node ∈ nodes, node.kindStr ≠ "table") :
    (applyRegistration env registry validated).tables = registry.tables := by
  obtain ⟨-,refreshed⟩ := refreshNodes_spec wellFormed accepted
  show (refreshNodes env registry validated).tables = _
  rw [refreshed.tables,installNodes,accepted.nodes_eq,foldl_installNode_tables noTables]

theorem applyRegistration_derivations (name : String) :
    (applyRegistration env registry validated).derivations[name]? =
      registry.derivations[name]?.or
        (nodes.findSome? (derivationEntry (Batch.ofValidated registry validated) name)) := by
  obtain ⟨-,refreshed⟩ := refreshNodes_spec wellFormed accepted
  show (refreshNodes env registry validated).derivations[name]? = _
  rw [refreshed.derivations,installNodes,accepted.nodes_eq,foldl_installNode_derivations]

theorem applyRegistration_aggs (name : String) :
    (applyRegistration env registry validated).compiledAggregations[name]?.map aggCore =
      aggAfter (Batch.ofValidated registry validated) registry name
        (nodes.findSome? (derivationEntry (Batch.ofValidated registry validated) name)) := by
  obtain ⟨-,refreshed⟩ := refreshNodes_spec wellFormed accepted
  have identities := congrArg (Option.map fun identity => identity.1) (refreshed.aggs name)
  rw [Option.map_map,Option.map_map] at identities
  refine Eq.trans identities ?_
  have installed := foldl_installNode_aggs wellFormed accepted.compiled name
  rw [← accepted.nodes_eq] at installed ⊢
  exact installed

end Whole

/-! ### Features of a payload -/

theorem foldl_addNewFeature {nodeName : String}
    (noErrors : (names.foldl (addNewFeature nodeName) state).errors = []) :
    state.errors = [] ∧
      (∀ {feature owner : String}, state.owners[feature]? = some owner →
        (names.foldl (addNewFeature nodeName) state).owners[feature]? = some owner) ∧
      ∀ feature ∈ names,
        (names.foldl (addNewFeature nodeName) state).owners[feature]? = some nodeName := by
  induction names generalizing state with
  | nil => exact ⟨noErrors,id,fun _ member => nomatch member⟩
  | cons name rest ih =>
      obtain ⟨nextErrors,kept,owned⟩ := ih noErrors
      have here : state.errors = [] ∧
          (∀ {feature owner : String}, state.owners[feature]? = some owner →
            (addNewFeature nodeName state name).owners[feature]? = some owner) ∧
          (addNewFeature nodeName state name).owners[name]? = some nodeName := by
        unfold addNewFeature at nextErrors ⊢
        cases found : state.owners[name]? with
        | none =>
            rw [found] at nextErrors
            refine ⟨nextErrors,fun {feature owner} isOwner => ?_,KeyMap.lookup_insert_self _ _ _⟩
            have different : name ≠ feature := by
              intro same
              rw [← same,found] at isOwner
              cases isOwner
            exact (KeyMap.lookup_insert_ne _ _ different).trans isOwner
        | some existing =>
            rw [found] at nextErrors
            simp only at nextErrors ⊢
            split at nextErrors
            · rename_i same
              rw [if_pos same]
              exact ⟨nextErrors,id,by rw [found,same]⟩
            · exact absurd (List.append_eq_nil_iff.mp nextErrors).2 (List.cons_ne_nil _ _)
      refine ⟨here.1,fun isOwner => kept (here.2.1 isOwner),fun feature member => ?_⟩
      rcases List.mem_cons.mp member with rfl | inRest
      · exact kept here.2.2
      · exact owned feature inRest

/-- The step of `newFeatures`. -/
def addNewFeatures (state : NewFeatures) (entry : String × AggregationDescriptor Expr) :
    NewFeatures :=
  (entry.2.features.map NamedAggOp.featureName).foldl (addNewFeature entry.1) state

theorem foldl_addNewFeatures (noErrors : (compiled.foldl addNewFeatures state).errors = []) :
    state.errors = [] ∧
      (∀ {feature owner : String}, state.owners[feature]? = some owner →
        (compiled.foldl addNewFeatures state).owners[feature]? = some owner) ∧
      ∀ entry ∈ compiled, ∀ feature ∈ entry.2.features,
        (compiled.foldl addNewFeatures state).owners[feature.featureName]? = some entry.1 := by
  induction compiled generalizing state with
  | nil => exact ⟨noErrors,id,fun _ member => nomatch member⟩
  | cons entry rest ih =>
      obtain ⟨nextErrors,kept,owned⟩ := ih noErrors
      obtain ⟨stateErrors,keptHere,ownedHere⟩ := foldl_addNewFeature nextErrors
      refine ⟨stateErrors,fun isOwner => kept (keptHere isOwner),fun other member => ?_⟩
      rcases List.mem_cons.mp member with rfl | inRest
      · intro feature inFeatures
        exact kept (ownedHere feature.featureName (List.mem_map_of_mem inFeatures))
      · exact owned other inRest

theorem newFeatures_owners (noErrors : (newFeatures compiled).errors = [])
    (member : (name,agg) ∈ compiled) {feature : NamedAggOp Expr}
    (inFeatures : feature ∈ agg.features) :
    (newFeatures compiled).owners[feature.featureName]? = some name :=
  (foldl_addNewFeatures noErrors).2.2 (name,agg) member feature inFeatures

theorem foldl_addNewFeature_owner {nodeName : String}
    (isOwner : (names.foldl (addNewFeature nodeName) state).owners[feature]? = some name) :
    state.owners[feature]? = some name ∨ name = nodeName ∧ feature ∈ names := by
  induction names generalizing state with
  | nil => exact .inl isOwner
  | cons head rest ih =>
      rcases ih isOwner with added | ⟨isNode,inRest⟩
      · unfold addNewFeature at added
        split at added
        · split at added <;> exact .inl added
        · rw [KeyMap.lookup_insert] at added
          split at added
          · rename_i same
            exact .inr ⟨(Option.some.inj added).symm,by rw [same]; exact List.mem_cons_self⟩
          · exact .inl added
      · exact .inr ⟨isNode,List.mem_cons_of_mem head inRest⟩

theorem foldl_addNewFeatures_owner
    (isOwner : (compiled.foldl addNewFeatures state).owners[feature]? = some name) :
    state.owners[feature]? = some name ∨
      ∃ agg, (name,agg) ∈ compiled ∧ ∃ own ∈ agg.features, own.featureName = feature := by
  induction compiled generalizing state with
  | nil => exact .inl isOwner
  | cons entry rest ih =>
      rcases ih isOwner with before | ⟨agg,member,own⟩
      · rcases foldl_addNewFeature_owner before with before | ⟨rfl,inFeatures⟩
        · exact .inl before
        · exact .inr ⟨entry.2,List.mem_cons_self,List.mem_map.mp inFeatures⟩
      · exact .inr ⟨agg,List.mem_cons_of_mem entry member,own⟩

theorem exists_of_newFeatures (isOwner : (newFeatures compiled).owners[feature]? = some name) :
    ∃ agg, (name,agg) ∈ compiled ∧ ∃ own ∈ agg.features, own.featureName = feature := by
  rcases foldl_addNewFeatures_owner isOwner with atStart | found
  · simp at atStart
  · exact found

def FeaturesUnclaimed (current : RegistryInner Expr)
    (compiled : List (String × AggregationDescriptor Expr)) : Prop :=
  ∀ entry ∈ compiled, ∀ feature ∈ entry.2.features, ∀ owner position,
    current.featureIndex[feature.featureName]? = some (owner,position) → owner = entry.1

theorem registeredCollisions_nil_iff {current : RegistryInner Expr}
    (noErrors : (newFeatures compiled).errors = []) :
    registeredCollisions (newFeatures compiled).owners current = [] ↔
      FeaturesUnclaimed current compiled := by
  constructor
  · intro noCollisions entry member feature inFeatures owner position indexed
    have isOwner := newFeatures_owners noErrors member inFeatures
    have passed := List.filterMap_eq_nil_iff.mp noCollisions (feature.featureName,entry.1)
      (Std.ExtTreeMap.mem_toList_iff_getElem?_eq_some.mpr isOwner)
    simp only [indexed] at passed
    split at passed
    · rename_i same
      exact same
    · cases passed
  · intro unclaimed
    refine List.filterMap_eq_nil_iff.mpr fun entry member => ?_
    have isOwner := Std.ExtTreeMap.mem_toList_iff_getElem?_eq_some.mp member
    obtain ⟨agg,isCompiled,own,inFeatures,isFeature⟩ := exists_of_newFeatures isOwner
    cases indexed : current.featureIndex[entry.1]? with
    | none => rfl
    | some owned =>
        rw [← isFeature] at indexed
        have same := unclaimed _ isCompiled own inFeatures owned.1 owned.2 indexed
        simp only [same,if_true]

section Owned

variable {registry : RegistryInner Expr} {nodes : List PayloadNode}
  {validated : ValidatedPayload Expr} (accepted : Accepted env registry nodes validated)

include accepted

/-- The features of an accepted payload collide neither with each other nor with
registered ones. -/
theorem Accepted.noCollisions :
    (newFeatures validated.compiledAggregations).errors = [] ∧
      registeredCollisions (newFeatures validated.compiledAggregations).owners registry = [] := by
  have aggregations := accepted.aggregations
  have isResult : validated.compiledAggregations = (compileAggregationsFromNodes env nodes registry
      (validateExpressions env nodes registry).propagatedSchemas).1 := by
    rw [accepted.result]
  unfold compileAggregationsFromNodes at aggregations isResult
  simp only at aggregations isResult
  split at aggregations
  · rename_i noErrors
    rw [if_pos noErrors] at isResult
    rw [isResult]
    exact List.append_eq_nil_iff.mp aggregations
  · rename_i hasErrors
    exact absurd (List.isEmpty_iff.mpr aggregations) hasErrors

/-- A feature of the payload has one owner, which is the registered one if there
is one. -/
theorem Accepted.owner {name : String} {agg : AggregationDescriptor Expr}
    (member : (name,agg) ∈ validated.compiledAggregations) {feature : NamedAggOp Expr}
    (inFeatures : feature ∈ agg.features) :
    (∀ {other : String} {otherAgg : AggregationDescriptor Expr} {otherFeature : NamedAggOp Expr},
      (other,otherAgg) ∈ validated.compiledAggregations → otherFeature ∈ otherAgg.features →
        otherFeature.featureName = feature.featureName → other = name) ∧
    ∀ {owner : String} {position : Nat},
      registry.featureIndex[feature.featureName]? = some (owner,position) → owner = name := by
  obtain ⟨noErrors,noneRegistered⟩ := accepted.noCollisions
  have isOwner := newFeatures_owners noErrors member inFeatures
  refine ⟨fun {other otherAgg otherFeature} otherMember otherIn sameName => ?_,
    fun {owner position} indexed => ?_⟩
  · have otherOwner := newFeatures_owners noErrors otherMember otherIn
    rw [sameName,isOwner] at otherOwner
    exact (Option.some.inj otherOwner).symm
  · exact (registeredCollisions_nil_iff noErrors).mp noneRegistered _ member feature inFeatures owner
      position indexed

end Owned

/-! ### The feature index -/

def FeaturesExact (registry : RegistryInner Expr) : Prop :=
  ∀ (feature name : String) (position : Nat),
    registry.featureIndex[feature]? = some (name,position) ↔
      ∃ agg, registry.compiledAggregations[name]? = some agg ∧
        agg.features[position]?.map NamedAggOp.featureName = some feature

theorem featuresExact_empty : FeaturesExact (.empty : RegistryInner Expr) := by
  intro feature name position
  simp [RegistryInner.empty]

theorem featureNames_of_core (same : aggCore other = aggCore agg) :
    other.features.map NamedAggOp.featureName = agg.features.map NamedAggOp.featureName := by
  have throughCore : ∀ agg : AggregationDescriptor Expr,
      (aggCore agg).features.map NamedAggOp.featureName =
        agg.features.map NamedAggOp.featureName := by
    intro agg
    rw [aggCore,List.map_map]
    rfl
  rw [← throughCore,same,throughCore]

theorem featureNameAt_of_core (same : aggCore other = aggCore agg) (position : Nat) :
    other.features[position]?.map NamedAggOp.featureName =
      agg.features[position]?.map NamedAggOp.featureName := by
  rw [← List.getElem?_map,← List.getElem?_map,featureNames_of_core same]

theorem featureOfSpec_name {entry : String × AggSpec} {feature : NamedAggOp Expr}
    (isFeature : featureOfSpec env entry = some feature) : feature.featureName = entry.1 := by
  unfold featureOfSpec at isFeature
  simp only at isFeature
  split at isFeature
  · cases isFeature
    rfl
  · cases isFeature

/-- The features of an aggregation have distinct names, since they come from a
map. -/
theorem CompiledFrom.featureNames_nodup {derivation : DerivationDescriptor}
    (compiled : CompiledFrom env derivation agg) :
    (agg.features.map NamedAggOp.featureName).Nodup := by
  obtain ⟨-,specs,-,features⟩ := compiled.groupBy
  have namesEq : (agg.features.map NamedAggOp.featureName).map some =
      (specs.toList.map Prod.fst).map some := by
    have named := congrArg (List.map (Option.map NamedAggOp.featureName)) features
    simp only [List.map_map] at named ⊢
    refine Eq.trans (Eq.trans rfl named.symm) (List.map_congr_left fun entry member => ?_)
    have inImage : featureOfSpec env entry ∈ (agg.features.map declaredFeature).map some := by
      rw [← features]
      exact List.mem_map_of_mem member
    obtain ⟨feature,-,isFeature⟩ := List.mem_map.mp inImage
    simp only [Function.comp_apply,← isFeature,Option.map_some,
      featureOfSpec_name isFeature.symm]
  rw [List.map_injective_iff.mpr (fun _ _ => Option.some.inj) namesEq,
    Std.ExtTreeMap.map_fst_toList_eq_keys]
  exact Std.ExtTreeMap.nodup_keys

theorem mem_indexEntries {registry : RegistryInner Expr} {entry : String × String × Nat} :
    entry ∈ indexEntries registry name ↔
      entry.2.1 = name ∧ ∃ agg, registry.compiledAggregations[name]? = some agg ∧
        agg.features[entry.2.2]?.map NamedAggOp.featureName = some entry.1 := by
  obtain ⟨feature,owner,position⟩ := entry
  unfold indexEntries
  cases compiled : registry.compiledAggregations[name]? with
  | none => simp
  | some agg =>
      simp only [List.mem_map,Option.some.injEq,exists_eq_left']
      constructor
      · rintro ⟨⟨found,at_⟩,member,isEntry⟩
        cases isEntry
        rw [List.mk_mem_zipIdx_iff_getElem?] at member
        exact ⟨rfl,by rw [member]; rfl⟩
      · rintro ⟨rfl,atPosition⟩
        obtain ⟨found,isFound,rfl⟩ := Option.map_eq_some_iff.mp atPosition
        exact ⟨(found,position),List.mk_mem_zipIdx_iff_getElem?.mpr isFound,rfl⟩

theorem position_unique (distinct : (agg.features.map NamedAggOp.featureName).Nodup)
    {position other : Nat}
    (atPosition : agg.features[position]?.map NamedAggOp.featureName = some feature)
    (atOther : agg.features[other]?.map NamedAggOp.featureName = some feature) :
    position = other := by
  rw [← List.getElem?_map] at atPosition atOther
  obtain ⟨inBounds,isFeature⟩ := List.getElem?_eq_some_iff.mp atPosition
  exact (List.getElem?_inj inBounds distinct).mp (atPosition.trans atOther.symm)

section Index

variable {registry : RegistryInner Expr} {nodes : List PayloadNode}
  {validated : ValidatedPayload Expr} (wellFormed : WellFormed env registry)
  (accepted : Accepted env registry nodes validated) (exact_ : FeaturesExact registry)
variable {name : String} {agg : AggregationDescriptor Expr}

include wellFormed accepted

theorem mem_compiled_of_new
    (compiled : (refreshNodes env registry validated).compiledAggregations[name]? = some agg)
    (noneBefore : registry.compiledAggregations[name]? = none) :
    ∃ fromBatch, (name,fromBatch) ∈ validated.compiledAggregations ∧
      aggCore agg = aggCore fromBatch := by
  have after := applyRegistration_aggs wellFormed accepted name
  have isAgg : (applyRegistration env registry validated).compiledAggregations[name]? =
      some agg := compiled
  rw [isAgg,aggAfter] at after
  cases present : registry.derivations[name]? with
  | some old =>
      rw [present,noneBefore] at after
      cases after
  | none =>
      rw [present] at after
      obtain ⟨-,-,inBatch⟩ := Option.bind_eq_some_iff.mp after.symm
      obtain ⟨fromBatch,isFromBatch,sameCore⟩ := Option.map_eq_some_iff.mp inBatch
      rcases KeyMap.insertAll_eq_some isFromBatch with member | ⟨-,inEmpty⟩
      · exact ⟨fromBatch,member,sameCore.symm⟩
      · simp at inEmpty

theorem refreshNodes_featureIndex :
    (refreshNodes env registry validated).featureIndex = registry.featureIndex := by
  obtain ⟨-,refreshed⟩ := refreshNodes_spec wellFormed accepted
  rw [refreshed.featureIndex,installNodes,foldl_installNode_featureIndex]

theorem mem_newAggNames_of_refreshed
    (compiled : (refreshNodes env registry validated).compiledAggregations[name]? = some agg)
    (noneBefore : registry.compiledAggregations[name]? = none) :
    name ∈ newAggNames env (Batch.ofValidated registry validated) registry validated.nodes := by
  obtain ⟨-,refreshed⟩ := refreshNodes_spec wellFormed accepted
  obtain ⟨earlier,compiledEarlier,-⟩ := refreshed.aggBefore compiled
  rw [installNodes,accepted.nodes_eq] at compiledEarlier
  rw [accepted.nodes_eq]
  exact mem_newAggNames wellFormed accepted.compiled compiledEarlier noneBefore

theorem refreshNodes_featureNameAt {old : AggregationDescriptor Expr}
    (registered : registry.compiledAggregations[name]? = some old)
    (compiled : (refreshNodes env registry validated).compiledAggregations[name]? = some agg)
    (position : Nat) :
    agg.features[position]?.map NamedAggOp.featureName =
      old.features[position]?.map NamedAggOp.featureName := by
  obtain ⟨-,refreshed⟩ := refreshNodes_spec wellFormed accepted
  obtain ⟨-,installed⟩ := installNodes_spec wellFormed accepted
  obtain ⟨later,compiledLater,same⟩ := refreshed.aggAfter (installed.aggs registered)
  have sameAgg := Option.some.inj (compiledLater.symm.trans compiled)
  subst sameAgg
  exact featureNameAt_of_core same.core position

include exact_

/-- No feature of a new aggregation is indexed before, and only its own entry
indexes it. -/
theorem new_feature_entry {feature : String} {position : Nat}
    (compiled : (refreshNodes env registry validated).compiledAggregations[name]? = some agg)
    (noneBefore : registry.compiledAggregations[name]? = none)
    (atPosition : agg.features[position]?.map NamedAggOp.featureName = some feature) :
    registry.featureIndex[feature]? = none ∧
      ∀ {other : String} {otherAgg : AggregationDescriptor Expr} {otherPosition : Nat},
        (refreshNodes env registry validated).compiledAggregations[other]? = some otherAgg →
        otherAgg.features[otherPosition]?.map NamedAggOp.featureName = some feature →
          other = name ∧ otherPosition = position := by
  obtain ⟨refreshedOk,-⟩ := refreshNodes_spec wellFormed accepted
  have inBatch : ∀ {name : String} {agg : AggregationDescriptor Expr} {position : Nat},
      (refreshNodes env registry validated).compiledAggregations[name]? = some agg →
      registry.compiledAggregations[name]? = none →
      agg.features[position]?.map NamedAggOp.featureName = some feature →
      ∃ fromBatch found, (name,fromBatch) ∈ validated.compiledAggregations ∧
        found ∈ fromBatch.features ∧ found.featureName = feature := by
    intro name agg position compiled noneBefore atPosition
    obtain ⟨fromBatch,member,sameCore⟩ :=
      mem_compiled_of_new wellFormed accepted compiled noneBefore
    rw [featureNameAt_of_core sameCore] at atPosition
    obtain ⟨found,isFound,named⟩ := Option.map_eq_some_iff.mp atPosition
    exact ⟨fromBatch,found,member,List.mem_of_getElem? isFound,named⟩
  obtain ⟨fromBatch,found,member,inFeatures,named⟩ := inBatch compiled noneBefore atPosition
  obtain ⟨oneOwner,registeredOwner⟩ := accepted.owner member inFeatures
  rw [named] at oneOwner registeredOwner
  have notIndexed : registry.featureIndex[feature]? = none := by
    cases indexed : registry.featureIndex[feature]? with
    | none => rfl
    | some owner =>
        obtain ⟨ownerName,ownerPosition⟩ := owner
        have sameOwner := registeredOwner indexed
        subst sameOwner
        obtain ⟨old,registered,-⟩ := (exact_ feature ownerName ownerPosition).mp indexed
        exact nomatch noneBefore.symm.trans registered
  refine ⟨notIndexed,fun {other otherAgg otherPosition} otherCompiled atOther => ?_⟩
  have isName : other = name := by
    cases otherBefore : registry.compiledAggregations[other]? with
    | some old =>
        rw [refreshNodes_featureNameAt wellFormed accepted otherBefore otherCompiled] at atOther
        have indexed := (exact_ feature other otherPosition).mpr ⟨old,otherBefore,atOther⟩
        exact nomatch notIndexed.symm.trans indexed
    | none =>
        obtain ⟨otherBatch,otherFound,otherMember,otherIn,otherNamed⟩ :=
          inBatch otherCompiled otherBefore atOther
        exact oneOwner otherMember otherIn otherNamed
  subst isName
  have sameAgg := Option.some.inj (otherCompiled.symm.trans compiled)
  subst sameAgg
  obtain ⟨derivation,-,compiledFrom⟩ := refreshedOk.derived compiled
  exact ⟨rfl,position_unique compiledFrom.featureNames_nodup atOther atPosition⟩

theorem applyRegistration_featuresExact :
    FeaturesExact (applyRegistration env registry validated) := by
  intro feature name position
  have indexEq : (applyRegistration env registry validated).featureIndex =
      KeyMap.insertAllIfNew (refreshNodes env registry validated).featureIndex
        ((newAggNames env (Batch.ofValidated registry validated) registry
          validated.nodes).flatMap (indexEntries (refreshNodes env registry validated))) := rfl
  have aggsEq : (applyRegistration env registry validated).compiledAggregations =
      (refreshNodes env registry validated).compiledAggregations := rfl
  rw [indexEq,aggsEq,KeyMap.insertAllIfNew_lookup,refreshNodes_featureIndex wellFormed accepted]
  constructor
  · intro indexed
    cases before : registry.featureIndex[feature]? with
    | some owner =>
        rw [before] at indexed
        cases indexed
        obtain ⟨old,registered,atPosition⟩ := (exact_ feature name position).mp before
        obtain ⟨-,refreshed⟩ := refreshNodes_spec wellFormed accepted
        obtain ⟨-,installed⟩ := installNodes_spec wellFormed accepted
        obtain ⟨later,compiledLater,-⟩ := refreshed.aggAfter (installed.aggs registered)
        refine ⟨later,compiledLater,?_⟩
        rw [refreshNodes_featureNameAt wellFormed accepted registered compiledLater]
        exact atPosition
    | none =>
        rw [before,Option.none_or] at indexed
        obtain ⟨entry,isEntry,isOwner⟩ := Option.map_eq_some_iff.mp indexed
        obtain ⟨owner,-,inEntries⟩ := List.mem_flatMap.mp (List.mem_of_find?_eq_some isEntry)
        obtain ⟨rfl,agg,compiled,atPosition⟩ := mem_indexEntries.mp inEntries
        have sameFeature : entry.1 = feature := by simpa using List.find?_some isEntry
        rw [isOwner] at compiled atPosition
        exact ⟨agg,compiled,sameFeature ▸ atPosition⟩
  · rintro ⟨agg,compiled,atPosition⟩
    cases before : registry.compiledAggregations[name]? with
    | some old =>
        rw [refreshNodes_featureNameAt wellFormed accepted before compiled] at atPosition
        rw [(exact_ feature name position).mpr ⟨old,before,atPosition⟩,Option.some_or]
    | none =>
        obtain ⟨notIndexed,onlyEntry⟩ :=
          new_feature_entry wellFormed accepted exact_ compiled before atPosition
        have isNew := mem_newAggNames_of_refreshed wellFormed accepted compiled before
        have inEntries : (feature,name,position) ∈
            (newAggNames env (Batch.ofValidated registry validated) registry
              validated.nodes).flatMap (indexEntries (refreshNodes env registry validated)) :=
          List.mem_flatMap.mpr ⟨name,isNew,mem_indexEntries.mpr ⟨rfl,agg,compiled,atPosition⟩⟩
        rw [notIndexed,Option.none_or,Option.map_eq_some_iff]
        obtain ⟨entry,isEntry⟩ : ∃ entry, List.find? (fun entry => entry.1 = feature)
            ((newAggNames env (Batch.ofValidated registry validated) registry
              validated.nodes).flatMap (indexEntries (refreshNodes env registry validated))) =
                some entry :=
          Option.isSome_iff_exists.mp
            (List.find?_isSome.mpr ⟨_,inEntries,decide_eq_true rfl⟩)
        refine ⟨entry,isEntry,?_⟩
        obtain ⟨owner,-,inOwner⟩ := List.mem_flatMap.mp (List.mem_of_find?_eq_some isEntry)
        obtain ⟨rfl,otherAgg,otherCompiled,atOther⟩ := mem_indexEntries.mp inOwner
        have sameFeature : entry.1 = feature := by simpa using List.find?_some isEntry
        rw [sameFeature] at atOther
        obtain ⟨sameName,samePosition⟩ := onlyEntry otherCompiled atOther
        exact Prod.ext sameName samePosition

end Index

end Beava.Registry
