/-
The names an accepted register leaves.

What the payload lacks is removed under one name or another: as a rename, as a
stand-in removal, or in the cascade.  What the cascade takes too much comes back
with the payload.  So the payload of an accepted call lists exactly the names of
the registry after it.
-/

import Beava.Registry.DiffOrder
import Beava.Server.Lookup

namespace Beava.Server

open Beava.Core Beava.Registry

variable {Expr : Type} {env : Env Expr}
variable {registry : RegistryInner Expr} {call : RegisterCall} {result : RegisterResult Expr}
variable {validated : ValidatedPayload Expr}
variable {name : String} {append : AppendOutcome}

/-! ### The names of a registry -/

theorem known_iff_held :
    registry.known name = true ↔
      registry.events[name]?.isSome = true ∨ registry.tables[name]?.isSome = true ∨
        registry.derivations[name]?.isSome = true := by
  simp only [RegistryInner.known,Bool.or_eq_true,or_assoc,
    Std.ExtTreeMap.contains_eq_isSome_getElem?]

theorem mem_currentNames : name ∈ currentNames registry ↔ registry.known name = true := by
  simp only [currentNames,List.mem_append,Std.ExtTreeMap.mem_keys,RegistryInner.known,
    Bool.or_eq_true,Std.ExtTreeMap.contains_iff_mem]

theorem forceRemoveDescriptor_known (registry : RegistryInner Expr) (removed name : String) :
    (forceRemoveDescriptor registry removed).known name = true ↔
      registry.known name = true ∧ name ≠ removed := by
  have sameNames : (forceRemoveDescriptor registry removed).known name =
      ({ registry with
        events := registry.events.erase removed
        tables := registry.tables.erase removed
        derivations := registry.derivations.erase removed }).known name := by
    unfold forceRemoveDescriptor dropAggregation
    simp only
    cases registry.compiledAggregations[removed]? <;> rfl
  rw [sameNames]
  simp only [known_iff_held,KeyMap.lookup_erase]
  by_cases isRemoved : removed = name
  · simp [isRemoved]
  · simp [isRemoved,Ne.symm isRemoved]

theorem forceRemoveDescriptors_known (registry : RegistryInner Expr) (names : List String)
    (name : String) :
    (forceRemoveDescriptors registry names).known name = true ↔
      registry.known name = true ∧ name ∉ names := by
  induction names generalizing registry with
  | nil => simp [forceRemoveDescriptors]
  | cons removed rest ih =>
      refine (ih (forceRemoveDescriptor registry removed)).trans ?_
      rw [forceRemoveDescriptor_known,List.mem_cons,not_or,and_assoc]

section Install

variable {batch : Batch Expr} {registry : RegistryInner Expr}

theorem installDerivation_tables (derivation : DerivationDescriptor) :
    (installDerivation env batch registry derivation).tables = registry.tables := by
  cases contained : registry.derivations.contains derivation.name with
  | true => rw [installDerivation_of_contains contained]
  | false =>
      rw [installDerivation_eq env contained]
      split
      · simp only [installAggregation,assignCluster]
        split <;> rfl
      · rfl

theorem installNode_known (node : PayloadNode) (name : String) :
    (installNode env batch registry node).known name = true ↔
      registry.known name = true ∨ node.name = name := by
  rw [known_iff_held,known_iff_held,installNode_events,installNode_derivations]
  cases node with
  | event event =>
      have sameTables : (installNode env batch registry (.event event)).tables =
          registry.tables := by
        simp only [installNode,installEvent]
        split <;> rfl
      rw [sameTables]
      by_cases sameName : event.name = name
      · simp [eventEntry,PayloadNode.name,sameName]
      · simp [eventEntry,derivationEntry,PayloadNode.name,sameName]
  | table table =>
      have lookup : (installNode env batch registry (.table table)).tables[name]?.isSome = true ↔
          registry.tables[name]?.isSome = true ∨ table.name = name := by
        simp only [installNode,installTable]
        split
        · rename_i contained
          rw [Std.ExtTreeMap.contains_eq_isSome_getElem?] at contained
          constructor
          · exact .inl
          · rintro (found | rfl)
            · exact found
            · exact contained
        · rw [KeyMap.lookup_insert]
          by_cases sameName : table.name = name
          · simp [sameName]
          · simp [sameName]
      rw [lookup]
      simp only [eventEntry,derivationEntry,Option.or_none,PayloadNode.name]
      tauto
  | derivation derivation =>
      rw [installNode,installDerivation_tables]
      by_cases sameName : derivation.name = name
      · simp [eventEntry,derivationEntry,PayloadNode.name,sameName]
      · simp [eventEntry,derivationEntry,PayloadNode.name,sameName]

theorem foldl_installNode_known (nodes : List PayloadNode) (name : String) :
    (nodes.foldl (installNode env batch) registry).known name = true ↔
      registry.known name = true ∨ name ∈ nodes.map PayloadNode.name := by
  induction nodes generalizing registry with
  | nil => simp
  | cons node rest ih =>
      rw [List.foldl_cons,ih,installNode_known,List.map_cons,List.mem_cons,or_assoc,
        @eq_comm _ name]

theorem refreshSource_known (source name : String) :
    (refreshSource registry source).known name = registry.known name := by
  unfold refreshSource
  cases found : registry.events[source]? with
  | none => rfl
  | some event =>
      have contained : registry.events.contains source = true :=
        (KeyMap.contains_iff_exists _ _).mpr ⟨event,found⟩
      simp only [RegistryInner.known,Std.ExtTreeMap.contains_insert]
      by_cases sameName : source = name
      · rw [← sameName,contained,Bool.or_true]
      · rw [beq_false_of_ne (fun same => sameName (Std.LawfulEqCmp.eq_of_compare same)),
          Bool.false_or]

theorem foldl_refreshSource_known (sources : List String) (name : String) :
    (sources.foldl refreshSource registry).known name = registry.known name := by
  induction sources generalizing registry with
  | nil => rfl
  | cons source rest ih => rw [List.foldl_cons,ih,refreshSource_known]

theorem applyRegistration_known (validated : ValidatedPayload Expr) (name : String) :
    (applyRegistration env registry validated).known name = true ↔
      registry.known name = true ∨ name ∈ validated.nodes.map PayloadNode.name := by
  have sameNames : (applyRegistration env registry validated).known name =
      (validated.nodes.foldl (installNode env (Batch.ofValidated registry validated))
        registry).known name :=
    foldl_refreshSource_known _ name
  rw [sameNames,foldl_installNode_known]

end Install

section Diff

variable {debugStr : String → String} {registry : RegistryInner Expr}
  {payload : List PayloadNode}
variable {name : String} {removed : List String}

theorem mem_removedNames :
    name ∈ Registry.removedNames registry payload ↔
      registry.known name = true ∧ name ∉ payload.map PayloadNode.name := by
  rw [Registry.removedNames,List.mem_filter,List.mem_dedup,mem_currentNames,
    List.contains_eq_mem,Bool.not_eq_true',decide_eq_false_iff_not]

theorem exists_lostEntry_iff (registry : RegistryInner Expr) (payload : List PayloadNode)
    :
    (∃ entry ∈ lostEntries removed (pairRenames registry payload removed),
      replacedName entry = some name) ↔ name ∈ removed := by
  simp only [lostEntries,List.mem_append,List.mem_map,List.mem_filter]
  constructor
  · rintro ⟨entry,⟨pair,isPair,rfl⟩ | ⟨other,⟨lost,-⟩,rfl⟩,isReplaced⟩
    · cases isReplaced
      rw [pairRenames_eq_assign] at isPair
      exact Greedy.request_mem_of_mem_assign isPair
    · cases isReplaced
      exact lost
  · intro lost
    by_cases isPaired : name ∈ (pairRenames registry payload removed).map Prod.fst
    · obtain ⟨pair,member,rfl⟩ := List.mem_map.mp isPaired
      exact ⟨.rename pair.1 pair.2,.inl ⟨pair,member,rfl⟩,rfl⟩
    · refine ⟨.aggRemoval name "",.inr ⟨name,⟨lost,?_⟩,rfl⟩,rfl⟩
      rw [List.contains_eq_mem,decide_eq_false isPaired]
      rfl

theorem mem_destructive_iff (debugStr : String → String) {entry : DiffEntry} :
    entry ∈ (classifyInOrder debugStr registry payload removed).destructive ↔
      entry ∈ lostEntries removed (pairRenames registry payload removed) ∨
        ∃ node ∈ payload, entry ∈
          (classifyNode registry (pairRenames registry payload removed) node).destructive := by
  simp only [classifyInOrder,sortEntries,List.mem_insertionSort,List.mem_append,lostEntries,
    concatDiffs_eq,List.mem_flatMap,List.mem_map,exists_exists_and_eq_and]

theorem exists_entry_of_removed (debugStr : String → String) (registry : RegistryInner Expr)
    (payload : List PayloadNode) (lost : name ∈ removed) :
    ∃ entry ∈ (classifyInOrder debugStr registry payload removed).destructive,
      replacedName entry = some name := by
  obtain ⟨entry,member,isReplaced⟩ :=
    (exists_lostEntry_iff registry payload).mpr lost
  exact ⟨entry,(mem_destructive_iff debugStr).mpr (.inl member),isReplaced⟩

theorem removedNames_nil_of_noDestructive
    (noDestructive : (classifyRegisterDiff debugStr registry payload).destructive = []) :
    Registry.removedNames registry payload = [] := by
  refine List.eq_nil_iff_forall_not_mem.mpr fun name lost => ?_
  obtain ⟨entry,member,-⟩ := exists_entry_of_removed debugStr registry payload lost
  rw [classifyRegisterDiff] at noDestructive
  rw [noDestructive] at member
  cases member

theorem removedNames_subset_replacedNames :
    Registry.removedNames registry payload ⊆
      replacedNames (classifyRegisterDiff debugStr registry payload) := by
  intro name lost
  obtain ⟨entry,member,isReplaced⟩ := exists_entry_of_removed debugStr registry payload lost
  rw [replacedNames,KeyMap.mem_sortDedup,List.mem_filterMap]
  exact ⟨entry,List.mem_append_left _ member,isReplaced⟩

theorem mem_newDescriptorNames (debugStr : String → String) {node : PayloadNode}
    (noneLost : Registry.removedNames registry payload = []) (member : node ∈ payload)
    (unknown : registry.known node.name = false) :
    node.name ∈ newDescriptorNames (classifyRegisterDiff debugStr registry payload) := by
  rw [newDescriptorNames,List.mem_filterMap]
  refine ⟨.newDescriptor node.kindStr node.name,?_,rfl⟩
  simp only [classifyRegisterDiff,classifyInOrder,noneLost,sortEntries,
    List.mem_insertionSort,concatDiffs_eq,List.mem_flatMap,List.mem_map,
    exists_exists_and_eq_and]
  refine ⟨node,member,?_⟩
  simp [classifyNode,unknown,pairRenames]

end Diff

/-! ### The call -/

theorem parsedNodes_names (call : RegisterCall) :
    call.parsedNodes.map PayloadNode.name = call.nodes.map PayloadNode.name := by
  rw [RegisterCall.parsedNodes,List.map_map]
  refine List.map_congr_left fun node _ => ?_
  cases node <;> rfl

theorem NoopCall.names (noop : NoopCall env registry call result) (name : String) :
    registry.known name = true ↔ name ∈ call.parsedNodes.map PayloadNode.name := by
  have noneLost := removedNames_nil_of_noDestructive noop.destructive
  constructor
  · intro isKnown
    by_contra absent
    have lost := mem_removedNames.mpr ⟨isKnown,absent⟩
    rw [noneLost] at lost
    cases lost
  · intro listed
    obtain ⟨node,member,rfl⟩ := List.mem_map.mp listed
    by_contra unknown
    have isNew := mem_newDescriptorNames env.debugStr noneLost member
      (Bool.eq_false_iff.mpr unknown)
    rw [noop.noneAdded] at isNew
    cases isNew

theorem AppliedCall.lost_removed (applied : AppliedCall env registry call validated result) :
    Registry.removedNames registry call.parsedNodes ⊆ call.removedNames env registry := by
  by_cases noneRemoved : call.removedNames env registry = []
  · rw [removedNames_nil_of_noDestructive (applied.destructive noneRemoved)]
    exact List.nil_subset _
  · have isForced : call.force = true := by
      by_contra notForced
      exact noneRemoved (if_neg notForced)
    rw [RegisterCall.removedNames,if_pos isForced]
    exact List.Subset.trans removedNames_subset_replacedNames (subset_cascade _ _ _)

theorem AppliedCall.names (applied : AppliedCall env registry call validated result)
    (name : String) :
    result.registry.known name = true ↔ name ∈ call.parsedNodes.map PayloadNode.name := by
  rw [applied.applied,applyRegistration_known,RegisterCall.remaining,
    forceRemoveDescriptors_known,validatePayload_nodes env applied.accepted]
  constructor
  · rintro (⟨isKnown,stays⟩ | listed)
    · by_contra absent
      exact stays (applied.lost_removed (mem_removedNames.mpr ⟨isKnown,absent⟩))
    · exact listed
  · exact .inr

namespace RegisterOutcome

/-- The outcomes that are answered before anything is logged or applied. -/
def declined : RegisterOutcome → Bool
  | .validationFailed .. => true
  | .dryRun _ => true
  | .forceRequired _ => true
  | .emptyPayload _ => true
  | .unsupportedNodeKind _ => true
  | _ => false

end RegisterOutcome

theorem applyDurable_notDeclined (registry : RegistryInner Expr)
    (validated : ValidatedPayload Expr) (bump : RegistryBump) (added alreadyPresent : List String) :
    (applyDurable env registry validated bump added alreadyPresent).outcome.declined = false := by
  unfold applyDurable
  simp only
  split
  · rfl
  · split <;> rfl

theorem executeRegister_declined {nodes : List PayloadNode} {removed : List String}
    (declined : (executeRegister env registry nodes removed append).outcome.declined = true) :
    (executeRegister env registry nodes removed append).registry = registry := by
  unfold executeRegister at declined ⊢
  split
  · rfl
  · rename_i notEmpty
    rw [if_neg notEmpty] at declined
    split
    · rfl
    · rename_i validated isValid
      rw [isValid] at declined
      simp only at declined ⊢
      generalize (if removed.isEmpty then newDescriptorNames _ else _) = added at declined ⊢
      split
      · rfl
      · rename_i confirmed
        rw [if_neg confirmed] at declined
        split
        · rfl
        · rename_i changes
          rw [if_neg changes] at declined
          cases append with
          | notWritten => rfl
          | notSynced => rfl
          | durable =>
              simp only [applyDurable_notDeclined] at declined
              cases declined

theorem dispatchRegister_declined
    (declined : (dispatchRegister env registry call append).outcome.declined = true) :
    (dispatchRegister env registry call append).registry = registry := by
  unfold dispatchRegister at declined ⊢
  simp only at declined ⊢
  split
  · rfl
  · rename_i noTable
    rw [noTable] at declined
    simp only at declined
    split
    · rfl
    · rename_i notDry
      rw [if_neg notDry] at declined
      split
      · rfl
      · rename_i gate
        rw [if_neg gate] at declined
        exact executeRegister_declined declined

/-- The payload of an accepted call is the whole registry; a call that is
declined leaves the registry as it is. -/
theorem dispatchRegister_whole_payload (env : Env Expr) (registry : RegistryInner Expr)
    (call : RegisterCall) (append : AppendOutcome) :
    ((dispatchRegister env registry call append).outcome.accepted = true → ∀ name : String,
      (dispatchRegister env registry call append).registry.known name = true ↔
        name ∈ call.nodes.map PayloadNode.name) ∧
    ((dispatchRegister env registry call append).outcome.declined = true →
      (dispatchRegister env registry call append).registry = registry) := by
  refine ⟨fun accepted name => ?_,dispatchRegister_declined⟩
  rw [← parsedNodes_names]
  rcases dispatchRegister_accepted accepted with noop | ⟨validated,applied⟩
  · rw [noop.unchanged]
    exact noop.names name
  · exact applied.names name

/-- One event takes the place of another. -/
def renamingCall (force : Bool) : RegisterCall :=
  ⟨[sampleEvent "F"],force,false⟩

def oneEvent : RegistryInner Empty :=
  registryAfter sampleEnv [(⟨[sampleEvent "E"],false,false⟩,.durable)]

theorem renamingCall_whole_payload :
    (∀ name : String,
      (dispatchRegister sampleEnv oneEvent (renamingCall true)
          .durable).registry.known name = true ↔
        name ∈ (renamingCall true).nodes.map PayloadNode.name) ∧
    (dispatchRegister sampleEnv oneEvent (renamingCall false) .durable).registry = oneEvent := by
  refine ⟨?_,?_⟩
  · exact (dispatchRegister_whole_payload sampleEnv oneEvent (renamingCall true) .durable).1
      (by decide)
  · exact (dispatchRegister_whole_payload sampleEnv oneEvent (renamingCall false) .durable).2
      (by decide)

end Beava.Server
