/-
The registries a server can reach.

A register call leaves the registry as it is, takes the removed names away, or
applies the payload to what remains.  Every registry reached in this way has
exact chains and an exact feature index.
-/

import Beava.Lib.Machine
import Beava.Registry.Contents
import Beava.Server.Removal

namespace Beava.Server

open Beava.Core Beava.Apply Beava.Registry

variable {Expr : Type} {env : Env Expr}
variable {registry : RegistryInner Expr} {append : AppendOutcome}
variable {call : RegisterCall}

section Features

variable {registry : RegistryInner Expr}

theorem forceRemoveDescriptor_featureIndex (listed : Listed registry)
    (exact_ : FeaturesExact registry) (name feature : String) :
    (forceRemoveDescriptor registry name).featureIndex[feature]? =
      registry.featureIndex[feature]?.filter fun owner => owner.1 ∉ [name] := by
  unfold forceRemoveDescriptor dropAggregation
  simp only
  cases compiled : registry.compiledAggregations[name]? with
  | none =>
      cases indexed : registry.featureIndex[feature]? with
      | none => rfl
      | some owner =>
          obtain ⟨agg,isAgg,-⟩ := (exact_ feature owner.1 owner.2).mp indexed
          have otherName : owner.1 ≠ name := by
            intro same
            rw [same,compiled] at isAgg
            cases isAgg
          simp [Option.filter,otherName]
  | some agg =>
      simp only [Std.ExtTreeMap.getElem?_filter',listed.named compiled,List.mem_singleton]

theorem Removed.featuresExact {names : List String} {before after : RegistryInner Expr}
    (removed : Removed names before after) (exact_ : FeaturesExact before)
    (index : ∀ feature : String, after.featureIndex[feature]? =
      before.featureIndex[feature]?.filter fun owner => owner.1 ∉ names) :
    FeaturesExact after := by
  intro feature name position
  rw [index,removed.compiledAggregations,Option.filter_eq_some_iff,exact_]
  by_cases inNames : name ∈ names
  · simp [inNames]
  · simp [inNames]

theorem forceRemoveDescriptors_featureIndex (listed : Listed registry)
    (exact_ : FeaturesExact registry) (names : List String) (feature : String) :
    (forceRemoveDescriptors registry names).featureIndex[feature]? =
      registry.featureIndex[feature]?.filter fun owner => owner.1 ∉ names := by
  induction names generalizing registry with
  | nil =>
      rw [forceRemoveDescriptors,List.foldl_nil]
      cases registry.featureIndex[feature]? <;> simp [Option.filter]
  | cons name rest ih =>
      have here := forceRemoveDescriptor_removed listed name
      have exactHere := here.featuresExact exact_
        (forceRemoveDescriptor_featureIndex listed exact_ name)
      refine (ih (here.listed listed) exactHere).trans ?_
      rw [forceRemoveDescriptor_featureIndex listed exact_,Option.filter_filter]
      refine congrArg (Option.filter · _) (funext fun owner => ?_)
      simp [List.mem_cons]

end Features

/-- A call that fails after its record is in the log. -/
structure FailedCall (env : Env Expr) (registry : RegistryInner Expr) (call : RegisterCall)
    (result : RegisterResult Expr) : Prop where
  validates : Validates env registry call.parsedNodes
  failed : ¬ Validates env (call.remaining env registry) call.parsedNodes
  left : result.registry = call.remaining env registry

theorem applyDurable_refused
    (validated : ValidatedPayload Expr) (bump : RegistryBump) (added alreadyPresent : List String)
    (refused : (applyDurable env registry validated bump added alreadyPresent).outcome.accepted =
      false) :
    ¬ Validates env (forceRemoveDescriptors registry bump.forceRemovedDescriptors)
        bump.payloadNodes ∧
      (applyDurable env registry validated bump added alreadyPresent).registry =
        forceRemoveDescriptors registry bump.forceRemovedDescriptors := by
  unfold applyDurable applyRegistryBump at refused ⊢
  simp only at refused ⊢
  split at refused
  · cases refused
  · rename_i notEmpty
    rw [if_neg notEmpty]
    cases isValid : validatePayload env
        (forceRemoveDescriptors registry bump.forceRemovedDescriptors) bump.payloadNodes with
    | ok applied =>
        rw [isValid] at refused
        cases refused
    | error errors =>
        refine ⟨?_,rfl⟩
        rintro ⟨applied,impossible⟩
        rw [isValid] at impossible
        cases impossible

theorem executeRegister_refused {nodes : List PayloadNode} {removed : List String}
    (refused : (executeRegister env registry nodes removed append).outcome.accepted = false) :
    ((executeRegister env registry nodes removed append).registry = registry ∧
      ((executeRegister env registry nodes removed append).record = none ∨
        append = .notSynced ∧ Validates env registry nodes ∧
          (executeRegister env registry nodes removed append).record =
            some ⟨registry.version + 1,nodes,removed⟩)) ∨
    (Validates env registry nodes ∧
      ¬ Validates env (forceRemoveDescriptors registry removed) nodes ∧
      (executeRegister env registry nodes removed append).registry =
        forceRemoveDescriptors registry removed) := by
  unfold executeRegister at refused ⊢
  split
  · exact .inl ⟨rfl,.inl rfl⟩
  · rename_i notEmpty
    rw [if_neg notEmpty] at refused
    split
    · exact .inl ⟨rfl,.inl rfl⟩
    · rename_i validated isValid
      rw [isValid] at refused
      simp only at refused ⊢
      generalize (if removed.isEmpty then newDescriptorNames _ else _) = added at refused ⊢
      split
      · exact .inl ⟨rfl,.inl rfl⟩
      · rename_i confirmed
        rw [if_neg confirmed] at refused
        split
        · exact .inl ⟨rfl,.inl rfl⟩
        · rename_i changes
          rw [if_neg changes] at refused
          cases append with
          | notWritten => exact .inl ⟨rfl,.inl rfl⟩
          | notSynced =>
              refine .inl ⟨rfl,.inr ⟨rfl,⟨validated,isValid⟩,?_⟩⟩
              rw [validatePayload_nodes env isValid]
          | durable =>
              obtain ⟨failed,left⟩ := applyDurable_refused validated _ _ _ refused
              rw [validatePayload_nodes env isValid] at failed
              exact .inr ⟨⟨validated,isValid⟩,failed,left⟩

/-- A call that is refused leaves no trace, or a record that was not synced, or its record and
what its removal leaves. -/
theorem dispatchRegister_refused
    (refused : (dispatchRegister env registry call append).outcome.accepted = false) :
    ((dispatchRegister env registry call append).registry = registry ∧
      ((dispatchRegister env registry call append).record = none ∨
        append = .notSynced ∧ Validates env registry call.parsedNodes ∧
          (dispatchRegister env registry call append).record =
            some ⟨registry.version + 1,call.parsedNodes,call.removedNames env registry⟩)) ∨
    FailedCall env registry call (dispatchRegister env registry call append) := by
  unfold dispatchRegister at refused ⊢
  simp only at refused ⊢
  split
  · exact .inl ⟨rfl,.inl rfl⟩
  · rename_i noTable
    rw [noTable] at refused
    simp only at refused
    split
    · exact .inl ⟨rfl,.inl rfl⟩
    · rename_i notDry
      rw [if_neg notDry] at refused
      split
      · exact .inl ⟨rfl,.inl rfl⟩
      · rename_i gate
        rw [if_neg gate] at refused
        rcases executeRegister_refused refused with unchanged | ⟨validates,failed,left⟩
        · exact .inl unchanged
        · exact .inr ⟨validates,failed,left⟩

theorem parsedNodes_noTables
    (accepted : (dispatchRegister env registry call append).outcome.accepted = true) :
    ∀ node ∈ call.parsedNodes, node.kindStr ≠ "table" := by
  intro node member isTable
  unfold dispatchRegister at accepted
  simp only at accepted
  split at accepted
  · cases accepted
  · rename_i noTable
    exact absurd (decide_eq_true isTable) (List.find?_eq_none.mp noTable node member)

/-- A property of registries that the forced removal and the registration keep holds
after the call. -/
theorem dispatchRegister_keeps {good : RegistryInner Expr → Prop}
    (before : good registry) (remaining : good (call.remaining env registry))
    (installs : ∀ validated,
      AppliedCall env registry call validated (dispatchRegister env registry call append) →
        (∀ node ∈ call.parsedNodes, node.kindStr ≠ "table") →
          good (applyRegistration env (call.remaining env registry) validated)) :
    good (dispatchRegister env registry call append).registry := by
  cases outcome : (dispatchRegister env registry call append).outcome.accepted with
  | false =>
      rcases dispatchRegister_refused outcome with ⟨unchanged,-⟩ | failed
      · rw [unchanged]
        exact before
      · rw [failed.left]
        exact remaining
  | true =>
      rcases dispatchRegister_accepted outcome with noop | ⟨validated,applied⟩
      · rw [noop.unchanged]
        exact before
      · rw [applied.applied]
        exact installs validated applied (parsedNodes_noTables outcome)

/-- The registry after a sequence of calls, each with what became of its append to the log. -/
def registryAfter (env : Env Expr) (calls : List (RegisterCall × AppendOutcome)) :
    RegistryInner Expr :=
  Machine.run (fun registry call => (dispatchRegister env registry call.1 call.2).registry)
    RegistryInner.empty calls

/-- What holds in every registry that is reached. -/
structure Reached (env : Env Expr) (registry : RegistryInner Expr) : Prop where
  wellFormed : WellFormed env registry
  chains : ChainsExact env registry
  features : FeaturesExact registry
  noTables : registry.tables = ∅

theorem reached_empty : Reached env (.empty : RegistryInner Expr) :=
  ⟨wellFormed_empty env,chainsExact_empty,featuresExact_empty,rfl⟩

section Step

variable {registry : RegistryInner Expr} (reached : Reached env registry)

include reached

theorem Reached.remaining (call : RegisterCall) : Reached env (call.remaining env registry) := by
  have removed := remaining_removed reached.wellFormed call
  refine ⟨remaining_wellFormed reached.wellFormed call,removed.chainsExact reached.chains,
    removed.featuresExact reached.features (forceRemoveDescriptors_featureIndex
      (listed_of_wellFormed reached.wellFormed) reached.features _),?_⟩
  refine Std.ExtTreeMap.ext_getElem? fun name => ?_
  rw [removed.tables,reached.noTables]
  simp

theorem Reached.applied {call : RegisterCall} {validated : ValidatedPayload Expr}
    {result : RegisterResult Expr} (applied : AppliedCall env registry call validated result)
    (noTables : ∀ node ∈ call.parsedNodes, node.kindStr ≠ "table") :
    Reached env result.registry := by
  have remaining := reached.remaining call
  rw [applied.applied]
  refine ⟨applyRegistration_wellFormed remaining.wellFormed applied.validates,
    applyRegistration_chainsExact remaining.wellFormed applied.validates remaining.chains,
    applyRegistration_featuresExact remaining.wellFormed applied.validates remaining.features,?_⟩
  rw [applyRegistration_tables remaining.wellFormed applied.validates noTables,remaining.noTables]

theorem Reached.step (call : RegisterCall) (append : AppendOutcome) :
    Reached env (dispatchRegister env registry call append).registry := by
  refine dispatchRegister_keeps reached (reached.remaining call) fun validated applied noTables => ?_
  rw [← applied.applied]
  exact reached.applied applied noTables

end Step

theorem run_reached {calls : List (RegisterCall × AppendOutcome)} (reached : Reached env registry) :
    Reached env (Machine.run
      (fun registry call => (dispatchRegister env registry call.1 call.2).registry) registry
        calls) := by
  induction calls generalizing registry with
  | nil => exact reached
  | cons call rest ih => exact ih (reached.step call.1 call.2)

theorem registryAfter_reached (env : Env Expr) (calls : List (RegisterCall × AppendOutcome)) :
    Reached env (registryAfter env calls) :=
  run_reached reached_empty

end Beava.Server
