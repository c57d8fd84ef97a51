/-
The graph of the derivations.

Validation looks at the payload over the registry, where a node of the payload
hides the registered descriptor of its name.  Installation does the opposite: it
keeps a derivation that is registered.  A call closes a cycle exactly when it
gives the name of a registered event to a derivation, and the new derivation
depends on one that stays and reads the event.
-/

import Beava.Registry.Cycles
import Beava.Server.Installed
import Beava.Server.WholePayload

namespace Beava.Server

open Beava.Core Beava.Registry

variable {Expr : Type} {env : Env Expr}
variable {registry : RegistryInner Expr}
variable {call : RegisterCall}

theorem cycle_inside_or_outside {α : Type} {edge : α → α → Prop} {inside : α → Prop}
    (noReturn : ∀ first second, edge first second → inside first → ¬inside second →
      ¬Relation.ReflTransGen edge second first)
    {start : α} (cycle : Relation.TransGen edge start start) :
    Relation.TransGen (fun first second => edge first second ∧ inside first) start start ∨
      Relation.TransGen (fun first second => edge first second ∧ ¬inside first) start start := by
  have stays : ∀ {first last : α}, inside first → Relation.TransGen edge first last →
      Relation.ReflTransGen edge last first → inside last := by
    intro first last isInside path back
    induction path with
    | single step =>
        by_contra outside
        exact noReturn _ _ step isInside outside back
    | tail path step ih =>
        have between := ih (back.head step)
        by_contra outside
        exact noReturn _ _ step between outside (back.trans path.to_reflTransGen)
  by_cases isInside : inside start
  · left
    have general : ∀ {last : α}, Relation.TransGen edge start last →
        Relation.ReflTransGen edge last start →
        Relation.TransGen (fun first second => edge first second ∧ inside first) start last := by
      intro last path back
      induction path with
      | single step => exact .single ⟨step,isInside⟩
      | tail path step ih =>
          have backThere := back.head step
          exact .tail (ih backThere) ⟨step,stays isInside path backThere⟩
    exact general cycle .refl
  · right
    have general : ∀ {last : α}, Relation.TransGen edge start last →
        Relation.TransGen edge last start →
        Relation.TransGen (fun first second => edge first second ∧ ¬inside first) start last := by
      intro last path back
      induction path with
      | single step => exact .single ⟨step,isInside⟩
      | tail path step ih =>
          have backThere := back.head step
          refine .tail (ih backThere) ⟨step,fun between => isInside ?_⟩
          exact stays between backThere path.to_reflTransGen
    exact general cycle cycle

def Upstream (registry : RegistryInner Expr) (name upstream : String) : Prop :=
  ∃ derivation, registry.derivations[name]? = some derivation ∧ upstream ∈ derivation.upstreams

structure ResolvedDag (registry : RegistryInner Expr) : Prop where
  resolved : ∀ name upstream, Upstream registry name upstream → registry.known upstream = true
  acyclic : ∀ name, ¬Relation.TransGen (Upstream registry) name name

theorem resolvedDag_empty : ResolvedDag (.empty : RegistryInner Expr) := by
  have noEdge : ∀ name upstream, ¬Upstream (.empty : RegistryInner Expr) name upstream := by
    rintro name upstream ⟨derivation,present,-⟩
    simp [RegistryInner.empty] at present
  refine ⟨fun name upstream edge => absurd edge (noEdge name upstream),fun name cycle => ?_⟩
  obtain ⟨upstream,edge,-⟩ := Relation.TransGen.head'_iff.mp cycle
  exact noEdge name upstream edge

/-- The upstreams after a registration: a derivation that stays keeps its own,
and only a name without one gets those of the payload. -/
def UpstreamAfter (remaining : RegistryInner Expr) (nodes : List PayloadNode)
    (name upstream : String) : Prop :=
  Upstream remaining name upstream ∨
    (remaining.derivations[name]? = none ∧
      ∃ derivation, .derivation derivation ∈ nodes ∧ derivation.name = name ∧
        upstream ∈ derivation.upstreams)

/-- A derivation of the payload takes the name of a registered event and depends
on a derivation that stays and reads the event. -/
def ClosesCycle (remaining : RegistryInner Expr) (nodes : List PayloadNode) : Prop :=
  ∃ derivation, .derivation derivation ∈ nodes ∧
    remaining.derivations[derivation.name]? = none ∧
    remaining.events.contains derivation.name = true ∧
    ∃ reader, Upstream remaining reader derivation.name ∧
      Relation.ReflTransGen (UpstreamAfter remaining nodes) derivation.name reader

section Step

variable {registry : RegistryInner Expr} {nodes : List PayloadNode}
  {validated : ValidatedPayload Expr}

theorem upstream_applyRegistration (wellFormed : WellFormed env registry)
    (accepted : Accepted env registry nodes validated) (name upstream : String) :
    Upstream (applyRegistration env registry validated) name upstream ↔
      UpstreamAfter registry nodes name upstream := by
  rw [Upstream,UpstreamAfter,Upstream,applyRegistration_derivations wellFormed accepted]
  cases stays : registry.derivations[name]? with
  | some derivation => simp
  | none =>
      simp only [Option.none_or,reduceCtorEq,false_and,exists_false,false_or,true_and]
      constructor
      · rintro ⟨stored,isStored,isUpstream⟩
        obtain ⟨node,member,isEntry⟩ := List.exists_of_findSome?_eq_some isStored
        cases node with
        | derivation derivation =>
            simp only [derivationEntry] at isEntry
            split at isEntry
            · rename_i sameName
              cases isEntry
              exact ⟨derivation,member,sameName,isUpstream⟩
            · cases isEntry
        | _ => cases isEntry
      · rintro ⟨derivation,member,rfl,isUpstream⟩
        exact ⟨_,accepted.derivationEntry_eq _ member,isUpstream⟩

/-- Outside the derivations that stay, the graph is part of the one that is
checked. -/
theorem edge_overlayGraph (accepted : Accepted env registry nodes validated)
    {name upstream : String} (isUpstream : UpstreamAfter registry nodes name upstream)
    (isNew : registry.derivations[name]? = none) :
    Edge (overlayGraph nodes registry) name upstream := by
  rcases isUpstream with ⟨derivation,present,-⟩ | ⟨-,derivation,member,rfl,inPayload⟩
  · rw [isNew] at present
    cases present
  · exact edge_iff.mpr
      ⟨_,overlayGraph_of_mem nodes registry accepted.nodup member,inPayload⟩

theorem resolved_applyRegistration (wellFormed : WellFormed env registry)
    (accepted : Accepted env registry nodes validated)
    (resolved : ∀ name upstream, Upstream registry name upstream →
      registry.known upstream = true) {name upstream : String}
    (edge : Upstream (applyRegistration env registry validated) name upstream) :
    (applyRegistration env registry validated).known upstream = true := by
  rw [applyRegistration_known,accepted.nodes_eq]
  rcases (upstream_applyRegistration wellFormed accepted name upstream).mp edge with
    stays | ⟨-,derivation,member,-,isUpstream⟩
  · exact .inl (resolved name upstream stays)
  · have known := accepted.upstreamsKnown member upstream isUpstream
    rw [Bool.or_eq_true,List.contains_iff_mem] at known
    exact known.symm

theorem acyclic_applyRegistration_iff (wellFormed : WellFormed env registry)
    (accepted : Accepted env registry nodes validated) (noTables : registry.tables = ∅)
    (dag : ResolvedDag registry) :
    (∀ name, ¬Relation.TransGen (Upstream (applyRegistration env registry validated)) name name) ↔
      ¬ClosesCycle registry nodes := by
  have sameGraph : Upstream (applyRegistration env registry validated) =
      UpstreamAfter registry nodes := by
    funext name upstream
    exact propext (upstream_applyRegistration wellFormed accepted name upstream)
  rw [sameGraph]
  constructor
  · rintro acyclic ⟨derivation,-,-,-,reader,reads,depends⟩
    exact acyclic reader (Relation.TransGen.head' (.inl reads) depends)
  · intro noCycle name cycle
    have noReturn : ∀ first second, UpstreamAfter registry nodes first second →
        registry.derivations[first]? ≠ none → ¬registry.derivations[second]? ≠ none →
        ¬Relation.ReflTransGen (UpstreamAfter registry nodes) second first := by
      intro first second edge firstStays secondNew back
      rw [not_not] at secondNew
      have reads : Upstream registry first second :=
        edge.resolve_right fun isNew => firstStays isNew.1
      rcases Relation.ReflTransGen.cases_head back with same | ⟨next,step,-⟩
      · exact firstStays (same ▸ secondNew)
      · rcases step with ⟨stays,present,-⟩ | ⟨-,derivation,member,rfl,-⟩
        · rw [secondNew] at present
          cases present
        · refine noCycle ⟨derivation,member,secondNew,?_,first,reads,back⟩
          have known := dag.resolved first derivation.name reads
          rw [known_iff_held,noTables,secondNew] at known
          rw [Std.ExtTreeMap.contains_eq_isSome_getElem?]
          simpa using known
    rcases cycle_inside_or_outside noReturn cycle with inside | outside
    · refine dag.acyclic name (Relation.TransGen.mono ?_ _ _ inside)
      rintro first second ⟨edge,stays⟩
      exact edge.resolve_right fun isNew => stays isNew.1
    · have checked := (validateAcyclicity_nil_iff nodes registry).mp accepted.rules.2 name
      refine checked (Relation.TransGen.mono ?_ _ _ outside)
      rintro first second ⟨edge,isNew⟩
      exact edge_overlayGraph accepted edge (not_not.mp isNew)

end Step

theorem Removed.resolvedDag {names : List String} {before after : RegistryInner Expr}
    (removed : Removed names before after) (closed : DownstreamClosed before.derivations names)
    (dag : ResolvedDag before) : ResolvedDag after := by
  have edgeBefore : ∀ name upstream, Upstream after name upstream →
      name ∉ names ∧ Upstream before name upstream := by
    rintro name upstream ⟨derivation,present,isUpstream⟩
    rw [removed.derivations] at present
    split at present
    · cases present
    · rename_i stays
      exact ⟨stays,derivation,present,isUpstream⟩
  constructor
  · intro name upstream edge
    obtain ⟨stays,derivation,present,isUpstream⟩ := edgeBefore name upstream edge
    have known := dag.resolved name upstream ⟨derivation,present,isUpstream⟩
    have upstreamStays : upstream ∉ names := fun gone =>
      stays (closed name derivation present ⟨upstream,isUpstream,gone⟩)
    exact (removed.known_iff upstream).mpr ⟨upstreamStays,known⟩
  · intro name cycle
    exact dag.acyclic name
      (Relation.TransGen.mono (fun first second edge => (edgeBefore first second edge).2) _ _ cycle)

def KeepsDag (env : Env Expr) (registry : RegistryInner Expr) (call : RegisterCall) : Prop :=
  call.Changes env registry → ¬ClosesCycle (call.remaining env registry) call.parsedNodes

theorem resolvedDag_call_iff {append : AppendOutcome} (reached : Reached env registry)
    (dag : ResolvedDag registry)
    (accepted : (dispatchRegister env registry call append).outcome.accepted = true) :
    ResolvedDag (dispatchRegister env registry call append).registry ↔
      KeepsDag env registry call := by
  rcases dispatchRegister_accepted accepted with noop | ⟨validated,applied⟩
  · rw [noop.unchanged]
    exact ⟨fun _ changes => absurd changes noop.noChanges,fun _ => dag⟩
  · have remaining := reached.remaining call
    have dagRemaining := (remaining_removed reached.wellFormed call).resolvedDag
      (removedNames_closed env registry call) dag
    have acyclicIff := acyclic_applyRegistration_iff remaining.wellFormed applied.validates
      remaining.noTables dagRemaining
    rw [applied.applied]
    constructor
    · intro dagAfter _
      exact acyclicIff.mp dagAfter.acyclic
    · intro keeps
      refine ⟨fun name upstream edge => ?_,acyclicIff.mpr (keeps applied.changes)⟩
      exact resolved_applyRegistration remaining.wellFormed applied.validates
        dagRemaining.resolved edge

def AcceptedRun (env : Env Expr) (calls : List (RegisterCall × AppendOutcome)) : Prop :=
  Machine.Meets (fun registry call => (dispatchRegister env registry call.1 call.2).registry)
    (fun registry call => (dispatchRegister env registry call.1 call.2).outcome.accepted = true)
    RegistryInner.empty calls

instance (calls : List (RegisterCall × AppendOutcome)) : Decidable (AcceptedRun env calls) :=
  inferInstanceAs (Decidable (Machine.Meets _ _ _ _))

/-- The graph is a resolved DAG all along a run of accepted calls exactly when no
call of the run closes a cycle. -/
theorem resolvedDag_run_iff (env : Env Expr) (calls : List (RegisterCall × AppendOutcome))
    (accepted : AcceptedRun env calls) :
    (∀ count, ResolvedDag (registryAfter env (calls.take count))) ↔
      Machine.Meets (fun registry call => (dispatchRegister env registry call.1 call.2).registry)
        (fun registry call => KeepsDag env registry call.1) RegistryInner.empty calls := by
  have stepIff : ∀ (registry : RegistryInner Expr) (call : RegisterCall × AppendOutcome),
      (dispatchRegister env registry call.1 call.2).outcome.accepted = true →
      Reached env registry ∧ ResolvedDag registry →
      (Reached env (dispatchRegister env registry call.1 call.2).registry ∧
        ResolvedDag (dispatchRegister env registry call.1 call.2).registry ↔
          KeepsDag env registry call.1) := by
    rintro registry call isAccepted ⟨reached,dag⟩
    exact (and_iff_right (reached.step call.1 call.2)).trans
      (resolvedDag_call_iff reached dag isAccepted)
  refine Iff.trans ?_ (Machine.reached_iff_meets _ stepIff ⟨reached_empty,resolvedDag_empty⟩
    accepted)
  exact forall_congr' fun count =>
    (and_iff_right (registryAfter_reached env (calls.take count))).symm

theorem keepsDag_of_namesFree
    (namesFree : ∀ derivation ∈ call.parsedNodes.filterMap PayloadNode.asDerivation,
      (call.remaining env registry).events.contains derivation.name = false) :
    KeepsDag env registry call := by
  rintro - ⟨derivation,member,-,isEvent,-⟩
  rw [namesFree derivation (List.mem_filterMap.mpr ⟨_,member,rfl⟩)] at isEvent
  cases isEvent

def chainCalls : List (RegisterCall × AppendOutcome) :=
  [(⟨[sampleEvent "E",sampleStream "D" "E"],false,false⟩,.durable),
   (⟨[sampleEvent "E",sampleStream "D" "E",sampleStream "G" "D"],false,false⟩,.durable)]

theorem chainCalls_resolvedDag :
    AcceptedRun sampleEnv chainCalls ∧
      ∀ count, ResolvedDag (registryAfter sampleEnv (chainCalls.take count)) := by
  have accepted : AcceptedRun sampleEnv chainCalls := by decide
  refine ⟨accepted,(resolvedDag_run_iff sampleEnv chainCalls accepted).mpr ⟨?_,?_,trivial⟩⟩
  · exact keepsDag_of_namesFree (by decide)
  · exact keepsDag_of_namesFree (by decide)

/-- The second call reads another event in `D`, which is not seen, and makes `E`
a derivation over `D`. -/
def closingCalls : List (RegisterCall × AppendOutcome) :=
  [(⟨[sampleEvent "E",sampleStream "D" "E"],false,false⟩,.durable),
   (⟨[sampleEvent "Z",sampleStream "D" "Z",sampleStream "E" "D"],false,false⟩,.durable)]

theorem closingCalls_cyclic :
    AcceptedRun sampleEnv closingCalls ∧ ¬ResolvedDag (registryAfter sampleEnv closingCalls) := by
  have readsEvent : ((registryAfter sampleEnv closingCalls).derivations["D"]?.map
      DerivationDescriptor.upstreams) = some ["E"] := by decide
  have readsDerivation : ((registryAfter sampleEnv closingCalls).derivations["E"]?.map
      DerivationDescriptor.upstreams) = some ["D"] := by decide
  refine ⟨by decide,fun dag => dag.acyclic "D" ?_⟩
  obtain ⟨first,firstPresent,firstReads⟩ := Option.map_eq_some_iff.mp readsEvent
  obtain ⟨second,secondPresent,secondReads⟩ := Option.map_eq_some_iff.mp readsDerivation
  refine .tail (.single ⟨first,firstPresent,?_⟩) ⟨second,secondPresent,?_⟩
  · rw [firstReads]
    exact List.mem_singleton_self "E"
  · rw [secondReads]
    exact List.mem_singleton_self "D"

end Beava.Server
