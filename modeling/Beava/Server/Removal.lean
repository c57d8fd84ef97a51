/-
Forced removal: what it takes away and what it keeps.

Removing names takes away exactly the descriptors, chains and aggregations of
these names.  The names a forced register removes are closed downstream, so that
no aggregation loses its source and stays.
-/

import Beava.Registry.Chains
import Beava.Server.Register

namespace Beava.Server

open Beava.Core Beava.Apply Beava.Registry

variable {Expr : Type} {env : Env Expr}
variable {registry : RegistryInner Expr} {names : List String}
variable {derivations : StrMap DerivationDescriptor}
variable {before after : RegistryInner Expr} {name : String} {nodes : List PayloadNode}
variable {append : AppendOutcome}

/-! ### The maps after a removal -/

/-- The two clauses of the invariant that one removal after the other keeps. -/
structure Listed (registry : RegistryInner Expr) : Prop where
  named : ∀ {name : String} {agg : AggregationDescriptor Expr},
    registry.compiledAggregations[name]? = some agg → agg.nodeName = name
  grouped : ∀ {source : String} {agg : AggregationDescriptor Expr},
    agg ∈ registry.aggregationsForSource source ↔
      registry.compiledAggregations[agg.nodeName]? = some agg ∧ agg.sourceNodeName = source

theorem listed_of_wellFormed (wellFormed : WellFormed env registry) : Listed registry :=
  ⟨wellFormed.named,wellFormed.grouped⟩

structure Removed (names : List String) (before after : RegistryInner Expr) : Prop where
  version : after.version = before.version
  events : ∀ name : String,
    after.events[name]? = if name ∈ names then none else before.events[name]?
  tables : ∀ name : String,
    after.tables[name]? = if name ∈ names then none else before.tables[name]?
  derivations : ∀ name : String,
    after.derivations[name]? = if name ∈ names then none else before.derivations[name]?
  compiledChains : ∀ name : String,
    after.compiledChains[name]? = if name ∈ names then none else before.compiledChains[name]?
  compiledAggregations : ∀ name : String,
    after.compiledAggregations[name]? =
      if name ∈ names then none else before.compiledAggregations[name]?
  forSource : ∀ source : String,
    after.aggregationsForSource source =
      (before.aggregationsForSource source).filter fun agg => agg.nodeName ∉ names
  nextAggId : after.nextAggId = before.nextAggId
  clusterIdBySignature : after.clusterIdBySignature = before.clusterIdBySignature
  nextClusterId : after.nextClusterId = before.nextClusterId

theorem removed_nil (registry : RegistryInner Expr) : Removed [] registry registry := by
  constructor <;> simp

theorem Removed.known_iff (removed : Removed names before after) (name : String) :
    after.known name = true ↔ name ∉ names ∧ before.known name = true := by
  simp only [RegistryInner.known,Std.ExtTreeMap.contains_eq_isSome_getElem?,removed.events,
    removed.tables,removed.derivations]
  by_cases gone : name ∈ names
  · simp [gone]
  · simp [gone]

theorem Removed.chainsExact (removed : Removed names before after)
    (chains : ChainsExact env before) :
    ChainsExact env after where
  chain name := by
    rw [removed.compiledChains,removed.derivations]
    split
    · rfl
    · exact chains.chain name
  compiles {name derivation} present := by
    rw [removed.derivations] at present
    split at present
    · cases present
    · exact chains.compiles present

theorem Removed.listed (removed : Removed names before after) (listed : Listed before) :
    Listed after where
  named {name agg} compiled := by
    rw [removed.compiledAggregations] at compiled
    split at compiled
    · cases compiled
    · exact listed.named compiled
  grouped {source agg} := by
    rw [removed.forSource,List.mem_filter,listed.grouped,removed.compiledAggregations]
    by_cases isRemoved : agg.nodeName ∈ names
    · simp [isRemoved]
    · simp [isRemoved]

theorem lookup_removed_twice {α : Type} (first second : List String) (name : String)
    (found : Option α) :
    (if name ∈ second then none else if name ∈ first then none else found) =
      if name ∈ first ++ second then none else found := by
  by_cases inFirst : name ∈ first <;> by_cases inSecond : name ∈ second <;>
    simp [inFirst,inSecond]

theorem Removed.trans {first second : List String} {between : RegistryInner Expr}
    (earlier : Removed first before between) (later : Removed second between after) :
    Removed (first ++ second) before after where
  version := later.version.trans earlier.version
  events name := by
    rw [later.events,earlier.events,lookup_removed_twice]
  tables name := by
    rw [later.tables,earlier.tables,lookup_removed_twice]
  derivations name := by
    rw [later.derivations,earlier.derivations,lookup_removed_twice]
  compiledChains name := by
    rw [later.compiledChains,earlier.compiledChains,lookup_removed_twice]
  compiledAggregations name := by
    rw [later.compiledAggregations,earlier.compiledAggregations,lookup_removed_twice]
  forSource source := by
    rw [later.forSource,earlier.forSource,List.filter_filter]
    refine List.filter_congr fun agg _ => ?_
    simp only [List.mem_append,not_or,Bool.decide_and]
    rw [Bool.and_comm]
  nextAggId := later.nextAggId.trans earlier.nextAggId
  clusterIdBySignature := later.clusterIdBySignature.trans earlier.clusterIdBySignature
  nextClusterId := later.nextClusterId.trans earlier.nextClusterId

theorem forceRemoveDescriptor_removed (listed : Listed registry) (name : String) :
    Removed [name] registry (forceRemoveDescriptor registry name) := by
  have lookup : ∀ {α : Type} (map : StrMap α) (other : String),
      (map.erase name)[other]? = if other ∈ [name] then none else map[other]? := by
    intro α map other
    rw [KeyMap.lookup_erase]
    simp only [List.mem_singleton,eq_comm]
  unfold forceRemoveDescriptor dropAggregation
  simp only
  cases compiled : registry.compiledAggregations[name]? with
  | none =>
      have notListed : ∀ source, (registry.aggregationsForSource source).filter
          (fun agg => agg.nodeName ∉ [name]) = registry.aggregationsForSource source := by
        intro source
        rw [List.filter_eq_self]
        intro agg member
        have aggCompiled := (listed.grouped.mp member).1
        have otherName : agg.nodeName ≠ name := by
          intro same
          rw [same,compiled] at aggCompiled
          cases aggCompiled
        simpa using otherName
      refine ⟨rfl,lookup _,lookup _,lookup _,lookup _,?_,fun source => (notListed source).symm,
        rfl,rfl,rfl⟩
      intro other
      simp only [List.mem_singleton]
      split
      · rename_i same
        rw [same,compiled]
      · rfl
  | some agg =>
      have nameEq := listed.named compiled
      refine ⟨rfl,lookup _,lookup _,lookup _,lookup _,lookup _,?_,rfl,rfl,rfl⟩
      intro source
      simp only [RegistryInner.aggregationsForSource,Std.ExtTreeMap.getD_eq_getD_getElem?,
        KeyMap.lookup_modify]
      split
      · rename_i sameSource
        cases registry.aggregationsBySource[source]? with
        | none => rfl
        | some aggs => simp [nameEq]
      · rename_i otherSource
        rw [eq_comm,List.filter_eq_self]
        intro other member
        have inSource : other ∈ registry.aggregationsForSource source := by
          rw [RegistryInner.aggregationsForSource,Std.ExtTreeMap.getD_eq_getD_getElem?]
          exact member
        obtain ⟨otherCompiled,fromSource⟩ := listed.grouped.mp inSource
        have otherName : other.nodeName ≠ name := by
          intro same
          rw [same,compiled] at otherCompiled
          cases otherCompiled
          exact otherSource fromSource
        simpa using otherName

theorem forceRemoveDescriptors_removed (listed : Listed registry) (names : List String) :
    Removed names registry (forceRemoveDescriptors registry names) := by
  induction names generalizing registry with
  | nil => exact removed_nil registry
  | cons name rest ih =>
      have here := forceRemoveDescriptor_removed listed name
      exact here.trans (ih (here.listed listed))

/-- No aggregation outside the names reads a source among them. -/
def SourcesClosed (names : List String) (registry : RegistryInner Expr) : Prop :=
  ∀ (name : String) (agg : AggregationDescriptor Expr),
    registry.compiledAggregations[name]? = some agg → agg.sourceNodeName ∈ names → name ∈ names

theorem Removed.survivor (removed : Removed names before after)
    (closed : SourcesClosed names before) {agg : AggregationDescriptor Expr}
    (compiled : after.compiledAggregations[name]? = some agg) :
    name ∉ names ∧ before.compiledAggregations[name]? = some agg ∧
      after.events[agg.sourceNodeName]? = before.events[agg.sourceNodeName]? := by
  rw [removed.compiledAggregations] at compiled
  split at compiled
  · cases compiled
  · rename_i notRemoved
    have sourceKept : agg.sourceNodeName ∉ names :=
      fun sourceRemoved => notRemoved (closed name agg compiled sourceRemoved)
    exact ⟨notRemoved,compiled,by rw [removed.events,if_neg sourceKept]⟩

theorem Removed.wellFormed (removed : Removed names before after)
    (closed : SourcesClosed names before) (wellFormed : WellFormed env before) :
    WellFormed env after where
  eventNamed {name event} present := by
    rw [removed.events] at present
    split at present
    · cases present
    · exact wellFormed.eventNamed present
  derivationNamed {name derivation} present := by
    rw [removed.derivations] at present
    split at present
    · cases present
    · exact wellFormed.derivationNamed present
  derived {name agg} compiled := by
    obtain ⟨notRemoved,compiledBefore,-⟩ := removed.survivor closed compiled
    obtain ⟨derivation,present,compiledFrom⟩ := wellFormed.derived compiledBefore
    exact ⟨derivation,by rw [removed.derivations,if_neg notRemoved,present],compiledFrom⟩
  grouped := (removed.listed (listed_of_wellFormed wellFormed)).grouped
  listed source := by
    rw [removed.forSource]
    exact (wellFormed.listed source).sublist (List.Sublist.map _ List.filter_sublist)
  numbered compiled := by
    rw [removed.nextAggId]
    exact wellFormed.numbered (removed.survivor closed compiled).2.1
  idsDistinct first second :=
    wellFormed.idsDistinct (removed.survivor closed first).2.1
      (removed.survivor closed second).2.1
  clustered compiled := by
    rw [removed.clusterIdBySignature]
    exact wellFormed.clustered (removed.survivor closed compiled).2.1
  clustersBelow := by
    rw [removed.clusterIdBySignature,removed.nextClusterId]
    exact wellFormed.clustersBelow
  clustersDistinct := by
    rw [removed.clusterIdBySignature]
    exact wellFormed.clustersDistinct
  unresolved compiled notResolved := by
    obtain ⟨-,compiledBefore,sameSource⟩ := removed.survivor closed compiled
    refine wellFormed.unresolved compiledBefore ?_
    rw [← notResolved]
    exact (resolvedIn_congr rfl (by rw [sameSource])).symm

theorem Removed.allRead (removed : Removed names before after) (closed : SourcesClosed names before)
    (allRead : AllRead env before) : AllRead env after := by
  intro name agg compiled
  obtain ⟨-,compiledBefore,sameSource⟩ := removed.survivor closed compiled
  exact reads_congr (allRead name agg compiledBefore) sameSource

/-! ### The cascade -/

def DownstreamClosed (derivations : StrMap DerivationDescriptor) (names : List String) : Prop :=
  ∀ (name : String) (derivation : DerivationDescriptor), derivations[name]? = some derivation →
    (∃ upstream ∈ derivation.upstreams, upstream ∈ names) → name ∈ names

theorem mem_downstreamOf :
    name ∈ downstreamOf derivations names ↔
      ∃ derivation, derivations[name]? = some derivation ∧ name ∉ names ∧
        ∃ upstream ∈ derivation.upstreams, upstream ∈ names := by
  simp only [downstreamOf,List.mem_map,List.mem_filter,Prod.exists,exists_and_right,
    exists_eq_right,Std.ExtTreeMap.mem_toList_iff_getElem?_eq_some,Bool.and_eq_true,
    Bool.not_eq_true',List.contains_eq_mem,decide_eq_false_iff_not,List.any_eq_true,
    decide_eq_true_eq]

theorem downstreamClosed_of_nil (nothing : downstreamOf derivations names = []) :
    DownstreamClosed derivations names := by
  intro name derivation present reads
  by_contra outside
  have member := mem_downstreamOf.mpr ⟨derivation,present,outside,reads⟩
  rw [nothing] at member
  cases member

def outsideOf (derivations : StrMap DerivationDescriptor) (names : List String) : List String :=
  (derivations.toList.map Prod.fst).filter fun name => name ∉ names

theorem downstreamOf_subset_outsideOf (derivations : StrMap DerivationDescriptor)
    (names : List String) : downstreamOf derivations names ⊆ outsideOf derivations names := by
  intro name member
  obtain ⟨derivation,present,outside,-⟩ := mem_downstreamOf.mp member
  rw [outsideOf,List.mem_filter]
  refine ⟨List.mem_map.mpr ⟨(name,derivation),?_,rfl⟩,by simpa using outside⟩
  exact Std.ExtTreeMap.mem_toList_iff_getElem?_eq_some.mpr present

theorem outsideOf_lt (something : downstreamOf derivations names ≠ []) :
    (outsideOf derivations
      (KeyMap.sortDedup compare (names ++ downstreamOf derivations names))).length <
        (outsideOf derivations names).length := by
  obtain ⟨name,member⟩ := List.exists_mem_of_ne_nil _ something
  have inside := downstreamOf_subset_outsideOf derivations names member
  have narrowed : outsideOf derivations
      (KeyMap.sortDedup compare (names ++ downstreamOf derivations names)) =
        (outsideOf derivations names).filter fun other =>
          other ∉ downstreamOf derivations names := by
    rw [outsideOf,outsideOf,List.filter_filter]
    refine List.filter_congr fun other _ => ?_
    simp only [KeyMap.mem_sortDedup,List.mem_append,not_or,Bool.decide_and]
    rw [Bool.and_comm]
  rw [narrowed]
  refine List.length_filter_lt_length_iff_exists.mpr ⟨name,inside,?_⟩
  simpa using member

theorem cascade_closed {rounds : Nat} (enough : (outsideOf derivations names).length ≤ rounds) :
    DownstreamClosed derivations (cascade derivations rounds names) := by
  induction rounds generalizing names with
  | zero =>
      refine downstreamClosed_of_nil (List.eq_nil_iff_forall_not_mem.mpr fun name member => ?_)
      have inside := downstreamOf_subset_outsideOf derivations names member
      rw [List.length_eq_zero_iff.mp (Nat.le_zero.mp enough)] at inside
      cases inside
  | succ rounds ih =>
      simp only [cascade]
      split
      · rename_i nothing
        exact downstreamClosed_of_nil (List.isEmpty_iff.mp nothing)
      · rename_i something
        have fewer := outsideOf_lt (fun nothing => something (List.isEmpty_iff.mpr nothing))
        exact ih (by omega)

theorem subset_cascade (derivations : StrMap DerivationDescriptor) (rounds : Nat)
    (names : List String) : names ⊆ cascade derivations rounds names := by
  induction rounds generalizing names with
  | zero => exact List.Subset.refl names
  | succ rounds ih =>
      simp only [cascade]
      split
      · exact List.Subset.refl names
      · intro name member
        exact ih _ (KeyMap.mem_sortDedup.mpr (List.mem_append_left _ member))

theorem cascade_descriptorCount_closed (registry : RegistryInner Expr) (names : List String) :
    DownstreamClosed registry.derivations
      (cascade registry.derivations (descriptorCount registry) names) := by
  refine cascade_closed ?_
  have lengthLe : (outsideOf registry.derivations names).length ≤
      registry.derivations.toList.length := by
    rw [← List.length_map (f := Prod.fst)]
    exact List.length_filter_le _ _
  rw [Std.ExtTreeMap.length_toList] at lengthLe
  unfold descriptorCount
  omega

theorem forceRemoved_closed (registry : RegistryInner Expr) (diff : RegisterDiff) :
    DownstreamClosed registry.derivations (forceRemoved registry diff) :=
  cascade_descriptorCount_closed registry (replacedNames diff)

theorem sourcesClosed_of_downstream (wellFormed : WellFormed env registry)
    (closed : DownstreamClosed registry.derivations names) : SourcesClosed names registry := by
  intro name agg compiled sourceRemoved
  obtain ⟨derivation,present,compiledFrom⟩ := wellFormed.derived compiled
  exact closed name derivation present
    ⟨agg.sourceNodeName,List.mem_of_mem_head? compiledFrom.source,sourceRemoved⟩

/-! ### Accepted calls -/

def RegisterCall.parsedNodes (call : RegisterCall) : List PayloadNode :=
  call.nodes.map PayloadNode.parsed

variable (env) in
def RegisterCall.removedNames (registry : RegistryInner Expr) (call : RegisterCall) :
    List String :=
  if call.force then
    forceRemoved registry (classifyRegisterDiff env.debugStr registry call.parsedNodes)
  else []

variable (env) in
def RegisterCall.remaining (registry : RegistryInner Expr) (call : RegisterCall) :
    RegistryInner Expr :=
  forceRemoveDescriptors registry (call.removedNames env registry)

/-- An accepted call that changed nothing. -/
structure NoopCall (env : Env Expr) (registry : RegistryInner Expr) (call : RegisterCall)
    (result : RegisterResult Expr) : Prop where
  notEmpty : call.parsedNodes ≠ []
  validated : ∃ validated, validatePayload env registry call.parsedNodes = .ok validated
  noneRemoved : call.removedNames env registry = []
  noneAdded : newDescriptorNames
    (classifyRegisterDiff env.debugStr registry call.parsedNodes) = []
  destructive : (classifyRegisterDiff env.debugStr registry call.parsedNodes).destructive = []
  unchanged : result.registry = registry
  notLogged : result.record = none

/-- An accepted call that was logged and applied. -/
structure AppliedCall (env : Env Expr) (registry : RegistryInner Expr) (call : RegisterCall)
    (validated : ValidatedPayload Expr) (result : RegisterResult Expr) : Prop where
  notEmpty : call.parsedNodes ≠ []
  accepted : validatePayload env (call.remaining env registry) call.parsedNodes = .ok validated
  applied : result.registry = applyRegistration env (call.remaining env registry) validated
  logged : result.record =
    some ⟨registry.version + 1,call.parsedNodes,call.removedNames env registry⟩
  destructive : call.removedNames env registry = [] →
    (classifyRegisterDiff env.debugStr registry call.parsedNodes).destructive = []
  someAdded : call.removedNames env registry = [] →
    newDescriptorNames (classifyRegisterDiff env.debugStr registry call.parsedNodes) ≠ []

theorem applyDurable_accepted
    {validated : ValidatedPayload Expr} (ok : validatePayload env registry nodes = .ok validated)
    {removed added alreadyPresent : List String} {version : Nat}
    (accepted : (applyDurable env registry validated ⟨version,nodes,removed⟩ added
      alreadyPresent).outcome.accepted = true) :
    ∃ applied, validatePayload env (forceRemoveDescriptors registry removed) nodes = .ok applied ∧
      (applyDurable env registry validated ⟨version,nodes,removed⟩ added
        alreadyPresent).registry =
          applyRegistration env (forceRemoveDescriptors registry removed) applied ∧
      (applyDurable env registry validated ⟨version,nodes,removed⟩ added
        alreadyPresent).record = some ⟨version,nodes,removed⟩ := by
  unfold applyDurable applyRegistryBump at accepted ⊢
  simp only at accepted ⊢
  cases isEmpty : removed with
  | nil => exact ⟨validated,ok,rfl,rfl⟩
  | cons name rest =>
      rw [isEmpty] at accepted
      simp only [List.isEmpty_cons,Bool.false_eq_true,if_false] at accepted ⊢
      cases again : validatePayload env (forceRemoveDescriptors registry (name :: rest)) nodes with
      | ok applied => exact ⟨applied,rfl,rfl,rfl⟩
      | error errors =>
          rw [again] at accepted
          cases accepted

theorem executeRegister_accepted {removed : List String}
    (accepted : (executeRegister env registry nodes removed append).outcome.accepted = true) :
    nodes ≠ [] ∧ ((∃ validated, validatePayload env registry nodes = .ok validated ∧ removed = [] ∧
      newDescriptorNames (classifyRegisterDiff env.debugStr registry nodes) = [] ∧
      (classifyRegisterDiff env.debugStr registry nodes).destructive = [] ∧
      (executeRegister env registry nodes removed append).registry = registry ∧
      (executeRegister env registry nodes removed append).record = none) ∨
    ∃ applied, validatePayload env (forceRemoveDescriptors registry removed) nodes = .ok applied ∧
      (executeRegister env registry nodes removed append).registry =
        applyRegistration env (forceRemoveDescriptors registry removed) applied ∧
      (executeRegister env registry nodes removed append).record =
        some ⟨registry.version + 1,nodes,removed⟩ ∧
      (removed = [] → (classifyRegisterDiff env.debugStr registry nodes).destructive = []) ∧
      (removed = [] →
        newDescriptorNames (classifyRegisterDiff env.debugStr registry nodes) ≠ [])) := by
  unfold executeRegister at accepted ⊢
  by_cases noNodes : nodes.isEmpty = true
  · rw [if_pos noNodes] at accepted
    cases accepted
  · rw [if_neg noNodes] at accepted ⊢
    refine ⟨fun isNil => noNodes (List.isEmpty_iff.mpr isNil),?_⟩
    cases ok : validatePayload env registry nodes with
    | error errors =>
        rw [ok] at accepted
        cases accepted
    | ok validated =>
        rw [ok] at accepted
        have nodesEq := validatePayload_nodes env ok
        simp only [nodesEq] at accepted ⊢
        split at accepted
        · cases accepted
        · rename_i gate
          rw [if_neg gate]
          have noDestructive : removed = [] →
              (classifyRegisterDiff env.debugStr registry nodes).destructive = [] := by
            intro noneRemoved
            simpa [noneRemoved] using gate
          generalize addedEq : (if removed.isEmpty = true then
            newDescriptorNames (classifyRegisterDiff env.debugStr registry nodes)
            else nodes.map PayloadNode.name) = added at accepted ⊢
          split at accepted
          · rename_i nothing
            rw [if_pos nothing]
            obtain ⟨noneAdded,noneRemoved⟩ := Bool.and_eq_true_iff.mp nothing
            rw [List.isEmpty_iff] at noneAdded noneRemoved
            subst noneRemoved
            exact .inl ⟨validated,rfl,rfl,addedEq.trans noneAdded,noDestructive rfl,rfl,rfl⟩
          · rename_i something
            rw [if_neg something]
            cases append with
            | notWritten => cases accepted
            | notSynced => cases accepted
            | durable =>
                obtain ⟨applied,again,registryEq,recordEq⟩ := applyDurable_accepted ok accepted
                refine .inr ⟨applied,again,registryEq,recordEq,noDestructive,?_⟩
                intro noneRemoved noneAdded
                subst noneRemoved
                have isEmpty : added = [] := addedEq.symm.trans noneAdded
                exact something (by rw [isEmpty]; rfl)

theorem dispatchRegister_accepted {call : RegisterCall}
    (accepted : (dispatchRegister env registry call append).outcome.accepted = true) :
    NoopCall env registry call (dispatchRegister env registry call append) ∨
      ∃ validated, AppliedCall env registry call validated
        (dispatchRegister env registry call append) := by
  unfold dispatchRegister at accepted ⊢
  simp only at accepted ⊢
  split at accepted
  · cases accepted
  · split at accepted
    · cases accepted
    · rename_i notDry
      split at accepted
      · cases accepted
      · rename_i gate
        rw [if_neg notDry,if_neg gate]
        obtain ⟨notEmpty,
          ⟨validated,ok,noneRemoved,noneAdded,destructive,registryEq,recordEq⟩ |
          ⟨applied,ok,registryEq,recordEq,destructive,someAdded⟩⟩ :=
            executeRegister_accepted accepted
        · exact .inl ⟨notEmpty,⟨validated,ok⟩,noneRemoved,noneAdded,destructive,registryEq,
            recordEq⟩
        · exact .inr ⟨applied,notEmpty,ok,registryEq,recordEq,destructive,someAdded⟩

theorem removedNames_closed (env : Env Expr) (registry : RegistryInner Expr)
    (call : RegisterCall) :
    DownstreamClosed registry.derivations (call.removedNames env registry) := by
  unfold RegisterCall.removedNames
  split
  · exact forceRemoved_closed registry _
  · rintro name derivation - ⟨upstream,-,inNil⟩
    cases inNil

section Remaining

variable {registry : RegistryInner Expr} (wellFormed : WellFormed env registry)
  (call : RegisterCall)

include wellFormed

theorem remaining_removed :
    Removed (call.removedNames env registry) registry (call.remaining env registry) :=
  forceRemoveDescriptors_removed (listed_of_wellFormed wellFormed) _

theorem removedNames_sourcesClosed :
    SourcesClosed (call.removedNames env registry) registry :=
  sourcesClosed_of_downstream wellFormed (removedNames_closed env registry call)

theorem remaining_wellFormed : WellFormed env (call.remaining env registry) :=
  (remaining_removed wellFormed call).wellFormed (removedNames_sourcesClosed wellFormed call)
    wellFormed

end Remaining

section Applied

variable {registry : RegistryInner Expr} {call : RegisterCall}
  {validated : ValidatedPayload Expr} {result : RegisterResult Expr}
  (applied : AppliedCall env registry call validated result)

include applied

theorem AppliedCall.validates :
    Accepted env (call.remaining env registry) call.parsedNodes validated :=
  validatePayload_ok env applied.notEmpty applied.accepted

theorem AppliedCall.bumpApplied :
    applyRegistryBump env registry
      ⟨registry.version + 1,call.parsedNodes,call.removedNames env registry⟩ =
        (result.registry,.ok ()) := by
  have accepted := applied.accepted
  rw [RegisterCall.remaining] at accepted
  simp only [applyRegistryBump,accepted,applied.applied,RegisterCall.remaining]

theorem AppliedCall.wellFormedAfter (wellFormed : WellFormed env registry) :
    WellFormed env result.registry := by
  rw [applied.applied]
  exact applyRegistration_wellFormed (remaining_wellFormed wellFormed call) applied.validates

theorem AppliedCall.chainsAfter (wellFormed : WellFormed env registry)
    (chains : ChainsExact env registry) : ChainsExact env result.registry := by
  rw [applied.applied]
  exact applyRegistration_chainsExact (remaining_wellFormed wellFormed call) applied.validates
    ((remaining_removed wellFormed call).chainsExact chains)

theorem AppliedCall.registered (wellFormed : WellFormed env registry) :
    Registered (call.remaining env registry) result.registry := by
  rw [applied.applied]
  exact applyRegistration_registered (remaining_wellFormed wellFormed call) applied.validates

end Applied

end Beava.Server
