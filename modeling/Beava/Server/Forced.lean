/-
A forced register is judged twice.

The payload is validated against the registry before the removal, and the bump
validates it again against what the removal leaves.  The two judgements agree
on a payload that one of them accepts exactly when what the payload reads
stays, and what is removed was not in its way.
-/

import Beava.Registry.Judgement
import Beava.Server.Recovery
import Beava.Server.Representation

namespace Beava.Server

open Beava.Core Beava.Apply Beava.Registry

variable {Expr : Type}

def RegisteredAsTable (registry : RegistryInner Expr) (name : String) : Prop :=
  registry.tables.contains name = true ∨
    ∃ derivation, registry.derivations[name]? = some derivation ∧ derivation.outputKind = .table

def UpstreamsRedeclared (names : List String) (payload : List PayloadNode) : Prop :=
  ∀ derivation, .derivation derivation ∈ payload → ∀ upstream ∈ derivation.upstreams,
    upstream ∈ names → upstream ∈ payload.map PayloadNode.name

/-- No `group_by` reads a name that is removed as a table. -/
def SourcesFree (registry : RegistryInner Expr) (names : List String)
    (payload : List PayloadNode) : Prop :=
  ∀ derivation, .derivation derivation ∈ payload → derivation.hasGroupBy = true →
    ∀ upstream, derivation.upstreams.head? = some upstream → upstream ∈ names →
      ¬ RegisteredAsTable registry upstream

/-- No feature is taken over from another aggregation that is removed. -/
def FeaturesFree (registry : RegistryInner Expr) (names : List String)
    (compiled : List (String × AggregationDescriptor Expr)) : Prop :=
  ∀ entry ∈ compiled, ∀ feature ∈ entry.2.features, ∀ owner position,
    registry.featureIndex[feature.featureName]? = some (owner,position) → owner ∈ names →
      owner = entry.1

/-- What the payload reads of the registry stays when the names are removed, and
the names are not in the way of the payload. -/
structure ReadsWhatStays (env : Env Expr) (registry : RegistryInner Expr) (names : List String)
    (payload : List PayloadNode) : Prop where
  upstreams : UpstreamsRedeclared names payload
  sources : SourcesFree registry names payload
  features : FeaturesFree registry names
    (payloadAggregations env (forceRemoveDescriptors registry names) payload)
  acyclic : ∀ name ∈ names, ¬ OnCycle (overlayGraph payload registry) name

variable {env : Env Expr}

theorem isTable_iff {upstream : String} {payload : List PayloadNode}
    {current : RegistryInner Expr} :
    upstreamIsTable upstream payload current = true ↔
      RegisteredAsTable current upstream ∨
        (payload.any fun node =>
          match node with
          | .table table => table.name = upstream
          | .derivation derivation => derivation.name = upstream && derivation.outputKind = .table
          | .event _ => false) = true := by
  rw [upstreamIsTable,Bool.or_eq_true,Bool.or_eq_true,RegisteredAsTable]
  refine or_congr (or_congr Iff.rfl ?_) Iff.rfl
  cases current.derivations[upstream]? with
  | none => simp
  | some derivation => simp

section Removal

variable {registry remaining : RegistryInner Expr} {names : List String}
  {payload : List PayloadNode} (removed : Removed names registry remaining)
variable {name : String}

include removed

theorem Removed.overlay_eq (stays : name ∉ names) :
    (overlayGraph payload remaining)[name]? = (overlayGraph payload registry)[name]? := by
  rw [overlayGraph_lookup,overlayGraph_lookup,removed.derivations,if_neg stays]

theorem Removed.edge {upstream : String}
    (edge : Edge (overlayGraph payload remaining) name upstream) :
    Edge (overlayGraph payload registry) name upstream := by
  by_cases gone : name ∈ names
  · obtain ⟨upstreams,found,isUpstream⟩ := edge_iff.mp edge
    rw [overlayGraph_lookup,removed.derivations,if_pos gone,Option.map_none,
      Option.or_none] at found
    refine edge_iff.mpr ⟨upstreams,?_,isUpstream⟩
    rw [overlayGraph_lookup,found,Option.some_or]
  · rw [edge_iff,← removed.overlay_eq gone,← edge_iff]
    exact edge

theorem Removed.onCycle (onCycle : OnCycle (overlayGraph payload remaining) name) :
    OnCycle (overlayGraph payload registry) name :=
  Relation.TransGen.mono (fun _ _ => removed.edge) _ _ onCycle

theorem Removed.onCycle_stays (stay : ∀ name ∈ names,¬ OnCycle (overlayGraph payload registry) name)
    (onCycle : OnCycle (overlayGraph payload registry) name) :
    OnCycle (overlayGraph payload remaining) name := by
  have path : ∀ {other : String},
      Relation.TransGen (Edge (overlayGraph payload registry)) name other →
      Relation.ReflTransGen (Edge (overlayGraph payload registry)) other name →
      Relation.TransGen (Edge (overlayGraph payload remaining)) name other := by
    have kept : ∀ {first second : String}, OnCycle (overlayGraph payload registry) first →
        Edge (overlayGraph payload registry) first second →
        Edge (overlayGraph payload remaining) first second := by
      intro first second firstOnCycle edge
      rw [edge_iff,removed.overlay_eq fun gone => stay first gone firstOnCycle,← edge_iff]
      exact edge
    intro other forth
    induction forth with
    | single edge => exact fun _ => .single (kept onCycle edge)
    | tail forth edge ih =>
        intro back
        have closed := Relation.ReflTransGen.head edge back
        exact (ih closed).tail (kept (Relation.TransGen.trans_right closed forth) edge)
  exact path onCycle .refl

theorem Removed.readAlike (stay : UpstreamsRedeclared names payload) :
    ∀ derivation, .derivation derivation ∈ payload → ∀ upstream ∈ derivation.upstreams,
      ReadAlike payload registry remaining upstream := by
  intro derivation member upstream isUpstream
  by_cases gone : upstream ∈ names
  · exact readAlike_of_declared (stay derivation member upstream isUpstream gone)
  · refine readAlike_of_same ?_ ?_ ?_
    · rw [removed.events,if_neg gone]
    · rw [removed.tables,if_neg gone]
    · rw [removed.derivations,if_neg gone]

theorem Removed.registeredAsTable_iff (name : String) :
    RegisteredAsTable remaining name ↔ name ∉ names ∧ RegisteredAsTable registry name := by
  simp only [RegisteredAsTable,Std.ExtTreeMap.contains_eq_isSome_getElem?,removed.tables,
    removed.derivations]
  by_cases gone : name ∈ names
  · simp [gone]
  · simp [gone]

theorem Removed.upstreamIsTable_iff (upstream : String) :
    upstreamIsTable upstream payload registry = true ↔
      upstreamIsTable upstream payload remaining = true ∨
        upstream ∈ names ∧ RegisteredAsTable registry upstream := by
  rw [isTable_iff,isTable_iff,removed.registeredAsTable_iff]
  by_cases gone : upstream ∈ names
  · simp only [gone,not_true_eq_false,false_and,true_and,false_or]
    exact or_comm
  · simp [gone]

/-- Without the names there are fewer tables, so that the sources of a payload
are read alike once one of the judgements has passed them. -/
theorem Removed.sourcesNotTables_iff :
    SourcesNotTables payload registry ↔
      SourcesNotTables payload remaining ∧ SourcesFree registry names payload := by
  simp only [SourcesNotTables,SourcesFree,← Bool.not_eq_true,removed.upstreamIsTable_iff,not_or,not_and]
  constructor
  · intro sources
    exact ⟨fun derivation member hasGroupBy upstream isSource =>
        (sources derivation member hasGroupBy upstream isSource).1,
      fun derivation member hasGroupBy upstream isSource =>
        (sources derivation member hasGroupBy upstream isSource).2⟩
  · rintro ⟨notTables,notRemoved⟩ derivation member hasGroupBy upstream isSource
    exact ⟨notTables derivation member hasGroupBy upstream isSource,
      notRemoved derivation member hasGroupBy upstream isSource⟩

end Removal

/-- The features of a payload are unclaimed before the removal if they are
afterwards and none is taken over. -/
theorem featuresUnclaimed_iff {registry remaining : RegistryInner Expr} {names : List String}
    (index : ∀ feature : String, remaining.featureIndex[feature]? =
      registry.featureIndex[feature]?.filter fun owner => owner.1 ∉ names)
    {compiled : List (String × AggregationDescriptor Expr)} :
    FeaturesUnclaimed registry compiled ↔
      FeaturesUnclaimed remaining compiled ∧ FeaturesFree registry names compiled := by
  simp only [FeaturesUnclaimed,FeaturesFree,index,Option.filter_eq_some_iff,decide_eq_true_eq]
  constructor
  · intro unclaimed
    exact ⟨fun entry member feature inFeatures owner position indexed =>
        unclaimed entry member feature inFeatures owner position indexed.1,
      fun entry member feature inFeatures owner position indexed _ =>
        unclaimed entry member feature inFeatures owner position indexed⟩
  · rintro ⟨stays,notTaken⟩ entry member feature inFeatures owner position indexed
    by_cases gone : owner ∈ names
    · exact notTaken entry member feature inFeatures owner position indexed gone
    · exact stays entry member feature inFeatures owner position ⟨indexed,gone⟩

section Judgements

variable {registry : RegistryInner Expr} {names : List String} {payload : List PayloadNode}
  (removed : Removed names registry (forceRemoveDescriptors registry names))
  (stay : UpstreamsRedeclared names payload)

include removed

theorem upstreams_of_validates
    (valid : Validates env (forceRemoveDescriptors registry names) payload) :
    UpstreamsRedeclared names payload := by
  intro derivation member upstream isUpstream gone
  have notEmpty : payload ≠ [] := List.ne_nil_of_mem member
  have known := ((validates_iff env notEmpty).mp valid).2.1 derivation member upstream isUpstream
  rw [Bool.or_eq_true,removed.known_iff,List.contains_iff_mem] at known
  exact known.resolve_right fun stays => stays.1 gone

theorem acyclic_iff :
    (∀ name, ¬ OnCycle (overlayGraph payload registry) name) ↔
      (∀ name, ¬ OnCycle (overlayGraph payload (forceRemoveDescriptors registry names)) name) ∧
        ∀ name ∈ names, ¬ OnCycle (overlayGraph payload registry) name := by
  constructor
  · intro acyclic
    exact ⟨fun name onCycle => acyclic name (removed.onCycle onCycle),fun name _ => acyclic name⟩
  · rintro ⟨acyclic,offNames⟩ name onCycle
    exact acyclic name (removed.onCycle_stays offNames onCycle)

include stay

theorem upstreamsKnown_iff {derivation : DerivationDescriptor}
    (member : .derivation derivation ∈ payload) :
    UpstreamsKnown payload registry derivation ↔
      UpstreamsKnown payload (forceRemoveDescriptors registry names) derivation := by
  refine forall₂_congr fun upstream isUpstream => ?_
  simp only [Bool.or_eq_true,removed.known_iff,List.contains_iff_mem]
  by_cases gone : upstream ∈ names
  · simp [stay derivation member upstream isUpstream gone]
  · simp [gone]

theorem aggregations_iff (features : FeaturesExact registry) (listed : Listed registry)
    {propagated : List (String × Schema)} :
    (compileAggregationsFromNodes env payload registry propagated).2 = [] ↔
      (compileAggregationsFromNodes env payload (forceRemoveDescriptors registry names)
          propagated).2 = [] ∧
        SourcesFree registry names payload ∧
        FeaturesFree registry names (compileAggregationsFromNodes env payload
          (forceRemoveDescriptors registry names) propagated).1 := by
  have alike := removed.readAlike stay
  have index := forceRemoveDescriptors_featureIndex listed features names
  have compiled : SourcesNotTables payload registry →
      SourcesNotTables payload (forceRemoveDescriptors registry names) →
      ((compileAggregationsFromNodes env payload registry propagated).2 = [] ↔
        (compileAggregationsFromNodes env payload (forceRemoveDescriptors registry names)
          propagated).2 = [] ∧
        FeaturesFree registry names (compileAggregationsFromNodes env payload
          (forceRemoveDescriptors registry names) propagated).1) := by
    intro sources remainingSources
    have sameNodes : payload.zipIdx.filterMap (compiledOf env payload registry propagated) =
        payload.zipIdx.filterMap (compiledOf env payload (forceRemoveDescriptors registry names)
          propagated) := compiledNodes_congr alike sources remainingSources
    have sameCompiled : (compileAggregationsFromNodes env payload registry propagated).1 =
        (compileAggregationsFromNodes env payload (forceRemoveDescriptors registry names)
          propagated).1 := by
      rw [compileAggregations_fst,compileAggregations_fst,sameNodes]
    rw [compileAggregations_nil_iff,compileAggregations_nil_iff,sameNodes,sameCompiled,
      featuresUnclaimed_iff index,and_assoc,and_assoc]
  constructor
  · intro noErrors
    have sources := sourcesNotTables_of_noErrors (compileAggregations_nil_iff.mp noErrors).1
    obtain ⟨remainingSources,notRemoved⟩ := removed.sourcesNotTables_iff.mp sources
    obtain ⟨after,notTaken⟩ := (compiled sources remainingSources).mp noErrors
    exact ⟨after,notRemoved,notTaken⟩
  · rintro ⟨after,notRemoved,notTaken⟩
    have remainingSources :=
      sourcesNotTables_of_noErrors (compileAggregations_nil_iff.mp after).1
    have sources := removed.sourcesNotTables_iff.mpr ⟨remainingSources,notRemoved⟩
    exact (compiled sources remainingSources).mpr ⟨after,notTaken⟩

/-- When what the payload reads stays, the judgement before the removal asks
for more: the names must not be in the way. -/
theorem validates_before_iff (features : FeaturesExact registry) (listed : Listed registry)
    (notEmpty : payload ≠ []) :
    Validates env registry payload ↔
      Validates env (forceRemoveDescriptors registry names) payload ∧
        ReadsWhatStays env registry names payload := by
  have sameExpressions := validateExpressions_congr env (removed.readAlike stay)
  rw [validates_iff env notEmpty,validates_iff env notEmpty,acyclic_iff removed,
    sameExpressions,aggregations_iff removed stay features listed]
  constructor
  · rintro ⟨rules,known,⟨acyclic,offNames⟩,expressions,aggregations,sources,notTaken⟩
    exact ⟨⟨rules,fun derivation member =>
        (upstreamsKnown_iff removed stay member).mp (known derivation member),acyclic,
        expressions,aggregations⟩,stay,sources,notTaken,offNames⟩
  · rintro ⟨⟨rules,known,acyclic,expressions,aggregations⟩,reads⟩
    exact ⟨rules,fun derivation member =>
        (upstreamsKnown_iff removed stay member).mpr (known derivation member),
      ⟨acyclic,reads.acyclic⟩,expressions,aggregations,reads.sources,reads.features⟩

end Judgements

variable (env) in
def RegisterCall.bump (registry : RegistryInner Expr) (call : RegisterCall) : RegistryBump :=
  ⟨registry.version + 1,call.parsedNodes,call.removedNames env registry⟩

variable (env) in
def Applies (registry : RegistryInner Expr) (bump : RegistryBump) : Prop :=
  (applyRegistryBump env registry bump).2 = .ok ()

structure JudgedAsApplied (env : Env Expr) (registry : RegistryInner Expr) (call : RegisterCall) :
    Prop where
  alike : Validates env registry call.parsedNodes ↔ Applies env registry (call.bump env registry)
  replays : ∀ append bump, (dispatchRegister env registry call append).record = some bump →
    Applies env registry bump ∧
      (append = .durable → applyRegistryBump env registry bump =
        ((dispatchRegister env registry call append).registry,.ok ()))
  unavailable : ∀ append version,
    (dispatchRegister env registry call append).outcome = .walUnavailable version →
      (dispatchRegister env registry call append).registry = registry

/-- A payload that one of the judgements accepts reads what stays. -/
def ReadsWhatStaysIfValid (env : Env Expr) (registry : RegistryInner Expr) (call : RegisterCall) :
    Prop :=
  call.parsedNodes ≠ [] →
    Validates env registry call.parsedNodes ∨
      Validates env (call.remaining env registry) call.parsedNodes →
    ReadsWhatStays env registry (call.removedNames env registry) call.parsedNodes

theorem applies_bump_iff {registry : RegistryInner Expr} {call : RegisterCall} :
    Applies env registry (call.bump env registry) ↔
      Validates env (call.remaining env registry) call.parsedNodes := by
  simp only [Applies,RegisterCall.bump,applyRegistryBump,Validates,RegisterCall.remaining]
  cases validatePayload env (forceRemoveDescriptors registry (call.removedNames env registry))
      call.parsedNodes with
  | ok validated => simp
  | error errors => simp

section Call

variable {registry : RegistryInner Expr} {call : RegisterCall}

/-- The call refuses a bump that is in the log and can be durable later. -/
structure LeavesGhost (env : Env Expr) (registry : RegistryInner Expr) (call : RegisterCall)
    (append : AppendOutcome) : Prop where
  notSynced : append = .notSynced
  validates : Validates env registry call.parsedNodes
  written : (dispatchRegister env registry call append).record = some (call.bump env registry)

theorem unchanged_or_applied
    (alike : Validates env registry call.parsedNodes ↔
      Validates env (call.remaining env registry) call.parsedNodes) (append : AppendOutcome) :
    ((dispatchRegister env registry call append).registry = registry ∧
      ((dispatchRegister env registry call append).record = none ∨
        LeavesGhost env registry call append)) ∨
    ∃ validated, AppliedCall env registry call validated
        (dispatchRegister env registry call append) ∧
      (dispatchRegister env registry call append).outcome.accepted = true := by
  cases outcome : (dispatchRegister env registry call append).outcome.accepted with
  | false =>
      rcases dispatchRegister_refused outcome with
        ⟨unchanged,notLogged | ⟨notSynced,validates,written⟩⟩ | failed
      · exact .inl ⟨unchanged,.inl notLogged⟩
      · exact .inl ⟨unchanged,.inr ⟨notSynced,validates,written⟩⟩
      · exact absurd (alike.mp failed.validates) failed.failed
  | true =>
      rcases dispatchRegister_accepted outcome with noop | ⟨validated,applied⟩
      · exact .inl ⟨noop.unchanged,.inl noop.notLogged⟩
      · exact .inr ⟨validated,applied,rfl⟩

theorem judgedAsApplied_of_alike
    (alike : Validates env registry call.parsedNodes ↔
      Validates env (call.remaining env registry) call.parsedNodes) :
    JudgedAsApplied env registry call := by
  refine ⟨alike.trans applies_bump_iff.symm,?_,?_⟩
  · intro append bump logged
    rcases unchanged_or_applied alike append with
      ⟨-,notLogged | ghost⟩ | ⟨validated,applied,-⟩
    · rw [notLogged] at logged
      cases logged
    · rw [ghost.written] at logged
      cases logged
      refine ⟨applies_bump_iff.mpr (alike.mp ghost.validates),fun durable => ?_⟩
      rw [ghost.notSynced] at durable
      cases durable
    · rw [applied.logged] at logged
      cases logged
      exact ⟨congrArg Prod.snd applied.bumpApplied,fun _ => applied.bumpApplied⟩
  · intro append version isUnavailable
    rcases unchanged_or_applied alike append with ⟨unchanged,-⟩ | ⟨validated,-,accepted⟩
    · exact unchanged
    · rw [isUnavailable] at accepted
      cases accepted

theorem judged_iff (wellFormed : WellFormed env registry) (features : FeaturesExact registry) :
    JudgedAsApplied env registry call ↔ ReadsWhatStaysIfValid env registry call := by
  have listed := listed_of_wellFormed wellFormed
  have removed := remaining_removed wellFormed call
  constructor
  · intro judged notEmpty valid
    have alike := judged.alike.trans applies_bump_iff
    have after : Validates env (call.remaining env registry) call.parsedNodes :=
      valid.elim alike.mp id
    have stay := upstreams_of_validates removed after
    exact ((validates_before_iff removed stay features listed notEmpty).mp (alike.mpr after)).2
  · intro reads
    refine judgedAsApplied_of_alike ?_
    by_cases notEmpty : call.parsedNodes = []
    · rw [notEmpty]
      exact ⟨fun _ => ⟨_,rfl⟩,fun _ => ⟨_,rfl⟩⟩
    · constructor
      · intro before
        have stays := reads notEmpty (.inl before)
        exact ((validates_before_iff removed stays.upstreams features listed notEmpty).mp before).1
      · intro after
        have stays := reads notEmpty (.inr after)
        exact (validates_before_iff removed stays.upstreams features listed notEmpty).mpr
          ⟨after,stays⟩

end Call

section Runs

variable {Op : Type} {ops : Operators Expr Op}

def JudgedAction (env : Env Expr) (live : Live Expr Op) : Action → Prop
  | .register call append =>
      ReadsWhatStaysIfValid env live.registry call ∧ append ≠ .notSynced
  | .push .. => True

/-- The durable bumps rebuild the registry. -/
structure Replays (env : Env Expr) (live : Live Expr Op) : Prop where
  reached : Reached env live.registry
  replayed : replayBumps env .empty live.bumps = .ok live.registry

theorem replays_start (env : Env Expr) : Replays env (Live.start : Live Expr Op) :=
  ⟨reached_empty,rfl⟩

theorem Replays.step {live : Live Expr Op} {action : Action} (replays : Replays env live)
    (judged : JudgedAction env live action) : Replays env (live.next env ops action) := by
  cases action with
  | push eventName row nowMs =>
      simp only [Live.next]
      cases pushError live.registry eventName row with
      | none => exact ⟨replays.reached,replays.replayed⟩
      | some _ => exact replays
  | register call append =>
      refine ⟨replays.reached.step call append,?_⟩
      have judgedAlike :=
        (judged_iff replays.reached.wellFormed replays.reached.features).mpr judged.1
      simp only [Live.next]
      rcases unchanged_or_applied (judgedAlike.alike.trans applies_bump_iff) append with
        ⟨unchanged,notLogged | ghost⟩ | ⟨validated,applied,-⟩
      · rw [unchanged,notLogged,Option.toList_none,List.append_nil]
        exact replays.replayed
      · exact absurd ghost.notSynced judged.2
      · rw [applied.logged,replayBumps_append replays.replayed]
        exact replayBumps_applied applied

end Runs

def streamCall : RegisterCall := ⟨[sampleEvent "E",sampleStream "S" "E"],false,false⟩

def redeclaringCall : RegisterCall :=
  ⟨[sampleEvent "E",sampleTable "S" "E" [] "s" "last" "x",
    sampleTable "A" "E" [] "a" "last" "y"],true,false⟩

def redeclaringRun : List Action := [.register streamCall .durable,.register redeclaringCall .durable]

abbrev streamRegistry : RegistryInner Empty := registryRun sampleEnv [.register streamCall.nodes]

def omittingCall : RegisterCall := ⟨[sampleStream "D" "E"],true,false⟩

end Beava.Server
