/-
The apply loop and the declared pipeline.

A derivation that ends in a `group_by` declares a pipeline: the operators before
it turn a pushed row into another row, and keys, fields and predicates are read
from that row.  The loop reads the entity key and the resolved fields from the
pushed row instead, so it computes the pipeline when the two rows agree there.
-/

import Beava.Server.Push

namespace Beava.Server

open Beava.Core Beava.Apply Beava.Registry

variable {Expr Op : Type} (env : Env Expr) (ops : Operators Expr Op)
variable {agg : AggregationDescriptor Expr} {registry : RegistryInner Expr}
variable {derivation : DerivationDescriptor} {live : Live Expr Op}

structure Pipeline where
  name : String
  source : String
  prefixOps : List OpNode
  keys : List String
  specs : StrMap AggSpec

namespace Pipeline

/-- The derivation declares the pipeline: its `group_by` is its last operator and
the only one. -/
structure DeclaredBy (pipeline : Pipeline) (derivation : DerivationDescriptor) : Prop where
  name : derivation.name = pipeline.name
  source : derivation.upstreams.head? = some pipeline.source
  opsEq : derivation.ops = pipeline.prefixOps ++ [.groupBy pipeline.keys pipeline.specs]
  rowOps : ∀ op ∈ pipeline.prefixOps, op.isGroupBy = false

instance (pipeline : Pipeline) (derivation : DerivationDescriptor) :
    Decidable (pipeline.DeclaredBy derivation) :=
  decidable_of_iff
    (derivation.name = pipeline.name ∧ derivation.upstreams.head? = some pipeline.source ∧
      derivation.ops = pipeline.prefixOps ++ [.groupBy pipeline.keys pipeline.specs] ∧
      ∀ op ∈ pipeline.prefixOps, op.isGroupBy = false)
    ⟨fun ⟨name,source,opsEq,rowOps⟩ => ⟨name,source,opsEq,rowOps⟩,
      fun declaredBy => ⟨declaredBy.1,declaredBy.2,declaredBy.3,declaredBy.4⟩⟩

def rowAfter (pipeline : Pipeline) (row : Row) : Option Row :=
  match compileOps env 0 pipeline.prefixOps with
  | .ok compiled => OpChain.apply env ⟨compiled⟩ row
  | .error _ => none

def aggregation (pipeline : Pipeline) : AggregationDescriptor Expr :=
  { nodeName := pipeline.name
    sourceNodeName := pipeline.source
    groupKeys := pipeline.keys
    features := pipeline.specs.toList.filterMap (featureOfSpec env)
    aggId := 0
    fieldNames := []
    clusterId := 0 }

def inputFrom (row : Row) (nowMs : Int64) (descriptor : AggOpDescriptor Expr) : OpInput :=
  let access := fieldAccess descriptor.kind
  { value := if access = .preVal ∨ access = .byName then fieldByName descriptor row else none
    lat := if access = .geo then row.get (latName descriptor) else none
    lon := if access = .geo then row.get (lonName descriptor) else none
    nowMs := nowMs
    whereMatched := whereMatched env descriptor row }

/-- What a push does to the table: the row after the operators names the entity
and gives every operator its input. -/
def step (pipeline : Pipeline) (coldAfterMs : Option Nat) (table : AggStateTable Op)
    (push : Row × Int64) : AggStateTable Op :=
  match pipeline.rowAfter env push.1 with
  | none => table
  | some row =>
      match EntityKeyShape.fromRow env pipeline.keys row with
      | none => table
      | some shape =>
          updateTable ops (pipeline.aggregation env) (inputFrom env row push.2) shape push.2
            coldAfterMs table

end Pipeline

/-- The fields of a feature that the loop takes from the pushed row once the
aggregation is resolved. -/
def resolvedFields (descriptor : AggOpDescriptor Expr) : List String :=
  match fieldAccess descriptor.kind with
  | .preVal => descriptor.field.toList
  | .geo =>
      match descriptor.ext.latField, descriptor.ext.lonField with
      | some lat, some lon => [lat,lon]
      | _, _ => []
  | _ => []

/-- The pushed row has the entity key of the row after the chain and, when the
schema of the event has all fields the aggregation names, its values of the
fields that are read early. -/
def ViewsAgree (schema : Schema) (agg : AggregationDescriptor Expr) (row aggRow : Row) : Prop :=
  EntityKeyShape.fromRow env agg.groupKeys row = EntityKeyShape.fromRow env agg.groupKeys aggRow ∧
    ((missingField agg schema).isNone = true → ∀ feature ∈ agg.features,
      ∀ field ∈ resolvedFields feature.descriptor, row.get field = aggRow.get field)

instance (schema : Schema) (agg : AggregationDescriptor Expr) (row aggRow : Row) :
    Decidable (ViewsAgree env schema agg row aggRow) :=
  inferInstanceAs (Decidable (_ ∧ _))

/-- The condition on a step, for the derivation `name`: a registration keeps the
fields of every source in a byte and has no collision of key signatures, and on
a pushed row of the source of `name` the views agree. -/
def ReadsFaithfully (name : String) (live : Live Expr Op) : Action → Prop
  | .register call append =>
      FieldsWithinByte (dispatchRegister env live.registry call append).registry ∧
        SignaturesExact env (dispatchRegister env live.registry call append).registry
  | .push eventName row _ =>
      ∀ agg ∈ live.registry.compiledAggregations[name]?, agg.sourceNodeName = eventName →
        ∀ event ∈ live.registry.events[eventName]?, ∀ aggRow ∈ chainRow env live.registry name row,
          ViewsAgree env event.schema agg row aggRow

instance (name : String) (live : Live Expr Op) :
    ∀ action, Decidable (ReadsFaithfully env name live action)
  | .register call append =>
      inferInstanceAs (Decidable
        (FieldsWithinByte (dispatchRegister env live.registry call append).registry ∧
          SignaturesExact env (dispatchRegister env live.registry call append).registry))
  | .push eventName _ _ =>
      inferInstanceAs (Decidable
        (∀ agg ∈ live.registry.compiledAggregations[name]?, agg.sourceNodeName = eventName → _))

def Keeps (name : String) (live : Live Expr Op) : Action → Prop
  | .register call _ => name ∉ call.removedNames env live.registry
  | .push .. => True

instance (name : String) (live : Live Expr Op) : ∀ action, Decidable (Keeps env name live action)
  | .register call _ => inferInstanceAs (Decidable (name ∉ call.removedNames env live.registry))
  | .push .. => inferInstanceAs (Decidable True)

def pushesTo (source : String) (actions : List Action) : List (Row × Int64) :=
  actions.filterMap fun action =>
    match action with
    | .push eventName row nowMs => if eventName = source then some (row,nowMs) else none
    | .register .. => none

variable {env ops}

theorem readInput_unresolved (descriptor : AggOpDescriptor Expr) (row aggRow : Row)
    (nowMs : Int64) :
    readInput env false descriptor row aggRow nowMs =
      Pipeline.inputFrom env aggRow nowMs descriptor := by
  unfold readInput Pipeline.inputFrom
  cases fieldAccess descriptor.kind <;> simp [fieldValue,readCoordinates]

theorem readInput_eq_inputFrom {descriptor : AggOpDescriptor Expr} {row aggRow : Row}
    (agree : ∀ field ∈ resolvedFields descriptor, row.get field = aggRow.get field)
    (nowMs : Int64) :
    readInput env true descriptor row aggRow nowMs =
      Pipeline.inputFrom env aggRow nowMs descriptor := by
  rw [← readInput_unresolved descriptor row aggRow nowMs]
  unfold resolvedFields at agree
  unfold readInput
  cases access : fieldAccess descriptor.kind with
  | fieldless => simp [fieldValue]
  | byName => simp [fieldValue]
  | preVal =>
      rw [access] at agree
      have sameField : fieldByName descriptor row = fieldByName descriptor aggRow := by
        unfold fieldByName
        cases hasField : descriptor.field with
        | none => rfl
        | some field => exact agree field (by simp [hasField])
      simp [fieldValue,sameField]
  | geo =>
      rw [access] at agree
      have sameCoordinates : readCoordinates true descriptor row aggRow =
          readCoordinates false descriptor row aggRow := by
        unfold readCoordinates latName lonName
        cases hasLat : descriptor.ext.latField with
        | none => simp
        | some lat =>
            cases hasLon : descriptor.ext.lonField with
            | none => simp
            | some lon =>
                have sameLat := agree lat (by simp [hasLat,hasLon])
                have sameLon := agree lon (by simp [hasLat,hasLon])
                simp [sameLat,sameLon]
      simp [fieldValue,sameCoordinates]

theorem updateTable_congr
    {first second : AggOpDescriptor Expr → OpInput}
    (same : ∀ feature ∈ agg.features,
      first (declared feature.descriptor) = second (declared feature.descriptor))
    (shape : EntityKeyShape) (nowMs : Int64) (coldAfterMs : Option Nat)
    (table : AggStateTable Op) :
    updateTable ops (aggCore agg) first shape nowMs coldAfterMs table =
      updateTable ops (aggCore agg) second shape nowMs coldAfterMs table := by
  have firstEq := @updateTable_core _ _ ops agg (fun descriptor => second (declared descriptor))
    first same shape nowMs coldAfterMs table
  exact firstEq.trans (updateTable_core ops (fun _ _ => rfl) shape nowMs coldAfterMs table).symm

section Declared

variable {pipeline : Pipeline} {derivation : DerivationDescriptor}
  (declaredBy : pipeline.DeclaredBy derivation)

include declaredBy

theorem Pipeline.DeclaredBy.rowOps_eq : derivation.rowOps = pipeline.prefixOps := by
  rw [DerivationDescriptor.rowOps,declaredBy.opsEq,List.filter_append,
    List.filter_eq_self.mpr fun op member => by simp [declaredBy.rowOps op member]]
  simp [OpNode.isGroupBy]

theorem Pipeline.DeclaredBy.core_eq {agg : AggregationDescriptor Expr}
    (compiled : CompiledFrom env derivation agg) : aggCore agg = pipeline.aggregation env := by
  obtain ⟨opIdx,specs,atOp,features⟩ := compiled.groupBy
  have isLast : OpNode.groupBy agg.groupKeys specs = .groupBy pipeline.keys pipeline.specs := by
    have member := List.mem_of_getElem? atOp
    rw [declaredBy.opsEq] at member
    rcases List.mem_append.mp member with inPrefix | isLast
    · cases declaredBy.rowOps _ inPrefix
    · exact List.mem_singleton.mp isLast
  injection isLast with keysEq specsEq
  have featuresEq : agg.features.map declaredFeature =
      pipeline.specs.toList.filterMap (featureOfSpec env) := by
    have unwrapped := congrArg (List.filterMap id) features
    rw [List.filterMap_map,List.filterMap_map,Function.id_comp,Function.id_comp,
      List.filterMap_some] at unwrapped
    rw [← specsEq,unwrapped]
  have sourceEq : agg.sourceNodeName = pipeline.source := by
    have sameHead := compiled.source.symm.trans declaredBy.source
    exact Option.some.inj sameHead
  rw [aggCore,Pipeline.aggregation,← featuresEq,← keysEq,← sourceEq,← declaredBy.name,
    ← compiled.nodeName]

end Declared

variable {pipeline : Pipeline}

theorem chainRow_eq_rowAfter (chains : ChainsExact env registry)
    (declaredBy : pipeline.DeclaredBy derivation)
    (stored : registry.derivations[pipeline.name]? = some derivation) (row : Row) :
    chainRow env registry pipeline.name row = pipeline.rowAfter env row := by
  have hasUpstream : derivation.upstreams ≠ [] := by
    intro noUpstream
    have source := declaredBy.source
    rw [noUpstream] at source
    cases source
  obtain ⟨compiled,compiledOk⟩ := chains.compiles stored hasUpstream
  have isChain := chains.chain pipeline.name
  rw [stored,Option.bind_some] at isChain
  rw [declaredBy.rowOps_eq] at compiledOk
  simp only [chainRow,Pipeline.rowAfter,compiledOk]
  by_cases noOps : pipeline.prefixOps = []
  · have noChain : declaredChain env derivation = none := by
      rw [declaredChain,declaredBy.rowOps_eq,noOps,List.isEmpty_nil,Bool.or_true,if_pos rfl]
    rw [noOps] at compiledOk
    cases compiledOk
    rw [isChain,noChain]
    rfl
  · have declaredOps := declaredChain_of_ok hasUpstream (by rw [declaredBy.rowOps_eq]; exact noOps)
      (by rw [declaredBy.rowOps_eq]; exact compiledOk)
    rw [isChain,declaredOps]

theorem meaning_step_eq (chains : ChainsExact env registry)
    (declaredBy : pipeline.DeclaredBy derivation)
    (stored : registry.derivations[pipeline.name]? = some derivation)
    (compiledFrom : CompiledFrom env derivation agg)
    {event : EventDescriptor} (isEvent : registry.events[pipeline.source]? = some event)
    {row : Row}
    (agree : ∀ aggRow ∈ chainRow env registry pipeline.name row,
      ViewsAgree env event.schema agg row aggRow)
    (nowMs : Int64) (coldAfterMs : Option Nat) (table : AggStateTable Op) :
    (meaningOf registry agg).step env ops row nowMs coldAfterMs table =
      pipeline.step env ops coldAfterMs table (row,nowMs) := by
  have core := declaredBy.core_eq compiledFrom
  have keysEq : agg.groupKeys = pipeline.keys := congrArg AggregationDescriptor.groupKeys core
  have nameEq : agg.nodeName = pipeline.name := congrArg AggregationDescriptor.nodeName core
  have sourceEq : agg.sourceNodeName = pipeline.source :=
    congrArg AggregationDescriptor.sourceNodeName core
  have rowEq : (meaningOf registry agg).chainRow env row = pipeline.rowAfter env row := by
    rw [← chainRow_eq_rowAfter chains declaredBy stored,← nameEq]
    rfl
  have resolvedEq : resolvedIn registry agg = (missingField agg event.schema).isNone := by
    rw [resolvedIn,sourceEq,isEvent]
  simp only [Meaning.step,Pipeline.step,rowEq]
  cases after : pipeline.rowAfter env row with
  | none => rfl
  | some aggRow =>
      obtain ⟨sameKey,sameFields⟩ := agree aggRow (by
        rw [chainRow_eq_rowAfter chains declaredBy stored,after]
        rfl)
      have keyEq : EntityKeyShape.fromRow env (meaningOf registry agg).core.groupKeys row =
          EntityKeyShape.fromRow env pipeline.keys aggRow := by
        rw [← keysEq,← sameKey]
        rfl
      simp only [keyEq]
      cases EntityKeyShape.fromRow env pipeline.keys aggRow with
      | none => rfl
      | some shape =>
          simp only
          rw [← core]
          refine updateTable_congr (fun feature member => ?_) shape nowMs coldAfterMs table
          rw [readInput_declared]
          show readInput env (resolvedIn registry agg) feature.descriptor row aggRow nowMs =
            Pipeline.inputFrom env aggRow nowMs feature.descriptor
          rw [resolvedEq]
          cases isResolved : (missingField agg event.schema).isNone with
          | false => exact readInput_unresolved feature.descriptor row aggRow nowMs
          | true => exact readInput_eq_inputFrom (sameFields isResolved feature member) nowMs

structure Sound (env : Env Expr) (live : Live Expr Op) : Prop where
  wellFormed : WellFormed env live.registry
  chains : ChainsExact env live.registry
  signatures : SignaturesExact env live.registry
  blank : ∀ aggId, live.registry.nextAggId ≤ aggId →
    StateTables.tableAt live.tables aggId = AggStateTable.new

theorem sound_start : Sound env (Live.start : Live Expr Op) where
  wellFormed := wellFormed_empty env
  chains := chainsExact_empty
  signatures first member := by
    have present := Std.ExtTreeMap.mem_toList_iff_getElem?_eq_some.mp member
    simp [Live.start,RegistryInner.empty] at present
  blank _ _ := rfl

structure Computes (env : Env Expr) (ops : Operators Expr Op) (pipeline : Pipeline)
    (event : EventDescriptor) (pushes : List (Row × Int64)) (live : Live Expr Op) : Prop where
  stored : ∃ derivation, live.registry.derivations[pipeline.name]? = some derivation ∧
    pipeline.DeclaredBy derivation
  isEvent : live.registry.events[pipeline.source]?.map eventCore = some (eventCore event)
  reads : ∀ {agg : AggregationDescriptor Expr},
    live.registry.compiledAggregations[pipeline.name]? = some agg → Reads env live.registry agg
  table : ∀ {agg : AggregationDescriptor Expr},
    live.registry.compiledAggregations[pipeline.name]? = some agg →
      StateTables.tableAt live.tables agg.aggId =
        pushes.foldl (pipeline.step env ops event.coldAfterMs) AggStateTable.new

theorem Sound.push (sound : Sound env live) (eventName : String) (row : Row) (nowMs : Int64) :
    Sound env (live.next env ops (.push eventName row nowMs)) := by
  simp only [Live.next]
  cases pushError live.registry eventName row with
  | some code => exact sound
  | none =>
      refine ⟨sound.wellFormed,sound.chains,sound.signatures,fun aggId unused => ?_⟩
      exact (applyEvent_blank sound.wellFormed sound.signatures unused _ _ _ _ _).trans
        (sound.blank aggId unused)

theorem Sound.register (sound : Sound env live) {call : RegisterCall} {append : AppendOutcome}
    (accepted : AcceptedAction env live (.register call append))
    (signatures : SignaturesExact env (dispatchRegister env live.registry call append).registry) :
    Sound env (live.next env ops (.register call append)) := by
  have wellFormed := sound.wellFormed
  rcases dispatchRegister_accepted accepted with noop | ⟨validated,applied⟩
  · simp only [Live.next,noop.unchanged]
    refine ⟨wellFormed,sound.chains,sound.signatures,fun aggId unused => ?_⟩
    exact (StateTables.tableAt_ensureCapacityFor _ _ _).trans (sound.blank aggId unused)
  · have registered := applied.registered wellFormed
    have nextLe : live.registry.nextAggId ≤
        (dispatchRegister env live.registry call append).registry.nextAggId := by
      rw [← (remaining_removed wellFormed call).nextAggId]
      exact registered.nextAggId
    refine ⟨applied.wellFormedAfter wellFormed,applied.chainsAfter wellFormed sound.chains,
      signatures,fun aggId unused => ?_⟩
    exact (StateTables.tableAt_ensureCapacityFor _ _ _).trans
      (sound.blank aggId (Nat.le_trans nextLe unused))

theorem Sound.step (sound : Sound env live) {name : String} {action : Action}
    (condition : AcceptedAction env live action ∧ ReadsFaithfully env name live action) :
    Sound env (live.next env ops action) := by
  cases action with
  | register call append => exact sound.register condition.1 condition.2.2
  | push eventName row nowMs => exact sound.push eventName row nowMs

section Steps

variable {pipeline : Pipeline} {event : EventDescriptor} {live : Live Expr Op}
  {pushes : List (Row × Int64)}
variable {call : RegisterCall} {validated : ValidatedPayload Expr} {append : AppendOutcome}

theorem Computes.push (sound : Sound env live)
    (computes : Computes env ops pipeline event pushes live) {eventName : String} {row : Row}
    {nowMs : Int64} (accepted : AcceptedAction env live (.push eventName row nowMs))
    (faithful : ReadsFaithfully env pipeline.name live (.push eventName row nowMs)) :
    Computes env ops pipeline event (pushes ++ pushesTo pipeline.source [.push eventName row nowMs])
      (live.next env ops (.push eventName row nowMs)) := by
  have notRefused : pushError live.registry eventName row = none := accepted
  simp only [Live.next,notRefused]
  refine ⟨computes.stored,computes.isEvent,computes.reads,fun {agg} compiled => ?_⟩
  obtain ⟨derivation,stored,declaredBy⟩ := computes.stored
  obtain ⟨found,foundStored,compiledFrom⟩ := sound.wellFormed.derived compiled
  rw [stored] at foundStored
  cases foundStored
  have sourceEq : agg.sourceNodeName = pipeline.source :=
    congrArg AggregationDescriptor.sourceNodeName (declaredBy.core_eq compiledFrom)
  obtain ⟨current,isCurrent,currentCore⟩ := Option.map_eq_some_iff.mp computes.isEvent
  have coldEq : coldAfterMsOf live.registry pipeline.source = event.coldAfterMs := by
    have sameCold : (eventCore current).coldAfterMs = (eventCore event).coldAfterMs := by
      rw [currentCore]
    rw [coldAfterMsOf,isCurrent]
    exact sameCold
  rw [applyEvent_table sound.wellFormed sound.signatures compiled (computes.reads compiled),
    computes.table compiled,sourceEq,List.foldl_append]
  by_cases sameSource : eventName = pipeline.source
  · subst sameSource
    have agree : ∀ aggRow ∈ chainRow env live.registry pipeline.name row,
        ViewsAgree env current.schema agg row aggRow :=
      fun aggRow isRow => faithful agg compiled sourceEq current isCurrent aggRow isRow
    rw [if_pos rfl,coldEq,meaning_step_eq sound.chains declaredBy stored compiledFrom isCurrent
      agree]
    simp [pushesTo]
  · rw [if_neg sameSource]
    simp [pushesTo,sameSource]

/-- The aggregation of the pipeline reads right after a registration if it did,
or was not there, before. -/
theorem AppliedCall.readsAfter (wellFormed : WellFormed env live.registry)
    {result : RegisterResult Expr}
    (applied : AppliedCall env live.registry call validated result)
    (within : FieldsWithinByte result.registry) {name : String}
    (before : ∀ {agg : AggregationDescriptor Expr},
      (call.remaining env live.registry).compiledAggregations[name]? = some agg →
        Reads env (call.remaining env live.registry) agg ∧
          ((call.remaining env live.registry).events[agg.sourceNodeName]?).isSome = true)
    {agg : AggregationDescriptor Expr}
    (compiled : result.registry.compiledAggregations[name]? = some agg) :
    Reads env result.registry agg := by
  have remainingOk := remaining_wellFormed wellFormed call
  have nameEq := (applied.wellFormedAfter wellFormed).named compiled
  have fits := fieldsFit_of_withinByte within
  rw [applied.applied] at fits compiled ⊢
  have readsNamed : agg.nodeName = name → Reads env
      (applyRegistration env (call.remaining env live.registry) validated) agg := by
    refine applyRegistration_all remainingOk applied.validates
      (fun registry found => found.nodeName = name → Reads env registry found)
      (fun reads _ => reads) (fun reads sameEvent named => reads_congr (reads named) sameEvent)
      ?_ fits compiled
    intro other old oldCompiled named
    have otherEq : other = name := (remainingOk.named oldCompiled).symm.trans named
    subst otherEq
    obtain ⟨reads,isEvent⟩ := before oldCompiled
    obtain ⟨event,present⟩ := Option.isSome_iff_exists.mp isEvent
    obtain ⟨-,installed⟩ := installNodes_spec remainingOk applied.validates
    exact reads_congr reads ((installed.events present).trans present.symm)
  exact readsNamed nameEq

theorem Computes.noop (computes : Computes env ops pipeline event pushes live)
    (noop : NoopCall env live.registry call (dispatchRegister env live.registry call append)) :
    Computes env ops pipeline event pushes (live.next env ops (.register call append)) := by
  simp only [Live.next,noop.unchanged]
  refine ⟨computes.stored,computes.isEvent,computes.reads,fun compiled => ?_⟩
  exact (StateTables.tableAt_ensureCapacityFor _ _ _).trans (computes.table compiled)

theorem Computes.applied (sound : Sound env live)
    (computes : Computes env ops pipeline event pushes live)
    (applied : AppliedCall env live.registry call validated
      (dispatchRegister env live.registry call append))
    (within : FieldsWithinByte (dispatchRegister env live.registry call append).registry)
    (keeps : pipeline.name ∉ call.removedNames env live.registry) :
    Computes env ops pipeline event pushes (live.next env ops (.register call append)) := by
  have wellFormed := sound.wellFormed
  have removed := remaining_removed wellFormed call
  have closed := removedNames_sourcesClosed wellFormed call
  have registered := applied.registered wellFormed
  obtain ⟨derivation,stored,declaredBy⟩ := computes.stored
  have remains : (call.remaining env live.registry).derivations[pipeline.name]? =
      some derivation := by
    rw [removed.derivations,if_neg keeps]
    exact stored
  have sourceKept : pipeline.source ∉ call.removedNames env live.registry := by
    intro sourceRemoved
    exact keeps (removedNames_closed env live.registry call pipeline.name derivation stored
      ⟨pipeline.source,List.mem_of_mem_head? declaredBy.source,sourceRemoved⟩)
  obtain ⟨current,isCurrent,currentCore⟩ := Option.map_eq_some_iff.mp computes.isEvent
  have currentRemains : (call.remaining env live.registry).events[pipeline.source]? =
      some current := by
    rw [removed.events,if_neg sourceKept]
    exact isCurrent
  have readsBefore : ∀ {agg : AggregationDescriptor Expr},
      (call.remaining env live.registry).compiledAggregations[pipeline.name]? = some agg →
        Reads env (call.remaining env live.registry) agg ∧
          ((call.remaining env live.registry).events[agg.sourceNodeName]?).isSome = true := by
    intro agg compiled
    obtain ⟨-,compiledBefore,sameEvent⟩ := removed.survivor closed compiled
    obtain ⟨found,foundStored,compiledFrom⟩ := wellFormed.derived compiledBefore
    rw [stored] at foundStored
    cases foundStored
    have sourceEq : agg.sourceNodeName = pipeline.source :=
      congrArg AggregationDescriptor.sourceNodeName (declaredBy.core_eq compiledFrom)
    refine ⟨reads_congr (computes.reads compiledBefore) sameEvent,?_⟩
    rw [sourceEq,currentRemains]
    rfl
  refine ⟨⟨derivation,registered.derivations remains,declaredBy⟩,?_,
    fun compiled => applied.readsAfter wellFormed within readsBefore compiled,
    fun {agg} compiled => ?_⟩
  · exact (registered.events currentRemains).trans (congrArg some currentCore)
  · refine (StateTables.tableAt_ensureCapacityFor _ _ _).trans ?_
    cases before : (call.remaining env live.registry).compiledAggregations[pipeline.name]? with
    | none =>
        obtain ⟨-,isNew,-⟩ := registered.newAggs compiled before
        exact nomatch isNew.symm.trans remains
    | some old =>
        obtain ⟨later,compiledLater,same⟩ := registered.aggs before
        have sameLater := Option.some.inj (compiledLater.symm.trans compiled)
        subst sameLater
        rw [same.aggId]
        exact computes.table (removed.survivor closed before).2.1

theorem Computes.start (sound : Sound env live)
    (accepted : AcceptedAction env live (.register call append))
    (within : FieldsWithinByte (dispatchRegister env live.registry call append).registry)
    (isNew : (call.remaining env live.registry).derivations[pipeline.name]? = none)
    {derivation : DerivationDescriptor}
    (stored : (live.next env ops (.register call append)).registry.derivations[pipeline.name]? =
      some derivation)
    (declaredBy : pipeline.DeclaredBy derivation)
    (isEvent : (live.next env ops (.register call append)).registry.events[pipeline.source]? =
      some event) :
    Computes env ops pipeline event [] (live.next env ops (.register call append)) := by
  have wellFormed := sound.wellFormed
  rcases dispatchRegister_accepted accepted with noop | ⟨validated,applied⟩
  · -- Nothing was installed, so the derivation was there before.
    have unchanged : call.remaining env live.registry = live.registry := by
      rw [RegisterCall.remaining,noop.noneRemoved]
      rfl
    simp only [Live.next,noop.unchanged] at stored
    rw [unchanged] at isNew
    cases isNew.symm.trans stored
  · have registered := applied.registered wellFormed
    have noAgg := (remaining_wellFormed wellFormed call).notCompiled isNew
    refine ⟨⟨derivation,stored,declaredBy⟩,by rw [isEvent]; rfl,
      fun compiled => applied.readsAfter wellFormed within
        (by intro _ before; cases noAgg.symm.trans before) compiled,
      fun {agg} compiled => ?_⟩
    obtain ⟨idLe,-⟩ := registered.newAggs compiled noAgg
    rw [(remaining_removed wellFormed call).nextAggId] at idLe
    exact (StateTables.tableAt_ensureCapacityFor _ _ _).trans (sound.blank agg.aggId idLe)

theorem Computes.step (sound : Sound env live)
    (computes : Computes env ops pipeline event pushes live) {action : Action}
    (condition : AcceptedAction env live action ∧ ReadsFaithfully env pipeline.name live action)
    (keeps : Keeps env pipeline.name live action) :
    Computes env ops pipeline event (pushes ++ pushesTo pipeline.source [action])
      (live.next env ops action) := by
  cases action with
  | push eventName row nowMs => exact computes.push sound condition.1 condition.2
  | register call append =>
      have noPush : pushesTo pipeline.source [.register call append] = [] := rfl
      rw [noPush,List.append_nil]
      rcases dispatchRegister_accepted condition.1 with noop | ⟨validated,applied⟩
      · exact computes.noop noop
      · exact computes.applied sound applied condition.2.1 keeps

theorem pushesTo_cons (source : String) (action : Action) (rest : List Action) :
    pushesTo source (action :: rest) = pushesTo source [action] ++ pushesTo source rest := by
  rw [pushesTo,pushesTo,pushesTo,← List.filterMap_append,List.singleton_append]

theorem Computes.run (sound : Sound env live)
    (computes : Computes env ops pipeline event pushes live) {actions : List Action}
    (meets : Machine.Meets (Live.next env ops) (fun live action =>
      AcceptedAction env live action ∧ ReadsFaithfully env pipeline.name live action) live actions)
    (kept : Machine.Meets (Live.next env ops) (Keeps env pipeline.name) live actions) :
    Computes env ops pipeline event (pushes ++ pushesTo pipeline.source actions)
      (Machine.run (Live.next env ops) live actions) := by
  induction actions generalizing live pushes with
  | nil =>
      rw [pushesTo,List.filterMap_nil,List.append_nil]
      exact computes
  | cons action rest ih =>
      rw [pushesTo_cons,← List.append_assoc]
      exact ih (sound.step meets.1) (computes.step sound meets.1 kept.1) meets.2 kept.2

end Steps

/-- The call registers a derivation that declares the pipeline; its source is an
event. -/
structure RegisteredBy (env : Env Expr) (ops : Operators Expr Op) (pipeline : Pipeline)
    (event : EventDescriptor) (live : Live Expr Op) (call : RegisterCall) (append : AppendOutcome) :
    Prop where
  isNew : (call.remaining env live.registry).derivations[pipeline.name]? = none
  stored : ∃ derivation ∈
    (live.next env ops (.register call append)).registry.derivations[pipeline.name]?,
      pipeline.DeclaredBy derivation
  isEvent : (live.next env ops (.register call append)).registry.events[pipeline.source]? =
    some event

/-- From its registration on, the table of an aggregation is the fold of the
declared pipeline over the pushes of its source, as long as no later call removes
the derivation, every registration keeps fields and signatures apart, and on every
pushed row the views agree. -/
theorem table_is_pipeline_fold (env : Env Expr) (ops : Operators Expr Op) (pipeline : Pipeline)
    (event : EventDescriptor) (before after : List Action) (call : RegisterCall) (append : AppendOutcome)
    (meets : Machine.Meets (Live.next env ops) (fun live action =>
      AcceptedAction env live action ∧ ReadsFaithfully env pipeline.name live action) Live.start
        (before ++ [.register call append] ++ after))
    (registeredBy : RegisteredBy env ops pipeline event
      (Machine.run (Live.next env ops) Live.start before) call append)
    (kept : Machine.Meets (Live.next env ops) (Keeps env pipeline.name)
      (Machine.run (Live.next env ops) Live.start (before ++ [.register call append])) after)
    (agg : AggregationDescriptor Expr)
    (compiled : (Machine.run (Live.next env ops) Live.start
      (before ++ [.register call append] ++ after)).registry.compiledAggregations[pipeline.name]? =
        some agg) :
    StateTables.tableAt (Machine.run (Live.next env ops) Live.start
        (before ++ [.register call append] ++ after)).tables agg.aggId =
      (pushesTo pipeline.source after).foldl (pipeline.step env ops event.coldAfterMs)
        AggStateTable.new := by
  rw [Machine.meets_append] at meets
  obtain ⟨meetsRegistered,meetsAfter⟩ := meets
  rw [Machine.meets_append] at meetsRegistered
  obtain ⟨meetsBefore,meetsHere,-⟩ := meetsRegistered
  have sound : Sound env (Machine.run (Live.next env ops) Live.start before) :=
    @Machine.invariant_run _ _ (Live.next env ops) _ (Sound env)
      (fun _ _ holds condition => holds.step condition) _ _ sound_start meetsBefore
  obtain ⟨derivation,stored,declaredBy⟩ := registeredBy.stored
  have start := Computes.start sound meetsHere.1 meetsHere.2.1 registeredBy.isNew stored
    declaredBy registeredBy.isEvent
  rw [Machine.run_append] at compiled ⊢
  rw [Machine.run_append] at kept meetsAfter compiled ⊢
  have computes := start.run (sound.step meetsHere) meetsAfter kept
  exact computes.table compiled

/-- The table `A` of the event `E` with the given operators before its
`group_by`. -/
def samplePipeline (prefixOps : List OpNode) : Pipeline :=
  { name := "A"
    source := "E"
    prefixOps := prefixOps
    keys := ["k"]
    specs := .ofList [("a",AggSpec.mk "last" (.object [("field",.string "x")]))] }

def samplePipelineCall (prefixOps : List OpNode) : RegisterCall :=
  ⟨[sampleEvent "E",sampleTable "A" "E" prefixOps "a" "last" "x"],false,false⟩

def sampleStoredEvent : EventDescriptor :=
  { name := "E"
    schema := ⟨.ofList sampleColumns,[]⟩
    dedupeKey := none
    dedupeWindowMs := none
    keepEventsForMs := none
    coldAfterMs := none
    registeredAtVersion := 1
    applyFieldNames := ["x"] }

def samplePushes : List Action :=
  [.push "E" (sampleRow "u" 1 2) 10,.push "E" (sampleRow "v" 3 4) 20,
   .push "E" (sampleRow "u" 5 6) 30]

/-- The operators drop a column that the table does not read. -/
theorem table_is_pipeline_fold_dropping :
    ∃ agg : AggregationDescriptor Empty, StateTables.tableAt
        (Machine.run (Live.next sampleEnv sampleOps) Live.start
          ([.register (samplePipelineCall [.drop ["y"]]) .durable] ++ samplePushes)).tables agg.aggId =
      (pushesTo "E" samplePushes).foldl
        ((samplePipeline [.drop ["y"]]).step sampleEnv sampleOps none) AggStateTable.new := by
  have isCompiled : ((Machine.run (Live.next sampleEnv sampleOps) Live.start
      ([] ++ [.register (samplePipelineCall [.drop ["y"]]) .durable] ++
        samplePushes)).registry.compiledAggregations["A"]?).isSome = true := by
    decide
  obtain ⟨agg,compiled⟩ := Option.isSome_iff_exists.mp isCompiled
  exact ⟨agg,table_is_pipeline_fold sampleEnv sampleOps (samplePipeline [.drop ["y"]])
    sampleStoredEvent [] samplePushes (samplePipelineCall [.drop ["y"]]) .durable (by decide)
    ⟨by decide,by decide,by decide⟩ (by decide) agg compiled⟩

/-- The operators swap two columns: the loop keeps the `x` of the pushed row, the
pipeline the `x` of the row after the swap. -/
theorem swappingRun_not_pipeline_fold :
    Machine.Meets (Live.next sampleEnv sampleOps) (AcceptedAction sampleEnv) Live.start
      ([.register (samplePipelineCall swapColumns) .durable] ++ samplePushes) ∧
    RegisteredBy sampleEnv sampleOps (samplePipeline swapColumns) sampleStoredEvent Live.start
      (samplePipelineCall swapColumns) .durable ∧
    Machine.Meets (Live.next sampleEnv sampleOps) (Keeps sampleEnv "A")
      (Machine.run (Live.next sampleEnv sampleOps) Live.start
        [.register (samplePipelineCall swapColumns) .durable]) samplePushes ∧
    ∃ agg, (Machine.run (Live.next sampleEnv sampleOps) Live.start
        ([.register (samplePipelineCall swapColumns) .durable] ++
          samplePushes)).registry.compiledAggregations["A"]? = some agg ∧
      StateTables.tableAt (Machine.run (Live.next sampleEnv sampleOps) Live.start
          ([.register (samplePipelineCall swapColumns) .durable] ++ samplePushes)).tables agg.aggId ≠
        (pushesTo "E" samplePushes).foldl
          ((samplePipeline swapColumns).step sampleEnv sampleOps none) AggStateTable.new := by
  refine ⟨by decide,⟨by decide,by decide,by decide⟩,
    by decide,?_⟩
  have isCompiled : (Machine.run (Live.next sampleEnv sampleOps) Live.start
      ([.register (samplePipelineCall swapColumns) .durable] ++
        samplePushes)).registry.compiledAggregations["A"]?.map AggregationDescriptor.aggId =
        some 0 := by
    decide
  obtain ⟨agg,compiled,isFirst⟩ := Option.map_eq_some_iff.mp isCompiled
  refine ⟨agg,compiled,fun same => ?_⟩
  rw [isFirst] at same
  have sameEntity := congrArg (fun table => table.rows.get (.singleStr "u")) same
  exact absurd sameEntity (by decide)

end Beava.Server
