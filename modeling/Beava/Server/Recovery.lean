/-
Recovery from the logs gives the state of the live run.

A push that is accepted leaves a record with its body in the log of the events.
Recovery replays all bumps first and then all events: it reads each body again,
with a reader of its own, and applies the row to the final registry, but only for
the aggregations that were registered when the event was pushed.

The proof follows the run.  After every step the replay of all events over the
registry then in force gives, for every aggregation in it, the live table: a push
adds one event that every aggregation of its source accepts, and a registration
adds aggregations that no earlier event belongs to and leaves the meaning of the
others as it was.
-/

import Beava.Core.Deserialize
import Beava.Server.Dedupe
import Beava.Server.Push

namespace Beava.Server

open Beava.Core Beava.Apply Beava.Registry Beava.Wal

variable {call : RegisterCall} {append : AppendOutcome}

/-! ### The log of the events -/

/-- The readers of bodies, by their format: `sonic_rs` and `rmp_serde` at a push,
`serde_json` and `rmp_serde` at a recovery. -/
structure Readers where
  live : UInt8 → List UInt8 → Option Row
  recovery : UInt8 → List UInt8 → Option Row

structure EventRecord where
  lsn : Nat
  bodyFormat : UInt8
  rv : Nat
  etMs : Int64
  eventName : String
  body : List UInt8

structure LoggedServer (Expr Op : Type) where
  live : Live Expr Op
  committed : Nat
  events : List EventRecord

inductive LoggedAction where
  | register (call : RegisterCall) (append : AppendOutcome)
  | push (request : PushRequest) (nowMs : Int64) (durableLsn : Nat)

section Log

variable {Expr Op : Type} (env : Env Expr) (ops : Operators Expr Op) (readers : Readers)

namespace LoggedServer

def start : LoggedServer Expr Op := ⟨.start,0,[]⟩

variable (server : LoggedServer Expr Op)

/-- `expected_ack_lsn`. -/
def ackLsn (request : PushRequest) (durableLsn : Nat) : Nat :=
  saturatingAddU64 (max server.committed durableLsn) (PushServer.payloadLen request)

def next : LoggedAction → LoggedServer Expr Op
  | .register call append =>
      { server with live := server.live.next env ops (.register call append) }
  | .push request nowMs durableLsn =>
      match request.row readers.live with
      | none => server
      | some row =>
          match pushError server.live.registry request.eventName row with
          | some _ => server
          | none =>
              let lsn := server.ackLsn request durableLsn
              { live := server.live.next env ops (.push request.eventName row nowMs)
                committed := lsn
                events := server.events ++
                  [⟨lsn,request.bodyFormat,server.live.registry.version % 2 ^ 32,nowMs,
                    request.eventName,request.body⟩] }

def Accepted : LoggedAction → Prop
  | .register call append => AcceptedAction env server.live (.register call append)
  | .push request _ _ =>
      (request.row readers.live).any (fun row =>
        (pushError server.live.registry request.eventName row).isNone) = true

instance : ∀ action, Decidable (server.Accepted env readers action)
  | .register call append =>
      inferInstanceAs (Decidable (AcceptedAction env server.live (.register call append)))
  | .push _ _ _ => inferInstanceAs (Decidable (_ = true))

end LoggedServer

inductive WalQuarantineKind where
  | handrolledMsgpackBody
  | handrolledJsonBody
  deriving DecidableEq

def quarantineKind (bodyFormat : UInt8) : WalQuarantineKind :=
  if bodyFormat = ctMsgpack then .handrolledMsgpackBody else .handrolledJsonBody

structure Replay (Op : Type) where
  tables : StateTables Op
  quarantined : List (Nat × WalQuarantineKind)

/-- A body that recovery cannot read is put into quarantine and its record left
out. -/
def replayEvent (registry : RegistryInner Expr) (fromLsn : Nat) (replay : Replay Op)
    (record : EventRecord) : Replay Op :=
  let marker := (record.lsn,quarantineKind record.bodyFormat)
  if record.lsn ≤ fromLsn then replay
  else if replay.quarantined.contains marker then replay
  else
    match readers.recovery record.bodyFormat record.body with
    | none => { replay with quarantined := replay.quarantined ++ [marker] }
    | some row =>
        { replay with
          tables := applyEventReplay env ops registry record.eventName row record.etMs record.rv
            (coldAfterMsOf registry record.eventName) replay.tables }

/-- The loop of `replay_handrolled_wal_dir`. -/
def replayEvents (registry : RegistryInner Expr) (fromLsn : Nat) (events : List EventRecord)
    (replay : Replay Op) : Replay Op :=
  events.foldl (replayEvent env ops readers registry fromLsn) replay

/-- Recovery of an empty server from the two logs. -/
def recover (bumps : List RegistryBump) (events : List EventRecord) :
    Except String (RegistryInner Expr × StateTables Op) := do
  let registry ← replayBumps env .empty bumps
  return (registry,(replayEvents env ops readers registry 0 events
    ⟨StateTables.ensureCapacityFor [] registry.nextAggId,[]⟩).tables)

/-- Recovery succeeds and every aggregation has the states of the live run. -/
def RecoveryMatches (server : LoggedServer Expr Op) : Prop :=
  ∃ registry tables,
    recover env ops readers server.live.bumps server.events = .ok (registry,tables) ∧
    ∀ name, entityStates registry tables name =
      entityStates server.live.registry server.live.tables name

end Log

/-! ### Replay of one table -/

variable {Expr Op : Type} {env : Env Expr} {ops : Operators Expr Op} {readers : Readers}

def stampOf (registry : RegistryInner Expr) (agg : AggregationDescriptor Expr) : Nat :=
  (registry.derivations[agg.nodeName]?.map DerivationDescriptor.registeredAtVersion).getD 0

def replayStep (env : Env Expr) (ops : Operators Expr Op) (readers : Readers)
    (meaning : Meaning Expr) (coldAfterMs : Option Nat) (stamp : Nat) (table : AggStateTable Op)
    (record : EventRecord) : AggStateTable Op :=
  if record.eventName = meaning.core.sourceNodeName ∧ stamp ≤ record.rv then
    match readers.recovery record.bodyFormat record.body with
    | some row => meaning.step env ops row record.etMs coldAfterMs table
    | none => table
  else table

/-- The record is behind the start of the log, and recovery reads its body. -/
structure Readable (readers : Readers) (record : EventRecord) : Prop where
  numbered : 0 < record.lsn
  isRead : ∃ row, readers.recovery record.bodyFormat record.body = some row

section Replay

variable {registry : RegistryInner Expr} (wellFormed : WellFormed env registry)
  (exact_ : SignaturesExact env registry) {name : String} {agg : AggregationDescriptor Expr}
  (compiled : registry.compiledAggregations[name]? = some agg)
  (reads : Apply.Reads env registry agg)

include wellFormed compiled

theorem mem_aggregationsForSourceAtRv {source : String} {rv : Nat} :
    agg ∈ registry.aggregationsForSourceAtRv source rv ↔
      source = agg.sourceNodeName ∧ stampOf registry agg ≤ rv := by
  obtain ⟨derivation,present,-⟩ := wellFormed.derived compiled
  rw [← wellFormed.named compiled] at present
  rw [RegistryInner.aggregationsForSourceAtRv,List.mem_filter,
    mem_aggregationsForSource wellFormed compiled,stampOf,present]
  simp

include exact_ reads

theorem replayEvent_table (tables : StateTables Op) {record : EventRecord}
    (readable : Readable readers record) :
    ∃ after, replayEvent env ops readers registry 0 ⟨tables,[]⟩ record = ⟨after,[]⟩ ∧
      StateTables.tableAt after agg.aggId =
        replayStep env ops readers (meaningOf registry agg)
          (coldAfterMsOf registry agg.sourceNodeName) (stampOf registry agg)
          (StateTables.tableAt tables agg.aggId) record := by
  obtain ⟨numbered,row,isRead⟩ := readable
  have sublist : List.Sublist (registry.aggregationsForSourceAtRv record.eventName record.rv)
      (registry.aggregationsForSource record.eventName) := List.filter_sublist
  have behind : ¬record.lsn ≤ 0 := Nat.not_le.mpr numbered
  simp only [replayEvent,if_neg behind,List.contains_nil,Bool.false_eq_true,if_false,isRead]
  refine ⟨_,rfl,?_⟩
  unfold replayStep
  split
  · rename_i belongs
    have member := (mem_aggregationsForSourceAtRv wellFormed compiled).mpr belongs
    rw [applyEventReplay,
      applyEventWithDescs_of_mem wellFormed sublist exact_ compiled _ _ _ _ reads member,
      belongs.1,isRead]
    rfl
  · rename_i foreign
    have notMember : agg ∉ registry.aggregationsForSourceAtRv record.eventName record.rv :=
      fun member => foreign ((mem_aggregationsForSourceAtRv wellFormed compiled).mp member)
    exact applyEventWithDescs_of_notMem wellFormed sublist exact_ compiled _ _ _ _ notMember

theorem replayEvents_table {events : List EventRecord}
    (readable : ∀ record ∈ events, Readable readers record) (tables : StateTables Op) :
    StateTables.tableAt (replayEvents env ops readers registry 0 events ⟨tables,[]⟩).tables
        agg.aggId =
      events.foldl
        (replayStep env ops readers (meaningOf registry agg)
          (coldAfterMsOf registry agg.sourceNodeName) (stampOf registry agg))
        (StateTables.tableAt tables agg.aggId) := by
  induction events generalizing tables with
  | nil => rfl
  | cons record rest ih =>
      obtain ⟨after,next,table⟩ := @replayEvent_table _ _ _ ops readers _ wellFormed exact_ _ _
        compiled reads tables record (readable record List.mem_cons_self)
      rw [replayEvents,List.foldl_cons,List.foldl_cons,← table,next]
      exact ih (fun other member => readable other (List.mem_cons_of_mem record member)) after

end Replay

/-- No event of the payload takes the name of something that is no event and
that a remaining aggregation reads. -/
def NoTakeover (remaining : RegistryInner Expr) (nodes : List PayloadNode) : Prop :=
  ∀ node ∈ nodes, node.kindStr = "event" → remaining.events.contains node.name = false →
    ∀ entry ∈ remaining.compiledAggregations.toList, entry.2.sourceNodeName ≠ node.name

/-- The condition on a step: the version fits the 32 bits of an event record and
recovery reads the pushed row in the body, and a registration takes over no source,
keeps the fields of every source in a byte and has no collision of key signatures. -/
def Recoverable (env : Env Expr) (readers : Readers) (server : LoggedServer Expr Op) :
    LoggedAction → Prop
  | .register call append =>
      NoTakeover (call.remaining env server.live.registry) call.parsedNodes ∧
        FieldsWithinByte (dispatchRegister env server.live.registry call append).registry ∧
        SignaturesExact env (dispatchRegister env server.live.registry call append).registry
  | .push request _ _ =>
      server.live.registry.version < 2 ^ 32 ∧
        ∀ row ∈ request.row readers.live,
          readers.recovery request.bodyFormat request.body = some row

instance (remaining : RegistryInner Expr) (nodes : List PayloadNode) :
    Decidable (NoTakeover remaining nodes) :=
  inferInstanceAs (Decidable (∀ node ∈ nodes, _))

instance (env : Env Expr) (readers : Readers) (server : LoggedServer Expr Op) :
    ∀ action, Decidable (Recoverable env readers server action)
  | .register call append =>
      inferInstanceAs (Decidable
        (NoTakeover (call.remaining env server.live.registry) call.parsedNodes ∧
          FieldsWithinByte (dispatchRegister env server.live.registry call append).registry ∧
          SignaturesExact env (dispatchRegister env server.live.registry call append).registry))
  | .push request _ _ =>
      inferInstanceAs (Decidable (server.live.registry.version < 2 ^ 32 ∧
        ∀ row ∈ request.row readers.live, _))

theorem noReaders_of_noTakeover {remaining : RegistryInner Expr} {nodes : List PayloadNode}
    (noTakeover : NoTakeover remaining nodes) :
    ∀ event, .event event ∈ nodes → NoReaders remaining event := by
  intro event member absent name agg compiled
  exact noTakeover (.event event) member rfl absent (name,agg)
    (Std.ExtTreeMap.mem_toList_iff_getElem?_eq_some.mpr compiled)

/-- The replay of the log over the registry in force gives the live tables. -/
structure Consistent (env : Env Expr) (ops : Operators Expr Op) (readers : Readers)
    (server : LoggedServer Expr Op) : Prop where
  wellFormed : WellFormed env server.live.registry
  allRead : AllRead env server.live.registry
  signatures : SignaturesExact env server.live.registry
  stamped : ∀ {name : String} {derivation : DerivationDescriptor},
    server.live.registry.derivations[name]? = some derivation →
      derivation.registeredAtVersion ≤ server.live.registry.version
  replayed : replayBumps env .empty server.live.bumps = .ok server.live.registry
  recorded : ∀ record ∈ server.events, record.rv ≤ server.live.registry.version
  readable : ∀ record ∈ server.events, Readable readers record
  blank : ∀ aggId, server.live.registry.nextAggId ≤ aggId →
    StateTables.tableAt server.live.tables aggId = AggStateTable.new
  replays : ∀ {name : String} {agg : AggregationDescriptor Expr},
    server.live.registry.compiledAggregations[name]? = some agg →
      server.events.foldl
        (replayStep env ops readers (meaningOf server.live.registry agg)
          (coldAfterMsOf server.live.registry agg.sourceNodeName)
          (stampOf server.live.registry agg))
        AggStateTable.new = StateTables.tableAt server.live.tables agg.aggId

theorem consistent_start (env : Env Expr) (ops : Operators Expr Op) (readers : Readers) :
    Consistent env ops readers LoggedServer.start where
  wellFormed := wellFormed_empty env
  allRead name agg compiled := by
    simp [LoggedServer.start,Live.start,RegistryInner.empty] at compiled
  signatures first member := by
    have present := Std.ExtTreeMap.mem_toList_iff_getElem?_eq_some.mp member
    simp [LoggedServer.start,Live.start,RegistryInner.empty] at present
  stamped present := by simp [LoggedServer.start,Live.start,RegistryInner.empty] at present
  replayed := rfl
  recorded _ member := nomatch member
  readable _ member := nomatch member
  blank _ _ := rfl
  replays compiled := by simp [LoggedServer.start,Live.start,RegistryInner.empty] at compiled

theorem tableAt_nil (aggId : Nat) : StateTables.tableAt ([] : StateTables Op) aggId = .new := rfl

variable {server : LoggedServer Expr Op} {validated : ValidatedPayload Expr}

theorem Consistent.recoveryMatches (consistent : Consistent env ops readers server) :
    RecoveryMatches env ops readers server := by
  refine ⟨server.live.registry,
    (replayEvents env ops readers server.live.registry 0 server.events
      ⟨StateTables.ensureCapacityFor [] server.live.registry.nextAggId,[]⟩).tables,?_,
    fun name => ?_⟩
  · simp only [recover,consistent.replayed]
    rfl
  · unfold entityStates
    cases compiled : server.live.registry.compiledAggregations[name]? with
    | none => rfl
    | some agg =>
        rw [Option.map_some,Option.map_some,
          replayEvents_table consistent.wellFormed consistent.signatures compiled
            (consistent.allRead name agg compiled) consistent.readable,
          StateTables.tableAt_ensureCapacityFor,tableAt_nil,consistent.replays compiled]

theorem Consistent.stampOf_le (consistent : Consistent env ops readers server)
    {name : String} {agg : AggregationDescriptor Expr}
    (compiled : server.live.registry.compiledAggregations[name]? = some agg) :
    stampOf server.live.registry agg ≤ server.live.registry.version := by
  obtain ⟨derivation,present,-⟩ := consistent.wellFormed.derived compiled
  rw [stampOf,consistent.wellFormed.named compiled,present]
  exact consistent.stamped present

theorem ackLsn_pos (request : PushRequest) (durableLsn : Nat) :
    0 < server.ackLsn request durableLsn := by
  have positive : 0 < PushServer.payloadLen request := by
    unfold PushServer.payloadLen
    omega
  rw [LoggedServer.ackLsn,saturatingAddU64,u64Max]
  omega

theorem Consistent.push (consistent : Consistent env ops readers server) {request : PushRequest}
    {nowMs : Int64} {durableLsn : Nat}
    (recoverable : Recoverable env readers server (.push request nowMs durableLsn)) :
    Consistent env ops readers (server.next env ops readers (.push request nowMs durableLsn)) := by
  obtain ⟨fits,rereads⟩ := recoverable
  simp only [LoggedServer.next]
  cases isRow : request.row readers.live with
  | none => exact consistent
  | some row =>
    dsimp only
    cases accepted : pushError server.live.registry request.eventName row with
    | some code => exact consistent
    | none =>
        have isRead := rereads row isRow
        have rvEq : server.live.registry.version % 2 ^ 32 = server.live.registry.version :=
          Nat.mod_eq_of_lt fits
        simp only [Live.next,accepted,rvEq]
        exact
          { wellFormed := consistent.wellFormed
            allRead := consistent.allRead
            signatures := consistent.signatures
            stamped := consistent.stamped
            replayed := consistent.replayed
            recorded := by
              intro record member
              rcases List.mem_append.mp member with old | new
              · exact consistent.recorded record old
              · rw [List.mem_singleton.mp new]
            readable := by
              intro record member
              rcases List.mem_append.mp member with old | new
              · exact consistent.readable record old
              · rw [List.mem_singleton.mp new]
                exact ⟨ackLsn_pos request durableLsn,row,isRead⟩
            blank := by
              intro aggId unused
              exact (applyEvent_blank consistent.wellFormed consistent.signatures unused _ _ _ _
                _).trans (consistent.blank aggId unused)
            replays := by
              intro name agg compiled
              have stampLe := consistent.stampOf_le compiled
              rw [List.foldl_append,consistent.replays compiled,
                applyEvent_table consistent.wellFormed consistent.signatures compiled
                  (consistent.allRead name agg compiled)]
              simp only [List.foldl_cons,List.foldl_nil,replayStep,stampLe,and_true,isRead]
              rfl }

/-! ### Registrations -/

theorem replayBumps_append {registry between : RegistryInner Expr} {bumps : List RegistryBump}
    (replayed : replayBumps env registry bumps = .ok between) (more : List RegistryBump) :
    replayBumps env registry (bumps ++ more) = replayBumps env between more := by
  induction bumps generalizing registry with
  | nil =>
      cases replayed
      rfl
  | cons bump rest ih =>
      simp only [List.cons_append,replayBumps] at replayed ⊢
      split
      · rename_i skipped
        rw [if_pos skipped] at replayed
        exact ih replayed
      · rename_i notSkipped
        rw [if_neg notSkipped] at replayed
        split at replayed
        · exact ih replayed
        · cases replayed

theorem replayBumps_applied {registry : RegistryInner Expr} {result : RegisterResult Expr}
    (applied : AppliedCall env registry call validated result) :
    replayBumps env registry
      [⟨registry.version + 1,call.parsedNodes,call.removedNames env registry⟩] =
        .ok result.registry := by
  have notSkipped : ¬registry.version + 1 ≤ registry.version := by omega
  simp only [replayBumps,if_neg notSkipped,applied.bumpApplied]

/-- An aggregation that a call keeps means what it meant. -/
structure Unchanged (before after : RegistryInner Expr) (agg later : AggregationDescriptor Expr) :
    Prop where
  aggId : later.aggId = agg.aggId
  sourceNodeName : later.sourceNodeName = agg.sourceNodeName
  meaning : meaningOf after later = meaningOf before agg
  coldAfterMs : coldAfterMsOf after agg.sourceNodeName = coldAfterMsOf before agg.sourceNodeName
  stamp : stampOf after later = stampOf before agg

section Register

variable {registry : RegistryInner Expr} (wellFormed : WellFormed env registry)
  {call : RegisterCall} {validated : ValidatedPayload Expr} {result : RegisterResult Expr}
  (applied : AppliedCall env registry call validated result)
  (noTakeover : NoTakeover (call.remaining env registry) call.parsedNodes)

include wellFormed applied noTakeover

theorem AppliedCall.allReadAfter (allRead : AllRead env registry)
    (within : FieldsWithinByte result.registry) : AllRead env result.registry := by
  have removed := remaining_removed wellFormed call
  have closed := removedNames_sourcesClosed wellFormed call
  have fits := fieldsFit_of_withinByte within
  rw [applied.applied] at fits ⊢
  exact applyRegistration_allRead (remaining_wellFormed wellFormed call)
    applied.validates (noReaders_of_noTakeover noTakeover) (removed.allRead closed allRead) fits

theorem AppliedCall.keptOrNew {name : String} {later : AggregationDescriptor Expr}
    (compiled : result.registry.compiledAggregations[name]? = some later) :
    (∃ agg, registry.compiledAggregations[name]? = some agg ∧
      Unchanged registry result.registry agg later) ∨
    (registry.nextAggId ≤ later.aggId ∧
      stampOf result.registry later = registry.version + 1) := by
  have removed := remaining_removed wellFormed call
  have closed := removedNames_sourcesClosed wellFormed call
  have registered := applied.registered wellFormed
  have wellFormedAfter := applied.wellFormedAfter wellFormed
  have nameAfter := wellFormedAfter.named compiled
  cases before : (call.remaining env registry).compiledAggregations[name]? with
  | none =>
      obtain ⟨idLe,-,derivation,present,stamp⟩ := registered.newAggs compiled before
      rw [removed.nextAggId] at idLe
      rw [removed.version] at stamp
      refine .inr ⟨idLe,?_⟩
      rw [stampOf,nameAfter,present]
      exact stamp
  | some agg =>
      obtain ⟨notRemoved,compiledBefore,sameEvent⟩ := removed.survivor closed before
      obtain ⟨found,compiledLater,same⟩ := registered.aggs before
      rw [compiled] at compiledLater
      cases compiledLater
      obtain ⟨derivation,present,-⟩ := (remaining_wellFormed wellFormed call).derived before
      have presentBefore := present
      rw [removed.derivations,if_neg notRemoved] at presentBefore
      have nameBefore := wellFormed.named compiledBefore
      have sourceCore := applyRegistration_sources (remaining_wellFormed wellFormed call)
        applied.validates (noReaders_of_noTakeover noTakeover) before
      rw [← applied.applied,sameEvent] at sourceCore
      have schemas : result.registry.events[agg.sourceNodeName]?.map EventDescriptor.schema =
          registry.events[agg.sourceNodeName]?.map EventDescriptor.schema := by
        have mapped := congrArg (Option.map EventDescriptor.schema) sourceCore
        rw [Option.map_map,Option.map_map] at mapped
        exact mapped
      refine .inl ⟨agg,compiledBefore,same.aggId,same.sourceNodeName,?_,?_,?_⟩
      · have chains := registered.chains present
        rw [removed.compiledChains,if_neg notRemoved] at chains
        rw [meaningOf,meaningOf,nameAfter,nameBefore,chains,same.core,
          resolvedIn_congr same.core schemas]
      · have mapped := congrArg (Option.bind · EventDescriptor.coldAfterMs) sourceCore
        simp only [Option.bind_map] at mapped
        exact mapped
      · rw [stampOf,stampOf,nameAfter,nameBefore,registered.derivations present,presentBefore]

end Register

theorem foldl_replayStep_future {meaning : Meaning Expr} {coldAfterMs : Option Nat} {stamp : Nat}
    {events : List EventRecord} (earlier : ∀ record ∈ events, record.rv < stamp)
    (table : AggStateTable Op) :
    events.foldl (replayStep env ops readers meaning coldAfterMs stamp) table = table := by
  induction events generalizing table with
  | nil => rfl
  | cons record rest ih =>
      have notYet : ¬(record.eventName = meaning.core.sourceNodeName ∧ stamp ≤ record.rv) := by
        have before := earlier record List.mem_cons_self
        omega
      rw [List.foldl_cons,replayStep,if_neg notYet]
      exact ih (fun other member => earlier other (List.mem_cons_of_mem record member)) table

theorem Consistent.noop (consistent : Consistent env ops readers server)
    (noop : NoopCall env server.live.registry call
      (dispatchRegister env server.live.registry call append)) :
    Consistent env ops readers
      (server.next env ops readers (.register call append)) := by
  have sameTables : ∀ aggId, StateTables.tableAt
      (StateTables.ensureCapacityFor server.live.tables server.live.registry.nextAggId) aggId =
        StateTables.tableAt server.live.tables aggId :=
    StateTables.tableAt_ensureCapacityFor server.live.tables _
  simp only [LoggedServer.next,Live.next,noop.unchanged,noop.notLogged,Option.toList_none,
    List.append_nil]
  exact
    { wellFormed := consistent.wellFormed
      allRead := consistent.allRead
      signatures := consistent.signatures
      stamped := consistent.stamped
      replayed := consistent.replayed
      recorded := consistent.recorded
      readable := consistent.readable
      blank := fun aggId unused => (sameTables aggId).trans (consistent.blank aggId unused)
      replays := fun compiled => (consistent.replays compiled).trans (sameTables _).symm }

theorem Consistent.applied (consistent : Consistent env ops readers server)
    (applied : AppliedCall env server.live.registry call validated
      (dispatchRegister env server.live.registry call append))
    (noTakeover : NoTakeover (call.remaining env server.live.registry) call.parsedNodes)
    (within : FieldsWithinByte (dispatchRegister env server.live.registry call append).registry)
    (signatures : SignaturesExact env
      (dispatchRegister env server.live.registry call append).registry) :
    Consistent env ops readers
      (server.next env ops readers (.register call append)) := by
  have wellFormed := consistent.wellFormed
  have removed := remaining_removed wellFormed call
  have registered := applied.registered wellFormed
  have versionEq : (dispatchRegister env server.live.registry call append).registry.version =
      server.live.registry.version + 1 := by
    rw [registered.version,removed.version]
  have nextLe : server.live.registry.nextAggId ≤
      (dispatchRegister env server.live.registry call append).registry.nextAggId := by
    rw [← removed.nextAggId]
    exact registered.nextAggId
  simp only [LoggedServer.next,Live.next,applied.logged,Option.toList_some]
  exact
    { wellFormed := applied.wellFormedAfter wellFormed
      allRead := applied.allReadAfter wellFormed noTakeover consistent.allRead within
      signatures := signatures
      stamped := by
        intro name derivation present
        rw [versionEq]
        cases before : (call.remaining env server.live.registry).derivations[name]? with
        | none =>
            have stamp := registered.newDerivations present before
            rw [removed.version] at stamp
            exact Nat.le_of_eq stamp
        | some old =>
            have unchanged := registered.derivations before
            rw [present] at unchanged
            cases unchanged
            rw [removed.derivations] at before
            split at before
            · cases before
            · exact Nat.le_succ_of_le (consistent.stamped before)
      replayed := by
        rw [replayBumps_append consistent.replayed]
        exact replayBumps_applied applied
      recorded := by
        intro record member
        rw [versionEq]
        exact Nat.le_succ_of_le (consistent.recorded record member)
      readable := consistent.readable
      blank := by
        intro aggId unused
        rw [StateTables.tableAt_ensureCapacityFor]
        exact consistent.blank aggId (Nat.le_trans nextLe unused)
      replays := by
        intro name later compiled
        rw [StateTables.tableAt_ensureCapacityFor]
        rcases applied.keptOrNew wellFormed noTakeover compiled with
          ⟨agg,compiledBefore,unchanged⟩ | ⟨idLe,stamp⟩
        · rw [unchanged.aggId,unchanged.meaning,unchanged.sourceNodeName,unchanged.coldAfterMs,
            unchanged.stamp]
          exact consistent.replays compiledBefore
        · -- Every event of the log is older than the aggregation.
          rw [consistent.blank later.aggId idLe]
          refine foldl_replayStep_future (fun record member => ?_) _
          rw [stamp]
          exact Nat.lt_succ_of_le (consistent.recorded record member) }

theorem Consistent.register (consistent : Consistent env ops readers server)
    (accepted : server.Accepted env readers (.register call append))
    (recoverable : Recoverable env readers server (.register call append)) :
    Consistent env ops readers (server.next env ops readers (.register call append)) := by
  obtain ⟨noTakeover,within,signatures⟩ := recoverable
  rcases dispatchRegister_accepted accepted with noop | ⟨validated,applied⟩
  · exact consistent.noop noop
  · exact consistent.applied applied noTakeover within signatures

theorem Consistent.step {action : LoggedAction} (consistent : Consistent env ops readers server)
    (condition : server.Accepted env readers action ∧ Recoverable env readers server action) :
    Consistent env ops readers (server.next env ops readers action) := by
  cases action with
  | register call append => exact consistent.register condition.1 condition.2
  | push request nowMs durableLsn => exact consistent.push condition.2

/-- The body {"k":"u","x":_,"y":_} with two digits. -/
def digitsBody (x y : UInt8) : List UInt8 :=
  [123,34,107,34,58,34,117,34,44,34,120,34,58,48 + x,44,34,121,34,58,48 + y,125]

def readDigits (_ : UInt8) (body : List UInt8) : Option Row := do
  let x ← body[13]?
  let y ← body[19]?
  return sampleRow "u" (Int64.ofNat (x - 48).toNat) (Int64.ofNat (y - 48).toNat)

def digitReaders : Readers := ⟨readDigits,readDigits⟩

def digitsPush (eventName : String) (x y : UInt8) (nowMs : Int64) : LoggedAction :=
  .push ⟨eventName,digitsBody x y,1,none⟩ nowMs 0

def loggedRegister (nodes : List PayloadNode) (force : Bool) : LoggedAction :=
  .register ⟨nodes,force,false⟩ .durable

def replacedRun : List LoggedAction :=
  [loggedRegister [sampleEvent "E",sampleTable "A" "E" [] "a" "last" "x"] false,
   digitsPush "E" 1 2 10,
   loggedRegister [sampleEvent "E",sampleTable "A" "E" swapColumns "a" "first" "x",
     sampleTable "B" "E" [] "b" "last" "y"] true,
   digitsPush "E" 3 4 20,
   digitsPush "E" 5 6 30]

/-- The table `A` reads the derivation `S`.  Then an event takes the name `S`: a
push to it is read through the chain of `A`, which swaps the columns.  The table
`B` makes the registry resolve the fields of `A` in the pushed row. -/
def takeoverRun : List LoggedAction :=
  let reader := sampleTable "A" "S" swapColumns "a" "last" "x"
  [loggedRegister [sampleEvent "S0",sampleStream "S" "S0",reader] false,
   loggedRegister [sampleEvent "S0",sampleEvent "S",reader,sampleEvent "N"] false,
   digitsPush "S" 1 2 10,
   loggedRegister [sampleEvent "S0",sampleEvent "S",reader,sampleEvent "N",
     sampleTable "B" "S" [] "b" "last" "x"] false]

end Beava.Server
