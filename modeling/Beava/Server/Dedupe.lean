/-
Pushes of an event with a dedupe key.

The answer to a push that is applied is kept in a cache, under the event and a
text of the value of the key, until the window has passed.  A push that finds
such an entry is answered with it and leaves everything as it is.

A history pairs the server with the pushes applied so far.  The entries of the
cache are the answers to applied pushes, and an applied push whose window has not
passed has its entry.
-/

import Beava.Server.DedupeTexts
import Beava.Server.History
import Beava.Wal.Record
import Beava.Wal.Watermarks

namespace Beava.Server

open Beava.Core Beava.Apply Beava.Registry Beava.Wal ClosedTexts

/-! ### The cache -/

structure CachedEntry where
  responseBytes : String
  ackLsn : Nat
  insertedAtMs : Nat
  expiresAtMs : Nat
  deriving DecidableEq

/-- The order of the pairs of a stream and a dedupe key. -/
def idemOrder : String × String → String × String → Ordering :=
  compareLex (compareOn Prod.fst) (compareOn Prod.snd)

instance : Std.TransCmp idemOrder :=
  inferInstanceAs (Std.TransCmp (@compare _ lexOrd))

instance : Std.LawfulEqCmp idemOrder :=
  inferInstanceAs (Std.LawfulEqCmp (@compare _ lexOrd))

abbrev IdemCache := Std.ExtTreeMap (String × String) CachedEntry idemOrder

namespace IdemCache

/-- An entry that has expired is a miss. -/
def getWithAckLsn (cache : IdemCache) (stream key : String) (nowMs : Nat) :
    Option (Nat × String) :=
  cache[(stream,key)]?.bind fun entry =>
    if entry.expiresAtMs ≤ nowMs then none else some (entry.ackLsn,entry.responseBytes)

def put (cache : IdemCache) (stream key : String) (entry : CachedEntry) : IdemCache :=
  cache.insert (stream,key) entry

def sweepExpired (cache : IdemCache) (nowMs : Nat) : IdemCache :=
  cache.filter fun _ entry => nowMs < entry.expiresAtMs

variable {cache : IdemCache}

theorem getWithAckLsn_eq_some {stream key : String} {nowMs : Nat} {found : Nat × String} :
    cache.getWithAckLsn stream key nowMs = some found ↔
      ∃ entry, cache[(stream,key)]? = some entry ∧ nowMs < entry.expiresAtMs ∧
        found = (entry.ackLsn,entry.responseBytes) := by
  rw [getWithAckLsn,Option.bind_eq_some_iff]
  constructor
  · rintro ⟨entry,held,live⟩
    split at live
    · cases live
    · exact ⟨entry,held,by omega,(Option.some.inj live).symm⟩
  · rintro ⟨entry,held,notExpired,rfl⟩
    exact ⟨entry,held,if_neg (by omega)⟩

theorem lookup_put (cache : IdemCache) (stream key : String) (entry : CachedEntry)
    (other : String × String) :
    (cache.put stream key entry)[other]? =
      if (stream,key) = other then some entry else cache[other]? :=
  KeyMap.lookup_insert cache (stream,key) other entry

theorem lookup_sweepExpired {nowMs : Nat} {slot : String × String} {entry : CachedEntry} :
    (cache.sweepExpired nowMs)[slot]? = some entry ↔
      cache[slot]? = some entry ∧ nowMs < entry.expiresAtMs := by
  rw [sweepExpired,Std.ExtTreeMap.getElem?_filter,Option.pfilter_eq_some_iff]
  simp

end IdemCache

/-! ### A push -/

def defaultDedupeWindowMs : Nat := 24 * 60 * 60 * 1000

structure PushRequest where
  eventName : String
  body : List UInt8
  bodyFormat : UInt8
  preParsedRow : Option Row

inductive PushResponse where
  | pushAck (ackLsn registryVersion : Nat)
  | pushReplay (registryVersion : Nat) (ackLsn : Option Nat) (cachedBody : Option String)
  | pushError (code : String) (registryVersion : Nat)
  deriving DecidableEq

structure PushServer (Expr Op : Type) where
  registry : RegistryInner Expr
  tables : StateTables Op
  walLsn : WalLsn
  wal : List (List UInt8)
  nextEventId : Nat
  queryTimeMs : Nat
  idemCache : IdemCache

/-- The body of a `PushAck`, on both wires and in the cache. -/
def ackBody (ackLsn registryVersion : Nat) : String :=
  "\x7b\"ack_lsn\":" ++ toString ackLsn ++ ",\"idempotent_replay\":false,\"registry_version\":" ++
    toString registryVersion ++ "\x7d"

def windowMsOf {Expr : Type} (registry : RegistryInner Expr) (eventName : String) : Nat :=
  (registry.events[eventName]?.bind EventDescriptor.dedupeWindowMs).getD defaultDedupeWindowMs

section Dispatch

variable {Expr Op : Type} (env : Env Expr) (ops : Operators Expr Op) (texts : JsonTexts)
  (parseBody : UInt8 → List UInt8 → Option Row)

/-- The row of the worker, or else of the body. -/
def PushRequest.row (request : PushRequest) : Option Row :=
  match request.preParsedRow with
  | some row => some row
  | none => parseBody request.bodyFormat request.body

def dedupeStr (registry : RegistryInner Expr) (eventName : String) (row : Row) : Option String :=
  (registry.events[eventName]?.bind EventDescriptor.dedupeKey).bind
    (extractDedupeStrFromRow env texts row)

namespace PushServer

variable (server : PushServer Expr Op)

def registryVersion : Nat := server.registry.version % 2 ^ 32

def payload (request : PushRequest) (nowMs expectedAckLsn : Nat) : List UInt8 :=
  encodePushPayload expectedAckLsn request.bodyFormat server.registryVersion nowMs
    request.eventName request.body

def payloadLen (request : PushRequest) : Nat :=
  1 + 8 + 1 + 4 + 8 + 2 + (strAsBytes request.eventName).length + 4 + request.body.length

/-- The watermarks when the payload is built. -/
def markedLsn (durableLsn : Nat) : WalLsn :=
  server.walLsn.markCommittedAtLeast durableLsn

def ackLsn (request : PushRequest) (durableLsn : Nat) : Nat :=
  ((server.markedLsn durableLsn).record (payloadLen request)).1

/-- The append, the tables and the counters. -/
def applied (request : PushRequest) (row : Row) (nowMs durableLsn : Nat) : PushServer Expr Op :=
  let marked := server.markedLsn durableLsn
  let ackLsn := server.ackLsn request durableLsn
  { server with
    tables := applyEvent env ops server.registry request.eventName row (Int64.ofNat nowMs)
      (coldAfterMsOf server.registry request.eventName) server.tables
    walLsn := (marked.record (payloadLen request)).2
    wal := server.wal ++ [server.payload request nowMs
      (saturatingAddU64 marked.committed (payloadLen request))]
    nextEventId := max server.nextEventId ackLsn
    queryTimeMs := if 0 < nowMs then max server.queryTimeMs nowMs else server.queryTimeMs }

def cacheEntry (request : PushRequest) (nowMs durableLsn : Nat) : CachedEntry :=
  let ackLsn := server.ackLsn request durableLsn
  { responseBytes := ackBody ackLsn server.registryVersion
    ackLsn := ackLsn
    insertedAtMs := nowMs
    expiresAtMs := saturatingAddU64 nowMs (windowMsOf server.registry request.eventName) }

def cached (request : PushRequest) (row : Row) (nowMs durableLsn : Nat) : IdemCache :=
  match dedupeStr env texts server.registry request.eventName row with
  | some key =>
      server.idemCache.put request.eventName key (server.cacheEntry request nowMs durableLsn)
  | none => server.idemCache

/-- The lookup before anything is written. -/
def dedupeLookup (request : PushRequest) (row : Row) (nowMs : Nat) : Option (Nat × String) :=
  (dedupeStr env texts server.registry request.eventName row).bind fun key =>
    server.idemCache.getWithAckLsn request.eventName key nowMs

def dispatchPushSync (request : PushRequest) (nowMs durableLsn : Nat) :
    PushResponse × PushServer Expr Op :=
  match request.row parseBody with
  | none => (.pushError "invalid_event" server.registryVersion,server)
  | some row =>
      match pushError server.registry request.eventName row with
      | some code => (.pushError code server.registryVersion,server)
      | none =>
          match server.dedupeLookup env texts request row nowMs with
          | some (cachedAckLsn,cachedBody) =>
              (.pushReplay server.registryVersion (some cachedAckLsn) (some cachedBody),server)
          | none =>
              (.pushAck (server.ackLsn request durableLsn) server.registryVersion,
                { server.applied env ops request row nowMs durableLsn with
                  idemCache := server.cached env texts request row nowMs durableLsn })

end PushServer

structure AppliedPush where
  eventName : String
  row : Row
  nowMs : Nat
  ackLsn : Nat
  response : String

def AppliedPush.entry (original : AppliedPush) (windowMs : Nat) : CachedEntry :=
  { responseBytes := original.response
    ackLsn := original.ackLsn
    insertedAtMs := original.nowMs
    expiresAtMs := saturatingAddU64 original.nowMs windowMs }

structure PushHistory (Expr Op : Type) where
  server : PushServer Expr Op
  appliedPushes : List AppliedPush
  clockMs : Nat

inductive PushAction where
  | push (request : PushRequest) (nowMs durableLsn : Nat)
  | sweepExpired (nowMs : Nat)

def PushAction.nowMs : PushAction → Nat
  | .push _ nowMs _ => nowMs
  | .sweepExpired nowMs => nowMs

namespace PushHistory

/-- What an answer says was applied. -/
def recorded (request : PushRequest) (nowMs : Nat) : PushResponse → List AppliedPush
  | .pushAck ackLsn registryVersion =>
      ((request.row parseBody).map fun row =>
        ⟨request.eventName,row,nowMs,ackLsn,ackBody ackLsn registryVersion⟩).toList
  | _ => []

def next (history : PushHistory Expr Op) : PushAction → PushHistory Expr Op
  | .push request nowMs durableLsn =>
      let answer := history.server.dispatchPushSync env ops texts parseBody request nowMs durableLsn
      { server := answer.2
        appliedPushes := history.appliedPushes ++ recorded parseBody request nowMs answer.1
        clockMs := nowMs }
  | .sweepExpired nowMs =>
      { history with
        server :=
          { history.server with idemCache := history.server.idemCache.sweepExpired nowMs }
        clockMs := nowMs }

def start (server : PushServer Expr Op) : PushHistory Expr Op := ⟨server,[],0⟩

/-- The clock does not go back. -/
def ClockRuns (history : PushHistory Expr Op) (action : PushAction) : Prop :=
  history.clockMs ≤ action.nowMs

instance (history : PushHistory Expr Op) (action : PushAction) :
    Decidable (history.ClockRuns action) :=
  inferInstanceAs (Decidable (_ ≤ _))

end PushHistory

/-! ### What a duplicate is -/

def PushResponse.isReplay : PushResponse → Bool
  | .pushReplay _ _ _ => true
  | _ => false

def dedupeValue (registry : RegistryInner Expr) (eventName : String) (row : Row) : Option Value :=
  (registry.events[eventName]?.bind EventDescriptor.dedupeKey).bind row.get

/-- The dedupe value of a push that passes the checks. -/
def PushRequest.carried (request : PushRequest) (registry : RegistryInner Expr) : Option Value :=
  (request.row parseBody).bind fun row =>
    if (pushError registry request.eventName row).isNone then
      dedupeValue registry request.eventName row
    else none

def AppliedPush.Covers (original : AppliedPush) (registry : RegistryInner Expr) (eventName : String)
    (nowMs : Nat) : Prop :=
  original.eventName = eventName ∧ nowMs < original.nowMs + windowMsOf registry eventName

instance (original : AppliedPush) (registry : RegistryInner Expr) (eventName : String)
    (nowMs : Nat) : Decidable (original.Covers registry eventName nowMs) :=
  inferInstanceAs (Decidable (_ ∧ _))

/-- The applied push carried an equal value, and its window has not passed. -/
def AppliedPush.Repeated (original : AppliedPush) (registry : RegistryInner Expr)
    (eventName : String) (value : Value) (nowMs : Nat) : Prop :=
  original.Covers registry eventName nowMs ∧
    ∃ earlier, dedupeValue registry eventName original.row = some earlier ∧
      earlier.partialEq value = true

namespace PushHistory

/-- The push is answered as the original was, and nothing changes. -/
def Replays (history : PushHistory Expr Op) (request : PushRequest) (nowMs durableLsn : Nat)
    (original : AppliedPush) : Prop :=
  history.server.dispatchPushSync env ops texts parseBody request nowMs durableLsn =
    (.pushReplay history.server.registryVersion (some original.ackLsn) (some original.response),
      history.server)

/-- A push is suppressed exactly when it repeats an applied push, and then it is
answered as that push was. -/
def DedupeExact (history : PushHistory Expr Op) (request : PushRequest) (nowMs durableLsn : Nat) :
    Prop :=
  ∀ value, request.carried parseBody history.server.registry = some value →
    ((history.server.dispatchPushSync env ops texts parseBody request nowMs
        durableLsn).1.isReplay = true ↔
      ∃ original ∈ history.appliedPushes,
        original.Repeated history.server.registry request.eventName value nowMs) ∧
    ((history.server.dispatchPushSync env ops texts parseBody request nowMs
        durableLsn).1.isReplay = true →
      ∃ original ∈ history.appliedPushes,
        original.Repeated history.server.registry request.eventName value nowMs ∧
          history.Replays env ops texts parseBody request nowMs durableLsn original)

/-- The value of the push is told apart from those of the pushes whose window has not
passed, and the clock is not at its end. -/
def ValuesApart (history : PushHistory Expr Op) (request : PushRequest) (nowMs : Nat) : Prop :=
  nowMs < u64Max ∧
    ∀ value ∈ request.carried parseBody history.server.registry,
      ∀ original ∈ history.appliedPushes,
        original.Covers history.server.registry request.eventName nowMs →
          ∀ earlier ∈ dedupeValue history.server.registry request.eventName original.row,
            ToldApart env texts earlier value

/-- The entries of an event are those of applied pushes, and every applied push
whose window has not passed has its entry. -/
structure Tracked (history : PushHistory Expr Op) (eventName : String) : Prop where
  answered : ∀ {key entry}, history.server.idemCache[(eventName,key)]? = some entry →
    ∃ original ∈ history.appliedPushes, original.eventName = eventName ∧
      dedupeStr env texts history.server.registry eventName original.row = some key ∧
        entry = original.entry (windowMsOf history.server.registry eventName)
  cached : ∀ {original}, original ∈ history.appliedPushes → original.eventName = eventName →
    ∀ {key}, dedupeStr env texts history.server.registry eventName original.row = some key →
      history.clockMs < (original.entry
        (windowMsOf history.server.registry eventName)).expiresAtMs →
        history.server.idemCache[(eventName,key)]? =
          some (original.entry (windowMsOf history.server.registry eventName))

end PushHistory

end Dispatch

section Exact

variable {Expr Op : Type} {env : Env Expr} {ops : Operators Expr Op} {texts : JsonTexts}
  {parseBody : UInt8 → List UInt8 → Option Row}

theorem dedupeStr_eq (registry : RegistryInner Expr) (eventName : String) (row : Row) :
    dedupeStr env texts registry eventName row =
      (dedupeValue registry eventName row).map (Value.dedupeText env texts) := by
  rw [dedupeStr,dedupeValue]
  cases registry.events[eventName]?.bind EventDescriptor.dedupeKey <;> rfl

namespace PushHistory

variable {history : PushHistory Expr Op} {eventName : String}

variable (env ops texts parseBody) in
theorem next_push_cases (history : PushHistory Expr Op) (request : PushRequest)
    (nowMs durableLsn : Nat) :
    history.next env ops texts parseBody (.push request nowMs durableLsn) =
        { history with clockMs := nowMs } ∨
      ∃ row, pushError history.server.registry request.eventName row = none ∧
        history.server.dedupeLookup env texts request row nowMs = none ∧
        history.next env ops texts parseBody (.push request nowMs durableLsn) =
          { server :=
              { history.server.applied env ops request row nowMs durableLsn with
                idemCache := history.server.cached env texts request row nowMs durableLsn }
            appliedPushes := history.appliedPushes ++
              [⟨request.eventName,row,nowMs,history.server.ackLsn request durableLsn,
                ackBody (history.server.ackLsn request durableLsn)
                  history.server.registryVersion⟩]
            clockMs := nowMs } := by
  simp only [next,PushServer.dispatchPushSync]
  cases parsed : request.row parseBody with
  | none => exact .inl (by simp [recorded])
  | some row =>
      cases refused : pushError history.server.registry request.eventName row with
      | some code => exact .inl (by simp [recorded,refused])
      | none =>
          cases found : history.server.dedupeLookup env texts request row nowMs with
          | some hit => exact .inl (by simp [recorded,refused,found])
          | none => exact .inr ⟨row,refused,found,by simp [recorded,refused,found,parsed]⟩

theorem Tracked.later (tracked : history.Tracked env texts eventName) {nowMs : Nat}
    (clockRuns : history.clockMs ≤ nowMs) :
    Tracked env texts { history with clockMs := nowMs } eventName where
  answered held := tracked.answered held
  cached member named _ keyed notPassed :=
    tracked.cached member named keyed (Nat.lt_of_le_of_lt clockRuns notPassed)

theorem Tracked.sweep (tracked : history.Tracked env texts eventName) {nowMs : Nat}
    (clockRuns : history.clockMs ≤ nowMs) :
    (history.next env ops texts parseBody (.sweepExpired nowMs)).Tracked env texts eventName where
  answered held := tracked.answered (IdemCache.lookup_sweepExpired.mp held).1
  cached member named _ keyed notPassed :=
    IdemCache.lookup_sweepExpired.mpr
      ⟨tracked.cached member named keyed (Nat.lt_of_le_of_lt clockRuns notPassed),notPassed⟩

variable {server : PushServer Expr Op}

theorem dedupeLookup_eq_none {request : PushRequest} {row : Row} {nowMs : Nat} {key : String}
    {entry : CachedEntry} (missed : server.dedupeLookup env texts request row nowMs = none)
    (keyed : dedupeStr env texts server.registry request.eventName row = some key)
    (held : server.idemCache[(request.eventName,key)]? = some entry) :
    entry.expiresAtMs ≤ nowMs := by
  by_contra notExpired
  have hit : server.dedupeLookup env texts request row nowMs =
      some (entry.ackLsn,entry.responseBytes) := by
    rw [PushServer.dedupeLookup,keyed]
    exact IdemCache.getWithAckLsn_eq_some.mpr ⟨entry,held,by omega,rfl⟩
  rw [hit] at missed
  cases missed

theorem lookup_cached {request : PushRequest} {row : Row} {nowMs durableLsn : Nat}
    {slot : String × String} {entry : CachedEntry} :
    (server.cached env texts request row nowMs durableLsn)[slot]? = some entry ↔
      (slot.1 = request.eventName ∧
          dedupeStr env texts server.registry request.eventName row = some slot.2 ∧
            entry = server.cacheEntry request nowMs durableLsn) ∨
        (¬ (slot.1 = request.eventName ∧
            dedupeStr env texts server.registry request.eventName row = some slot.2) ∧
          server.idemCache[slot]? = some entry) := by
  obtain ⟨stream,key⟩ := slot
  rw [PushServer.cached]
  cases keyed : dedupeStr env texts server.registry request.eventName row with
  | none => simp
  | some own =>
      simp only [IdemCache.lookup_put,Prod.mk.injEq,Option.some.injEq]
      by_cases same : request.eventName = stream ∧ own = key
      · simp [same.1,same.2,eq_comm]
      · rw [if_neg same]
        have other : ¬ (stream = request.eventName ∧ own = key) :=
          fun both => same ⟨both.1.symm,both.2⟩
        constructor
        · exact fun held => .inr ⟨other,held⟩
        · rintro (⟨named,ownKey,-⟩ | ⟨-,held⟩)
          · exact absurd ⟨named,ownKey⟩ other
          · exact held

section Applied

variable {request : PushRequest} {row : Row} {nowMs durableLsn : Nat}

theorem Tracked.apply (tracked : history.Tracked env texts eventName)
    (clockRuns : history.clockMs ≤ nowMs)
    (missed : history.server.dedupeLookup env texts request row nowMs = none) :
    Tracked env texts
      { server :=
          { history.server.applied env ops request row nowMs durableLsn with
            idemCache := history.server.cached env texts request row nowMs durableLsn }
        appliedPushes := history.appliedPushes ++
          [⟨request.eventName,row,nowMs,history.server.ackLsn request durableLsn,
            ackBody (history.server.ackLsn request durableLsn) history.server.registryVersion⟩]
        clockMs := nowMs } eventName where
  answered := by
    intro key entry held
    rcases lookup_cached.mp held with ⟨named,keyed,rfl⟩ | ⟨-,before⟩
    · refine ⟨_,List.mem_append_right _ List.mem_cons_self,named.symm,?_,?_⟩
      · exact named ▸ keyed
      · have sameName : eventName = request.eventName := named
        subst sameName
        rfl
    · obtain ⟨original,member,facts⟩ := tracked.answered before
      exact ⟨original,List.mem_append_left _ member,facts⟩
  cached := by
    intro original member named key keyed notPassed
    apply lookup_cached.mpr
    rcases List.mem_append.mp member with old | new
    · have held := tracked.cached old named keyed (Nat.lt_of_le_of_lt clockRuns notPassed)
      refine .inr ⟨?_,held⟩
      rintro ⟨sameName,sameKey⟩
      have sameName : eventName = request.eventName := sameName
      subst sameName
      have expired := dedupeLookup_eq_none missed sameKey held
      exact absurd notPassed (Nat.not_lt.mpr expired)
    · rw [List.mem_singleton] at new
      subst new
      have sameName : request.eventName = eventName := named
      subst sameName
      exact .inl ⟨rfl,keyed,rfl⟩

end Applied

theorem Tracked.next (tracked : history.Tracked env texts eventName) (action : PushAction)
    (clockRuns : history.ClockRuns action) :
    (history.next env ops texts parseBody action).Tracked env texts eventName := by
  cases action with
  | sweepExpired nowMs => exact tracked.sweep clockRuns
  | push request nowMs durableLsn =>
      rcases next_push_cases env ops texts parseBody history request nowMs durableLsn with
        same | ⟨row,-,missed,same⟩
      · rw [same]
        exact tracked.later clockRuns
      · rw [same]
        exact tracked.apply clockRuns missed

theorem tracked_start (fresh : ∀ key : String, server.idemCache[(eventName,key)]? = none) :
    (start server).Tracked env texts eventName where
  answered := by
    intro key entry held
    change server.idemCache[(eventName,key)]? = some entry at held
    rw [fresh key] at held
    cases held
  cached member := by cases member

variable {original : AppliedPush}

theorem lt_expiresAtMs {windowMs nowMs : Nat} (within : nowMs < u64Max) :
    nowMs < (original.entry windowMs).expiresAtMs ↔ nowMs < original.nowMs + windowMs := by
  show nowMs < min (original.nowMs + windowMs) u64Max ↔ _
  omega

variable {request : PushRequest} {nowMs durableLsn : Nat} {value : Value}

variable (env ops texts nowMs durableLsn) in
theorem dispatchPushSync_carried
    (carried : request.carried parseBody server.registry = some value) :
    ∃ row, dedupeValue server.registry request.eventName row = some value ∧
      server.dispatchPushSync env ops texts parseBody request nowMs durableLsn =
        match server.idemCache.getWithAckLsn request.eventName (value.dedupeText env texts) nowMs with
        | some (cachedAckLsn,cachedBody) =>
            (.pushReplay server.registryVersion (some cachedAckLsn) (some cachedBody),server)
        | none =>
            (.pushAck (server.ackLsn request durableLsn) server.registryVersion,
              { server.applied env ops request row nowMs durableLsn with
                idemCache := server.cached env texts request row nowMs durableLsn }) := by
  rw [PushRequest.carried,Option.bind_eq_some_iff] at carried
  obtain ⟨row,parsed,carried⟩ := carried
  split at carried
  · rename_i accepted
    rw [Option.isNone_iff_eq_none] at accepted
    refine ⟨row,carried,?_⟩
    have lookup : server.dedupeLookup env texts request row nowMs =
        server.idemCache.getWithAckLsn request.eventName (value.dedupeText env texts) nowMs := by
      rw [PushServer.dedupeLookup,dedupeStr_eq,carried]
      rfl
    simp only [PushServer.dispatchPushSync,parsed,accepted,lookup]
  · cases carried

/-- A push is suppressed only by an applied push with the same text, and it is then
answered as that push was. -/
theorem Tracked.exists_original (tracked : history.Tracked env texts request.eventName)
    (within : nowMs < u64Max)
    (carried : request.carried parseBody history.server.registry = some value)
    (suppressed : (history.server.dispatchPushSync env ops texts parseBody request nowMs
      durableLsn).1.isReplay = true) :
    ∃ original ∈ history.appliedPushes,
      original.Covers history.server.registry request.eventName nowMs ∧
        (∃ earlier, dedupeValue history.server.registry request.eventName original.row =
            some earlier ∧ earlier.dedupeText env texts = value.dedupeText env texts) ∧
        history.Replays env ops texts parseBody request nowMs durableLsn original := by
  obtain ⟨row,-,dispatched⟩ :=
    dispatchPushSync_carried env ops texts nowMs durableLsn carried
  cases found : history.server.idemCache.getWithAckLsn request.eventName
      (value.dedupeText env texts) nowMs with
  | none =>
      rw [dispatched,found] at suppressed
      cases suppressed
  | some hit =>
      obtain ⟨entry,held,notExpired,rfl⟩ := IdemCache.getWithAckLsn_eq_some.mp found
      obtain ⟨original,member,named,keyed,rfl⟩ := tracked.answered held
      rw [dedupeStr_eq,Option.map_eq_some_iff] at keyed
      refine ⟨original,member,⟨named,(lt_expiresAtMs within).mp notExpired⟩,keyed,?_⟩
      rw [Replays,dispatched,found]
      rfl

theorem Tracked.isReplay (tracked : history.Tracked env texts request.eventName)
    (clockRuns : history.clockMs ≤ nowMs) (within : nowMs < u64Max)
    (carried : request.carried parseBody history.server.registry = some value)
    (member : original ∈ history.appliedPushes)
    (covers : original.Covers history.server.registry request.eventName nowMs) {earlier : Value}
    (earlierValue : dedupeValue history.server.registry request.eventName original.row =
      some earlier)
    (sameText : earlier.dedupeText env texts = value.dedupeText env texts) :
    (history.server.dispatchPushSync env ops texts parseBody request nowMs
      durableLsn).1.isReplay = true := by
  obtain ⟨row,-,dispatched⟩ :=
    dispatchPushSync_carried env ops texts nowMs durableLsn carried
  have notExpired := (lt_expiresAtMs within).mpr covers.2
  have keyed : dedupeStr env texts history.server.registry request.eventName original.row =
      some (value.dedupeText env texts) := by
    rw [dedupeStr_eq,earlierValue,Option.map_some,sameText]
  have held := tracked.cached member covers.1 keyed (Nat.lt_of_le_of_lt clockRuns notExpired)
  have found := IdemCache.getWithAckLsn_eq_some.mpr ⟨_,held,notExpired,rfl⟩
  rw [dispatched,found]
  rfl

theorem Tracked.dedupeExact (laws : PrintLaws env)
    (tracked : history.Tracked env texts request.eventName)
    (clockRuns : history.ClockRuns (.push request nowMs durableLsn))
    (apart : history.ValuesApart env texts parseBody request nowMs) :
    history.DedupeExact env ops texts parseBody request nowMs durableLsn := by
  intro value carried
  obtain ⟨within,apart⟩ := apart
  have faithful : ∀ original ∈ history.appliedPushes,
      original.Covers history.server.registry request.eventName nowMs →
        ∀ earlier, dedupeValue history.server.registry request.eventName original.row =
          some earlier → TextFaithful env texts earlier value := by
    intro original member covers earlier earlierValue
    have told := apart value carried original member covers earlier earlierValue
    exact (textFaithful_iff_toldApart laws told.read told.readOther).mpr told
  have original_of_replay : (history.server.dispatchPushSync env ops texts parseBody request nowMs
        durableLsn).1.isReplay = true →
      ∃ original ∈ history.appliedPushes,
        original.Repeated history.server.registry request.eventName value nowMs ∧
          history.Replays env ops texts parseBody request nowMs durableLsn original := by
    intro suppressed
    obtain ⟨original,member,covers,⟨earlier,earlierValue,sameText⟩,replays⟩ :=
      tracked.exists_original within carried suppressed
    have equal := (faithful original member covers earlier earlierValue).mp sameText
    exact ⟨original,member,⟨covers,earlier,earlierValue,equal⟩,replays⟩
  refine ⟨⟨fun suppressed => ?_,?_⟩,original_of_replay⟩
  · obtain ⟨original,member,repeated,-⟩ := original_of_replay suppressed
    exact ⟨original,member,repeated⟩
  · rintro ⟨original,member,covers,earlier,earlierValue,equal⟩
    have sameText := (faithful original member covers earlier earlierValue).mpr equal
    exact tracked.isReplay clockRuns within carried member covers earlierValue sameText

theorem tracked_run {actions : List PushAction}
    (fresh : ∀ key : String, server.idemCache[(eventName,key)]? = none)
    (clockRuns : Machine.Meets (next env ops texts parseBody) ClockRuns (start server) actions) :
    (Machine.run (next env ops texts parseBody) (start server) actions).Tracked env texts
      eventName := by
  have keeps : ∀ (history : PushHistory Expr Op) action, history.Tracked env texts eventName →
      history.ClockRuns action →
        (history.next env ops texts parseBody action).Tracked env texts eventName :=
    fun _ action tracked runs => tracked.next action runs
  exact Machine.invariant_run _ keeps (tracked_start fresh) clockRuns

/-- After every run, a push whose dedupe value is told apart from the others within
their windows is suppressed exactly when it repeats one of them. -/
theorem dedupeExact_run (laws : PrintLaws env) (server : PushServer Expr Op)
    (actions : List PushAction) (request : PushRequest) (nowMs durableLsn : Nat)
    (fresh : ∀ key : String, server.idemCache[(request.eventName,key)]? = none)
    (clockRuns : Machine.Meets (next env ops texts parseBody) ClockRuns (start server)
      (actions ++ [.push request nowMs durableLsn]))
    (apart : ValuesApart env texts parseBody
      (Machine.run (next env ops texts parseBody) (start server) actions) request nowMs) :
    DedupeExact env ops texts parseBody
      (Machine.run (next env ops texts parseBody) (start server) actions) request nowMs
        durableLsn := by
  obtain ⟨clockBefore,clockHere⟩ := (Machine.meets_append _).mp clockRuns
  exact (tracked_run fresh clockBefore).dedupeExact laws clockHere.1 apart

end PushHistory

end Exact

/-- An event with the dedupe key `id`. -/
def paymentEvent (keyType : FieldType) : PayloadNode :=
  .event
    { name := "Payment"
      schema := ⟨.ofList [("id",keyType)],[]⟩
      dedupeKey := some "id"
      dedupeWindowMs := some 1000
      keepEventsForMs := none
      coldAfterMs := none
      registeredAtVersion := 0
      applyFieldNames := [] }

def paymentServer (keyType : FieldType) : PushServer Empty (Option Int64) :=
  { registry :=
      (dispatchRegister sampleEnv .empty ⟨[paymentEvent keyType],false,false⟩ .durable).registry
    tables := []
    walLsn := .newAt 0
    wal := []
    nextEventId := 0
    queryTimeMs := 0
    idemCache := ∅ }

/-- A push in JSON, with the row the worker made of the body. -/
def payment (body : String) (id : Value) : PushRequest :=
  ⟨"Payment",strAsBytes body,1,some ⟨[("id",id)]⟩⟩

def sampleTexts : JsonTexts := ⟨fun _ => "null",fun _ => "Null"⟩

def noBody : UInt8 → List UInt8 → Option Row := fun _ _ => none

def samplePush : PushHistory Empty (Option Int64) → PushAction → PushHistory Empty (Option Int64) :=
  PushHistory.next sampleEnv sampleOps sampleTexts noBody

/-- Numbers by their bits, and a backslash before every character of a string. -/
def printingEnv : Env Empty :=
  { sampleEnv with
    displayF64 := fun number => toString (oneNaNNumber number).bits.toNat
    debugF64 := fun number => toString (oneNaNNumber number).bits.toNat
    debugStr := fun text =>
      "\"" ++ String.ofList (text.toList.flatMap fun ch => ['\\',ch]) ++ "\"" }

theorem backslashed_inj {first second behind other : List Char}
    (same : first.flatMap (fun ch => ['\\',ch]) ++ '"' :: behind =
      second.flatMap (fun ch => ['\\',ch]) ++ '"' :: other) :
    first = second ∧ behind = other := by
  induction first generalizing second with
  | nil => cases second with
    | nil => exact ⟨rfl,(List.cons.inj same).2⟩
    | cons head tail => exact absurd (List.cons.inj same).1 (by decide)
  | cons ch rest ih => cases second with
    | nil => exact absurd (List.cons.inj same).1 (by decide)
    | cons head tail =>
        simp only [List.flatMap_cons,List.cons_append,List.nil_append,List.cons.injEq,
          true_and] at same
        obtain ⟨sameRest,sameBehind⟩ := ih same.2
        exact ⟨by rw [same.1,sameRest],sameBehind⟩

theorem printingEnv_laws : PrintLaws printingEnv := by
  have numbers : ∀ first second : F64,
      toString (oneNaNNumber first).bits.toNat = toString (oneNaNNumber second).bits.toNat ↔
        oneNaNNumber first = oneNaNNumber second := by
    intro first second
    refine ⟨fun same => ?_,fun same => by rw [same]⟩
    exact congrArg F64.mk (UInt64.toNat_inj.mp (Nat.repr_injective same))
  have digits : ∀ number : F64, ∀ ch ∈ (toString (oneNaNNumber number).bits.toNat).toList,
      ch.isDigit = true := by
    intro number ch member
    rw [Nat.toString_eq_repr,Nat.toList_repr] at member
    exact Nat.isDigit_of_mem_toDigits (by decide) (by decide) member
  have written : ∀ text : String, (printingEnv.debugStr text).toList =
      '"' :: (text.toList.flatMap (fun ch => ['\\',ch]) ++ ['"']) := by
    intro text
    simp [printingEnv]
  refine ⟨numbers,fun number => ?_,numbers,fun number ch member closes => ?_,?_,
    fun text => ⟨_,written text⟩⟩
  · cases isText : (printingEnv.displayF64 number).toList with
    | nil => exact absurd (String.toList_eq_nil_iff.mp isText) Nat.repr_ne_empty
    | cons head rest =>
        exact ⟨head,rest,rfl,.inl (digits number head (isText ▸ List.mem_cons_self))⟩
  · have digit := digits number ch member
    simp only [closers,List.mem_cons,List.not_mem_nil,or_false] at closes
    rcases closes with rfl | rfl | rfl | rfl <;> cases digit
  · intro first second behind other same
    rw [written,written,List.cons_append,List.cons_append,List.append_assoc,
      List.append_assoc,List.cons.injEq] at same
    obtain ⟨sameText,sameBehind⟩ := backslashed_inj same.2
    exact ⟨String.toList_inj.mp sameText,sameBehind⟩

def printingPush : PushHistory Empty (Option Int64) → PushAction →
    PushHistory Empty (Option Int64) :=
  PushHistory.next printingEnv sampleOps sampleTexts noBody

def repeatedPayment : PushRequest := payment "\x7b\"id\":\"a\"\x7d" (.str "a")

/-- A payment, a sweep within its window and the same payment again. -/
theorem dedupeExact_repeatedPayment :
    PushHistory.DedupeExact printingEnv sampleOps sampleTexts noBody
      (Machine.run printingPush (.start (paymentServer .str))
        [.push repeatedPayment 5 0,.sweepExpired 100]) repeatedPayment 200 0 := by
  refine PushHistory.dedupeExact_run printingEnv_laws (paymentServer .str)
    [.push repeatedPayment 5 0,.sweepExpired 100] repeatedPayment 200 0 (fun _ => rfl) (by decide)
    ⟨by decide,?_⟩
  intro value carried original member _ earlier earlierValue
  have isText : value = .str "a" := by
    have found : repeatedPayment.carried noBody (paymentServer .str).registry = some (.str "a") := by
      decide
    exact Option.some.inj (carried.symm.trans found)
  have first : ∀ original ∈ (Machine.run printingPush (.start (paymentServer .str))
      [.push repeatedPayment 5 0,.sweepExpired 100]).appliedPushes,
        dedupeValue (paymentServer .str).registry "Payment" original.row = some (.str "a") := by
    decide
  have isEarlier : earlier = .str "a" :=
    Option.some.inj (earlierValue.symm.trans (first original member))
  rw [isText,isEarlier]
  exact ⟨.str _,.str _,fun _ => by simp [Value.partialEq],fun differ => absurd rfl differ⟩

/-- The number one and the text of it, in a field that takes any value. -/
theorem payment_suppressed_by_number :
    (∀ key : String, (paymentServer .json).idemCache[("Payment",key)]? = none) ∧
      Machine.Meets samplePush PushHistory.ClockRuns (.start (paymentServer .json))
        [.push (payment "\x7b\"id\":1\x7d" (.i64 1)) 5 0,
          .push (payment "\x7b\"id\":\"1\"\x7d" (.str "1")) 6 0] ∧
      ¬ PushHistory.DedupeExact sampleEnv sampleOps sampleTexts noBody
        (Machine.run samplePush (.start (paymentServer .json))
          [.push (payment "\x7b\"id\":1\x7d" (.i64 1)) 5 0])
        (payment "\x7b\"id\":\"1\"\x7d" (.str "1")) 6 0 := by
  refine ⟨fun _ => rfl,by decide,?_⟩
  intro exact_
  obtain ⟨⟨repeats,-⟩,-⟩ := exact_ (.str "1") (by decide)
  obtain ⟨original,member,-,earlier,earlierValue,equal⟩ := repeats (by decide)
  have different : ∀ original ∈ (Machine.run samplePush (.start (paymentServer .json))
        [.push (payment "\x7b\"id\":1\x7d" (.i64 1)) 5 0]).appliedPushes,
      ∀ earlier ∈ dedupeValue (paymentServer .json).registry "Payment" original.row,
        earlier.partialEq (.str "1") = false := by
    decide
  rw [different original member earlier earlierValue] at equal
  cases equal

end Beava.Server
