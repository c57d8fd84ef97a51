/-
The order of the replies on a connection.

What a client is to get are the replies to its requests, in order, and at the end the
error frame for a frame that was too long.  While the client is open, the bytes its
socket was given, those in its buffer and the responses on the way to it are all of
that.  The worker puts the error frame behind the buffer, and drops the responses that
come later: the order is kept when none is on its way.
-/

import Beava.Lib.Machine
import Beava.Server.Workers

namespace Beava.Server.Pool

open Beava.Core Addressed

variable {host : Host}
variable {slot : Nat} {client : WorkerClient}

/-! ### What is owed -/

def encodeAll (proto : WorkerProto) (responses : List host.Response) : List UInt8 :=
  responses.flatMap (host.encode proto)

/-- The responses to items, taken in order. -/
def jobsFrom : List (RingItem host.Request) → List (RingItem host.Request) →
    List (Nat × host.Response)
  | _, [] => []
  | before, item :: rest => responsesTo before item ++ jobsFrom (before ++ [item]) rest

/-- The reply to an item, as its client is to get it. -/
def reply (proto : WorkerProto) (before : List (RingItem host.Request)) :
    RingItem host.Request → List UInt8
  | .request _ _ request parsedRow => encodeAll proto (host.dispatch before request parsedRow)
  | .parseError _ kind => inlineFrame kind

/-- What the client at a slot is to get for an item. -/
def replyTo (proto : WorkerProto) (slot : Nat) (before : List (RingItem host.Request))
    (item : RingItem host.Request) : List UInt8 :=
  if item.slotIdx = slot then reply proto before item else []

def repliesFrom (proto : WorkerProto) (slot : Nat) :
    List (RingItem host.Request) → List (RingItem host.Request) → List UInt8
  | _, [] => []
  | before, item :: rest =>
      replyTo proto slot before item ++ repliesFrom proto slot (before ++ [item]) rest

theorem jobsFrom_append (before first second : List (RingItem host.Request)) :
    jobsFrom before (first ++ second) = jobsFrom before first ++ jobsFrom (before ++ first) second := by
  induction first generalizing before with
  | nil => rw [List.append_nil,List.nil_append,jobsFrom,List.nil_append]
  | cons item rest ih =>
      rw [List.cons_append,jobsFrom,jobsFrom,ih,List.append_assoc,List.append_assoc,
        List.singleton_append]

theorem jobsFrom_singleton (before : List (RingItem host.Request))
    (item : RingItem host.Request) : jobsFrom before [item] = responsesTo before item := by
  rw [jobsFrom,jobsFrom,List.append_nil]

theorem repliesFrom_append (proto : WorkerProto) (slot : Nat)
    (before first second : List (RingItem host.Request)) :
    repliesFrom proto slot before (first ++ second) =
      repliesFrom proto slot before first ++ repliesFrom proto slot (before ++ first) second := by
  induction first generalizing before with
  | nil => rw [List.append_nil,List.nil_append,repliesFrom,List.nil_append]
  | cons item rest ih =>
      rw [List.cons_append,repliesFrom,repliesFrom,ih,List.append_assoc,List.append_assoc,
        List.singleton_append]

theorem repliesFrom_singleton (proto : WorkerProto) (slot : Nat)
    (before : List (RingItem host.Request)) (item : RingItem host.Request) :
    repliesFrom proto slot before [item] = replyTo proto slot before item := by
  rw [repliesFrom,repliesFrom,List.append_nil]

theorem repliesFrom_others {proto : WorkerProto} {before items : List (RingItem host.Request)}
    (others : ∀ item ∈ items, item.slotIdx ≠ slot) : repliesFrom proto slot before items = [] := by
  induction items generalizing before with
  | nil => rfl
  | cons item rest ih =>
      rw [repliesFrom,replyTo,if_neg (others item List.mem_cons_self),List.nil_append]
      exact ih fun other member => others other (List.mem_cons_of_mem item member)

theorem forAddress_responsesTo_other {before : List (RingItem host.Request)}
    {item : RingItem host.Request} (different : item.slotIdx ≠ slot) :
    forAddress slot (responsesTo before item) = [] := by
  cases item with
  | request slotIdx keepAlive request parsedRow => exact forAddress_map_other different _
  | parseError slotIdx kind => exact forAddress_cons_other different _ _

theorem encodeAll_append (proto : WorkerProto) (first second : List host.Response) :
    encodeAll proto (first ++ second) = encodeAll proto first ++ encodeAll proto second :=
  List.flatMap_append

/-- What concerns the client at one slot. -/
structure View (host : Host) where
  client : Option WorkerClient
  waiting : Prop
  silent : Prop
  pending : List host.Response
  written : List UInt8
  expected : List UInt8

def viewOf (state : State host) (worker : Worker host) (slot : Nat) : View host :=
  { client := worker.clients[slot]?
    waiting := state.acceptSeq ≤ slot ∨ slot ∈ worker.newClientRx.map NewClient.slotIdx
    silent := ∀ item ∈ state.handled ++ state.readRx, item.slotIdx ≠ slot
    pending := forAddress slot (worker.writeRx ++ state.outgoing ++ state.responseBatch ++
      jobsFrom state.handled state.readRx)
    written := state.written slot
    expected := repliesFrom (state.slotProto slot) slot [] (state.handled ++ state.readRx) }

def view (state : State host) (slot : Nat) : View host :=
  viewOf state (state.workers (slot % host.nWorkers)) slot

/-- What a client that is there has been given and is going to get. -/
def Accounted (view : View host) (client : WorkerClient) : Prop :=
  if client.closed then view.written ++ client.writeBuf <+: view.expected
  else view.written ++ client.writeBuf ++ encodeAll client.proto view.pending = view.expected

structure Delivered (view : View host) : Prop where
  sofar : view.written <+: view.expected
  waiting : view.waiting → view.silent ∧ view.pending = [] ∧ view.written = []
  client : ∀ client, view.client = some client → Accounted view client

theorem Accounted.beginning {view : View host} (accounted : Accounted view client) :
    view.written ++ client.writeBuf <+: view.expected := by
  unfold Accounted at accounted
  split at accounted
  · exact accounted
  · rw [← accounted]
    exact List.prefix_append _ _

theorem Accounted.close {view : View host} (accounted : Accounted view client)
    {closed : WorkerClient} (isClosed : closed.closed = true)
    (sameBuf : closed.writeBuf = client.writeBuf) : Accounted view closed := by
  rw [Accounted,if_pos isClosed,sameBuf]
  exact accounted.beginning

/-- Every client is with its own worker, and no slot is used twice. -/
structure WorkerPlaced (state : State host) (index : Nat) (worker : Worker host) : Prop where
  clients : ∀ {slot : Nat} {client : WorkerClient}, worker.clients[slot]? = some client →
    slot % host.nWorkers = index ∧ slot < state.acceptSeq ∧ client.proto = state.slotProto slot
  queued : ∀ {client : NewClient}, client ∈ worker.newClientRx →
    client.slotIdx % host.nWorkers = index ∧ client.slotIdx < state.acceptSeq ∧
      client.proto = state.slotProto client.slotIdx ∧ worker.clients[client.slotIdx]? = none
  distinct : (worker.newClientRx.map NewClient.slotIdx).Nodup

/-- The clients that are closed are removed before the next pass begins. -/
def OpenIn (worker : Worker host) : Prop :=
  match worker.phase with
  | .registering | .encoding | .polling =>
      ∀ (slot : Nat) (client : WorkerClient), worker.clients[slot]? = some client →
        client.closed = false
  | .parsing slot _ _ =>
      ∀ client : WorkerClient, worker.clients[slot]? = some client → client.closed = false
  | _ => True

structure Invariant (state : State host) : Prop where
  few : state.acceptSeq ≤ 2 ^ 32
  placed : ∀ index, WorkerPlaced state index (state.workers index)
  opened : ∀ index, OpenIn (state.workers index)
  delivered : ∀ slot, Delivered (view state slot)

/-! ### Changes of one worker -/

section Changes

variable {state : State host} {index slot : Nat}
variable {worker : Worker host} {client : WorkerClient} {item : RingItem host.Request}
variable {changed : State host} {clients : Std.ExtTreeMap Nat WorkerClient}
variable {response : host.Response} {rest : List (Nat × host.Response)}
variable {old : WorkerClient} {phase : Phase}

theorem workers_setWorker_same (worker : Worker host) :
    (state.setWorker index worker).workers index = worker :=
  Function.update_self ..

theorem workers_setWorker_other {other : Nat} (different : other ≠ index) (worker : Worker host) :
    (state.setWorker index worker).workers other = state.workers other :=
  Function.update_of_ne different ..

theorem view_setWorker_same (own : slot % host.nWorkers = index) :
    view (state.setWorker index worker) slot = viewOf state worker slot := by
  rw [view,own,workers_setWorker_same]
  rfl

theorem view_setWorker_other (foreign : slot % host.nWorkers ≠ index) :
    view (state.setWorker index worker) slot = view state slot := by
  rw [view,workers_setWorker_other foreign]
  rfl

theorem view_setWorker_eq (clients : worker.clients = (state.workers index).clients)
    (newClientRx : worker.newClientRx = (state.workers index).newClientRx)
    (writeRx : worker.writeRx = (state.workers index).writeRx) :
    view (state.setWorker index worker) slot = view state slot := by
  by_cases own : slot % host.nWorkers = index
  · rw [view_setWorker_same own]
    subst own
    unfold view viewOf
    rw [clients,newClientRx,writeRx]
  · exact view_setWorker_other own

theorem view_setPhase (phase : Phase) : view (state.setPhase index phase) slot = view state slot :=
  view_setWorker_eq rfl rfl rfl

theorem view_setClient {changed : Nat} (own : changed % host.nWorkers = index) :
    view (state.setClient index changed client) slot =
      if slot = changed then { view state slot with client := some client } else view state slot := by
  by_cases here : slot % host.nWorkers = index
  · unfold State.setClient
    rw [view_setWorker_same here]
    subst here
    unfold view viewOf
    rw [KeyMap.lookup_insert]
    by_cases same : changed = slot
    · subst same
      rw [if_pos rfl,if_pos rfl]
    · rw [if_neg same,if_neg (Ne.symm same)]
  · have different : slot ≠ changed := by
      intro same
      exact here (same ▸ own)
    rw [if_neg different]
    exact view_setWorker_other here

theorem view_removeClient {removed : Nat} (own : removed % host.nWorkers = index) :
    view (state.removeClient index removed) slot =
      if slot = removed then { view state slot with client := none } else view state slot := by
  by_cases here : slot % host.nWorkers = index
  · unfold State.removeClient
    rw [view_setWorker_same here]
    subst here
    unfold view viewOf
    rw [KeyMap.lookup_erase]
    by_cases same : removed = slot
    · subst same
      rw [if_pos rfl,if_pos rfl]
    · rw [if_neg same,if_neg (Ne.symm same)]
  · have different : slot ≠ removed := by
      intro same
      exact here (same ▸ own)
    rw [if_neg different]
    exact view_setWorker_other here

theorem view_write {changed : Nat} (bytes : List UInt8) :
    view (state.write changed bytes) slot =
      if slot = changed then { view state slot with written := (view state slot).written ++ bytes }
      else view state slot := by
  unfold view viewOf State.write
  split
  · rename_i same
    subst same
    dsimp only
    rw [Function.update_self]
  · rename_i different
    dsimp only
    rw [Function.update_of_ne different]

theorem view_push (item : RingItem host.Request) :
    view (state.push item) slot =
      { view state slot with
        silent := (view state slot).silent ∧ item.slotIdx ≠ slot
        pending := (view state slot).pending ++
          forAddress slot (responsesTo (state.handled ++ state.readRx) item)
        expected := (view state slot).expected ++
          replyTo (state.slotProto slot) slot (state.handled ++ state.readRx) item } := by
  have pending : ∀ queued : List (Nat × host.Response),
      forAddress slot (queued ++ jobsFrom state.handled (state.readRx ++ [item])) =
        forAddress slot (queued ++ jobsFrom state.handled state.readRx) ++
          forAddress slot (responsesTo (state.handled ++ state.readRx) item) := by
    intro queued
    rw [jobsFrom_append,jobsFrom_singleton,← List.append_assoc,forAddress_append]
  have silent : (∀ other ∈ state.handled ++ (state.readRx ++ [item]), other.slotIdx ≠ slot) =
      ((∀ other ∈ state.handled ++ state.readRx, other.slotIdx ≠ slot) ∧ item.slotIdx ≠ slot) := by
    rw [← List.append_assoc]
    exact propext (List.forall_mem_append.trans (and_congr_right fun _ => List.forall_mem_singleton))
  have expected : repliesFrom (state.slotProto slot) slot []
        (state.handled ++ (state.readRx ++ [item])) =
      repliesFrom (state.slotProto slot) slot [] (state.handled ++ state.readRx) ++
        replyTo (state.slotProto slot) slot (state.handled ++ state.readRx) item := by
    rw [← List.append_assoc,repliesFrom_append,repliesFrom_singleton,List.nil_append]
  unfold view viewOf State.push
  dsimp only
  rw [pending,silent,expected]

theorem view_push_other (different : item.slotIdx ≠ slot) :
    view (state.push item) slot = view state slot := by
  rw [view_push,forAddress_responsesTo_other different,replyTo,if_neg different,
    List.append_nil,List.append_nil,and_iff_left different]

theorem Delivered.setClient {view : View host} (delivered : Delivered view)
    (accounted : Accounted view client) :
    Delivered { view with client := some client } where
  sofar := delivered.sofar
  waiting := delivered.waiting
  client := by
    intro found isFound
    cases isFound
    exact accounted

theorem Delivered.removeClient {view : View host} (delivered : Delivered view) :
    Delivered { view with client := none } where
  sofar := delivered.sofar
  waiting := delivered.waiting
  client := by
    intro found isFound
    cases isFound

theorem WorkerPlaced.setClient (placed : WorkerPlaced state index worker) {changed : Nat}
    (isOld : worker.clients[changed]? = some old) (proto : client.proto = old.proto)
    (phase : Phase) :
    WorkerPlaced state index
      { worker with phase := phase, clients := worker.clients.insert changed client } where
  clients := by
    intro slot found isFound
    dsimp only at isFound
    rw [KeyMap.lookup_insert] at isFound
    split at isFound
    · rename_i same
      cases isFound
      subst same
      rw [proto]
      exact placed.clients isOld
    · exact placed.clients isFound
  queued := by
    intro found member
    obtain ⟨own,below,protoEq,absent⟩ := placed.queued member
    have different : changed ≠ found.slotIdx := by
      intro same
      rw [← same,isOld] at absent
      cases absent
    refine ⟨own,below,protoEq,?_⟩
    dsimp only
    rw [KeyMap.lookup_insert,if_neg different]
    exact absent
  distinct := placed.distinct

theorem WorkerPlaced.removeClient (placed : WorkerPlaced state index worker) (removed : Nat)
    (phase : Phase) :
    WorkerPlaced state index
      { worker with phase := phase, clients := worker.clients.erase removed } where
  clients := by
    intro slot found isFound
    dsimp only at isFound
    rw [KeyMap.lookup_erase] at isFound
    split at isFound
    · cases isFound
    · exact placed.clients isFound
  queued := by
    intro found member
    obtain ⟨own,below,protoEq,absent⟩ := placed.queued member
    refine ⟨own,below,protoEq,?_⟩
    dsimp only
    rw [KeyMap.lookup_erase,absent,ite_self]
  distinct := placed.distinct

/-- A state that differs in one worker, in the items and in the bytes given to the sockets. -/
structure Differs (state changed : State host) (index : Nat) (worker : Worker host) : Prop where
  acceptSeq : changed.acceptSeq = state.acceptSeq
  slotProto : changed.slotProto = state.slotProto
  here : changed.workers index = worker
  elsewhere : ∀ other, other ≠ index → changed.workers other = state.workers other

theorem Invariant.of_differs (holds : Invariant state)
    (differs : Differs state changed index worker) (placed : WorkerPlaced state index worker)
    (opened : OpenIn worker) (delivered : ∀ slot, Delivered (view changed slot)) :
    Invariant changed where
  few := differs.acceptSeq ▸ holds.few
  placed := by
    intro other
    have kept : ∀ {worker : Worker host}, WorkerPlaced state other worker →
        WorkerPlaced changed other worker := by
      intro worker before
      constructor
      · rw [differs.acceptSeq,differs.slotProto]
        exact before.clients
      · rw [differs.acceptSeq,differs.slotProto]
        exact before.queued
      · exact before.distinct
    by_cases same : other = index
    · subst same
      rw [differs.here]
      exact kept placed
    · rw [differs.elsewhere other same]
      exact kept (holds.placed other)
  opened := by
    intro other
    by_cases same : other = index
    · subst same
      rw [differs.here]
      exact opened
    · rw [differs.elsewhere other same]
      exact holds.opened other
  delivered := delivered

theorem differs_setWorker (worker : Worker host) :
    Differs state (state.setWorker index worker) index worker :=
  ⟨rfl,rfl,workers_setWorker_same worker,fun _ different =>
    workers_setWorker_other different worker⟩

theorem Invariant.setWorker (holds : Invariant state) (placed : WorkerPlaced state index worker)
    (opened : OpenIn worker)
    (delivered : ∀ slot, slot % host.nWorkers = index → Delivered (viewOf state worker slot)) :
    Invariant (state.setWorker index worker) := by
  apply holds.of_differs (differs_setWorker worker) placed opened
  intro slot
  by_cases own : slot % host.nWorkers = index
  · rw [view_setWorker_same own]
    exact delivered slot own
  · rw [view_setWorker_other own]
    exact holds.delivered slot

theorem openIn_iff (before : worker.phase = .registering ∨ worker.phase = .encoding) :
    OpenIn worker ↔ ∀ (slot : Nat) (client : WorkerClient), worker.clients[slot]? = some client →
      client.closed = false := by
  unfold OpenIn
  rcases before with registering | encoding
  · rw [registering]
  · rw [encoding]

theorem openIn_of_all
    (before : worker.phase = .registering ∨ worker.phase = .encoding)
    (allOpen : ∀ (slot : Nat) (client : WorkerClient), worker.clients[slot]? = some client →
      client.closed = false) : OpenIn worker :=
  (openIn_iff before).mpr allOpen

theorem Differs.setPhase (differs : Differs state changed index worker) (phase : Phase) :
    Differs state (changed.setPhase index phase) index { worker with phase := phase } where
  acceptSeq := differs.acceptSeq
  slotProto := differs.slotProto
  here := by rw [State.setPhase,workers_setWorker_same,differs.here]
  elsewhere := by
    intro other different
    rw [State.setPhase,workers_setWorker_other different]
    exact differs.elsewhere other different

theorem Differs.push (differs : Differs state changed index worker) (item : RingItem host.Request) :
    Differs state (changed.push item) index worker :=
  ⟨differs.acceptSeq,differs.slotProto,differs.here,differs.elsewhere⟩

theorem Differs.write (differs : Differs state changed index worker) (slot : Nat)
    (bytes : List UInt8) : Differs state (changed.write slot bytes) index worker :=
  ⟨differs.acceptSeq,differs.slotProto,differs.here,differs.elsewhere⟩

theorem Differs.removeClient (differs : Differs state changed index worker) (removed : Nat) :
    Differs state (changed.removeClient index removed) index
      { worker with clients := worker.clients.erase removed } where
  acceptSeq := differs.acceptSeq
  slotProto := differs.slotProto
  here := by rw [State.removeClient,workers_setWorker_same,differs.here]
  elsewhere := by
    intro other different
    rw [State.removeClient,workers_setWorker_other different]
    exact differs.elsewhere other different

/-! ### Steps of a worker -/

theorem Invariant.setPhase (holds : Invariant state)
    (opened : OpenIn { state.workers index with phase := phase }) :
    Invariant (state.setPhase index phase) := by
  have placed := holds.placed index
  have differs : Differs state (state.setPhase index phase) index
      { state.workers index with phase := phase } := differs_setWorker _
  apply holds.of_differs differs ⟨placed.clients,placed.queued,placed.distinct⟩ opened
  intro slot
  have same : view (state.setPhase index phase) slot = view state slot := view_setPhase phase
  exact same ▸ holds.delivered slot

theorem Invariant.view_client (holds : Invariant state)
    (isClient : (state.workers index).clients[slot]? = some client) :
    (view state slot).client = some client := by
  obtain ⟨rfl,-,-⟩ := (holds.placed index).clients isClient
  exact isClient

theorem Invariant.accounted (holds : Invariant state)
    (isClient : (state.workers index).clients[slot]? = some client) :
    Accounted (view state slot) client :=
  (holds.delivered slot).client client (holds.view_client isClient)

theorem Invariant.not_waiting (holds : Invariant state)
    (isClient : (state.workers index).clients[slot]? = some client) :
    ¬ (view state slot).waiting := by
  obtain ⟨rfl,below,-⟩ := (holds.placed index).clients isClient
  intro waiting
  rcases waiting with above | queued
  · exact absurd below (Nat.not_lt.mpr above)
  · obtain ⟨found,member,rfl⟩ := List.mem_map.mp queued
    obtain ⟨-,-,-,absent⟩ := (holds.placed _).queued member
    rw [isClient] at absent
    cases absent

theorem Invariant.setClient (holds : Invariant state)
    (isOld : (state.workers index).clients[slot]? = some old) (proto : client.proto = old.proto)
    (accounted : Accounted (view state slot) client)
    (opened : OpenIn { state.workers index with
      phase := phase, clients := (state.workers index).clients.insert slot client }) :
    Invariant ((state.setClient index slot client).setPhase index phase) := by
  have placed := holds.placed index
  obtain ⟨own,-,-⟩ := placed.clients isOld
  have differs : Differs state (state.setClient index slot client) index
      { state.workers index with clients := (state.workers index).clients.insert slot client } :=
    differs_setWorker _
  apply holds.of_differs (differs.setPhase phase) (placed.setClient isOld proto phase) opened
  intro other
  rw [view_setPhase,view_setClient own]
  split
  · rename_i same
    subst same
    exact (holds.delivered other).setClient accounted
  · exact holds.delivered other

theorem flushWriteBuf_spec (writes : List WriteResult) (client : WorkerClient) :
    (flushWriteBuf writes client).2 ++ (flushWriteBuf writes client).1.writeBuf =
        client.writeBuf ∧
      (flushWriteBuf writes client).1.proto = client.proto ∧
      (client.closed = true → (flushWriteBuf writes client).1.closed = true) := by
  induction writes generalizing client with
  | nil => exact ⟨rfl,rfl,id⟩
  | cons result rest ih =>
      unfold flushWriteBuf
      split
      · exact ⟨rfl,rfl,id⟩
      · split
        · exact ⟨rfl,rfl,fun _ => rfl⟩
        · exact ⟨rfl,rfl,id⟩
        · rename_i count _
          obtain ⟨whole,proto,closed⟩ :=
            ih { client with writeBuf := client.writeBuf.drop count }
          refine ⟨?_,proto,closed⟩
          dsimp only at whole ⊢
          rw [List.append_assoc,whole,List.take_append_drop]

theorem Accounted.flush {view : View host} (accounted : Accounted view client)
    (writes : List WriteResult) :
    Accounted { view with written := view.written ++ (flushWriteBuf writes client).2 }
      (flushWriteBuf writes client).1 := by
  obtain ⟨whole,proto,keepsClosed⟩ := flushWriteBuf_spec writes client
  cases isClosed : (flushWriteBuf writes client).1.closed with
  | true =>
      rw [Accounted,if_pos isClosed,List.append_assoc,whole]
      exact accounted.beginning
  | false =>
      have wasOpen : ¬ client.closed = true := by
        intro closed
        rw [keepsClosed closed] at isClosed
        cases isClosed
      rw [Accounted,if_neg wasOpen] at accounted
      rw [Accounted,if_neg (by rw [isClosed]; exact Bool.false_ne_true),proto]
      dsimp only
      rw [List.append_assoc view.written,whole]
      exact accounted

theorem Accounted.delivered_flush {view : View host} (accounted : Accounted view client)
    (notWaiting : ¬ view.waiting) (writes : List WriteResult) (kept : Option WorkerClient)
    (isKept : ∀ found, kept = some found → found = (flushWriteBuf writes client).1) :
    Delivered { view with
      client := kept, written := view.written ++ (flushWriteBuf writes client).2 } where
  sofar := by
    have flushed := (accounted.flush writes).beginning
    exact (List.prefix_append _ _).trans flushed
  waiting := fun waiting => absurd waiting notWaiting
  client := by
    intro found isFound
    rw [isKept found isFound]
    exact accounted.flush writes

theorem view_flushClient (own : slot % host.nWorkers = index) (client : WorkerClient)
    (writes : List WriteResult) (other : Nat) :
    view (state.flushClient index slot client writes) other =
      if other = slot then
        { view state other with
          client := some (flushWriteBuf writes client).1
          written := (view state other).written ++ (flushWriteBuf writes client).2 }
      else view state other := by
  unfold State.flushClient
  dsimp only
  rw [view_write,view_setClient own]
  split <;> rfl

theorem differs_flushClient (index slot : Nat) (client : WorkerClient)
    (writes : List WriteResult) :
    Differs state (state.flushClient index slot client writes) index
      { state.workers index with
        clients := (state.workers index).clients.insert slot (flushWriteBuf writes client).1 } :=
  (differs_setWorker _).write slot _

theorem Invariant.flushClient (holds : Invariant state)
    (isClient : (state.workers index).clients[slot]? = some client) (writes : List WriteResult)
    (events : List IoEvent) (toClose : List Nat) :
    Invariant ((state.flushClient index slot client writes).setPhase index
      (.serving events toClose)) := by
  have placed := holds.placed index
  obtain ⟨own,-,-⟩ := placed.clients isClient
  obtain ⟨-,proto,-⟩ := flushWriteBuf_spec writes client
  have differs := @differs_flushClient host state index slot client writes
  apply holds.of_differs (differs.setPhase (.serving events toClose))
    (placed.setClient isClient proto _) trivial
  intro other
  rw [view_setPhase,view_flushClient own]
  split
  · rename_i same
    subst same
    exact (holds.accounted isClient).delivered_flush (holds.not_waiting isClient) writes _
      fun found isFound => (Option.some.inj isFound).symm
  · exact holds.delivered other

theorem Invariant.removeClient (holds : Invariant state) (rest : List Nat) :
    Invariant ((state.removeClient index slot).setPhase index (.closing rest)) := by
  have placed := holds.placed index
  have differs : Differs state (state.removeClient index slot) index
      { state.workers index with clients := (state.workers index).clients.erase slot } :=
    differs_setWorker _
  apply holds.of_differs (differs.setPhase (.closing rest)) (placed.removeClient slot _) trivial
  intro other
  rw [view_setPhase]
  by_cases own : slot % host.nWorkers = index
  · rw [view_removeClient own]
    split
    · exact (holds.delivered other).removeClient
    · exact holds.delivered other
  · -- the slot is not one of this worker
    have same : view (state.removeClient index slot) other = view state other := by
      by_cases here : other % host.nWorkers = index
      · have different : slot ≠ other := by
          intro same
          exact own (same ▸ here)
        unfold State.removeClient
        rw [view_setWorker_same here]
        subst here
        unfold view viewOf
        rw [KeyMap.lookup_erase,if_neg different]
      · exact view_setWorker_other here
    exact same ▸ holds.delivered other

theorem Invariant.clean (holds : Invariant state) (cleaning : (state.workers index).phase = .cleaning)
    (chosen : Nat) (writes : List WriteResult) : Invariant (state.clean index chosen writes) := by
  unfold State.clean
  split
  · rename_i client isClient
    split
    · -- the client is flushed and dropped
      have placed := holds.placed index
      obtain ⟨own,-,-⟩ := placed.clients isClient
      obtain ⟨-,proto,-⟩ := flushWriteBuf_spec writes client
      have differs := @differs_flushClient host state index chosen client writes
      have kept := (placed.setClient isClient proto .cleaning).removeClient chosen .cleaning
      have opened : OpenIn { state.workers index with
          clients := ((state.workers index).clients.insert chosen
            (flushWriteBuf writes client).1).erase chosen } := by
        unfold OpenIn
        dsimp only
        rw [cleaning]
        trivial
      apply holds.of_differs (differs.removeClient chosen)
        ⟨kept.clients,kept.queued,kept.distinct⟩ opened
      intro other
      rw [view_removeClient own,view_flushClient own]
      split
      · rename_i same
        subst same
        exact (holds.accounted isClient).delivered_flush (holds.not_waiting isClient) writes none
          fun found never => by cases never
      · exact holds.delivered other
    · exact holds
  · split
    · rename_i allOpen
      apply holds.setPhase
      intro slot client isClient
      have listed := Std.ExtTreeMap.mem_toList_iff_getElem?_eq_some.mpr isClient
      have isOpen := List.all_eq_true.mp allOpen (slot,client) listed
      exact Bool.not_eq_true' _ ▸ isOpen
    · exact holds

theorem lookup_added {slotIdx : Nat} (added : Bool) (slot : Nat) :
    (if added then clients.insert slotIdx client else clients)[slot]? =
      if added = true ∧ slotIdx = slot then some client else clients[slot]? := by
  cases added with
  | false => rw [if_neg Bool.false_ne_true,if_neg (fun both => Bool.false_ne_true both.1)]
  | true =>
      rw [if_pos rfl,KeyMap.lookup_insert]
      exact if_congr (and_iff_right rfl).symm rfl rfl

theorem WorkerPlaced.register (placed : WorkerPlaced state index worker) {newClient : NewClient}
    {rest : List NewClient} (queue : worker.newClientRx = newClient :: rest) (added : Bool) :
    WorkerPlaced state index
      { worker with
        newClientRx := rest
        clients :=
          if added then worker.clients.insert newClient.slotIdx (.new newClient.proto)
          else worker.clients } := by
  obtain ⟨own,below,protoEq,-⟩ := placed.queued (queue ▸ List.mem_cons_self)
  have distinct := placed.distinct
  rw [queue,List.map_cons,List.nodup_cons] at distinct
  constructor
  · intro slot client isClient
    dsimp only at isClient
    rw [lookup_added] at isClient
    split at isClient
    · rename_i here
      cases isClient
      rw [← here.2]
      exact ⟨own,below,protoEq⟩
    · exact placed.clients isClient
  · intro client member
    obtain ⟨otherOwn,otherBelow,otherProto,otherAbsent⟩ :=
      placed.queued (queue ▸ List.mem_cons_of_mem newClient member)
    have others : newClient.slotIdx ≠ client.slotIdx := by
      intro same
      exact distinct.1 (same ▸ List.mem_map_of_mem member)
    refine ⟨otherOwn,otherBelow,otherProto,?_⟩
    dsimp only
    rw [lookup_added,if_neg fun both => others both.2]
    exact otherAbsent
  · exact distinct.2

theorem Delivered.accounted_new (delivered : Delivered (view state slot))
    (waiting : (view state slot).waiting) (proto : WorkerProto) :
    Accounted (view state slot) (.new proto) := by
  obtain ⟨silent,noPending,noneWritten⟩ := delivered.waiting waiting
  have nothing : (view state slot).expected = [] := repliesFrom_others silent
  rw [Accounted,if_neg (show ¬ (WorkerClient.new proto).closed = true from Bool.false_ne_true),
    noPending,noneWritten,nothing]
  rfl

theorem Invariant.register (holds : Invariant state)
    (registering : (state.workers index).phase = .registering) (added : Bool) :
    Invariant (state.register index added) := by
  have allOpen := (openIn_iff (.inl registering)).mp (holds.opened index)
  unfold State.register
  dsimp only
  split
  · apply holds.setPhase
    exact allOpen
  · rename_i newClient rest queue
    apply holds.setWorker ((holds.placed index).register queue added)
    · refine openIn_of_all (.inl registering) ?_
      intro slot client isClient
      dsimp only at isClient
      rw [lookup_added] at isClient
      split at isClient
      · cases isClient
        rfl
      · exact allOpen slot client isClient
    · intro slot own
      subst own
      have before := holds.delivered slot
      have stillQueued : ∀ {slotIdx : Nat}, slotIdx ∈ rest.map NewClient.slotIdx →
          slotIdx ∈ (state.workers (slot % host.nWorkers)).newClientRx.map NewClient.slotIdx := by
        intro slotIdx member
        rw [queue,List.map_cons]
        exact List.mem_cons_of_mem _ member
      constructor
      · exact before.sofar
      · intro waiting
        exact before.waiting (waiting.imp_right stillQueued)
      · intro client isClient
        unfold viewOf at isClient
        dsimp only at isClient
        rw [lookup_added] at isClient
        split at isClient
        · rename_i added
          cases isClient
          apply before.accounted_new
          refine .inr ?_
          rw [queue,List.map_cons,added.2]
          exact List.mem_cons_self
        · exact before.client client isClient

theorem Accounted.encode {view : View host} {rest : List host.Response}
    (accounted : Accounted view client) (isOpen : client.closed = false)
    (first : view.pending = response :: rest) :
    Accounted { view with pending := rest }
      { client with writeBuf := client.writeBuf ++ host.encode client.proto response } := by
  have notClosed : ¬ client.closed = true := by
    rw [isOpen]
    exact Bool.false_ne_true
  rw [Accounted,if_neg notClosed,first,encodeAll,List.flatMap_cons] at accounted
  rw [Accounted,if_neg notClosed]
  dsimp only
  rw [← accounted,encodeAll]
  simp only [List.append_assoc]

theorem viewOf_encoded_other {job : Nat} (queue : worker.writeRx = (job,response) :: rest)
    (different : slot ≠ job) (sameClient : clients[slot]? = worker.clients[slot]?) :
    viewOf state { worker with writeRx := rest, clients := clients } slot =
      viewOf state worker slot := by
  unfold viewOf
  dsimp only
  rw [sameClient,queue]
  simp only [List.cons_append,forAddress_cons_other (Ne.symm different)]

theorem viewOf_encoded_same (queue : worker.writeRx = (slot,response) :: rest)
    (clients : Std.ExtTreeMap Nat WorkerClient) :
    (viewOf state worker slot).pending =
      response :: (viewOf state { worker with writeRx := rest, clients := clients } slot).pending := by
  unfold viewOf
  dsimp only
  rw [queue]
  exact forAddress_cons_same _ _ _

theorem Invariant.encode (holds : Invariant state)
    (encoding : (state.workers index).phase = .encoding) : Invariant (state.encode index) := by
  have placed := holds.placed index
  have allOpen := (openIn_iff (.inr encoding)).mp (holds.opened index)
  unfold State.encode
  dsimp only
  split
  · apply holds.setPhase
    exact allOpen
  · rename_i job response rest queue
    split
    · rename_i client isClient
      let encoded : WorkerClient :=
        { client with writeBuf := client.writeBuf ++ host.encode client.proto response }
      have kept := placed.setClient isClient (show encoded.proto = client.proto from rfl) .encoding
      apply holds.setWorker
      · exact ⟨kept.clients,kept.queued,kept.distinct⟩
      · refine openIn_of_all (.inr encoding) ?_
        intro slot found isFound
        dsimp only at isFound
        rw [KeyMap.lookup_insert] at isFound
        split at isFound
        · cases isFound
          exact allOpen job client isClient
        · exact allOpen slot found isFound
      · intro slot own
        subst own
        have before := holds.delivered slot
        by_cases same : slot = job
        · subst same
          have accounted := (holds.accounted isClient).encode (allOpen slot client isClient)
            (viewOf_encoded_same queue
              ((state.workers (slot % host.nWorkers)).clients.insert slot encoded))
          constructor
          · exact before.sofar
          · intro waiting
            exact absurd waiting (holds.not_waiting isClient)
          · intro found isFound
            unfold viewOf at isFound
            dsimp only at isFound
            rw [KeyMap.lookup_insert_self] at isFound
            cases isFound
            exact accounted
        · rw [viewOf_encoded_other queue same (KeyMap.lookup_insert_ne _ _ (Ne.symm same))]
          exact before
    · -- the client is gone, and the response is dropped
      rename_i absent
      apply holds.setWorker
      · exact ⟨placed.clients,placed.queued,placed.distinct⟩
      · exact openIn_of_all (.inr encoding) allOpen
      · intro slot own
        subst own
        have before := holds.delivered slot
        by_cases same : slot = job
        · subst same
          constructor
          · exact before.sofar
          · intro waiting
            obtain ⟨-,noPending,-⟩ := before.waiting waiting
            have someLeft : (viewOf state (state.workers (slot % host.nWorkers)) slot).pending =
              response :: _ :=
                viewOf_encoded_same queue (state.workers (slot % host.nWorkers)).clients
            exact absurd (someLeft.symm.trans noPending) (List.cons_ne_nil _ _)
          · intro found isFound
            exact absurd (absent.symm.trans isFound) (Option.some_ne_none found).symm
        · rw [viewOf_encoded_other queue same rfl]
          exact before

theorem Invariant.read (holds : Invariant state) {client : WorkerClient}
    (isClient : (state.workers index).clients[slot]? = some client)
    (isOpen : client.closed = false) (events : List IoEvent) (toClose : List Nat)
    (result : ReadResult) : Invariant (state.read index slot client events toClose result) := by
  have accounted := holds.accounted isClient
  unfold State.read
  split
  · exact holds.setClient isClient rfl (accounted.close rfl rfl) trivial
  · exact holds.setClient isClient rfl (accounted.close rfl rfl) trivial
  · rename_i chunk _
    have proto : ({ client with readBuf := client.readBuf ++ chunk } : WorkerClient).proto =
      client.proto := rfl
    apply holds.setClient isClient proto accounted
    intro found isFound
    dsimp only at isFound
    rw [KeyMap.lookup_insert_self] at isFound
    cases isFound
    exact isOpen

theorem Invariant.serve (holds : Invariant state) (event : IoEvent) (events : List IoEvent)
    (toClose : List Nat) (outcome : Outcome) :
    Invariant (state.serve index event events toClose outcome) := by
  unfold State.serve
  split
  · split
    · exact holds.setPhase trivial
    · rename_i client isClient
      split
      · exact holds.setPhase trivial
      · rename_i notClosed
        exact holds.read isClient (Bool.eq_false_iff.mpr notClosed) events toClose outcome.read
  · split
    · exact holds.setPhase trivial
    · rename_i client isClient
      exact holds.flushClient isClient outcome.writes events toClose
  · exact holds.setPhase trivial
  · exact holds.setPhase trivial

/-- The next frame in the buffer is longer than the limit. -/
def Oversized (host : Host) (client : WorkerClient) : Prop :=
  client.proto = .tcp ∧ ∃ declaredLen limit,
    (decodeFrame client.readBuf host.tcpMaxFrameBytes).1 = .error (.tooLarge declaredLen limit)

theorem inlineFrame_of_parse {kind : ParseErrorKind} {rest : List UInt8}
    (failed : (parse client : Parsed host) = .failed kind rest) :
    Oversized host client ∨ inlineFrame kind = [] := by
  unfold parse at failed
  split at failed
  · rename_i isTcp
    unfold parseTcp at failed
    split at failed
    · cases failed
    · cases failed
    · rename_i failure _ decoded
      cases failed
      cases failure with
      | tooLarge declaredLen limit =>
          exact .inl ⟨isTcp,declaredLen,limit,congrArg Prod.fst decoded⟩
      | lengthUnderflow declaredLen => exact .inr rfl
  · unfold parseHttp at failed
    split at failed
    · cases failed
    · cases failed
    · cases failed
      exact .inr rfl

theorem view_push_own (own : item.slotIdx = slot) :
    view (state.push item) slot =
      { view state slot with
        silent := False
        pending := (view state slot).pending ++
          forAddress slot (responsesTo (state.handled ++ state.readRx) item)
        expected := (view state slot).expected ++
          reply (state.slotProto slot) (state.handled ++ state.readRx) item } := by
  have notOther : ((view state slot).silent ∧ item.slotIdx ≠ slot) = False :=
    eq_false fun both => both.2 own
  rw [view_push,replyTo,if_pos own,notOther]

theorem slotIdx_eq (holds : Invariant state)
    (isClient : (state.workers index).clients[slot]? = some client) : slot % 2 ^ 32 = slot := by
  obtain ⟨-,below,-⟩ := (holds.placed index).clients isClient
  exact Nat.mod_eq_of_lt (Nat.lt_of_lt_of_le below holds.few)

theorem Delivered.request {view : View host} (delivered : Delivered view)
    (notWaiting : ¬ view.waiting) (accounted : Accounted view old) (isOpen : old.closed = false)
    (still : client.closed = false) (proto : client.proto = old.proto)
    (sameBuf : client.writeBuf = old.writeBuf) (silent : Prop) (responses : List host.Response) :
    Delivered { view with
      client := some client
      silent := silent
      pending := view.pending ++ responses
      expected := view.expected ++ encodeAll old.proto responses } where
  sofar := delivered.sofar.trans (List.prefix_append _ _)
  waiting := fun waiting => absurd waiting notWaiting
  client := by
    intro found isFound
    cases isFound
    have notClosed : ∀ {client : WorkerClient}, client.closed = false → ¬ client.closed = true := by
      intro client isOpen
      rw [isOpen]
      exact Bool.false_ne_true
    rw [Accounted,if_neg (notClosed isOpen)] at accounted
    rw [Accounted,if_neg (notClosed still),proto,sameBuf]
    dsimp only
    rw [encodeAll_append,← List.append_assoc,accounted]

/-- The client is closed behind an error, with no response on its way when the worker
answers the error. -/
theorem Delivered.fail {view : View host} (delivered : Delivered view) (notWaiting : ¬ view.waiting)
    (accounted : Accounted view old) (isOpen : old.closed = false) (closed : client.closed = true)
    {inline : List UInt8} (buffer : client.writeBuf = old.writeBuf ++ inline)
    (inOrder : view.pending = [] ∨ inline = []) (silent : Prop) (pending : List host.Response) :
    Delivered { view with
      client := some client
      silent := silent
      pending := pending
      expected := view.expected ++ inline } where
  sofar := delivered.sofar.trans (List.prefix_append _ _)
  waiting := fun waiting => absurd waiting notWaiting
  client := by
    intro found isFound
    cases isFound
    rw [Accounted,if_pos closed,buffer]
    dsimp only
    rcases inOrder with noPending | noFrame
    · have notClosed : ¬ old.closed = true := by
        rw [isOpen]
        exact Bool.false_ne_true
      rw [Accounted,if_neg notClosed,noPending,encodeAll,List.flatMap_nil,
        List.append_nil] at accounted
      have whole : view.written ++ (old.writeBuf ++ inline) = view.expected ++ inline := by
        rw [← List.append_assoc,accounted]
      exact whole ▸ List.prefix_rfl
    · rw [noFrame,List.append_nil,List.append_nil]
      exact accounted.beginning

theorem Invariant.parseOne (holds : Invariant state) {events : List IoEvent} {toClose : List Nat}
    (parsing : (state.workers index).phase = .parsing slot events toClose)
    (inOrder : ∀ client : WorkerClient, (state.workers index).clients[slot]? = some client →
      Oversized host client → (view state slot).pending = []) :
    Invariant (state.parseOne index slot events toClose) := by
  have placed := holds.placed index
  have opened : ∀ client : WorkerClient, (state.workers index).clients[slot]? = some client →
      client.closed = false := by
    have inPhase := holds.opened index
    unfold OpenIn at inPhase
    rw [parsing] at inPhase
    exact inPhase
  unfold State.parseOne
  split
  · exact holds.setPhase trivial
  · rename_i client isClient
    have isOpen := opened client isClient
    have accounted := holds.accounted isClient
    have notWaiting := holds.not_waiting isClient
    have isSlot := slotIdx_eq holds isClient
    obtain ⟨own,-,protoEq⟩ := placed.clients isClient
    split
    · exact holds.setClient isClient rfl accounted trivial
    · rename_i request keepAlive rest parsed
      have differs : Differs state (state.setClient index slot { client with readBuf := rest })
          index { state.workers index with
            clients := (state.workers index).clients.insert slot { client with readBuf := rest } } :=
        differs_setWorker _
      have kept := placed.setClient isClient
        (show ({ client with readBuf := rest } : WorkerClient).proto = client.proto from rfl)
        (.parsing slot events toClose)
      apply holds.of_differs (differs.push _) ⟨kept.clients,kept.queued,kept.distinct⟩
      · unfold OpenIn
        dsimp only
        rw [parsing]
        intro found isFound
        rw [KeyMap.lookup_insert_self] at isFound
        cases isFound
        exact isOpen
      · intro other
        by_cases same : other = slot
        · subst same
          have isOwn : (RingItem.request (other % 2 ^ 32) keepAlive request
            (host.bodyToRow request)).slotIdx = other := isSlot
          rw [view_push_own isOwn,view_setClient own,if_pos rfl,responsesTo,isSlot,
            forAddress_map_same,reply]
          dsimp only
          have delivered := (holds.delivered other).request notWaiting accounted isOpen
            (show ({ client with readBuf := rest } : WorkerClient).closed = false from isOpen)
            rfl rfl False
            (host.dispatch (state.handled ++ state.readRx) request (host.bodyToRow request))
          change Delivered { view state other with
            client := _, silent := _, pending := _,
            expected := _ ++ encodeAll (state.slotProto other) _ }
          rw [← protoEq]
          exact delivered
        · rw [view_push_other,view_setClient own,if_neg same]
          · exact holds.delivered other
          · rw [RingItem.slotIdx,isSlot]
            exact Ne.symm same
    · rename_i kind rest parsed
      have differs : Differs state (state.setClient index slot
            { client with
              readBuf := rest, writeBuf := client.writeBuf ++ inlineFrame kind, closed := true })
          index { state.workers index with
            clients := (state.workers index).clients.insert slot
              { client with
                readBuf := rest, writeBuf := client.writeBuf ++ inlineFrame kind,
                closed := true } } :=
        differs_setWorker _
      have proto : ({ client with
          readBuf := rest, writeBuf := client.writeBuf ++ inlineFrame kind,
          closed := true } : WorkerClient).proto = client.proto := rfl
      apply holds.of_differs ((differs.push _).setPhase (.serving events toClose))
        (placed.setClient isClient proto _) trivial
      intro other
      rw [view_setPhase]
      by_cases same : other = slot
      · subst same
        have isOwn : (RingItem.parseError (other % 2 ^ 32) kind : RingItem host.Request).slotIdx =
          other := isSlot
        have noneOrNothing : (view state other).pending = [] ∨ inlineFrame kind = [] :=
          (inlineFrame_of_parse parsed).imp_left (inOrder client isClient)
        rw [view_push_own isOwn,view_setClient own,if_pos rfl,reply]
        exact (holds.delivered other).fail notWaiting accounted isOpen rfl rfl noneOrNothing
          False _
      · rw [view_push_other,view_setClient own,if_neg same]
        · exact holds.delivered other
        · rw [RingItem.slotIdx,isSlot]
          exact Ne.symm same

/-- A worker parses a frame that is too long only with no response on its way to the
client. -/
def RepliesFirst (state : State host) : Action → Prop
  | .worker index _ =>
      match (state.workers index).phase with
      | .parsing slot _ _ =>
          ∀ client : WorkerClient, (state.workers index).clients[slot]? = some client →
            Oversized host client → (view state slot).pending = []
      | _ => True
  | _ => True

theorem Invariant.stepWorker (holds : Invariant state) (outcome : Outcome)
    (inOrder : RepliesFirst state (.worker index outcome)) :
    Invariant (state.stepWorker index outcome) := by
  have opened := holds.opened index
  unfold OpenIn at opened
  unfold RepliesFirst at inOrder
  unfold State.stepWorker
  split
  · rename_i registering
    exact holds.register registering outcome.added
  · rename_i encoding
    exact holds.encode encoding
  · rename_i polling
    rw [polling] at opened
    unfold State.poll
    split
    · exact holds.setPhase opened
    · exact holds.setPhase trivial
  · exact holds.setPhase trivial
  · exact holds.serve _ _ _ outcome
  · rename_i slot events toClose parsing
    dsimp only at inOrder
    rw [parsing] at inOrder
    exact holds.parseOne parsing inOrder
  · exact holds.setPhase trivial
  · exact holds.removeClient _
  · rename_i cleaning
    exact holds.clean cleaning outcome.chosen outcome.writes

end Changes

/-! ### Steps of the apply thread -/

section Apply

variable {state : State host}
variable {slot : Nat} {worker : Worker host}

theorem Invariant.of_same (holds : Invariant state) {changed : State host}
    (acceptSeq : changed.acceptSeq = state.acceptSeq)
    (slotProto : changed.slotProto = state.slotProto)
    (workers : ∀ index, (changed.workers index).phase = (state.workers index).phase ∧
      (changed.workers index).clients = (state.workers index).clients ∧
      (changed.workers index).newClientRx = (state.workers index).newClientRx)
    (views : ∀ slot, view changed slot = view state slot) : Invariant changed where
  few := acceptSeq ▸ holds.few
  placed := by
    intro index
    obtain ⟨-,clients,newClientRx⟩ := workers index
    have placed := holds.placed index
    constructor
    · rw [clients,acceptSeq,slotProto]
      exact placed.clients
    · rw [newClientRx,clients,acceptSeq,slotProto]
      exact placed.queued
    · rw [newClientRx]
      exact placed.distinct
  opened := by
    intro index
    obtain ⟨phase,clients,-⟩ := workers index
    unfold OpenIn
    rw [phase,clients]
    exact holds.opened index
  delivered := by
    intro slot
    rw [views]
    exact holds.delivered slot

theorem Invariant.handle (holds : Invariant state) : Invariant state.handle := by
  unfold State.handle
  split
  · rename_i item rest noneOutgoing queue
    apply holds.of_same
    · rfl
    · rfl
    · intro index
      exact ⟨rfl,rfl,rfl⟩
    · intro slot
      unfold view viewOf
      dsimp only
      rw [queue,jobsFrom,List.append_assoc state.handled,List.singleton_append]
      simp only [List.append_assoc]
  · exact holds

theorem Invariant.flush (holds : Invariant state) : Invariant state.flush := by
  unfold State.flush
  split
  · rename_i noneOutgoing
    apply holds.of_same
    · rfl
    · rfl
    · intro index
      exact ⟨rfl,rfl,rfl⟩
    · intro slot
      have listed : slot % host.nWorkers ∈ List.range host.nWorkers :=
        List.mem_range.mpr (Nat.mod_lt slot host.nWorkers_pos)
      have sorted := forAddress_grouped (· % host.nWorkers) List.nodup_range listed
        state.responseBatch
      unfold view viewOf
      dsimp only
      rw [noneOutgoing,forAddress_append,forAddress_append,forAddress_append,sorted,
        forAddress_append,forAddress_append,forAddress_append,forAddress_nil,List.append_nil,
        List.append_nil]
  · exact holds

theorem Invariant.send (holds : Invariant state) : Invariant state.send := by
  unfold State.send
  split
  · exact holds
  · rename_i job rest queue
    apply holds.of_same
    · rfl
    · rfl
    · intro index
      dsimp only
      by_cases same : index = job.1 % host.nWorkers
      · subst same
        rw [Function.update_self]
        exact ⟨rfl,rfl,rfl⟩
      · rw [Function.update_of_ne same]
        exact ⟨rfl,rfl,rfl⟩
    · intro slot
      unfold view viewOf
      dsimp only
      rw [queue]
      by_cases same : slot % host.nWorkers = job.1 % host.nWorkers
      · rw [same,Function.update_self]
        simp only [List.append_assoc,List.singleton_append]
      · rw [Function.update_of_ne same]
        have different : job.1 ≠ slot := by
          intro isSlot
          exact same (isSlot ▸ rfl)
        have dropped : forAddress slot (job :: rest) = forAddress slot rest :=
          forAddress_cons_other different job.2 rest
        simp only [forAddress_append,dropped]

/-- At most 2 ^ 32 slots are used. -/
def FewSlots (state : State host) : Action → Prop
  | .accept _ => state.acceptSeq < 2 ^ 32
  | _ => True

theorem accept_acceptSeq (few : state.acceptSeq < 2 ^ 32) (proto : WorkerProto) :
    (state.accept proto).acceptSeq = state.acceptSeq + 1 :=
  Nat.mod_eq_of_lt (Nat.lt_of_le_of_lt few (by decide))

theorem accept_slotProto (proto : WorkerProto) (different : slot ≠ state.acceptSeq) :
    (state.accept proto).slotProto slot = state.slotProto slot :=
  Function.update_of_ne different ..

theorem WorkerPlaced.accept {index : Nat} (placed : WorkerPlaced state index worker)
    (few : state.acceptSeq < 2 ^ 32) (proto : WorkerProto) :
    WorkerPlaced (state.accept proto) index worker where
  clients := by
    intro slot client isClient
    obtain ⟨own,below,protoEq⟩ := placed.clients isClient
    rw [accept_acceptSeq few,accept_slotProto proto (Nat.ne_of_lt below)]
    exact ⟨own,Nat.lt_succ_of_lt below,protoEq⟩
  queued := by
    intro client member
    obtain ⟨own,below,protoEq,absent⟩ := placed.queued member
    rw [accept_acceptSeq few,accept_slotProto proto (Nat.ne_of_lt below)]
    exact ⟨own,Nat.lt_succ_of_lt below,protoEq,absent⟩
  distinct := placed.distinct

theorem WorkerPlaced.enqueue (placed : WorkerPlaced state (state.acceptSeq % host.nWorkers) worker)
    (few : state.acceptSeq < 2 ^ 32) (proto : WorkerProto) :
    WorkerPlaced (state.accept proto) (state.acceptSeq % host.nWorkers)
      { worker with newClientRx := worker.newClientRx ++ [⟨state.acceptSeq,proto⟩] } where
  clients := (placed.accept few proto).clients
  queued := by
    intro client member
    rcases List.mem_append.mp member with before | isNew
    · exact (placed.accept few proto).queued before
    · rw [List.mem_singleton.mp isNew,accept_acceptSeq few]
      have given : (state.accept proto).slotProto state.acceptSeq = proto :=
        Function.update_self ..
      refine ⟨rfl,Nat.lt_succ_self _,given.symm,?_⟩
      cases found : worker.clients[state.acceptSeq]? with
      | none => exact rfl
      | some client =>
          obtain ⟨-,below,-⟩ := placed.clients found
          exact absurd below (Nat.lt_irrefl _)
  distinct := by
    rw [List.map_append,List.map_singleton,List.nodup_append]
    refine ⟨placed.distinct,List.nodup_singleton _,?_⟩
    intro slot queued other isNew same
    obtain ⟨client,member,isSlot⟩ := List.mem_map.mp queued
    obtain ⟨-,below,-,-⟩ := placed.queued member
    rw [isSlot,same,List.mem_singleton.mp isNew] at below
    exact Nat.lt_irrefl _ below

theorem view_accept_other (few : state.acceptSeq < 2 ^ 32) (proto : WorkerProto)
    (different : slot ≠ state.acceptSeq) : view (state.accept proto) slot = view state slot := by
  have later : state.acceptSeq + 1 ≤ slot ↔ state.acceptSeq ≤ slot := by omega
  unfold view viewOf
  rw [accept_acceptSeq few,accept_slotProto proto different,later]
  by_cases here : slot % host.nWorkers = state.acceptSeq % host.nWorkers
  · have isWorker : (state.accept proto).workers (slot % host.nWorkers) =
        { state.workers (slot % host.nWorkers) with
          newClientRx := (state.workers (slot % host.nWorkers)).newClientRx ++
            [⟨state.acceptSeq,proto⟩] } := by
      rw [here]
      exact Function.update_self ..
    have queued : ∀ queue : List NewClient,
        slot ∈ (queue ++ [(⟨state.acceptSeq,proto⟩ : NewClient)]).map NewClient.slotIdx ↔
          slot ∈ queue.map NewClient.slotIdx := by
      intro queue
      rw [List.map_append,List.mem_append,List.map_singleton,List.mem_singleton,
        or_iff_left different]
    rw [isWorker]
    dsimp only
    rw [queued]
    rfl
  · have isWorker : (state.accept proto).workers (slot % host.nWorkers) =
        state.workers (slot % host.nWorkers) := Function.update_of_ne here ..
    rw [isWorker]
    rfl

theorem Invariant.accept (holds : Invariant state) (proto : WorkerProto)
    (few : state.acceptSeq < 2 ^ 32) : Invariant (state.accept proto) where
  few := by
    rw [accept_acceptSeq few]
    exact few
  placed := by
    intro index
    by_cases same : index = state.acceptSeq % host.nWorkers
    · subst same
      have isWorker : (state.accept proto).workers (state.acceptSeq % host.nWorkers) = _ :=
        Function.update_self ..
      rw [isWorker]
      exact (holds.placed _).enqueue few proto
    · have isWorker : (state.accept proto).workers index = _ := Function.update_of_ne same ..
      rw [isWorker]
      exact (holds.placed index).accept few proto
  opened := by
    intro index
    by_cases same : index = state.acceptSeq % host.nWorkers
    · subst same
      have isWorker : (state.accept proto).workers (state.acceptSeq % host.nWorkers) = _ :=
        Function.update_self ..
      rw [isWorker]
      exact holds.opened _
    · have isWorker : (state.accept proto).workers index = _ := Function.update_of_ne same ..
      rw [isWorker]
      exact holds.opened index
  delivered := by
    intro slot
    by_cases same : slot = state.acceptSeq
    · subst same
      obtain ⟨silent,noPending,noneWritten⟩ :=
        (holds.delivered state.acceptSeq).waiting (.inl (Nat.le_refl _))
      have isWorker : (state.accept proto).workers (state.acceptSeq % host.nWorkers) =
          { state.workers (state.acceptSeq % host.nWorkers) with
            newClientRx := (state.workers (state.acceptSeq % host.nWorkers)).newClientRx ++
              [⟨state.acceptSeq,proto⟩] } := Function.update_self ..
      have nothing : (view (state.accept proto) state.acceptSeq).expected = [] :=
        repliesFrom_others silent
      have noClient := ((holds.placed _).enqueue few proto).queued
        (List.mem_append_right _ (List.mem_singleton_self _))
      constructor
      · rw [nothing]
        exact List.prefix_nil.mpr noneWritten
      · intro _
        refine ⟨silent,?_,noneWritten⟩
        unfold view viewOf
        rw [isWorker]
        exact noPending
      · intro client isClient
        unfold view viewOf at isClient
        dsimp only at isClient
        rw [isWorker] at isClient
        exact absurd (noClient.2.2.2.symm.trans isClient) (Option.some_ne_none client).symm
    · rw [view_accept_other few proto same]
      exact holds.delivered slot

end Apply

theorem invariant_start : Invariant (start : State host) where
  few := Nat.zero_le _
  placed := by
    intro index
    constructor
    · intro slot client isClient
      cases isClient
    · intro client never
      cases never
    · exact List.nodup_nil
  opened := by
    intro index slot client isClient
    cases isClient
  delivered := by
    intro slot
    constructor
    · exact List.prefix_rfl
    · intro _
      refine ⟨?_,rfl,rfl⟩
      intro item never
      cases never
    · intro client isClient
      cases isClient

theorem Invariant.next {state : State host} (holds : Invariant state) (action : Action)
    (few : FewSlots state action) (inOrder : RepliesFirst state action) :
    Invariant (state.next action) := by
  cases action with
  | accept proto => exact holds.accept proto few
  | handle => exact holds.handle
  | flush => exact holds.flush
  | send => exact holds.send
  | worker index outcome => exact holds.stepWorker outcome inOrder

/-- What the client at a slot is to get: the replies to its requests, in order, and the
error frame the worker ends with. -/
def State.owed (state : State host) (slot : Nat) : List UInt8 :=
  repliesFrom (state.slotProto slot) slot [] (state.handled ++ state.readRx)

/-- At every moment the bytes a socket was given are the first of those its client is to
get, when no frame that is too long is parsed before the replies in front of it are
encoded. -/
theorem replies_in_order (host : Host) (actions : List Action)
    (few : Machine.Meets State.next FewSlots (start : State host) actions)
    (inOrder : Machine.Meets State.next RepliesFirst (start : State host) actions)
    (count slot : Nat) :
    (Machine.run State.next (start : State host) (actions.take count)).written slot <+:
      (Machine.run State.next (start : State host) (actions.take count)).owed slot := by
  have kept : Invariant (Machine.run State.next (start : State host) (actions.take count)) := by
    apply Machine.invariant_reached State.next _ invariant_start (few.and State.next inOrder) count
    intro state action holds meets
    exact holds.next action meets.1 meets.2
  exact (kept.delivered slot).sofar

instance instDecidableOversized (host : Host) (client : WorkerClient) :
    Decidable (Oversized host client) :=
  match decoded : (decodeFrame client.readBuf host.tcpMaxFrameBytes).1 with
  | .error (.tooLarge declaredLen limit) =>
      decidable_of_iff (client.proto = .tcp)
        (and_iff_left ⟨declaredLen,limit,decoded⟩).symm
  | .error (.lengthUnderflow _) => .isFalse fun both => by
      obtain ⟨-,declaredLen,limit,same⟩ := both
      rw [decoded] at same
      cases same
  | .ok _ => .isFalse fun both => by
      obtain ⟨-,declaredLen,limit,same⟩ := both
      rw [decoded] at same
      cases same

instance instDecidableFewSlots (state : State host) :
    ∀ action, Decidable (FewSlots state action)
  | .accept _ => inferInstanceAs (Decidable (state.acceptSeq < 2 ^ 32))
  | .handle | .flush | .send | .worker .. => .isTrue trivial

/-- `RepliesFirst` of a step of a worker, with the client looked up. -/
def repliesFirstAt (state : State host) (index : Nat) : Bool :=
  match (state.workers index).phase with
  | .parsing slot _ _ =>
      (state.workers index).clients[slot]?.all fun client =>
        !decide (Oversized host client) || (view state slot).pending.isEmpty
  | _ => true

theorem repliesFirst_worker_iff (state : State host) (index : Nat) (outcome : Outcome) :
    RepliesFirst state (.worker index outcome) ↔ repliesFirstAt state index = true := by
  unfold RepliesFirst repliesFirstAt
  dsimp only
  split
  · rename_i slot _ _ _
    cases found : (state.workers index).clients[slot]? with
    | none =>
        refine iff_of_true ?_ rfl
        intro client never
        cases never
    | some client =>
        rw [Option.all_some,Bool.or_eq_true,Bool.not_eq_true',decide_eq_false_iff_not,
          List.isEmpty_iff]
        constructor
        · intro inOrder
          exact (em (Oversized host client)).symm.imp_right fun large => inOrder client rfl large
        · intro either other isOther large
          cases isOther
          exact either.resolve_left fun small => small large
  · exact iff_of_true trivial rfl

instance instDecidableRepliesFirst (state : State host) :
    ∀ action, Decidable (RepliesFirst state action)
  | .worker index outcome => decidable_of_iff _ (repliesFirst_worker_iff state index outcome).symm
  | .accept _ | .handle | .flush | .send => .isTrue trivial

def sampleHost : Host where
  Request := Nat
  Response := UInt8
  nWorkers := 1
  nWorkers_pos := Nat.one_pos
  tcpMaxFrameBytes := 16
  ofFrame frame := frame.op.toNat
  parseHttp _ := (.ok none,[])
  bodyToRow _ := none
  dispatch _ _ _ := [1]
  errorResponse _ := 2
  encode _ response := [response]

/-- A step of the worker; the slot that is not used is not a closed client. -/
def workerStep (read : ReadResult) (events : List IoEvent) (chosen : Nat) : Action :=
  .worker 0 ⟨true,some events,read,[.wrote 1000],chosen⟩

/-- The worker takes a client, reads a chunk, parses it and ends its pass. -/
def readChunk (chunk : List UInt8) (rounds : Nat) (chosen : Nat) : List Action :=
  .accept .tcp ::
    List.replicate (8 + rounds) (workerStep (.got chunk) [.readable 0] chosen)

def pingFrame : List UInt8 := [0,0,0,3,0,0,1]

def tooLong : List UInt8 := [255,255,255,255]

/-- The apply thread takes an item and sends the response, which the worker encodes and
writes. -/
def deliver : List Action :=
  [.handle,.flush,.send] ++ List.replicate 5 (workerStep .failed [.writable 0] 1)

/-- A request that is read alone is answered. -/
theorem replies_in_order_ping :
    (Machine.run State.next (start : State sampleHost)
        ((readChunk pingFrame 2 1 ++ deliver).take 19)).written 0 <+:
      (Machine.run State.next (start : State sampleHost)
        ((readChunk pingFrame 2 1 ++ deliver).take 19)).owed 0 :=
  replies_in_order sampleHost (readChunk pingFrame 2 1 ++ deliver) (by decide +kernel)
    (by decide +kernel) 19 0

/-- A request is read together with a frame that is too long.  The error frame is
written, and the reply to the request is not. -/
theorem error_frame_overtakes :
    ¬ (Machine.run State.next (start : State sampleHost)
        (readChunk (pingFrame ++ tooLong) 2 0)).written 0 <+:
      (Machine.run State.next (start : State sampleHost)
        (readChunk (pingFrame ++ tooLong) 2 0)).owed 0 := by
  decide +kernel

end Beava.Server.Pool
