/-
The worker threads and the apply thread between them.

A worker reads the sockets of its clients, parses what has arrived and queues one item
for each request.  The apply thread takes the items in order and queues the responses
for the worker of the client, who encodes them behind what it has to write.  A frame
that is too long is answered by the worker itself, which then closes the client.

The threads share nothing but the queues, and a run is any interleaving of their
steps.  What the operating system does, which events come and what a read or a write
gets, is part of the action.
-/

import Beava.Core.Row
import Beava.Core.Wire
import Beava.Lib.Addressed
import Beava.Lib.KeyMap
import Mathlib.Logic.Function.Basic

namespace Beava.Server.Pool

open Beava.Core

/-! ### Items and clients -/

inductive WorkerProto where
  | http
  | tcp
  deriving DecidableEq, Repr

inductive ParseErrorKind where
  | tcpFrame
  | tcpFrameTooLarge (declared limit : Nat)
  | httpProtocol
  deriving DecidableEq, Repr

inductive RingItem (Request : Type) where
  | request (slotIdx : Nat) (keepAlive : Bool) (request : Request) (parsedRow : Option Row)
  | parseError (slotIdx : Nat) (kind : ParseErrorKind)

def RingItem.slotIdx {Request : Type} : RingItem Request → Nat
  | .request slotIdx .. => slotIdx
  | .parseError slotIdx _ => slotIdx

/-- What the threads of the pool work with.  A response depends on all the requests
before it. -/
structure Host where
  Request : Type
  Response : Type
  nWorkers : Nat
  nWorkers_pos : 0 < nWorkers
  tcpMaxFrameBytes : UInt32
  /-- `parse_wire_request`, behind `decode_frame`. -/
  ofFrame : Frame → Request
  /-- `parse_http_request`: the request, whether the client stays, and the rest. -/
  parseHttp : List UInt8 → Except Unit (Option (Request × Bool)) × List UInt8
  bodyToRow : Request → Option Row
  /-- `dispatch_wire_request_with_row`. -/
  dispatch : List (RingItem Request) → Request → Option Row → List Response
  errorResponse : ParseErrorKind → Response
  /-- `encode_glue_response_tcp` and `encode_glue_response_http`. -/
  encode : WorkerProto → Response → List UInt8

structure WorkerClient where
  readBuf : List UInt8
  writeBuf : List UInt8
  proto : WorkerProto
  closed : Bool
  deriving DecidableEq

def WorkerClient.new (proto : WorkerProto) : WorkerClient := ⟨[],[],proto,false⟩

structure NewClient where
  slotIdx : Nat
  proto : WorkerProto
  deriving DecidableEq

inductive IoEvent where
  | readable (slot : Nat)
  | writable (slot : Nat)
  | closed (slot : Nat)
  | wakerSentinel
  deriving DecidableEq

inductive Phase where
  | registering
  | encoding
  | polling
  | serving (events : List IoEvent) (toClose : List Nat)
  | parsing (slot : Nat) (events : List IoEvent) (toClose : List Nat)
  | closing (toClose : List Nat)
  | cleaning
  deriving DecidableEq

variable (host : Host)

structure Worker where
  phase : Phase
  clients : Std.ExtTreeMap Nat WorkerClient
  newClientRx : List NewClient
  writeRx : List (Nat × host.Response)

/-- The apply thread has taken the items in `handled`; it has responses in its batch,
and those of a flush that are not sent yet. -/
structure State where
  workers : Nat → Worker host
  readRx : List (RingItem host.Request)
  handled : List (RingItem host.Request)
  responseBatch : List (Nat × host.Response)
  outgoing : List (Nat × host.Response)
  acceptSeq : Nat
  slotProto : Nat → WorkerProto
  written : Nat → List UInt8

inductive ReadResult where
  | got (chunk : List UInt8)
  | failed

inductive WriteResult where
  | wrote (count : Nat)
  | failed

structure Outcome where
  added : Bool
  polled : Option (List IoEvent)
  read : ReadResult
  writes : List WriteResult
  chosen : Nat

inductive Action where
  | accept (proto : WorkerProto)
  | handle
  | flush
  | send
  | worker (index : Nat) (outcome : Outcome)

def frameTooLarge (declared limit : Nat) : List UInt8 :=
  let text := "\x7b\"error\":\x7b\"code\":\"frame_too_large\",\"declared\":" ++ toString declared ++
    ",\"limit\":" ++ toString limit ++ ",\"message\":\"declared frame length " ++
    toString declared ++ " exceeds limit " ++ toString limit ++ "\"\x7d\x7d"
  (Frame.mk 0xFFFF 1 (text.toList.flatMap String.utf8EncodeChar)).bytes

def inlineFrame : ParseErrorKind → List UInt8
  | .tcpFrameTooLarge declared limit => frameTooLarge declared limit
  | _ => []

def errorKind : FrameError → ParseErrorKind
  | .tooLarge declaredLen limit => .tcpFrameTooLarge declaredLen limit
  | .lengthUnderflow _ => .tcpFrame

/-- One round of the loop of `parse_and_push`, with the rest of the buffer. -/
inductive Parsed where
  | more (rest : List UInt8)
  | request (request : host.Request) (keepAlive : Bool) (rest : List UInt8)
  | failed (kind : ParseErrorKind) (rest : List UInt8)

variable {host}

def parseTcp (readBuf : List UInt8) : Parsed host :=
  match decodeFrame readBuf host.tcpMaxFrameBytes with
  | (.ok none,rest) => .more rest
  | (.ok (some frame),rest) => .request (host.ofFrame frame) false rest
  | (.error failure,rest) => .failed (errorKind failure) rest

def parseHttp (readBuf : List UInt8) : Parsed host :=
  match host.parseHttp readBuf with
  | (.ok none,rest) => .more rest
  | (.ok (some (request,keepAlive)),rest) => .request request keepAlive rest
  | (.error _,rest) => .failed .httpProtocol rest

def parse (client : WorkerClient) : Parsed host :=
  match client.proto with
  | .tcp => parseTcp client.readBuf
  | .http => parseHttp client.readBuf

/-- `flush_write_buf`: the client and the bytes the socket takes.  Without a result the
socket would block. -/
def flushWriteBuf : List WriteResult → WorkerClient → WorkerClient × List UInt8
  | [], client => (client,[])
  | result :: rest, client =>
      if client.writeBuf.isEmpty then (client,[])
      else
        match result with
        | .failed => ({ client with closed := true },[])
        | .wrote 0 => (client,[])
        | .wrote count =>
            let flushed := flushWriteBuf rest
              { client with writeBuf := client.writeBuf.drop count }
            (flushed.1,client.writeBuf.take count ++ flushed.2)

/-! ### Steps -/

namespace State

variable (state : State host)

def setWorker (index : Nat) (worker : Worker host) : State host :=
  { state with workers := Function.update state.workers index worker }

def setPhase (index : Nat) (phase : Phase) : State host :=
  state.setWorker index { state.workers index with phase := phase }

def setClient (index slot : Nat) (client : WorkerClient) : State host :=
  state.setWorker index
    { state.workers index with clients := (state.workers index).clients.insert slot client }

def removeClient (index slot : Nat) : State host :=
  state.setWorker index
    { state.workers index with clients := (state.workers index).clients.erase slot }

def push (item : RingItem host.Request) : State host :=
  { state with readRx := state.readRx ++ [item] }

def write (slot : Nat) (bytes : List UInt8) : State host :=
  { state with
    written := Function.update state.written slot (state.written slot ++ bytes) }

/-- `accept_clients_to_workers`, for one client. -/
def accept (proto : WorkerProto) : State host :=
  let slot := state.acceptSeq
  let index := slot % host.nWorkers
  { state with
    acceptSeq := (slot + 1) % 2 ^ 64
    slotProto := Function.update state.slotProto slot proto
    workers := Function.update state.workers index
      { state.workers index with
        newClientRx := (state.workers index).newClientRx ++ [⟨slot,proto⟩] } }

end State

def responsesTo (before : List (RingItem host.Request)) :
    RingItem host.Request → List (Nat × host.Response)
  | .request slotIdx _ request parsedRow =>
      (host.dispatch before request parsedRow).map fun response => (slotIdx,response)
  | .parseError slotIdx kind => [(slotIdx,host.errorResponse kind)]

namespace State

variable (state : State host)

def handle : State host :=
  match state.outgoing, state.readRx with
  | [], item :: rest =>
      { state with
        readRx := rest
        handled := state.handled ++ [item]
        responseBatch := state.responseBatch ++ responsesTo state.handled item }
  | _, _ => state

/-- `flush_response_batch`, which then sends worker by worker. -/
def flush : State host :=
  match state.outgoing with
  | [] =>
      { state with
        responseBatch := []
        outgoing := Addressed.grouped (· % host.nWorkers) (List.range host.nWorkers)
          state.responseBatch }
  | _ => state

def send : State host :=
  match state.outgoing with
  | [] => state
  | job :: rest =>
      let index := job.1 % host.nWorkers
      { state with
        outgoing := rest
        workers := Function.update state.workers index
          { state.workers index with writeRx := (state.workers index).writeRx ++ [job] } }

def register (index : Nat) (added : Bool) : State host :=
  let worker := state.workers index
  match worker.newClientRx with
  | [] => state.setPhase index .encoding
  | client :: rest =>
      state.setWorker index
        { worker with
          newClientRx := rest
          clients :=
            if added then worker.clients.insert client.slotIdx (.new client.proto)
            else worker.clients }

def encode (index : Nat) : State host :=
  let worker := state.workers index
  match worker.writeRx with
  | [] => state.setPhase index .polling
  | (slot,response) :: rest =>
      state.setWorker index
        { worker with
          writeRx := rest
          clients :=
            match worker.clients[slot]? with
            | some client => worker.clients.insert slot
                { client with writeBuf := client.writeBuf ++ host.encode client.proto response }
            | none => worker.clients }

def poll (index : Nat) (polled : Option (List IoEvent)) : State host :=
  match polled with
  | none => state.setPhase index .registering
  | some events => state.setPhase index (.serving events [])

/-- The client is changed and the socket given bytes by `flush_write_buf`. -/
def flushClient (index slot : Nat) (client : WorkerClient) (writes : List WriteResult) :
    State host :=
  let flushed := flushWriteBuf writes client
  (state.setClient index slot flushed.1).write slot flushed.2

def read (index slot : Nat) (client : WorkerClient) (events : List IoEvent) (toClose : List Nat)
    (result : ReadResult) : State host :=
  match result with
  | .failed | .got [] =>
      (state.setClient index slot { client with closed := true }).setPhase index
        (.serving events toClose)
  | .got chunk =>
      (state.setClient index slot { client with readBuf := client.readBuf ++ chunk }).setPhase
        index (.parsing slot events toClose)

def serve (index : Nat) (event : IoEvent) (events : List IoEvent) (toClose : List Nat)
    (outcome : Outcome) : State host :=
  match event with
  | .readable slot =>
      match (state.workers index).clients[slot]? with
      | none => state.setPhase index (.serving events toClose)
      | some client =>
          if client.closed then state.setPhase index (.serving events toClose)
          else state.read index slot client events toClose outcome.read
  | .writable slot =>
      match (state.workers index).clients[slot]? with
      | none => state.setPhase index (.serving events toClose)
      | some client =>
          (state.flushClient index slot client outcome.writes).setPhase index
            (.serving events toClose)
  | .closed slot => state.setPhase index (.serving events (toClose ++ [slot]))
  | .wakerSentinel => state.setPhase index (.serving events toClose)

/-- The loop of `parse_and_push`, for one frame. -/
def parseOne (index slot : Nat) (events : List IoEvent) (toClose : List Nat) : State host :=
  match (state.workers index).clients[slot]? with
  | none => state.setPhase index (.serving events toClose)
  | some client =>
      match (parse client : Parsed host) with
      | .more rest =>
          (state.setClient index slot { client with readBuf := rest }).setPhase index
            (.serving events toClose)
      | .request request keepAlive rest =>
          (state.setClient index slot { client with readBuf := rest }).push
            (.request (slot % 2 ^ 32) keepAlive request (host.bodyToRow request))
      | .failed kind rest =>
          ((state.setClient index slot
              { client with
                readBuf := rest
                writeBuf := client.writeBuf ++ inlineFrame kind
                closed := true }).push
            (.parseError (slot % 2 ^ 32) kind)).setPhase index (.serving events toClose)

def clean (index chosen : Nat) (writes : List WriteResult) : State host :=
  match (state.workers index).clients[chosen]? with
  | some client =>
      if client.closed then
        (state.flushClient index chosen client writes).removeClient index chosen
      else state
  | none =>
      if (state.workers index).clients.toList.all fun entry => !entry.2.closed then
        state.setPhase index .registering
      else state

def stepWorker (index : Nat) (outcome : Outcome) : State host :=
  match (state.workers index).phase with
  | .registering => state.register index outcome.added
  | .encoding => state.encode index
  | .polling => state.poll index outcome.polled
  | .serving [] toClose => state.setPhase index (.closing toClose)
  | .serving (event :: events) toClose => state.serve index event events toClose outcome
  | .parsing slot events toClose => state.parseOne index slot events toClose
  | .closing [] => state.setPhase index .cleaning
  | .closing (slot :: rest) => (state.removeClient index slot).setPhase index (.closing rest)
  | .cleaning => state.clean index outcome.chosen outcome.writes

def next : Action → State host
  | .accept proto => state.accept proto
  | .handle => state.handle
  | .flush => state.flush
  | .send => state.send
  | .worker index outcome => state.stepWorker index outcome

end State

def start : State host :=
  { workers := fun _ => ⟨.registering,∅,[],[]⟩
    readRx := []
    handled := []
    responseBatch := []
    outgoing := []
    acceptSeq := 0
    slotProto := fun _ => .tcp
    written := fun _ => [] }

end Beava.Server.Pool
