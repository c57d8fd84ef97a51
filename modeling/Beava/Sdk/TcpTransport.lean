/-
A conversation over a TCP transport.

A call sends one frame and reads one frame back before it returns, so that a reply
belongs to a request by its position in the stream and by nothing else.  A read that
times out leaves the socket open.  The server takes the requests of a connection one
after another and answers each of them once; how the bytes travel, and what happens
elsewhere in the server, is arbitrary.
-/

import Beava.Lib.Machine
import Beava.Sdk.Wire

namespace Beava.Sdk

open Incremental (Pending)

/-- `tcp_max_frame_bytes` of the server and `max_frame_bytes` of the client. -/
structure FrameLimits where
  server : UInt32
  client : UInt32
  deriving DecidableEq, Repr

structure Outcome where
  result : Except WireError Frame
  taken : Nat
  deriving DecidableEq, Repr

structure Link where
  toServer : List UInt8
  readBuf : List UInt8
  toClient : List UInt8
  waiting : Bool
  asked : List Frame
  served : List (Core.Frame × Core.Frame)
  outcomes : List Outcome
  deriving DecidableEq, Repr

namespace Link

def opened : Link := ⟨[],[],[],false,[],[],[]⟩

/-- `sendall` of an encoded frame. -/
def send (link : Link) (request : Frame) (bytes : List UInt8) : Link :=
  { link with
    toServer := link.toServer ++ bytes
    waiting := true
    asked := link.asked ++ [request] }

def read (link : Link) (count : Nat) : Link :=
  { link with
    readBuf := link.readBuf ++ link.toServer.take count
    toServer := link.toServer.drop count }

def answer (link : Link) (request reply : Core.Frame) (rest : List UInt8) : Link :=
  { link with
    readBuf := rest
    toClient := link.toClient ++ reply.bytes
    served := link.served ++ [(request,reply)] }

def ended (link : Link) (outcome : Outcome) (toClient : List UInt8) : Link :=
  { link with toClient, waiting := false, outcomes := link.outcomes ++ [outcome] }

/-- The reading half of a call: `read_frame` on what arrives before the timeout. -/
def receive (link : Link) (maxFrameBytes : UInt32) (arrived : Nat) (sizes : List Nat) : Link :=
  if link.waiting then
    let sock : Socket := ⟨link.toClient.take arrived,sizes,.timedOut⟩
    let (result,after) := readFrame sock maxFrameBytes.toNat
    link.ended ⟨result,sock.bytes.length - after.bytes.length⟩
      (after.bytes ++ link.toClient.drop arrived)
  else link

end Link

/-- The transport with its `_socket`, and the state of the server. -/
structure Conversation (σ : Type) where
  socket : Option Link
  server : σ

namespace Conversation

variable {σ : Type}

inductive Action (σ : Type) where
  /-- A call of the client, up to `sendall`. -/
  | call (request : Frame)
  | read (count : Nat)
  | serve
  | elsewhere (change : σ → σ)
  /-- The read of the call that waits; `arrived` bytes come in time. -/
  | receive (arrived : Nat) (sizes : List Nat)
  | close

/-- `_ensure_connected` and the sending half of a call. -/
def call (conversation : Conversation σ) (request : Frame) : Conversation σ :=
  let link := conversation.socket.getD .opened
  if link.waiting then conversation
  else
    match encodeFrame request.op request.ct request.payload with
    | .error _ => { conversation with socket := some link }
    | .ok bytes => { conversation with socket := some (link.send request bytes) }

variable (limits : FrameLimits) (handle : σ → Core.Frame → σ × Core.Frame)

def serve (conversation : Conversation σ) : Conversation σ :=
  match conversation.socket with
  | none => conversation
  | some link =>
      match Core.decodeFrame link.readBuf limits.server with
      | (.ok (some request),rest) =>
          let (server,reply) := handle conversation.server request
          { server, socket := some (link.answer request reply rest) }
      | _ => conversation

def next (conversation : Conversation σ) : Action σ → Conversation σ
  | .call request => conversation.call request
  | .read count => { conversation with socket := conversation.socket.map (·.read count) }
  | .serve => conversation.serve limits handle
  | .elsewhere change => { conversation with server := change conversation.server }
  | .receive arrived sizes =>
      { conversation with
        socket := conversation.socket.map (·.receive limits.client arrived sizes) }
  | .close =>
      if conversation.socket.any (·.waiting) then conversation
      else { conversation with socket := none }

def start (server : σ) : Conversation σ := ⟨none,server⟩

end Conversation

/-- A read on a stream that begins with a reply takes it, or times out and takes all that
arrived. -/
theorem readFrame_reply {reply : Core.Frame} {maxFrameBytes : UInt32}
    (fits : reply.Fits maxFrameBytes) (rest : List UInt8) (arrived : Nat) (sizes : List Nat) :
    let sock : Socket := ⟨(reply.bytes ++ rest).take arrived,sizes,.timedOut⟩
    let read := readFrame sock maxFrameBytes.toNat
    (reply.bytes.length ≤ arrived ∧ read.1 = .ok (.ofServer reply) ∧
        read.2.bytes ++ (reply.bytes ++ rest).drop arrived = rest) ∨
      (arrived < reply.bytes.length ∧ read.1 = .error .timedOut ∧ read.2.bytes = []) := by
  intro sock read
  obtain ⟨result,left,-⟩ := readFrame_agrees sock maxFrameBytes
  by_cases whole : reply.bytes.length ≤ arrived
  · refine .inl ⟨whole,?_⟩
    have isTaken : sock.bytes = reply.bytes ++ rest.take (arrived - reply.bytes.length) := by
      simp only [sock]
      rw [List.take_append,List.take_of_length_le whole]
    rw [isTaken,fits.whole] at result left
    refine ⟨result,?_⟩
    simp only [read,left,Socket.left]
    rw [List.drop_append,List.drop_of_length_le whole,List.nil_append,List.take_append_drop]
  · have isShort : arrived < reply.bytes.length := Nat.not_le.mp whole
    refine .inr ⟨isShort,?_⟩
    have isTaken : sock.bytes = reply.bytes.take arrived := by
      simp only [sock]
      rw [List.take_append_of_le_length (by omega)]
    rw [isTaken,fits.short isShort] at result left
    refine ⟨?_,left⟩
    rw [result]
    simp only [Socket.outcome,Socket.shortfall,sock,Ending.error,ite_self]

theorem readFrame_nothing (maxFrameBytes : UInt32) (sizes : List Nat) :
    readFrame ⟨[],sizes,.timedOut⟩ maxFrameBytes.toNat =
      (.error .timedOut,⟨[],sizes,.timedOut⟩) := rfl

/-! ### What a connection has delivered -/

def Outcome.failed (outcome : Outcome) : Bool :=
  match outcome.result with
  | .ok _ => false
  | .error _ => true

namespace Link

variable {i : Nat}

/-- The calls before the `i`-th that did not return a reply. -/
def failedBefore (link : Link) (i : Nat) : Nat :=
  (link.outcomes.take i).countP (·.failed)

/-- No read before the `i`-th call gave up on a reply of which it had taken a part. -/
def CleanBefore (link : Link) (i : Nat) : Prop :=
  ∀ outcome ∈ link.outcomes.take i, outcome.failed = true → outcome.taken = 0

instance instDecidableCleanBefore (link : Link) (i : Nat) : Decidable (link.CleanBefore i) :=
  inferInstanceAs (Decidable (∀ outcome ∈ _, _))

def takenReplies (link : Link) : Nat :=
  link.outcomes.length - link.failedBefore link.outcomes.length

/-- The `i`-th call timed out, or it returned the reply that comes next on the connection. -/
def Delivered (link : Link) (i : Nat) (outcome : Outcome) : Prop :=
  outcome.result = .error .timedOut ∨
    ∃ request reply, link.asked[i - link.failedBefore i]? = some (.ofServer request) ∧
      link.served[i - link.failedBefore i]? = some (request,reply) ∧
      outcome.result = .ok (.ofServer reply)

structure InOrder (limits : FrameLimits) (link : Link) : Prop where
  requests : ∃ rest, link.asked = (link.served.map (·.1) ++ rest).map Frame.ofServer ∧
    Pending Core.Frame.bytes rest link.readBuf link.toServer ∧
    ∀ request ∈ rest, request.Fits limits.server
  answers : ∀ pair ∈ link.served, pair.2.Fits limits.client
  oneAtATime : link.asked.length = link.outcomes.length + link.waiting.toNat
  stream : link.CleanBefore link.outcomes.length → link.takenReplies ≤ link.served.length ∧
    link.toClient = (link.served.drop link.takenReplies).flatMap (·.2.bytes)
  delivered : ∀ i outcome, link.outcomes[i]? = some outcome → link.CleanBefore i →
    link.Delivered i outcome

variable {limits : FrameLimits} {link : Link}

theorem InOrder.opened (limits : FrameLimits) : InOrder limits .opened where
  requests := ⟨[],rfl,rfl,by simp⟩
  answers := by simp [Link.opened]
  oneAtATime := rfl
  stream := fun _ => ⟨Nat.zero_le _,rfl⟩
  delivered := by simp [Link.opened]

variable {outcome : Outcome}

theorem Delivered.later {later : Link} (delivered : link.Delivered i outcome)
    (failed : later.failedBefore i = link.failedBefore i) (asked : link.asked <+: later.asked)
    (served : link.served <+: later.served) : later.Delivered i outcome := by
  rcases delivered with timedOut | ⟨request,reply,isAsked,isServed,returned⟩
  · exact .inl timedOut
  · refine .inr ⟨request,reply,?_,?_,returned⟩
    · obtain ⟨more,isMore⟩ := asked
      rw [failed,← isMore,List.getElem?_append_left (List.getElem?_eq_some_iff.mp isAsked).1]
      exact isAsked
    · obtain ⟨more,isMore⟩ := served
      rw [failed,← isMore,List.getElem?_append_left (List.getElem?_eq_some_iff.mp isServed).1]
      exact isServed

theorem InOrder.read (inOrder : link.InOrder limits) (count : Nat) :
    (link.read count).InOrder limits where
  requests := by
    obtain ⟨rest,isAsked,pending,fit⟩ := inOrder.requests
    refine ⟨rest,isAsked,?_,fit⟩
    unfold Pending at pending ⊢
    rw [← pending]
    simp only [Link.read,List.append_assoc,List.take_append_drop]
  answers := inOrder.answers
  oneAtATime := inOrder.oneAtATime
  stream := inOrder.stream
  delivered := inOrder.delivered

theorem InOrder.answer (inOrder : link.InOrder limits) {request : Core.Frame} {rest : List UInt8}
    (decoded : Core.decodeFrame link.readBuf limits.server = (.ok (some request),rest))
    {reply : Core.Frame} (fits : reply.Fits limits.client) :
    (link.answer request reply rest).InOrder limits where
  requests := by
    obtain ⟨expected,isAsked,pending,fit⟩ := inOrder.requests
    have reads := fun request isLeft => (fit request isLeft).reads
    rcases pending.step (Core.frameStep_nil limits.server) reads with
      ⟨needsMore,-,-⟩ | ⟨first,later,isCons,isItem,-,pendingLater⟩
    · rw [Core.decodeFrame_of_needMore needsMore] at decoded
      cases decoded
    · rw [Core.decodeFrame_of_item isItem] at decoded
      cases decoded
      subst isCons
      refine ⟨later,?_,pendingLater,fun request isLeft => fit request (.tail _ isLeft)⟩
      change link.asked = ((link.served ++ [(request,reply)]).map (·.1) ++ later).map .ofServer
      rw [isAsked]
      simp only [List.map_append,List.map_cons,List.map_nil,List.append_assoc,
        List.cons_append,List.nil_append]
  answers := by
    intro pair served
    rcases List.mem_append.mp served with before | now
    · exact inOrder.answers pair before
    · rw [List.mem_singleton.mp now]
      exact fits
  oneAtATime := inOrder.oneAtATime
  stream := by
    intro clean
    obtain ⟨within,isStream⟩ := inOrder.stream clean
    refine ⟨?_,?_⟩
    · change link.takenReplies ≤ (link.served ++ [(request,reply)]).length
      rw [List.length_append]
      exact Nat.le_add_right_of_le within
    · change link.toClient ++ reply.bytes =
        ((link.served ++ [(request,reply)]).drop link.takenReplies).flatMap (·.2.bytes)
      rw [List.drop_append_of_le_length within,List.flatMap_append,← isStream]
      simp only [List.flatMap_cons,List.flatMap_nil,List.append_nil]
  delivered := by
    intro i outcome ended clean
    exact Delivered.later (inOrder.delivered i outcome ended clean) rfl List.prefix_rfl
      (List.prefix_append _ _)

theorem InOrder.send (inOrder : link.InOrder limits) (idle : link.waiting = false)
    {request : Frame} {bytes : List UInt8}
    (encoded : encodeFrame request.op request.ct request.payload = .ok bytes)
    (small : request.payload.length ≤ limits.server.toNat) :
    (link.send request bytes).InOrder limits where
  requests := by
    obtain ⟨rest,isAsked,pending,fit⟩ := inOrder.requests
    obtain ⟨sent,sameFields,inField,isBytes⟩ := encodeFrame_eq_ok.mp encoded
    have isRequest : Frame.ofServer sent = request := sameFields
    have samePayload : sent.payload = request.payload := congrArg Frame.payload isRequest
    refine ⟨rest ++ [sent],?_,?_,?_⟩
    · change link.asked ++ [request] =
        (link.served.map (·.1) ++ (rest ++ [sent])).map Frame.ofServer
      rw [isAsked,← isRequest]
      simp only [List.map_append,List.map_cons,List.map_nil,List.append_assoc]
    · unfold Pending at pending ⊢
      change link.readBuf ++ (link.toServer ++ bytes) = _
      rw [← List.append_assoc,pending,List.flatMap_append,isBytes]
      simp only [List.flatMap_cons,List.flatMap_nil,List.append_nil]
    · intro frame isLeft
      rcases List.mem_append.mp isLeft with before | now
      · exact fit frame before
      · rw [List.mem_singleton.mp now]
        refine ⟨?_,?_⟩
        · rw [samePayload]
          exact small
        · rw [samePayload]
          exact inField
  answers := inOrder.answers
  oneAtATime := by
    have balance := inOrder.oneAtATime
    rw [idle] at balance
    simp only [Link.send,List.length_append,List.length_singleton,Bool.toNat_false,
      Bool.toNat_true] at balance ⊢
    omega
  stream := inOrder.stream
  delivered := by
    intro i outcome ended clean
    exact Delivered.later (inOrder.delivered i outcome ended clean) rfl (List.prefix_append _ _)
      List.prefix_rfl

theorem failedBefore_ended (within : i ≤ link.outcomes.length) (outcome : Outcome)
    (toClient : List UInt8) :
    (link.ended outcome toClient).failedBefore i = link.failedBefore i := by
  simp only [failedBefore,ended]
  rw [List.take_append_of_le_length within]

theorem cleanBefore_ended (within : i ≤ link.outcomes.length) (outcome : Outcome)
    (toClient : List UInt8) : (link.ended outcome toClient).CleanBefore i ↔ link.CleanBefore i := by
  simp only [CleanBefore,ended]
  rw [List.take_append_of_le_length within]

theorem failedBefore_le (link : Link) (i : Nat) : link.failedBefore i ≤ link.outcomes.length :=
  List.countP_le_length.trans (List.length_take_le' _ _)

theorem failedBefore_end (link : Link) (outcome : Outcome) (toClient : List UInt8) :
    (link.ended outcome toClient).failedBefore (link.ended outcome toClient).outcomes.length =
      link.failedBefore link.outcomes.length + outcome.failed.toNat := by
  simp only [failedBefore,ended,List.take_length,List.countP_append,List.countP_cons,
    List.countP_nil]
  cases outcome.failed <;> rfl

theorem cleanBefore_end (link : Link) (outcome : Outcome) (toClient : List UInt8) :
    (link.ended outcome toClient).CleanBefore (link.ended outcome toClient).outcomes.length ↔
      link.CleanBefore link.outcomes.length ∧ (outcome.failed = true → outcome.taken = 0) := by
  simp only [CleanBefore,ended,List.take_length,List.mem_append,List.mem_singleton,or_imp,
    forall_and,forall_eq]

theorem InOrder.ended (inOrder : link.InOrder limits) (waits : link.waiting = true)
    {toClient : List UInt8}
    (isNext : link.CleanBefore link.outcomes.length →
      link.Delivered link.outcomes.length outcome ∧
        ((outcome.failed = true → outcome.taken = 0) →
          (link.ended outcome toClient).takenReplies ≤ link.served.length ∧
            toClient = (link.served.drop (link.ended outcome toClient).takenReplies).flatMap
              (·.2.bytes))) :
    (link.ended outcome toClient).InOrder limits where
  requests := inOrder.requests
  answers := inOrder.answers
  oneAtATime := by
    have balance := inOrder.oneAtATime
    rw [waits] at balance
    simp only [Link.ended,List.length_append,List.length_singleton,Bool.toNat_false,
      Bool.toNat_true] at balance ⊢
    omega
  stream := by
    intro clean
    obtain ⟨cleanSoFar,isClean⟩ := (link.cleanBefore_end outcome toClient).mp clean
    exact (isNext cleanSoFar).2 isClean
  delivered := by
    intro i result isEnded clean
    have within : i ≤ link.outcomes.length := by
      have bound := (List.getElem?_eq_some_iff.mp isEnded).1
      simp only [Link.ended,List.length_append,List.length_singleton] at bound
      omega
    have cleanSoFar := (cleanBefore_ended within outcome toClient).mp clean
    have sameFailures := failedBefore_ended within outcome toClient
    refine Delivered.later ?_ sameFailures List.prefix_rfl List.prefix_rfl
    rcases Nat.lt_or_eq_of_le within with before | isLast
    · change (link.outcomes ++ [outcome])[i]? = some result at isEnded
      rw [List.getElem?_append_left before] at isEnded
      exact inOrder.delivered i result isEnded cleanSoFar
    · subst isLast
      change (link.outcomes ++ [outcome])[link.outcomes.length]? = some result at isEnded
      rw [List.getElem?_concat_length] at isEnded
      cases isEnded
      exact (isNext cleanSoFar).1

theorem InOrder.nextReply (inOrder : link.InOrder limits) {request reply : Core.Frame}
    (isServed : link.served[link.takenReplies]? = some (request,reply)) :
    link.asked[link.takenReplies]? = some (.ofServer request) := by
  obtain ⟨rest,isAsked,-,-⟩ := inOrder.requests
  rw [isAsked,List.getElem?_map,List.getElem?_append_left,List.getElem?_map,isServed]
  · rfl
  · rw [List.length_map]
    exact (List.getElem?_eq_some_iff.mp isServed).1

theorem takenReplies_ended (link : Link) (outcome : Outcome) (toClient : List UInt8) :
    (link.ended outcome toClient).takenReplies =
      link.takenReplies + (!outcome.failed).toNat := by
  have bound := link.failedBefore_le link.outcomes.length
  rw [takenReplies,failedBefore_end,takenReplies]
  simp only [Link.ended,List.length_append,List.length_singleton]
  cases outcome.failed
  · simp only [Bool.toNat_false,Bool.not_false,Bool.toNat_true]
    omega
  · simp only [Bool.toNat_false,Bool.not_true,Bool.toNat_true]
    omega

theorem InOrder.receive (inOrder : link.InOrder limits) (arrived : Nat) (sizes : List Nat) :
    (link.receive limits.client arrived sizes).InOrder limits := by
  unfold Link.receive
  split
  · rename_i waits
    obtain ⟨result,after,isRead⟩ : ∃ result after,
        readFrame ⟨link.toClient.take arrived,sizes,.timedOut⟩ limits.client.toNat =
          (result,after) := ⟨_,_,rfl⟩
    simp only [isRead]
    refine inOrder.ended waits fun clean => ?_
    obtain ⟨within,isStream⟩ := inOrder.stream clean
    rw [takenReplies_ended]
    rcases Nat.lt_or_eq_of_le within with someReply | noReply
    · -- the stream begins with the reply that comes next
      obtain ⟨⟨request,reply⟩,isServed⟩ : ∃ pair, link.served[link.takenReplies]? = some pair :=
        ⟨_,List.getElem?_eq_getElem someReply⟩
      have isAsked := inOrder.nextReply isServed
      have fits := inOrder.answers _ (List.mem_of_getElem? isServed)
      have isCons := List.drop_eq_getElem_cons someReply
      rw [(List.getElem?_eq_some_iff.mp isServed).2] at isCons
      have asStream := isStream
      rw [isCons,List.flatMap_cons] at isStream
      have oneReply := readFrame_reply fits
        ((link.served.drop (link.takenReplies + 1)).flatMap (·.2.bytes)) arrived sizes
      simp only [← isStream,isRead] at oneReply
      rcases oneReply with ⟨-,returned,left⟩ | ⟨isShort,timedOut,nothingLeft⟩
      · subst returned
        rw [left]
        exact ⟨.inr ⟨request,reply,isAsked,isServed,rfl⟩,fun _ => ⟨someReply,rfl⟩⟩
      · subst timedOut
        refine ⟨.inl rfl,fun isClean => ⟨within,?_⟩⟩
        have nothingTaken := isClean rfl
        simp only [nothingLeft,List.length_nil,Nat.sub_zero] at nothingTaken
        have untouched : link.toClient.drop arrived = link.toClient := by
          have joined := List.take_append_drop arrived link.toClient
          rwa [List.eq_nil_of_length_eq_zero nothingTaken,List.nil_append] at joined
        rw [nothingLeft,untouched]
        exact asStream
    · have nothing : link.toClient = [] := by
        rw [isStream,noReply,List.drop_length,List.flatMap_nil]
      rw [nothing,List.take_nil,readFrame_nothing] at isRead
      cases isRead
      refine ⟨.inl rfl,fun _ => ⟨within,?_⟩⟩
      rw [nothing,List.drop_nil]
      rw [nothing] at isStream
      exact isStream
  · exact inOrder

end Link

/-! ### Whole conversations -/

namespace Conversation

variable {σ : Type} {limits : FrameLimits} {handle : σ → Core.Frame → σ × Core.Frame}

def InOrder (limits : FrameLimits) (conversation : Conversation σ) : Prop :=
  ∀ link, conversation.socket = some link → link.InOrder limits

def Action.Small (maxFrameBytes : UInt32) : Action σ → Prop
  | .call request => request.payload.length ≤ maxFrameBytes.toNat
  | _ => True

instance Action.instDecidableSmall (maxFrameBytes : UInt32) :
    ∀ action : Action σ, Decidable (action.Small maxFrameBytes)
  | .call request => inferInstanceAs (Decidable (request.payload.length ≤ maxFrameBytes.toNat))
  | .read _ | .serve | .elsewhere _ | .receive _ _ | .close => .isTrue trivial

theorem InOrder.next (fits : ∀ server request, (handle server request).2.Fits limits.client)
    {conversation : Conversation σ} (inOrder : conversation.InOrder limits) (action : Action σ)
    (small : action.Small limits.server) :
    (conversation.next limits handle action).InOrder limits := by
  obtain ⟨socket,server⟩ := conversation
  intro link isLink
  cases action with
  | call request =>
      have current : (socket.getD .opened).InOrder limits := by
        cases socket with
        | none => exact .opened limits
        | some before => exact inOrder before rfl
      simp only [Conversation.next,Conversation.call] at isLink
      split at isLink
      · exact inOrder link isLink
      · rename_i notWaiting
        split at isLink
        · cases isLink
          exact current
        · rename_i bytes encoded
          cases isLink
          exact current.send (Bool.eq_false_iff.mpr notWaiting) encoded small
  | read count =>
      obtain ⟨before,isBefore,rfl⟩ := Option.map_eq_some_iff.mp isLink
      exact (inOrder before isBefore).read count
  | serve =>
      cases socket with
      | none => cases isLink
      | some before =>
          simp only [Conversation.next,Conversation.serve] at isLink
          split at isLink
          · rename_i request rest decoded
            cases isLink
            exact (inOrder before rfl).answer decoded (fits server request)
          · cases isLink
            exact inOrder link rfl
  | elsewhere change => exact inOrder link isLink
  | receive arrived sizes =>
      obtain ⟨before,isBefore,rfl⟩ := Option.map_eq_some_iff.mp isLink
      exact (inOrder before isBefore).receive arrived sizes
  | close =>
      simp only [Conversation.next] at isLink
      split at isLink
      · exact inOrder link isLink
      · cases isLink

theorem InOrder.run (fits : ∀ server request, (handle server request).2.Fits limits.client)
    (server : σ) {actions : List (Action σ)}
    (small : ∀ action ∈ actions, action.Small limits.server) :
    (Machine.run (Conversation.next limits handle) (start server) actions).InOrder limits := by
  induction actions using List.reverseRecOn with
  | nil =>
      intro link isLink
      cases isLink
  | append_singleton before last ih =>
      rw [Machine.run_append]
      exact (ih fun action earlier => small action (List.mem_append_left _ earlier)).next fits last
        (small last (List.mem_append_right _ (List.mem_singleton_self _)))

/-- In every conversation, as long as no read on a connection has given up in the middle of a
reply, every call on it times out or returns the reply to the request that lies as many places
before its own as calls on the connection have timed out by then. -/
theorem replies_lag_by_timeouts
    (fits : ∀ server request, (handle server request).2.Fits limits.client)
    (server : σ) {actions : List (Action σ)}
    (small : ∀ action ∈ actions, action.Small limits.server)
    {link : Link}
    (isLink : (Machine.run (next limits handle) (start server) actions).socket = some link) :
    link.asked.length = link.outcomes.length + link.waiting.toNat ∧
      ∀ i outcome, link.outcomes[i]? = some outcome → link.CleanBefore i →
        link.Delivered i outcome :=
  have inOrder := InOrder.run fits server small link isLink
  ⟨inOrder.oneAtATime,inOrder.delivered⟩

def echoLimits : FrameLimits := ⟨4,4⟩

def countRequests (count : Nat) (request : Core.Frame) : Nat × Core.Frame :=
  (count + 1,⟨request.op,1,[UInt8.ofNat (count + 1)]⟩)

def lateReplyActions : List (Action Nat) :=
  [.call ⟨16,1,[7]⟩,.receive 5 [],.read 3,.read 20,.call ⟨32,1,[]⟩,.serve,.read 20,
    .serve,.receive 9 [1,3]]

theorem replies_lag_by_timeouts_late : ∃ link,
    (Machine.run (next echoLimits countRequests) (start 0) lateReplyActions).socket = some link ∧
      link.outcomes[1]? = some ⟨.ok ⟨16,1,[1]⟩,8⟩ ∧ link.Delivered 1 ⟨.ok ⟨16,1,[1]⟩,8⟩ := by
  have fits : ∀ server request, (countRequests server request).2.Fits echoLimits.client :=
    fun _ _ => ⟨show 1 ≤ 4 by decide,show 1 + 3 ≤ 2 ^ 32 - 1 by decide⟩
  have small : ∀ action ∈ lateReplyActions, action.Small echoLimits.server := by decide
  refine ⟨_,rfl,by decide,?_⟩
  exact (replies_lag_by_timeouts fits 0 small rfl).2 1 _ (by decide) (by decide)

end Conversation

end Beava.Sdk
