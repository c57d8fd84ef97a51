/-
The frame codec of the SDK.

The client writes a frame in one piece and reads it in two: the length field, then
everything behind it.  A read takes what the socket gives, at most what is asked for,
and goes on until all has arrived.  However the bytes arrive, the outcome is the one
of the server's decoder on the bytes as a whole.
-/

import Beava.Core.Wire

namespace Beava.Sdk

open Beava.Core (u32Max lenPrefixBytes headerAfterLenBytes)

structure Frame where
  op : Nat
  ct : Nat
  payload : List UInt8
  deriving DecidableEq, Repr

def Frame.ofServer (frame : Core.Frame) : Frame :=
  ⟨frame.op.toNat,frame.contentType.toNat,frame.payload⟩

inductive WireError where
  | frameTooLarge (declaredLength limit maxFrameBytes : Nat)
  /-- `IncompleteFrame` for a length that cannot cover the header. -/
  | lengthUnderflow (length : Nat)
  /-- `IncompleteFrame` for a buffer without a whole length field. -/
  | shortPrefix (got : Nat)
  /-- `IncompleteFrame` for a buffer without the whole frame. -/
  | shortBuffer (needed got declaredLength : Nat)
  /-- `IncompleteFrame` for a socket that was closed. -/
  | socketClosed (got needed : Nat)
  /-- `socket.timeout`. -/
  | timedOut
  /-- `struct.error` for a field that does not fit. -/
  | packOutOfRange
  deriving DecidableEq, Repr

def encodeFrame (op ct : Nat) (payload : List UInt8) : Except WireError (List UInt8) :=
  let length := 2 + 1 + payload.length
  if length < 2 ^ 32 ∧ op < 2 ^ 16 ∧ ct < 2 ^ 8 then
    .ok (BigEndian.encode 4 length ++ BigEndian.encode 2 op ++ [UInt8.ofNat ct] ++ payload)
  else .error .packOutOfRange

theorem encodeFrame_eq_ok {op ct : Nat} {payload bytes : List UInt8} :
    encodeFrame op ct payload = .ok bytes ↔
      ∃ frame : Core.Frame, Frame.ofServer frame = ⟨op,ct,payload⟩ ∧
        payload.length + headerAfterLenBytes ≤ u32Max ∧ bytes = frame.bytes := by
  unfold encodeFrame Frame.ofServer
  simp only [headerAfterLenBytes,u32Max,Frame.mk.injEq]
  constructor
  · intro isOk
    split at isOk
    · rename_i fits
      obtain ⟨lengthFits,opFits,ctFits⟩ := fits
      cases isOk
      refine ⟨⟨UInt16.ofNat op,UInt8.ofNat ct,payload⟩,
        ⟨UInt16.toNat_ofNat_of_lt' opFits,UInt8.toNat_ofNat_of_lt' ctFits,rfl⟩,by omega,?_⟩
      rw [Core.Frame.bytes_eq,UInt16.toNat_ofNat_of_lt' opFits,Nat.add_comm payload.length 3]
      simp only [List.append_assoc,List.singleton_append]
    · cases isOk
  · rintro ⟨frame,⟨rfl,rfl,rfl⟩,lengthFits,rfl⟩
    have opFits := frame.op.toNat_lt
    have ctFits := frame.contentType.toNat_lt
    rw [if_pos ⟨by omega,opFits,ctFits⟩,Core.Frame.bytes_eq,UInt8.ofNat_toNat,
      Nat.add_comm frame.payload.length 3]
    simp only [List.append_assoc,List.singleton_append]

inductive Ending where
  | closed
  | timedOut
  deriving DecidableEq, Repr

structure Socket where
  bytes : List UInt8
  sizes : List Nat
  ending : Ending
  deriving DecidableEq, Repr

namespace Socket

def available (sock : Socket) (n : Nat) : Nat := min n (max 1 (sock.sizes.headD n))

def recv (sock : Socket) (n : Nat) : Except WireError (List UInt8) × Socket :=
  if sock.bytes = [] then
    match sock.ending with
    | .closed => (.ok [],sock)
    | .timedOut => (.error .timedOut,sock)
  else
    (.ok (sock.bytes.take (sock.available n)),
      { sock with bytes := sock.bytes.drop (sock.available n), sizes := sock.sizes.tail })

end Socket

/-- The loop of `_recv_exactly`; every round takes a byte or ends it, so `remaining` rounds are
enough. -/
def recvLoop (n : Nat) : Nat → Nat → Socket → Except WireError (List UInt8) × Socket
  | _, 0, sock => (.ok [],sock)
  | 0, _, sock => (.ok [],sock)
  | fuel + 1, remaining + 1, sock =>
      match sock.recv (remaining + 1) with
      | (.error error,sock) => (.error error,sock)
      | (.ok chunk,sock) =>
          if chunk = [] then (.error (.socketClosed (n - (remaining + 1)) n),sock)
          else
            let (rest,sock) := recvLoop n fuel (remaining + 1 - chunk.length) sock
            (rest.map (chunk ++ ·),sock)

def recvExactly (sock : Socket) (n : Nat) : Except WireError (List UInt8) × Socket :=
  recvLoop n n n sock

def readFrame (sock : Socket) (maxFrameBytes : Nat) : Except WireError Frame × Socket :=
  match recvExactly sock 4 with
  | (.error error,sock) => (.error error,sock)
  | (.ok lenBytes,sock) =>
      let length := BigEndian.decode lenBytes
      if length < 3 then (.error (.lengthUnderflow length),sock)
      else
        let limit := maxFrameBytes + 3
        if limit < length then (.error (.frameTooLarge length limit maxFrameBytes),sock)
        else
          match recvExactly sock length with
          | (.error error,sock) => (.error error,sock)
          | (.ok rest,sock) =>
              (.ok ⟨BigEndian.decode (rest.take 2),(rest.getD 2 0).toNat,rest.drop 3⟩,sock)

def decodeFrame (buf : List UInt8) (maxFrameBytes : Nat) : Except WireError Frame :=
  if buf.length < 4 then .error (.shortPrefix buf.length)
  else
    let length := BigEndian.decode (buf.take 4)
    if length < 3 then .error (.lengthUnderflow length)
    else
      let limit := maxFrameBytes + 3
      if limit < length then .error (.frameTooLarge length limit maxFrameBytes)
      else
        let totalNeeded := 4 + length
        if buf.length < totalNeeded then .error (.shortBuffer totalNeeded buf.length length)
        else
          .ok ⟨BigEndian.decode ((buf.take 6).drop 4),(buf.getD 6 0).toNat,
            (buf.take totalNeeded).drop 7⟩

section Recv

theorem Socket.available_pos (sock : Socket) {n : Nat} (positive : 0 < n) :
    0 < sock.available n := by
  unfold Socket.available
  omega

theorem Socket.available_le (sock : Socket) (n : Nat) : sock.available n ≤ n :=
  Nat.min_le_left _ _

def Ending.error (ending : Ending) (got needed : Nat) : WireError :=
  match ending with
  | .closed => .socketClosed got needed
  | .timedOut => .timedOut

theorem recvLoop_spec (n : Nat) {fuel remaining : Nat} (enough : remaining ≤ fuel)
    (within : remaining ≤ n) (sock : Socket) :
    ∃ sizes, recvLoop n fuel remaining sock =
      if remaining ≤ sock.bytes.length then
        (.ok (sock.bytes.take remaining),⟨sock.bytes.drop remaining,sizes,sock.ending⟩)
      else (.error (sock.ending.error (n - remaining + sock.bytes.length) n),
        ⟨[],sizes,sock.ending⟩) := by
  induction fuel generalizing remaining sock with
  | zero =>
      have isZero : remaining = 0 := by omega
      subst isZero
      exact ⟨sock.sizes,by simp [recvLoop]⟩
  | succ fuel ih =>
      cases remaining with
      | zero => exact ⟨sock.sizes,by simp [recvLoop]⟩
      | succ remaining =>
          unfold recvLoop Socket.recv
          by_cases noBytes : sock.bytes = []
          · refine ⟨sock.sizes,?_⟩
            obtain ⟨bytes,sizes,ending⟩ := sock
            simp only at noBytes
            subst noBytes
            cases ending <;> simp [Ending.error]
          · have positive := sock.available_pos (Nat.succ_pos remaining)
            have atMost := sock.available_le (remaining + 1)
            have length : 0 < sock.bytes.length := List.length_pos_iff.mpr noBytes
            generalize sock.available (remaining + 1) = taken at positive atMost
            have chunkLength : (sock.bytes.take taken).length = min taken sock.bytes.length :=
              List.length_take
            have someChunk : sock.bytes.take taken ≠ [] := by
              rw [← List.length_pos_iff,chunkLength]
              omega
            have lessFuel : remaining + 1 - min taken sock.bytes.length ≤ fuel := by omega
            obtain ⟨sizes,later⟩ := ih lessFuel (by omega)
              ⟨sock.bytes.drop taken,sock.sizes.tail,sock.ending⟩
            refine ⟨sizes,?_⟩
            simp only [List.length_drop] at later
            simp only [if_neg noBytes,if_neg someChunk,chunkLength,later]
            by_cases arrives : remaining + 1 ≤ sock.bytes.length
            · have isTaken : min taken sock.bytes.length = taken := by omega
              rw [if_pos (by omega),if_pos arrives,isTaken]
              simp only [Except.map,List.drop_drop]
              have joined : sock.bytes.take taken ++
                  (sock.bytes.drop taken).take (remaining + 1 - taken) =
                    sock.bytes.take (remaining + 1) := by
                rw [← List.take_add]
                congr 1
                omega
              rw [joined]
              congr 3
              omega
            · rw [if_neg (by omega),if_neg arrives]
              simp only [Except.map]
              congr 3
              omega

theorem recvExactly_spec (sock : Socket) (n : Nat) :
    ∃ sizes, recvExactly sock n =
      if n ≤ sock.bytes.length then
        (.ok (sock.bytes.take n),⟨sock.bytes.drop n,sizes,sock.ending⟩)
      else (.error (sock.ending.error sock.bytes.length n),⟨[],sizes,sock.ending⟩) := by
  obtain ⟨sizes,isLoop⟩ := recvLoop_spec n (Nat.le_refl n) (Nat.le_refl n) sock
  refine ⟨sizes,?_⟩
  rw [recvExactly,isLoop,Nat.sub_self,Nat.zero_add]

end Recv

def Socket.shortfall (sock : Socket) : WireError :=
  if sock.bytes.length < 4 then sock.ending.error sock.bytes.length 4
  else sock.ending.error (sock.bytes.length - 4) (BigEndian.decode (sock.bytes.take 4))

def Socket.outcome (sock : Socket) (maxFrameBytes : Nat) :
    Except Core.FrameError (Option Core.Frame) → Except WireError Frame
  | .ok (some frame) => .ok (.ofServer frame)
  | .ok none => .error sock.shortfall
  | .error (.tooLarge declaredLen limit) => .error (.frameTooLarge declaredLen limit maxFrameBytes)
  | .error (.lengthUnderflow declaredLen) => .error (.lengthUnderflow declaredLen)

/-- The bytes that a read leaves in the socket.  A length that is refused is taken away, and so
is all of a frame that does not arrive as a whole. -/
def Socket.left (sock : Socket) :
    Except Core.FrameError (Option Core.Frame) × List UInt8 → List UInt8
  | (.ok (some _),rest) => rest
  | (.ok none,_) => []
  | (.error _,_) => sock.bytes.drop 4

theorem length_field_lt (bytes : List UInt8) : BigEndian.decode (bytes.take 4) ≤ u32Max := by
  have bound := BigEndian.decode_lt (bytes.take 4)
  have atMost : 256 ^ (bytes.take 4).length ≤ 256 ^ 4 :=
    Nat.pow_le_pow_right (by decide) (by rw [List.length_take]; omega)
  simp only [u32Max]
  omega

/-- The server's decoder with the limit of the client; the bound to 32 bits refuses no length
that the field can hold. -/
theorem server_decodeFrame (buf : List UInt8) (maxFrameBytes : UInt32) :
    Core.decodeFrame buf maxFrameBytes =
      if buf.length < 4 then (.ok none,buf)
      else if BigEndian.decode (buf.take 4) < 3 then
        (.error (.lengthUnderflow (BigEndian.decode (buf.take 4))),buf)
      else if maxFrameBytes.toNat + 3 < BigEndian.decode (buf.take 4) then
        (.error (.tooLarge (BigEndian.decode (buf.take 4)) (maxFrameBytes.toNat + 3)),buf)
      else if buf.length < 4 + BigEndian.decode (buf.take 4) then (.ok none,buf)
      else
        let afterOp := Core.getU16 (buf.drop 4)
        let afterHeader := Core.getU8 afterOp.2
        let payloadLen := BigEndian.decode (buf.take 4) - 3
        (.ok (some ⟨afterOp.1,afterHeader.1,afterHeader.2.take payloadLen⟩),
          afterHeader.2.drop payloadLen) := by
  have inField := length_field_lt buf
  unfold Core.decodeFrame
  by_cases short : buf.length < lenPrefixBytes
  · rw [if_pos short,if_pos (show buf.length < 4 from short)]
  · rw [if_neg short,if_neg (show ¬buf.length < 4 from short)]
    simp only
    have sameLimit : ¬maxFrameBytes.toNat + 3 < BigEndian.decode (buf.take 4) ∨
        min (maxFrameBytes.toNat + headerAfterLenBytes) u32Max = maxFrameBytes.toNat + 3 := by
      simp only [headerAfterLenBytes]
      omega
    by_cases underflow : BigEndian.decode (buf.take lenPrefixBytes) < headerAfterLenBytes
    · rw [if_pos underflow,if_pos (show BigEndian.decode (buf.take 4) < 3 from underflow)]
      rfl
    · rw [if_neg underflow,if_neg (show ¬BigEndian.decode (buf.take 4) < 3 from underflow)]
      by_cases tooLarge : min (maxFrameBytes.toNat + headerAfterLenBytes) u32Max <
          BigEndian.decode (buf.take lenPrefixBytes)
      · have exceeds : maxFrameBytes.toNat + 3 < BigEndian.decode (buf.take 4) := by
          simp only [headerAfterLenBytes,lenPrefixBytes] at tooLarge
          omega
        rw [if_pos tooLarge,if_pos exceeds,sameLimit.resolve_left (not_not_intro exceeds)]
        rfl
      · have within : ¬maxFrameBytes.toNat + 3 < BigEndian.decode (buf.take 4) := by
          simp only [headerAfterLenBytes,lenPrefixBytes] at tooLarge
          omega
        rw [if_neg tooLarge,if_neg within]
        rfl

theorem frame_parts (bytes : List UInt8) {length : Nat} (covers : 3 ≤ length)
    (arrived : length ≤ bytes.length) :
    (⟨BigEndian.decode ((bytes.take length).take 2),((bytes.take length).getD 2 0).toNat,
        (bytes.take length).drop 3⟩ : Frame) =
      .ofServer ⟨(Core.getU16 bytes).1,(Core.getU8 (Core.getU16 bytes).2).1,
        (Core.getU8 (Core.getU16 bytes).2).2.take (length - 3)⟩ := by
  have opcode : BigEndian.decode (bytes.take 2) < 2 ^ 16 := by
    have bound := BigEndian.decode_lt (bytes.take 2)
    have size : (bytes.take 2).length = 2 := by
      rw [List.length_take]
      omega
    rw [size] at bound
    exact bound
  simp only [Frame.ofServer,Core.getU16,Core.getU8,List.take_take,Nat.min_eq_left
    (by omega : 2 ≤ length),List.drop_drop,Frame.mk.injEq]
  refine ⟨(UInt16.toNat_ofNat_of_lt' opcode).symm,?_,?_⟩
  · rw [List.getD_eq_getElem?_getD,List.getElem?_take_of_lt (by omega),List.headD_eq_head?_getD,
      List.head?_drop]
  · rw [List.drop_take]

/-- However the bytes arrive, the client reads from a socket what the server's decoder makes of
the bytes as a whole, and leaves the bytes that this call leaves. -/
theorem readFrame_agrees (sock : Socket) (maxFrameBytes : UInt32) :
    (readFrame sock maxFrameBytes.toNat).1 =
        sock.outcome maxFrameBytes.toNat (Core.decodeFrame sock.bytes maxFrameBytes).1 ∧
      (readFrame sock maxFrameBytes.toNat).2.bytes =
        sock.left (Core.decodeFrame sock.bytes maxFrameBytes) ∧
      (readFrame sock maxFrameBytes.toNat).2.ending = sock.ending := by
  obtain ⟨sizes,lengthField⟩ := recvExactly_spec sock 4
  obtain ⟨length,isLength⟩ : ∃ length, BigEndian.decode (sock.bytes.take 4) = length :=
    ⟨_,rfl⟩
  rw [server_decodeFrame]
  unfold readFrame
  rw [lengthField]
  by_cases short : sock.bytes.length < 4
  · rw [if_neg (Nat.not_le.mpr short),if_pos short]
    refine ⟨?_,rfl,rfl⟩
    simp only [Socket.outcome,Socket.shortfall,if_pos short]
  · rw [if_pos (Nat.not_lt.mp short),if_neg short]
    simp only [isLength]
    by_cases underflow : length < 3
    · rw [if_pos underflow,if_pos underflow]
      exact ⟨rfl,rfl,rfl⟩
    · rw [if_neg underflow,if_neg underflow]
      by_cases tooLarge : maxFrameBytes.toNat + 3 < length
      · rw [if_pos tooLarge,if_pos tooLarge]
        exact ⟨rfl,rfl,rfl⟩
      · rw [if_neg tooLarge,if_neg tooLarge]
        obtain ⟨sizesAfter,behind⟩ :=
          recvExactly_spec ⟨sock.bytes.drop 4,sizes,sock.ending⟩ length
        rw [behind]
        simp only [List.length_drop]
        by_cases arrived : length ≤ sock.bytes.length - 4
        · rw [if_pos arrived,if_neg (by omega)]
          refine ⟨congrArg Except.ok (frame_parts _ (by omega) ?_),?_,rfl⟩
          · rw [List.length_drop]
            exact arrived
          · simp only [Socket.left,Core.getU16,Core.getU8,List.drop_drop]
            congr 1
            omega
        · rw [if_neg arrived,if_pos (by omega)]
          refine ⟨?_,rfl,rfl⟩
          simp only [Socket.outcome,Socket.shortfall,isLength,if_neg short]

theorem decodeFrame_agrees (buf : List UInt8) (maxFrameBytes : UInt32) :
    decodeFrame buf maxFrameBytes.toNat =
      match (Core.decodeFrame buf maxFrameBytes).1 with
      | .ok (some frame) => .ok (.ofServer frame)
      | .ok none =>
          if buf.length < 4 then .error (.shortPrefix buf.length)
          else .error (.shortBuffer (4 + BigEndian.decode (buf.take 4)) buf.length
            (BigEndian.decode (buf.take 4)))
      | .error (.tooLarge declaredLen limit) =>
          .error (.frameTooLarge declaredLen limit maxFrameBytes.toNat)
      | .error (.lengthUnderflow declaredLen) => .error (.lengthUnderflow declaredLen) := by
  obtain ⟨length,isLength⟩ : ∃ length, BigEndian.decode (buf.take 4) = length := ⟨_,rfl⟩
  rw [server_decodeFrame]
  unfold decodeFrame
  by_cases short : buf.length < 4
  · rw [if_pos short,if_pos short]
    simp only [if_pos short]
  · rw [if_neg short,if_neg short]
    simp only [isLength]
    by_cases underflow : length < 3
    · rw [if_pos underflow,if_pos underflow]
    · rw [if_neg underflow,if_neg underflow]
      by_cases tooLarge : maxFrameBytes.toNat + 3 < length
      · rw [if_pos tooLarge,if_pos tooLarge]
      · rw [if_neg tooLarge,if_neg tooLarge]
        by_cases arrived : buf.length < 4 + length
        · rw [if_pos arrived,if_pos arrived]
          simp only [if_neg short]
        · rw [if_neg arrived,if_neg arrived]
          have parts := frame_parts (buf.drop 4) (by omega : 3 ≤ length)
            (by rw [List.length_drop]; omega)
          simp only
          rw [← parts,Except.ok.injEq,Frame.mk.injEq]
          refine ⟨?_,?_,?_⟩
          · rw [List.take_take,Nat.min_eq_left (by omega),List.drop_take]
          · rw [List.getD_eq_getElem?_getD,List.getD_eq_getElem?_getD,
              List.getElem?_take_of_lt (by omega),List.getElem?_drop]
          · rw [List.drop_take,List.drop_take,List.drop_drop]
            congr 1
            omega

/-- Client and server have one codec.  The client writes the frames that the server writes, takes
a frame from a buffer exactly when the server does, and, however the bytes of a socket arrive and
however they end, reads what the server's decoder makes of them as a whole. -/
theorem codecs_agree (maxFrameBytes : UInt32) :
    (∀ op ct payload bytes, encodeFrame op ct payload = .ok bytes ↔
      ∃ frame : Core.Frame, Frame.ofServer frame = ⟨op,ct,payload⟩ ∧
        payload.length + headerAfterLenBytes ≤ u32Max ∧ bytes = frame.bytes) ∧
    (∀ buf frame, decodeFrame buf maxFrameBytes.toNat = .ok frame ↔
      ∃ served, (Core.decodeFrame buf maxFrameBytes).1 = .ok (some served) ∧
        frame = .ofServer served) ∧
    ∀ sock : Socket, (readFrame sock maxFrameBytes.toNat).1 =
        sock.outcome maxFrameBytes.toNat (Core.decodeFrame sock.bytes maxFrameBytes).1 ∧
      (readFrame sock maxFrameBytes.toNat).2.bytes =
        sock.left (Core.decodeFrame sock.bytes maxFrameBytes) := by
  refine ⟨fun op ct payload bytes => encodeFrame_eq_ok,fun buf frame => ?_,fun sock => ?_⟩
  · rw [decodeFrame_agrees]
    split
    · rename_i served isServed
      rw [isServed]
      simp only [Except.ok.injEq,Option.some.injEq,exists_eq_left',eq_comm]
    · rename_i isNone
      rw [isNone]
      split <;> simp
    · rename_i isError
      rw [isError]
      simp
    · rename_i isError
      rw [isError]
      simp
  · obtain ⟨result,left,-⟩ := readFrame_agrees sock maxFrameBytes
    exact ⟨result,left⟩

/-- A frame of two bytes of payload that comes in four pieces, with the next one behind it. -/
example : readFrame ⟨[0,0,0,5,0,16,1,7,8,0,0],[1,4,2],.timedOut⟩ 2 =
    (.ok ⟨16,1,[7,8]⟩,⟨[0,0],[],.timedOut⟩) := by
  decide

end Beava.Sdk
