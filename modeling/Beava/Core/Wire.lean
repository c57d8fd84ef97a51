/-
Frames of the TCP listener.

A frame is its length, counted from behind the length field, then the opcode, the
content type and the payload.  The length field has 32 bits and wraps in the
encoder, which leaves it to its caller that the payload is not too long for it.

The decoder is called on what has arrived so far.  A connection appends the next
chunk of the stream, makes a single call, or calls until nothing more comes; the
order of these steps is arbitrary.
-/

import Beava.Lib.BigEndian
import Beava.Lib.Incremental
import Beava.Lib.Machine

namespace Beava.Core

open Incremental (Step Pending)

variable {buf : List UInt8} {maxFrameBytes : UInt32}

structure Frame where
  op : UInt16
  contentType : UInt8
  payload : List UInt8
  deriving DecidableEq, Repr

def lenPrefixBytes : Nat := 4

def headerAfterLenBytes : Nat := 3

def u32Max : Nat := 2 ^ 32 - 1

inductive FrameError where
  | tooLarge (declaredLen limit : Nat)
  | lengthUnderflow (declaredLen : Nat)
  deriving DecidableEq, Repr

/-- `encode_frame`; the length field takes the low 32 bits. -/
def encodeFrame (frame : Frame) (out : List UInt8) : List UInt8 :=
  out ++ BigEndian.encode lenPrefixBytes (frame.payload.length + headerAfterLenBytes) ++
    BigEndian.encode 2 frame.op.toNat ++ [frame.contentType] ++ frame.payload

def Frame.bytes (frame : Frame) : List UInt8 := encodeFrame frame []

/-- `Buf::get_u16` on a buffer that has the bytes. -/
def getU16 (buf : List UInt8) : UInt16 × List UInt8 :=
  (UInt16.ofNat (BigEndian.decode (buf.take 2)),buf.drop 2)

def getU8 (buf : List UInt8) : UInt8 × List UInt8 :=
  (buf.headD 0,buf.drop 1)

/-- `decode_frame`: the result and the buffer after the call. -/
def decodeFrame (buf : List UInt8) (maxFrameBytes : UInt32) :
    Except FrameError (Option Frame) × List UInt8 :=
  if buf.length < lenPrefixBytes then (.ok none,buf)
  else
    let declaredLen := BigEndian.decode (buf.take lenPrefixBytes)
    if declaredLen < headerAfterLenBytes then (.error (.lengthUnderflow declaredLen),buf)
    else
      let limit := min (maxFrameBytes.toNat + headerAfterLenBytes) u32Max
      if limit < declaredLen then (.error (.tooLarge declaredLen limit),buf)
      else if buf.length < lenPrefixBytes + declaredLen then (.ok none,buf)
      else
        let (op,afterOp) := getU16 (buf.drop lenPrefixBytes)
        let (contentType,afterHeader) := getU8 afterOp
        let payloadLen := declaredLen - headerAfterLenBytes
        (.ok (some ⟨op,contentType,afterHeader.take payloadLen⟩),afterHeader.drop payloadLen)

theorem decodeFrame_unchanged (buf : List UInt8) (maxFrameBytes : UInt32)
    (noFrame : ∀ frame, (decodeFrame buf maxFrameBytes).1 ≠ .ok (some frame)) :
    (decodeFrame buf maxFrameBytes).2 = buf := by
  unfold decodeFrame at noFrame ⊢
  split
  · rfl
  · rename_i hasPrefix
    rw [if_neg hasPrefix] at noFrame
    simp only at noFrame ⊢
    split
    · rfl
    · rename_i covers
      rw [if_neg covers] at noFrame
      split
      · rfl
      · rename_i allowed
        rw [if_neg allowed] at noFrame
        split
        · rfl
        · rename_i arrived
          rw [if_neg arrived] at noFrame
          exact absurd rfl (noFrame _)

/-- The call as a step that says how many bytes a frame took. -/
def frameStep (maxFrameBytes : UInt32) (buf : List UInt8) : Step Frame FrameError :=
  match decodeFrame buf maxFrameBytes with
  | (.ok none,_) => .needMore
  | (.ok (some frame),rest) => .item frame (buf.length - rest.length)
  | (.error error,_) => .failed error

theorem decodeFrame_suffix (buf : List UInt8) (maxFrameBytes : UInt32) :
    (decodeFrame buf maxFrameBytes).2 =
      buf.drop (buf.length - (decodeFrame buf maxFrameBytes).2.length) := by
  have suffix : ∃ count, (decodeFrame buf maxFrameBytes).2 = buf.drop count := by
    by_cases isFrame : ∃ frame, (decodeFrame buf maxFrameBytes).1 = .ok (some frame)
    · unfold decodeFrame
      split
      · exact ⟨0,rfl⟩
      · simp only
        split
        · exact ⟨0,rfl⟩
        · split
          · exact ⟨0,rfl⟩
          · split
            · exact ⟨0,rfl⟩
            · simp only [getU16,getU8,List.drop_drop]
              exact ⟨_,rfl⟩
    · refine ⟨0,?_⟩
      rw [List.drop_zero]
      exact decodeFrame_unchanged buf maxFrameBytes fun frame same => isFrame ⟨frame,same⟩
  obtain ⟨count,isDrop⟩ := suffix
  rw [isDrop,List.length_drop]
  by_cases within : count ≤ buf.length
  · have same : buf.length - (buf.length - count) = count := by omega
    rw [same]
  · rw [List.drop_eq_nil_of_le (by omega),List.drop_eq_nil_of_le (by omega)]

theorem decodeFrame_of_needMore (needsMore : frameStep maxFrameBytes buf = .needMore) :
    decodeFrame buf maxFrameBytes = (.ok none,buf) := by
  have unchanged := decodeFrame_unchanged buf maxFrameBytes
  unfold frameStep at needsMore
  split at needsMore
  · rename_i rest result
    rw [result] at unchanged
    have same : rest = buf := unchanged (by simp)
    rw [result,same]
  · cases needsMore
  · cases needsMore

theorem decodeFrame_of_item {frame : Frame} {size : Nat}
    (isItem : frameStep maxFrameBytes buf = .item frame size) :
    decodeFrame buf maxFrameBytes = (.ok (some frame),buf.drop size) := by
  have suffix := decodeFrame_suffix buf maxFrameBytes
  unfold frameStep at isItem
  split at isItem
  · cases isItem
  · rename_i found rest result
    cases isItem
    rw [result] at suffix ⊢
    rw [← suffix]
  · cases isItem

/-- The payload is within the limit and its length fits the length field. -/
def Frame.Fits (maxFrameBytes : UInt32) (frame : Frame) : Prop :=
  frame.payload.length ≤ maxFrameBytes.toNat ∧
    frame.payload.length + headerAfterLenBytes ≤ u32Max

instance Frame.instDecidableFits (maxFrameBytes : UInt32) (frame : Frame) :
    Decidable (frame.Fits maxFrameBytes) :=
  inferInstanceAs (Decidable (_ ∧ _))

section Fitting

variable {maxFrameBytes : UInt32} {frame : Frame}

theorem Frame.bytes_eq (frame : Frame) :
    frame.bytes = BigEndian.encode 4 (frame.payload.length + 3) ++
      (BigEndian.encode 2 frame.op.toNat ++ (frame.contentType :: frame.payload)) := by
  simp only [Frame.bytes,encodeFrame,lenPrefixBytes,headerAfterLenBytes,List.nil_append,
    List.append_assoc,List.singleton_append]

theorem Frame.length_bytes (frame : Frame) : frame.bytes.length = frame.payload.length + 7 := by
  rw [Frame.bytes_eq]
  simp only [List.length_append,BigEndian.length_encode,List.length_cons]
  omega

theorem Frame.Fits.declaredLen (fits : frame.Fits maxFrameBytes) (rest : List UInt8) (cut : Nat)
    (hasPrefix : 4 ≤ cut) :
    BigEndian.decode (((frame.bytes ++ rest).take cut).take 4) = frame.payload.length + 3 := by
  have small : frame.payload.length + 3 < 256 ^ 4 := by
    have := fits.2
    simp only [headerAfterLenBytes,u32Max] at this
    omega
  rw [List.take_take,Nat.min_eq_left hasPrefix,Frame.bytes_eq,List.append_assoc,
    List.take_left' (BigEndian.length_encode 4 _),BigEndian.decode_encode_of_lt small]

theorem Frame.Fits.short (fits : frame.Fits maxFrameBytes) {cut : Nat}
    (isShort : cut < frame.bytes.length) :
    decodeFrame (frame.bytes.take cut) maxFrameBytes = (.ok none,frame.bytes.take cut) := by
  have length : (frame.bytes.take cut).length = cut := by
    rw [List.length_take]
    omega
  unfold decodeFrame
  by_cases hasPrefix : cut < 4
  · rw [if_pos (by rw [length]; exact hasPrefix)]
  · have declared := fits.declaredLen [] cut (by omega)
    rw [List.append_nil] at declared
    have inLimit := fits.1
    have inField := fits.2
    rw [Frame.length_bytes] at isShort
    simp only [lenPrefixBytes,headerAfterLenBytes,u32Max,length,declared] at *
    rw [if_neg (by omega),if_neg (by omega),if_neg (by omega),if_pos (by omega)]

theorem Frame.Fits.whole (fits : frame.Fits maxFrameBytes) (rest : List UInt8) :
    decodeFrame (frame.bytes ++ rest) maxFrameBytes = (.ok (some frame),rest) := by
  have length : (frame.bytes ++ rest).length = frame.payload.length + 7 + rest.length := by
    rw [List.length_append,Frame.length_bytes]
  have declared := fits.declaredLen rest (frame.bytes ++ rest).length (by omega)
  rw [List.take_length] at declared
  have inLimit := fits.1
  have inField := fits.2
  have opcode : UInt16.ofNat (BigEndian.decode (BigEndian.encode 2 frame.op.toNat)) = frame.op := by
    rw [BigEndian.decode_encode_of_lt (by have := frame.op.toNat_lt; omega)]
    exact UInt16.ofNat_toNat
  have behindLength : (frame.bytes ++ rest).drop 4 =
      BigEndian.encode 2 frame.op.toNat ++ (frame.contentType :: (frame.payload ++ rest)) := by
    rw [Frame.bytes_eq,List.append_assoc,List.drop_left' (BigEndian.length_encode 4 _),
      List.append_assoc,List.cons_append]
  unfold decodeFrame
  simp only [lenPrefixBytes,headerAfterLenBytes,u32Max,length,declared,behindLength,getU16,
    getU8] at *
  rw [if_neg (by omega),if_neg (by omega),if_neg (by omega),if_neg (by omega),
    List.take_left' (BigEndian.length_encode 2 _),List.drop_left' (BigEndian.length_encode 2 _),
    opcode,List.headD_cons,List.drop_one,List.tail_cons,Nat.add_sub_cancel,List.take_left,
    List.drop_left]

theorem Frame.Fits.reads (fits : frame.Fits maxFrameBytes) :
    Incremental.Reads (frameStep maxFrameBytes) Frame.bytes frame where
  nonempty := by
    rw [Frame.length_bytes]
    omega
  whole := by
    intro rest
    rw [frameStep,fits.whole rest]
    simp only [List.length_append,Nat.add_sub_cancel]
  short := by
    intro cut isShort
    rw [frameStep,fits.short isShort]

end Fitting

theorem frameStep_nil (maxFrameBytes : UInt32) : frameStep maxFrameBytes [] = .needMore := rfl

structure Connection where
  incoming : List (List UInt8)
  buf : List UInt8
  decoded : List Frame
  last : Except FrameError (Option Frame)

namespace Connection

variable {payload : List UInt8}

inductive Action where
  | append
  | decode
  | drain
  deriving DecidableEq, Repr

def start (chunks : List (List UInt8)) : Connection := ⟨chunks,[],[],.ok none⟩

def append (connection : Connection) : Connection :=
  match connection.incoming with
  | [] => connection
  | chunk :: rest => { connection with incoming := rest, buf := connection.buf ++ chunk }

def decode (maxFrameBytes : UInt32) (connection : Connection) : Connection :=
  let result := decodeFrame connection.buf maxFrameBytes
  { connection with
    buf := result.2
    decoded :=
      match result.1 with
      | .ok (some frame) => connection.decoded ++ [frame]
      | _ => connection.decoded
    last := result.1 }

/-- Calls until one returns no frame. -/
def drainFrom (maxFrameBytes : UInt32) : Nat → Connection → Connection
  | 0, connection => connection
  | fuel + 1, connection =>
      let after := connection.decode maxFrameBytes
      match after.last with
      | .ok (some _) => drainFrom maxFrameBytes fuel after
      | _ => after

/-- Every frame takes bytes, so there are fewer of them than bytes. -/
def drain (maxFrameBytes : UInt32) (connection : Connection) : Connection :=
  drainFrom maxFrameBytes (connection.buf.length + 1) connection

def next (maxFrameBytes : UInt32) (connection : Connection) : Action → Connection
  | .append => connection.append
  | .decode => connection.decode maxFrameBytes
  | .drain => connection.drain maxFrameBytes

/-- The connection is at the front of what is still expected, and no call failed. -/
structure InStep (frames : List Frame) (connection : Connection) : Prop where
  expected : ∃ rest, frames = connection.decoded ++ rest ∧
    Pending Frame.bytes rest connection.buf connection.incoming.flatten
  noError : ∀ error, connection.last ≠ .error error

section Run

variable {maxFrameBytes : UInt32} {frames : List Frame} {connection : Connection}

theorem InStep.append (inStep : InStep frames connection) : InStep frames connection.append := by
  unfold Connection.append
  split
  · exact inStep
  · rename_i chunk rest isCons
    obtain ⟨expected,isSplit,pending⟩ := inStep.expected
    rw [isCons,List.flatten_cons] at pending
    exact ⟨⟨expected,isSplit,pending.append⟩,inStep.noError⟩

theorem InStep.decode (fits : ∀ frame ∈ frames, frame.Fits maxFrameBytes)
    (inStep : InStep frames connection) :
    InStep frames (connection.decode maxFrameBytes) ∧
    (((connection.decode maxFrameBytes).last = .ok none ∧
        (connection.incoming = [] → (connection.decode maxFrameBytes).decoded = frames ∧
          (connection.decode maxFrameBytes).buf = [])) ∨
      ∃ frame, (connection.decode maxFrameBytes).last = .ok (some frame) ∧
        (connection.decode maxFrameBytes).buf.length < connection.buf.length) := by
  obtain ⟨expected,isSplit,pending⟩ := inStep.expected
  have reads : ∀ frame ∈ expected,
      Incremental.Reads (frameStep maxFrameBytes) Frame.bytes frame := by
    intro frame member
    exact (fits frame (isSplit ▸ List.mem_append_right _ member)).reads
  rcases pending.step (frameStep_nil maxFrameBytes) reads with
    ⟨needsMore,isShort,-⟩ | ⟨frame,rest,rfl,isItem,longer,later⟩
  · have call := decodeFrame_of_needMore needsMore
    unfold Connection.decode
    rw [call]
    refine ⟨⟨⟨expected,isSplit,pending⟩,by intro error isError; cases isError⟩,.inl ⟨rfl,?_⟩⟩
    intro noChunks
    rw [noChunks,Pending,List.flatten_nil,List.append_nil] at pending
    cases expected with
    | nil =>
        rw [List.append_nil] at isSplit
        exact ⟨isSplit.symm,pending⟩
    | cons frame rest =>
        have := isShort frame rest rfl
        rw [pending,List.flatMap_cons,List.length_append] at this
        omega
  · have call := decodeFrame_of_item isItem
    have positive := (reads frame List.mem_cons_self).nonempty
    unfold Connection.decode
    rw [call]
    refine ⟨⟨⟨rest,?_,later⟩,by intro error isError; cases isError⟩,.inr ⟨frame,rfl,?_⟩⟩
    · rw [isSplit,List.append_assoc,List.singleton_append]
    · simp only [List.length_drop]
      omega

theorem incoming_decode (connection : Connection) :
    (connection.decode maxFrameBytes).incoming = connection.incoming := rfl

theorem InStep.drainFrom (fits : ∀ frame ∈ frames, frame.Fits maxFrameBytes)
    (inStep : InStep frames connection) {fuel : Nat} (enough : connection.buf.length < fuel) :
    InStep frames (connection.drainFrom maxFrameBytes fuel) ∧
      (connection.drainFrom maxFrameBytes fuel).last = .ok none ∧
      (connection.incoming = [] → (connection.drainFrom maxFrameBytes fuel).decoded = frames ∧
        (connection.drainFrom maxFrameBytes fuel).buf = []) := by
  induction fuel generalizing connection with
  | zero => omega
  | succ fuel ih =>
      obtain ⟨after,⟨isLast,atEnd⟩ | ⟨frame,isFrame,shorter⟩⟩ := inStep.decode fits
      · have stops : connection.drainFrom maxFrameBytes (fuel + 1) =
            connection.decode maxFrameBytes := by
          simp only [Connection.drainFrom,isLast]
        rw [stops]
        exact ⟨after,isLast,atEnd⟩
      · have goesOn : connection.drainFrom maxFrameBytes (fuel + 1) =
            (connection.decode maxFrameBytes).drainFrom maxFrameBytes fuel := by
          simp only [Connection.drainFrom,isFrame]
        rw [goesOn]
        have later := ih after (by omega)
        rwa [incoming_decode] at later

theorem InStep.next (fits : ∀ frame ∈ frames, frame.Fits maxFrameBytes)
    (inStep : InStep frames connection) (action : Action) :
    InStep frames (connection.next maxFrameBytes action) := by
  cases action with
  | append => exact inStep.append
  | decode => exact (inStep.decode fits).1
  | drain => exact (inStep.drainFrom fits (Nat.lt_succ_self _)).1

theorem InStep.run (fits : ∀ frame ∈ frames, frame.Fits maxFrameBytes)
    (inStep : InStep frames connection) (actions : List Action) :
    InStep frames (Machine.run (Connection.next maxFrameBytes) connection actions) := by
  induction actions generalizing connection with
  | nil => exact inStep
  | cons action rest ih => exact ih (inStep.next fits action)

theorem InStep.start {chunks : List (List UInt8)}
    (isSplit : chunks.flatten = frames.flatMap Frame.bytes) :
    InStep frames (Connection.start chunks) :=
  ⟨⟨frames,rfl,isSplit⟩,by intro error isError; cases isError⟩

end Run

/-- Every chunking and every order of appends and calls: no call fails, the frames
come out in order, and when all chunks are in, the calls end with nothing left. -/
theorem framing_survives (maxFrameBytes : UInt32) (frames : List Frame)
    (fits : ∀ frame ∈ frames, frame.Fits maxFrameBytes) (chunks : List (List UInt8))
    (isSplit : chunks.flatten = frames.flatMap Frame.bytes) (actions : List Action) :
    let reached := Machine.run (Connection.next maxFrameBytes) (Connection.start chunks) actions
    (∀ error, reached.last ≠ .error error) ∧ reached.decoded <+: frames ∧
      (reached.drain maxFrameBytes).last = .ok none ∧
      (reached.incoming = [] →
        (reached.drain maxFrameBytes).decoded = frames ∧ (reached.drain maxFrameBytes).buf = []) ∧
      ∀ buf, (∀ frame, (decodeFrame buf maxFrameBytes).1 ≠ .ok (some frame)) →
        (decodeFrame buf maxFrameBytes).2 = buf := by
  intro reached
  have inStep : InStep frames reached := (InStep.start isSplit).run fits actions
  obtain ⟨rest,isAppend,-⟩ := inStep.expected
  obtain ⟨-,isLast,atEnd⟩ := inStep.drainFrom fits (Nat.lt_succ_self _)
  exact ⟨inStep.noError,⟨rest,isAppend.symm⟩,isLast,atEnd,
    fun buf => decodeFrame_unchanged buf maxFrameBytes⟩

/-- A frame without payload and one that is cut within its header. -/
def twoFrames : List Frame := [⟨0,1,[]⟩,⟨16,1,[7,8]⟩]

def twoFramesChunks : List (List UInt8) :=
  [[0,0],[0,3,0,0,1,0,0,0],[5,0],[],[16,1,7,8]]

def twoFramesActions : List Action :=
  [.append,.drain,.decode,.append,.append,.decode,.append,.drain,.append]

theorem twoFrames_survive :
    ((Machine.run (next 2) (start twoFramesChunks) twoFramesActions).drain 2).decoded = twoFrames ∧
      ((Machine.run (next 2) (start twoFramesChunks) twoFramesActions).drain 2).buf = [] :=
  (framing_survives 2 twoFrames (by decide) twoFramesChunks (by decide) twoFramesActions).2.2.2.1
    (by decide)

/-- The length of this payload and of the header is `2 ^ 32 + 2`. -/
theorem decodeFrame_wrapped (op : UInt16) (contentType : UInt8) (isLong : payload.length = u32Max)
    (maxFrameBytes : UInt32) :
    decodeFrame (Frame.bytes ⟨op,contentType,payload⟩) maxFrameBytes =
      (.error (.lengthUnderflow 2),Frame.bytes ⟨op,contentType,payload⟩) := by
  have declared :
      BigEndian.decode ((Frame.bytes ⟨op,contentType,payload⟩).take lenPrefixBytes) = 2 := by
    rw [Frame.bytes_eq,lenPrefixBytes,List.take_left' (BigEndian.length_encode 4 _),isLong]
    decide
  have isWhole : ¬(Frame.bytes ⟨op,contentType,payload⟩).length < lenPrefixBytes := by
    rw [Frame.length_bytes,lenPrefixBytes]
    omega
  unfold decodeFrame
  rw [if_neg isWhole,declared]
  rfl

theorem drain_wrapped (isLong : payload.length = u32Max) :
    (Machine.run (next 0xFFFFFFFF) (start [Frame.bytes ⟨16,1,payload⟩]) [.append,.drain]).last =
      .error (.lengthUnderflow 2) := by
  have call := decodeFrame_wrapped 16 1 isLong 0xFFFFFFFF
  generalize Frame.bytes ⟨16,1,payload⟩ = bytes at call
  simp only [Machine.run_cons,Machine.run_nil,next,append,start,List.nil_append,drain,
    drainFrom,decode,call]

/-- A payload within the largest limit that the length field cannot describe. -/
theorem longestPayload_fails : ∃ payload : List UInt8,
    payload.length ≤ (0xFFFFFFFF : UInt32).toNat ∧
      (Machine.run (next 0xFFFFFFFF) (start [Frame.bytes ⟨16,1,payload⟩])
        [.append,.drain]).last = .error (.lengthUnderflow 2) := by
  have isLong : (List.replicate u32Max (0 : UInt8)).length = u32Max := List.length_replicate
  generalize List.replicate u32Max (0 : UInt8) = payload at isLong
  exact ⟨payload,Nat.le_of_eq isLong,drain_wrapped isLong⟩

end Connection

end Beava.Core
