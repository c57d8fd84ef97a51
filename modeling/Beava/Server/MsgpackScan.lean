/-
The scanner of MessagePack payloads.

A marker says what follows it.  The scanner walks over it and over the values that
a container holds, and says where it is then.  It calls itself for each of these
values; the stack of its thread has room for so many calls.  Payloads are shorter than
2^63 bytes and lengths are below 2^32, so a sum of them does not overflow; what is read
is checked here.
-/

import Beava.Lib.Checked
import Beava.Lib.MessagePack
import Beava.Server.Transports

namespace Beava.Server

open Beava.Wal Checked

inductive MsgpackEnvelopeError where
  | truncated
  | envelopeShape
  | missingField (name : String)
  | invalidUtf8
  | unknownKey
  | decodeError
  deriving DecidableEq

def MsgpackEnvelopeError.display : MsgpackEnvelopeError → String
  | .truncated => "truncated msgpack envelope"
  | .envelopeShape => "msgpack envelope must be a 2-entry map"
  | .missingField name => "missing field: " ++ name
  | .invalidUtf8 => "invalid utf-8 in msgpack envelope"
  | .unknownKey => "unrecognised key in msgpack envelope (expected event/body)"
  | .decodeError => "msgpack decode error"

/-- Why there is no result: the scanner panics, its thread has no stack left, or it says what is
wrong. -/
inductive MsgpackFailure where
  | fault (fault : Fault)
  | unreachable
  | stackOverflow
  | error (error : MsgpackEnvelopeError)
  deriving DecidableEq

/-- What follows a marker. -/
inductive Follow where
  | bytes (count : Nat)
  | sized (width others : Nat)
  | items (count : Nat)
  | sizedItems (width : Nat)
  | entries (count : Nat)
  | sizedEntries (width : Nat)
  | reserved
  deriving DecidableEq

/-- One arm of the match on the marker for each line. -/
def follow (marker : UInt8) : Follow :=
  if marker ≤ 0x7F then .bytes 0
  else if marker ≤ 0x8F then .entries (marker &&& 0x0F).toNat
  else if marker ≤ 0x9F then .items (marker &&& 0x0F).toNat
  else if marker ≤ 0xBF then .bytes (marker &&& 0x1F).toNat
  else if marker = 0xC0 then .bytes 0
  else if marker = 0xC1 then .reserved
  else if marker = 0xC2 ∨ marker = 0xC3 then .bytes 0
  else if marker = 0xC4 then .sized 1 0
  else if marker = 0xC5 then .sized 2 0
  else if marker = 0xC6 then .sized 4 0
  else if marker = 0xC7 then .sized 1 1
  else if marker = 0xC8 then .sized 2 1
  else if marker = 0xC9 then .sized 4 1
  else if marker = 0xCA then .bytes 4
  else if marker = 0xCB then .bytes 8
  else if marker = 0xCC then .bytes 1
  else if marker = 0xCD then .bytes 2
  else if marker = 0xCE then .bytes 4
  else if marker = 0xCF then .bytes 8
  else if marker = 0xD0 then .bytes 1
  else if marker = 0xD1 then .bytes 2
  else if marker = 0xD2 then .bytes 4
  else if marker = 0xD3 then .bytes 8
  else if marker = 0xD4 then .bytes 2
  else if marker = 0xD5 then .bytes 3
  else if marker = 0xD6 then .bytes 5
  else if marker = 0xD7 then .bytes 9
  else if marker = 0xD8 then .bytes 17
  else if marker = 0xD9 then .sized 1 0
  else if marker = 0xDA then .sized 2 0
  else if marker = 0xDB then .sized 4 0
  else if marker = 0xDC then .sizedItems 2
  else if marker = 0xDD then .sizedItems 4
  else if marker = 0xDE then .sizedEntries 2
  else if marker = 0xDF then .sizedEntries 4
  else .bytes 0

section Loops

variable {ε : Type} (skip : Nat → Except ε Nat)

/-- The loop over the items of an array. -/
def skipItems : Nat → Nat → Except ε Nat
  | 0, p => .ok p
  | len + 1, p => do
      let p ← skip p
      skipItems len p

/-- The loop over the entries of a map. -/
def skipEntries : Nat → Nat → Except ε Nat
  | 0, p => .ok p
  | len + 1, p => do
      let p ← skip p
      let p ← skip p
      skipEntries len p

end Loops

section Skip

variable (payload : List UInt8)

/-- `need!`. -/
def need (p count : Nat) : Except MsgpackFailure Unit :=
  if payload.length < p + count then .error (.error .truncated) else .ok ()

def readByte (p : Nat) : Except MsgpackFailure UInt8 := (byteAt payload p).mapError .fault

def readSlice (start stop : Nat) : Except MsgpackFailure (List UInt8) :=
  (slice payload start stop).mapError .fault

/-- `from_be_bytes` of bytes of the payload. -/
def readLength (p width : Nat) : Except MsgpackFailure Nat := do
  let bytes ← readSlice payload p (p + width)
  return BigEndian.decode bytes

/-- What is behind a marker. -/
def skipFollow (skip : Nat → Except MsgpackFailure Nat) (p : Nat) :
    Follow → Except MsgpackFailure Nat
  | .bytes count => do
      need payload p count
      return p + count
  | .sized width others => do
      need payload p (width + others)
      let len ← readLength payload p width
      let p := p + (width + others)
      need payload p len
      return p + len
  | .items count => skipItems skip count p
  | .sizedItems width => do
      need payload p width
      let len ← readLength payload p width
      skipItems skip len (p + width)
  | .entries count => skipEntries skip count p
  | .sizedEntries width => do
      need payload p width
      let len ← readLength payload p width
      skipEntries skip len (p + width)
  | .reserved => .error (.error .decodeError)

/-- `capacity` is how many nested calls the stack has room for. -/
def skipMsgpackValue : (capacity : Nat) → Nat → Except MsgpackFailure Nat
  | 0, _ => .error .stackOverflow
  | capacity + 1, pos =>
      if payload.length ≤ pos then .error (.error .truncated)
      else do
        let marker ← readByte payload pos
        skipFollow payload (skipMsgpackValue capacity) (pos + 1) (follow marker)

end Skip

section Calls

variable {payload : List UInt8} {p width count : Nat}

theorem skipEntries_eq {ε : Type} (skip : Nat → Except ε Nat) (count p : Nat) :
    skipEntries skip count p = skipItems skip (2 * count) p := by
  induction count generalizing p with
  | zero => rfl
  | succ count ih =>
      have twice : 2 * (count + 1) = 2 * count + 1 + 1 := by omega
      rw [twice,skipEntries,skipItems]
      cases skip p with
      | error failure => rfl
      | ok between =>
          simp only [bind,Except.bind,skipItems]
          cases skip between with
          | error failure => rfl
          | ok next => exact ih next

theorem need_eq (inside : p + count ≤ payload.length) : need payload p count = .ok () :=
  if_neg (Nat.not_lt.mpr inside)

theorem need_truncated (outside : payload.length < p + count) :
    need payload p count = .error (.error .truncated) :=
  if_pos outside

theorem readByte_eq (inside : p < payload.length) : readByte payload p = .ok payload[p] := by
  rw [readByte,byteAt_eq_ok inside]
  rfl

theorem readSlice_eq (inside : p + width ≤ payload.length) :
    readSlice payload p (p + width) = .ok (window payload p width) := by
  rw [readSlice,slice_eq_ok inside]
  rfl

theorem readLength_eq (inside : p + width ≤ payload.length) :
    readLength payload p width = .ok (BigEndian.decode (window payload p width)) := by
  rw [readLength,readSlice_eq inside]
  rfl

theorem skipMsgpackValue_marker {pos capacity : Nat} (inside : pos < payload.length) :
    skipMsgpackValue payload (capacity + 1) pos =
      skipFollow payload (skipMsgpackValue payload capacity) (pos + 1) (follow payload[pos]) := by
  rw [skipMsgpackValue,if_neg (Nat.not_le.mpr inside),readByte_eq inside]
  rfl

end Calls

/-! ### Encodings -/

section Encodings

open MessagePack

variable {payload rest : List UInt8} {pos : Nat}
variable {value : Value} {encoding : List UInt8} {capacity : Nat}
variable {front : List UInt8} {values : List Value}

theorem window_here {offset width : Nat} (isHere : payload.drop pos = front ++ rest)
    (inFront : offset + width ≤ front.length) :
    window payload (pos + offset) width = window front offset width := by
  rw [← window_drop,isHere,window,window,List.drop_append_of_le_length (by omega),
    List.take_append_of_le_length]
  rw [List.length_drop]
  omega

theorem inside_here (isHere : payload.drop pos = front ++ rest) (some : front ≠ []) :
    pos + front.length ≤ payload.length := by
  have length := congrArg List.length isHere
  have positive := List.length_pos_iff.mpr some
  rw [List.length_drop,List.length_append] at length
  omega

section Marker

variable {marker : UInt8} {tail : List UInt8} {capacity : Nat}
  (isHere : payload.drop pos = marker :: tail ++ rest)
variable {count : Nat}

include isHere

theorem readByte_here : pos < payload.length ∧ readByte payload pos = .ok marker := by
  have inside := inside_here isHere (List.cons_ne_nil _ _)
  have before : pos < payload.length := by
    rw [List.length_cons] at inside
    omega
  rw [List.drop_eq_getElem_cons before] at isHere
  rw [readByte_eq before,(List.cons.inj isHere).1]
  exact ⟨before,rfl⟩

theorem skipMsgpackValue_here :
    skipMsgpackValue payload (capacity + 1) pos =
      skipFollow payload (skipMsgpackValue payload capacity) (pos + 1) (follow marker) := by
  obtain ⟨before,read⟩ := readByte_here isHere
  rw [skipMsgpackValue,if_neg (Nat.not_le.mpr before),read]
  rfl

theorem tail_inside : pos + 1 + tail.length ≤ payload.length := by
  have inside := inside_here isHere (List.cons_ne_nil _ _)
  rw [List.length_cons] at inside
  omega

theorem readLength_here {width value : Nat} {data : List UInt8}
    (isTail : tail = BigEndian.encode width value ++ data) (fits : value < 256 ^ width) :
    pos + 1 + width ≤ payload.length ∧ readLength payload (pos + 1) width = .ok value := by
  have inside := tail_inside isHere
  rw [isTail,List.length_append,BigEndian.length_encode] at inside
  have read := @readLength_eq payload (pos + 1) width (by omega)
  have front : window (marker :: tail) 1 width = BigEndian.encode width value := by
    rw [isTail,window,List.drop_succ_cons,List.drop_zero,List.take_left']
    exact BigEndian.length_encode width value
  have inFront : 1 + width ≤ (marker :: tail).length := by
    rw [isTail,List.length_cons,List.length_append,BigEndian.length_encode]
    omega
  rw [window_here isHere inFront,front,BigEndian.decode_encode_of_lt fits] at read
  exact ⟨by omega,read⟩

theorem skip_bytes (isFollow : follow marker = .bytes tail.length) :
    skipMsgpackValue payload (capacity + 1) pos = .ok (pos + (marker :: tail).length) := by
  rw [skipMsgpackValue_here isHere,isFollow]
  simp only [skipFollow,need_eq (tail_inside isHere),bind,Except.bind]
  rw [List.length_cons,Nat.add_assoc,Nat.add_comm 1]
  rfl

theorem skip_sized {width others : Nat} {kind data : List UInt8}
    (isFollow : follow marker = .sized width others) (isOthers : kind.length = others)
    (isTail : tail = BigEndian.encode width data.length ++ (kind ++ data))
    (fits : data.length < 256 ^ width) :
    skipMsgpackValue payload (capacity + 1) pos = .ok (pos + (marker :: tail).length) := by
  have inside := tail_inside isHere
  obtain ⟨-,read⟩ := readLength_here isHere isTail fits
  have length : tail.length = width + (others + data.length) := by
    rw [isTail,List.length_append,BigEndian.length_encode,List.length_append,isOthers]
  have sizeIsThere : pos + 1 + (width + others) ≤ payload.length := by omega
  have isThere : pos + 1 + (width + others) + data.length ≤ payload.length := by omega
  rw [skipMsgpackValue_here isHere,isFollow]
  simp only [skipFollow,need_eq sizeIsThere,read,need_eq isThere,bind,Except.bind]
  rw [List.length_cons,length]
  congr 1
  omega

theorem skip_items (isFollow : follow marker = .items count) (none : tail = []) :
    skipMsgpackValue payload (capacity + 1) pos =
      skipItems (skipMsgpackValue payload capacity) count (pos + (marker :: tail).length) := by
  rw [skipMsgpackValue_here isHere,isFollow,none]
  rfl

theorem skip_sizedItems {width : Nat} (isFollow : follow marker = .sizedItems width)
    (isTail : tail = BigEndian.encode width count) (fits : count < 256 ^ width) :
    skipMsgpackValue payload (capacity + 1) pos =
      skipItems (skipMsgpackValue payload capacity) count (pos + (marker :: tail).length) := by
  obtain ⟨isThere,read⟩ :=
    readLength_here isHere (isTail.trans (List.append_nil _).symm) fits
  rw [skipMsgpackValue_here isHere,isFollow,List.length_cons,isTail,BigEndian.length_encode]
  simp only [skipFollow,need_eq isThere,read,bind,Except.bind]
  rw [Nat.add_assoc,Nat.add_comm 1]

theorem skip_entries (isFollow : follow marker = .entries count) (none : tail = []) :
    skipMsgpackValue payload (capacity + 1) pos =
      skipItems (skipMsgpackValue payload capacity) (2 * count) (pos + (marker :: tail).length) := by
  rw [skipMsgpackValue_here isHere,isFollow,none]
  exact skipEntries_eq _ _ _

theorem skip_sizedEntries {width : Nat} (isFollow : follow marker = .sizedEntries width)
    (isTail : tail = BigEndian.encode width count) (fits : count < 256 ^ width) :
    skipMsgpackValue payload (capacity + 1) pos =
      skipItems (skipMsgpackValue payload capacity) (2 * count) (pos + (marker :: tail).length) := by
  obtain ⟨isThere,read⟩ :=
    readLength_here isHere (isTail.trans (List.append_nil _).symm) fits
  rw [skipMsgpackValue_here isHere,isFollow,List.length_cons,isTail,BigEndian.length_encode]
  simp only [skipFollow,need_eq isThere,read,skipEntries_eq,bind,Except.bind]
  rw [Nat.add_assoc,Nat.add_comm 1]

end Marker

/-! What the match says about the markers of a family. -/

theorem follow_fixPos : ∀ value < 0x80, follow (UInt8.ofNat value) = .bytes 0 := by decide

theorem follow_fixNeg : ∀ value < 0x20, follow (UInt8.ofNat (0xE0 + value)) = .bytes 0 := by decide

theorem follow_uint :
    ∀ exponent < 4, follow (UInt8.ofNat (0xCC + exponent)) = .bytes (2 ^ exponent) := by decide

theorem follow_int :
    ∀ exponent < 4, follow (UInt8.ofNat (0xD0 + exponent)) = .bytes (2 ^ exponent) := by decide

theorem follow_fixStr :
    ∀ length < 0x20, follow (UInt8.ofNat (0xA0 + length)) = .bytes length := by decide

theorem follow_str :
    ∀ exponent < 3, follow (UInt8.ofNat (0xD9 + exponent)) = .sized (2 ^ exponent) 0 := by decide

theorem follow_bin :
    ∀ exponent < 3, follow (UInt8.ofNat (0xC4 + exponent)) = .sized (2 ^ exponent) 0 := by decide

theorem follow_fixExt :
    ∀ exponent < 5, follow (UInt8.ofNat (0xD4 + exponent)) = .bytes (2 ^ exponent + 1) := by decide

theorem follow_ext :
    ∀ exponent < 3, follow (UInt8.ofNat (0xC7 + exponent)) = .sized (2 ^ exponent) 1 := by decide

theorem follow_fixArray :
    ∀ count < 0x10, follow (UInt8.ofNat (0x90 + count)) = .items count := by decide

theorem follow_fixMap :
    ∀ count < 0x10, follow (UInt8.ofNat (0x80 + count)) = .entries count := by decide

theorem skip_header {header : List UInt8} (isHeader : Header value header)
    (isHere : payload.drop pos = header ++ rest) (capacity : Nat) :
    skipMsgpackValue payload (capacity + 1) pos =
      skipItems (skipMsgpackValue payload capacity) value.held.length (pos + header.length) := by
  cases isHeader with
  | nil | false | true => exact skip_bytes isHere (by decide)
  | fixPos fits => exact skip_bytes isHere (follow_fixPos _ fits)
  | fixNeg fits => exact skip_bytes isHere (follow_fixNeg _ fits)
  | uint isWidth fits =>
      apply skip_bytes isHere
      rw [BigEndian.length_encode]
      exact follow_uint _ isWidth
  | int isWidth fits =>
      apply skip_bytes isHere
      rw [BigEndian.length_encode]
      exact follow_int _ isWidth
  | float32 | float64 =>
      apply skip_bytes isHere
      rw [BigEndian.length_encode]
      decide
  | fixStr fits => exact skip_bytes isHere (follow_fixStr _ fits)
  | str isWidth fits =>
      rw [numbered,List.cons_append] at isHere ⊢
      exact skip_sized isHere (follow_str _ isWidth) List.length_nil rfl fits
  | bin isWidth fits =>
      rw [numbered,List.cons_append] at isHere ⊢
      exact skip_sized isHere (follow_bin _ isWidth) List.length_nil rfl fits
  | @fixExt exponent kind data isWidth isLength =>
      apply skip_bytes isHere
      rw [List.length_cons,isLength]
      exact follow_fixExt _ isWidth
  | @ext exponent kind data isWidth fits =>
      rw [numbered,List.cons_append] at isHere ⊢
      exact skip_sized isHere (follow_ext _ isWidth) (List.length_singleton (a := kind)) rfl fits
  | fixArray fits => exact skip_items isHere (follow_fixArray _ fits) rfl
  | array16 fits | array32 fits => exact skip_sizedItems isHere (by decide) rfl fits
  | fixMap fits =>
      rw [length_held_map]
      exact skip_entries isHere (follow_fixMap _ fits) rfl
  | map16 fits | map32 fits =>
      rw [length_held_map]
      exact skip_sizedEntries isHere (by decide) rfl fits

theorem skipItems_cons {skip : Nat → Except MsgpackFailure Nat} {next : Nat}
    (skipped : skip pos = .ok next) (count : Nat) :
    skipItems skip (count + 1) pos = skipItems skip count next := by
  rw [skipItems,skipped]
  rfl

/-- Encodings that follow each other are passed one by one, if the stack has room for what is in
them; a value's own encoding is passed by passing its header and then what it holds. -/
theorem skipItems_encodes (encodes : EncodesAll values encoding)
    (isHere : payload.drop pos = encoding ++ rest)
    (shallow : ∀ value ∈ values, ¬ value.Nested (capacity + 1)) :
    skipItems (skipMsgpackValue payload capacity) values.length pos =
      .ok (pos + encoding.length) := by
  induction encodes generalizing capacity pos rest with
  | none => rfl
  | @value value header inside behind others isHeader holds follow insideIh behindIh =>
      have headerHere : payload.drop pos = header ++ (inside ++ (behind ++ rest)) := by
        rw [isHere,List.append_assoc,List.append_assoc]
      have insideHere : payload.drop (pos + header.length) = inside ++ (behind ++ rest) := by
        rw [← List.drop_drop,headerHere,List.drop_left]
      have behindHere : payload.drop (pos + header.length + inside.length) = behind ++ rest := by
        rw [← List.drop_drop,insideHere,List.drop_left]
      have first := shallow value List.mem_cons_self
      cases capacity with
      | zero => exact absurd (.value value) first
      | succ capacity =>
          have passed := skip_header isHeader headerHere capacity
          rw [insideIh insideHere fun inner isHeld nested => first (.held isHeld nested)] at passed
          have left := behindIh behindHere fun other member =>
            shallow other (List.mem_cons_of_mem _ member)
          rw [List.length_cons,skipItems_cons passed,left,List.length_append,
            List.length_append,← Nat.add_assoc,← Nat.add_assoc]

theorem skipMsgpackValue_encodes (encodes : Encodes value encoding)
    (isHere : payload.drop pos = encoding ++ rest) (shallow : ¬ value.Nested (capacity + 1)) :
    skipMsgpackValue payload capacity pos = .ok (pos + encoding.length) := by
  have passed := skipItems_encodes encodes isHere (List.forall_mem_singleton.mpr shallow)
  rw [List.length_singleton,skipItems] at passed
  cases skipped : skipMsgpackValue payload capacity pos with
  | error failure =>
      rw [skipped] at passed
      cases passed
  | ok next =>
      rw [skipped] at passed
      exact passed

theorem skipItems_overflows (encodes : EncodesAll values encoding)
    (isHere : payload.drop pos = encoding ++ rest)
    (deep : ∃ value ∈ values, value.Nested (capacity + 1)) :
    skipItems (skipMsgpackValue payload capacity) values.length pos = .error .stackOverflow := by
  induction encodes generalizing capacity pos rest with
  | none =>
      obtain ⟨value,member,-⟩ := deep
      cases member
  | @value value header inside behind others isHeader holds follow insideIh behindIh =>
      have headerHere : payload.drop pos = header ++ (inside ++ (behind ++ rest)) := by
        rw [isHere,List.append_assoc,List.append_assoc]
      have insideHere : payload.drop (pos + header.length) = inside ++ (behind ++ rest) := by
        rw [← List.drop_drop,headerHere,List.drop_left]
      have behindHere : payload.drop (pos + (header ++ inside).length) = behind ++ rest := by
        rw [List.length_append,← Nat.add_assoc,← List.drop_drop,insideHere,List.drop_left]
      by_cases first : value.Nested (capacity + 1)
      · have overflow : skipMsgpackValue payload capacity pos = .error .stackOverflow := by
          cases capacity with
          | zero => rfl
          | succ capacity =>
              rw [skip_header isHeader headerHere capacity]
              exact insideIh insideHere (Value.nested_succ_iff.mp first)
        rw [List.length_cons,skipItems,overflow]
        rfl
      · have whole : Encodes value (header ++ inside) := by
          have held := EncodesAll.value isHeader holds .none
          rwa [List.append_nil] at held
        have isWhole : payload.drop pos = header ++ inside ++ (behind ++ rest) := by
          rw [headerHere,List.append_assoc]
        have passed := skipMsgpackValue_encodes whole isWhole first
        rw [List.length_cons,skipItems_cons passed]
        apply behindIh behindHere
        obtain ⟨other,member,nested⟩ := deep
        rcases List.mem_cons.mp member with rfl | inOthers
        · exact absurd nested first
        · exact ⟨other,inOthers,nested⟩

theorem skipMsgpackValue_overflows (encodes : Encodes value encoding)
    (isHere : payload.drop pos = encoding ++ rest) (deep : value.Nested (capacity + 1)) :
    skipMsgpackValue payload capacity pos = .error .stackOverflow := by
  have overflow := skipItems_overflows encodes isHere ⟨value,List.mem_cons_self,deep⟩
  rw [List.length_singleton,skipItems] at overflow
  cases skipped : skipMsgpackValue payload capacity pos with
  | error failure =>
      rw [skipped] at overflow
      exact overflow
  | ok next =>
      rw [skipped] at overflow
      cases overflow

end Encodings

end Beava.Server
