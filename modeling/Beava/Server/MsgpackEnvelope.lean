/-
MessagePack envelopes of a push.

An envelope is a map with an event name and a body.  Either entry may be first; the
body is not decoded, and what is returned of it are its bytes in the payload.
-/

import Beava.Server.MsgpackNesting

namespace Beava.Server

open Beava.Wal Checked MessagePack

/-! ### The parser -/

section Parser

variable (payload : List UInt8)

/-- A length that must be there. -/
def readStrLength (p width : Nat) : Except MsgpackFailure (Nat × Nat) := do
  need payload p width
  let len ← readLength payload p width
  return (len,p + width)

/-- The length of a text, and where the text is. -/
def strLength (marker : UInt8) (p : Nat) : Except MsgpackFailure (Nat × Nat) :=
  if 0xA0 ≤ marker ∧ marker ≤ 0xBF then .ok ((marker &&& 0x1F).toNat,p)
  else if marker = 0xD9 then readStrLength payload p 1
  else if marker = 0xDA then readStrLength payload p 2
  else if marker = 0xDB then readStrLength payload p 4
  else .error (.error .envelopeShape)

def readMsgpackStr (pos : Nat) : Except MsgpackFailure (List UInt8 × Nat) :=
  if payload.length ≤ pos then .error (.error .truncated)
  else do
    let marker ← readByte payload pos
    let (len,p) ← strLength payload marker (pos + 1)
    need payload p len
    let text ← readSlice payload p (p + len)
    return (text,p + len)

/-- The number of entries that the first byte announces; it must be two. -/
def envelopeMapLen (first : UInt8) : Except MsgpackFailure Nat :=
  if first = 0x82 then .ok 2
  else if first = 0xDE ∧ 3 ≤ payload.length then do
    let len ← readLength payload 1 2
    if len = 2 then return 2 else .error (.error .envelopeShape)
  else if first = 0xDF ∧ 5 ≤ payload.length then do
    let len ← readLength payload 1 4
    if len = 2 then return 2 else .error (.error .envelopeShape)
  else .error (.error .envelopeShape)

def envelopeStart (first : UInt8) : Except MsgpackFailure Nat :=
  if first = 0x82 then .ok 1
  else if first = 0xDE then .ok 3
  else if first = 0xDF then .ok 5
  else .error .unreachable

/-- What is known after some entries. -/
structure MsgpackParts where
  eventName : Option String
  body : Option (List UInt8)

variable (capacity : Nat)

/-- One entry of the envelope, and where the next one is. -/
def envelopeEntry (parts : MsgpackParts) (p : Nat) : Except MsgpackFailure (MsgpackParts × Nat) := do
  let (key,p) ← readMsgpackStr payload p
  if key = eventKey then
    let (event,p) ← readMsgpackStr payload p
    match strFromUtf8 event with
    | none => .error (.error .invalidUtf8)
    | some eventName => return ({ parts with eventName := some eventName },p)
  else if key = bodyKey then
    let next ← skipMsgpackValue payload capacity p
    let body ← readSlice payload p next
    return ({ parts with body := some body },next)
  else .error (.error .unknownKey)

def envelopeEntries : Nat → MsgpackParts → Nat → Except MsgpackFailure MsgpackParts
  | 0, parts, _ => .ok parts
  | count + 1, parts, p => do
      let (parts,p) ← envelopeEntry payload capacity parts p
      envelopeEntries count parts p

def parseMsgpackEnvelope : Except MsgpackFailure (String × List UInt8) :=
  if payload.isEmpty then .error (.error .truncated)
  else do
    let first ← readByte payload 0
    let mapLen ← envelopeMapLen payload first
    if mapLen ≠ 2 then .error (.error .envelopeShape)
    else
      let p ← envelopeStart first
      let parts ← envelopeEntries payload capacity 2 ⟨none,none⟩ p
      match parts.eventName with
      | none => .error (.error (.missingField "event"))
      | some eventName =>
          match parts.body with
          | none => .error (.error (.missingField "body"))
          | some body => return (eventName,body)

/-- `OP_PUSH` with a MessagePack payload. -/
def tcpMsgpackRequest : Except MsgpackFailure WireRequest :=
  match parseMsgpackEnvelope payload capacity with
  | .ok (eventName,body) => .ok (.tcpPush eventName body Core.ctMsgpack)
  | .error (.error error) =>
      .ok (.parseError ("msgpack envelope parse failed: " ++ error.display))
  | .error failure => .error failure

end Parser

section Texts

variable {payload rest : List UInt8} {pos : Nat}

theorem strLength_fixStr : ∀ length < 0x20,
    (0xA0 ≤ UInt8.ofNat (0xA0 + length) ∧ UInt8.ofNat (0xA0 + length) ≤ 0xBF) ∧
      (UInt8.ofNat (0xA0 + length) &&& 0x1F).toNat = length := by decide

theorem strLength_str {exponent : Nat} (isWidth : exponent < 3) (p : Nat) :
    strLength payload (UInt8.ofNat (0xD9 + exponent)) p =
      readStrLength payload p (2 ^ exponent) := by
  obtain rfl | rfl | rfl : exponent = 0 ∨ exponent = 1 ∨ exponent = 2 := by omega
  · rfl
  · rfl
  · rfl

theorem readMsgpackStr_encodes {text encoding : List UInt8} (encodes : Encodes (.str text) encoding)
    (isHere : payload.drop pos = encoding ++ rest) :
    readMsgpackStr payload pos = .ok (text,pos + encoding.length) := by
  have isHeader := encodes.header rfl
  have inside := inside_here isHere isHeader.ne_nil
  cases isHeader with
  | fixStr fits =>
      obtain ⟨isMarker,isLength⟩ := strLength_fixStr _ fits
      obtain ⟨before,read⟩ := readByte_here isHere
      rw [List.length_cons] at inside ⊢
      have textIsThere : pos + 1 + text.length ≤ payload.length := by omega
      have isText : window payload (pos + 1) text.length = text := by
        rw [window_here isHere (by rw [List.length_cons]; omega),window,List.drop_succ_cons,
          List.drop_zero,List.take_length]
      rw [readMsgpackStr,if_neg (Nat.not_le.mpr before),read]
      simp only [bind,Except.bind,strLength,if_pos isMarker,isLength,need_eq textIsThere,
        readSlice_eq textIsThere,isText]
      rw [Nat.add_assoc,Nat.add_comm 1]
      rfl
  | @str exponent _ isWidth fits =>
      rw [numbered,List.cons_append] at isHere inside ⊢
      obtain ⟨before,read⟩ := readByte_here isHere
      obtain ⟨lengthIsThere,readsLength⟩ := readLength_here isHere rfl fits
      rw [List.length_cons,List.length_append,BigEndian.length_encode] at inside
      have textIsThere : pos + 1 + 2 ^ exponent + text.length ≤ payload.length := by omega
      have isText : window payload (pos + 1 + 2 ^ exponent) text.length = text := by
        have inFront : 1 + 2 ^ exponent + text.length ≤
            (UInt8.ofNat (0xD9 + exponent) :: (BigEndian.encode (2 ^ exponent) text.length ++
              text)).length := by
          rw [List.length_cons,List.length_append,BigEndian.length_encode]
          omega
        rw [Nat.add_assoc pos,window_here isHere inFront,window,Nat.add_comm 1,
          List.drop_succ_cons,List.drop_left' (BigEndian.length_encode _ _),List.take_length]
      rw [readMsgpackStr,if_neg (Nat.not_le.mpr before),read]
      simp only [bind,Except.bind,strLength_str isWidth,readStrLength,need_eq lengthIsThere,
        readsLength,pure,Except.pure,need_eq textIsThere,readSlice_eq textIsThere,isText]
      rw [List.length_cons,List.length_append,BigEndian.length_encode]
      congr 2
      omega

/-- Behind the marker of a text there is its length; both make a header with the text. -/
theorem strLength_cases (marker : UInt8) (inside : pos ≤ payload.length) :
    (∃ error, strLength payload marker pos = .error (.error error)) ∨
      ∃ width len, strLength payload marker pos = .ok (len,pos + width) ∧
        pos + width ≤ payload.length ∧ ∀ text : List UInt8, text.length = len →
          Header (.str text) (marker :: (window payload pos width ++ text)) := by
  have sized : ∀ exponent < 3,
      (∃ error, readStrLength payload pos (2 ^ exponent) = .error (.error error)) ∨
        ∃ width len, readStrLength payload pos (2 ^ exponent) = .ok (len,pos + width) ∧
          pos + width ≤ payload.length ∧ ∀ text : List UInt8, text.length = len →
            Header (.str text)
              (UInt8.ofNat (0xD9 + exponent) :: (window payload pos width ++ text)) := by
    intro exponent isWidth
    by_cases isThere : pos + 2 ^ exponent ≤ payload.length
    · obtain ⟨encoded,small⟩ := encode_window isThere
      refine .inr ⟨2 ^ exponent,BigEndian.decode (window payload pos (2 ^ exponent)),?_,isThere,
        ?_⟩
      · rw [readStrLength,need_eq isThere,readLength_eq isThere]
        rfl
      · intro text length
        rw [← length] at encoded small
        rw [← encoded]
        exact .str isWidth small
    · refine .inl ⟨.truncated,?_⟩
      rw [readStrLength,need_truncated (Nat.not_le.mp isThere)]
      rfl
  unfold strLength
  split
  · rename_i isFixStr
    have low := UInt8.le_iff_toNat_le.mp isFixStr.1
    have high := UInt8.le_iff_toNat_le.mp isFixStr.2
    obtain ⟨length,fits,isMarker⟩ := @exists_offset 0xA0 0x20 marker.toNat low
      (Nat.lt_succ_of_le high)
    have same : marker = UInt8.ofNat (0xA0 + length) := by
      rw [← isMarker,UInt8.ofNat_toNat]
    refine .inr ⟨0,length,?_,inside,?_⟩
    · rw [same,(strLength_fixStr length fits).2]
      rfl
    · rintro text rfl
      rw [same]
      exact .fixStr fits
  · split
    · rename_i isStr8
      rw [isStr8]
      exact sized 0 (by decide)
    · split
      · rename_i isStr16
        rw [isStr16]
        exact sized 1 (by decide)
      · split
        · rename_i isStr32
          rw [isStr32]
          exact sized 2 (by decide)
        · exact .inl ⟨.envelopeShape,rfl⟩

theorem readMsgpackStr_cases (payload : List UInt8) (pos : Nat) :
    (∃ error, readMsgpackStr payload pos = .error (.error error)) ∨
      ∃ text encoding, readMsgpackStr payload pos = .ok (text,pos + encoding.length) ∧
        Encodes (.str text) encoding ∧ pos + encoding.length ≤ payload.length ∧
        payload.drop pos = encoding ++ payload.drop (pos + encoding.length) := by
  by_cases inside : pos < payload.length
  · rw [readMsgpackStr,if_neg (Nat.not_le.mpr inside),readByte_eq inside]
    rcases @strLength_cases payload (pos + 1) payload[pos] inside with
      ⟨error,failed⟩ | ⟨width,len,isLength,lengthIsThere,headers⟩
    · refine .inl ⟨error,?_⟩
      simp only [failed,bind,Except.bind]
    · by_cases isThere : pos + 1 + width + len ≤ payload.length
      · have length := length_window isThere
        have header := headers _ length
        rw [window_append] at header
        have size : (payload[pos] :: window payload (pos + 1) (width + len)).length =
            1 + width + len := by
          rw [List.length_cons,length_window (by omega)]
          omega
        have behind : pos + (payload[pos] :: window payload (pos + 1) (width + len)).length =
            pos + 1 + width + len := by
          rw [size]
          omega
        refine .inr ⟨window payload (pos + 1 + width) len,_,?_,
          .value header .none .none,?_,?_⟩
        · rw [List.append_nil,List.append_nil,behind]
          simp only [isLength,need_eq isThere,readSlice_eq isThere,bind,Except.bind]
          rfl
        · rw [List.append_nil,List.append_nil,behind]
          exact isThere
        · have tail := List.take_append_drop (width + len) (payload.drop (pos + 1))
          rw [List.drop_drop,← Nat.add_assoc] at tail
          rw [List.append_nil,List.append_nil,behind,List.cons_append,window,tail]
          exact List.drop_eq_getElem_cons inside
      · refine .inl ⟨.truncated,?_⟩
        simp only [isLength,need_truncated (Nat.not_le.mp isThere),bind,Except.bind]
  · refine .inl ⟨.truncated,?_⟩
    rw [readMsgpackStr,if_pos (Nat.not_lt.mp inside)]

end Texts

/-! ### What the parser returns -/

/-- An entry that the parser passes. -/
inductive EnvelopeEntry : List UInt8 → Prop where
  | event {eventName : String} {key name : List UInt8} (isKey : Encodes (.str eventKey) key)
      (isName : Encodes (.str (strAsBytes eventName)) name) : EnvelopeEntry (key ++ name)
  | body {value : Value} {key bytes : List UInt8} (isKey : Encodes (.str bodyKey) key)
      (isBody : Encodes value bytes) : EnvelopeEntry (key ++ bytes)

/-- The value of a body begins at the position: its key is in the first entry of the map, or in
the second one. -/
inductive BodyAt (payload : List UInt8) : Nat → Prop where
  | first {entries : List (Value × Value)} {header key rest : List UInt8}
      (isHeader : Header (.map entries) header) (two : entries.length = 2)
      (isKey : Encodes (.str bodyKey) key) (isHere : payload = header ++ (key ++ rest)) :
      BodyAt payload (header.length + key.length)
  | second {entries : List (Value × Value)} {header entry key rest : List UInt8}
      (isHeader : Header (.map entries) header) (two : entries.length = 2)
      (isEntry : EnvelopeEntry entry) (isKey : Encodes (.str bodyKey) key)
      (isHere : payload = header ++ (entry ++ (key ++ rest))) :
      BodyAt payload (header.length + entry.length + key.length)

/-- A body of the payload is nested so deep. -/
def BodyOpens (payload : List UInt8) (depth : Nat) : Prop :=
  ∃ pos, BodyAt payload pos ∧ Opens payload pos depth

def MsgpackParts.Inside (payload : List UInt8) (parts : MsgpackParts) : Prop :=
  ∀ body, parts.body = some body → body <:+: payload

theorem differentKeys : bodyKey ≠ eventKey := by decide

section Entries

variable {payload rest : List UInt8} {pos capacity : Nat}

theorem envelopeEntry_event {eventName : String} {key name : List UInt8} (parts : MsgpackParts)
    (isKey : Encodes (.str eventKey) key) (isName : Encodes (.str (strAsBytes eventName)) name)
    (isHere : payload.drop pos = key ++ name ++ rest) :
    envelopeEntry payload capacity parts pos =
      .ok ({ parts with eventName := some eventName },pos + (key ++ name).length) := by
  rw [List.append_assoc] at isHere
  have nameHere : payload.drop (pos + key.length) = name ++ rest := by
    rw [← List.drop_drop,isHere,List.drop_left]
  rw [envelopeEntry,readMsgpackStr_encodes isKey isHere]
  simp only [bind,Except.bind,if_true,readMsgpackStr_encodes isName nameHere,
    strFromUtf8_strAsBytes]
  rw [List.length_append,Nat.add_assoc]
  rfl

theorem envelopeEntry_bodyKey {key : List UInt8} (parts : MsgpackParts)
    (isKey : Encodes (.str bodyKey) key) (isHere : payload.drop pos = key ++ rest) :
    envelopeEntry payload capacity parts pos = do
      let next ← skipMsgpackValue payload capacity (pos + key.length)
      let body ← readSlice payload (pos + key.length) next
      return ({ parts with body := some body },next) := by
  rw [envelopeEntry,readMsgpackStr_encodes isKey isHere]
  simp only [bind,Except.bind,if_neg differentKeys,if_true]

theorem envelopeEntry_body {body : Value} {key bytes : List UInt8} (parts : MsgpackParts)
    (isKey : Encodes (.str bodyKey) key) (isBody : Encodes body bytes)
    (isHere : payload.drop pos = key ++ bytes ++ rest)
    (shallow : ¬ body.Nested (capacity + 1)) :
    envelopeEntry payload capacity parts pos =
      .ok ({ parts with body := some bytes },pos + (key ++ bytes).length) := by
  rw [List.append_assoc] at isHere
  have bodyHere : payload.drop (pos + key.length) = bytes ++ rest := by
    rw [← List.drop_drop,isHere,List.drop_left]
  have passed := skipMsgpackValue_encodes isBody bodyHere shallow
  have isThere : pos + key.length + bytes.length ≤ payload.length := by
    rcases skipMsgpackValue_scans payload capacity (pos + key.length) with
      overflow | ⟨error,failed⟩ | ⟨next,skipped,-,isThere⟩
    · rw [passed] at overflow
      cases overflow
    · rw [passed] at failed
      cases failed
    · rw [passed] at skipped
      cases skipped
      exact isThere
  have isBytes : window payload (pos + key.length) bytes.length = bytes := by
    rw [window,bodyHere,List.take_left]
  rw [envelopeEntry_bodyKey parts isKey isHere]
  simp only [bind,Except.bind,passed,readSlice_eq isThere,isBytes]
  rw [List.length_append,Nat.add_assoc]
  rfl

/-- A body that is nested too deep ends the parser. -/
theorem envelopeEntry_overflows {key : List UInt8} (parts : MsgpackParts)
    (isKey : Encodes (.str bodyKey) key) (isHere : payload.drop pos = key ++ rest)
    (opens : Opens payload (pos + key.length) (capacity + 1)) :
    envelopeEntry payload capacity parts pos = .error .stackOverflow := by
  rw [envelopeEntry_bodyKey parts isKey isHere,stackOverflow_iff.mpr opens]
  rfl

theorem envelopeEntry_cases {parts : MsgpackParts} (partsInside : parts.Inside payload) :
    (∃ error, envelopeEntry payload capacity parts pos = .error (.error error)) ∨
      (envelopeEntry payload capacity parts pos = .error .stackOverflow ∧
        ∃ key rest, Encodes (.str bodyKey) key ∧ payload.drop pos = key ++ rest ∧
          Opens payload (pos + key.length) (capacity + 1)) ∨
      ∃ others entry,
        envelopeEntry payload capacity parts pos = .ok (others,pos + entry.length) ∧
        others.Inside payload ∧ EnvelopeEntry entry ∧
        payload.drop pos = entry ++ payload.drop (pos + entry.length) := by
  rcases readMsgpackStr_cases payload pos with
    ⟨error,failed⟩ | ⟨text,key,isText,isKey,-,keyHere⟩
  · refine .inl ⟨error,?_⟩
    simp only [envelopeEntry,failed,bind,Except.bind]
  · by_cases isEvent : text = eventKey
    · subst isEvent
      rcases readMsgpackStr_cases payload (pos + key.length) with
        ⟨error,failed⟩ | ⟨event,name,isEvent,isName,-,nameHere⟩
      · refine .inl ⟨error,?_⟩
        simp only [envelopeEntry,isText,failed,bind,Except.bind,if_true]
      · cases isUtf8 : strFromUtf8 event with
        | none =>
            refine .inl ⟨.invalidUtf8,?_⟩
            simp only [envelopeEntry,isText,isEvent,isUtf8,bind,Except.bind,if_true]
        | some eventName =>
            rw [← strAsBytes_of_strFromUtf8 isUtf8] at isName
            have isHere : payload.drop pos =
                key ++ name ++ payload.drop (pos + key.length + name.length) := by
              rw [keyHere,nameHere,List.append_assoc]
            refine .inr (.inr ⟨_,key ++ name,envelopeEntry_event parts isKey isName isHere,
              partsInside,.event isKey isName,?_⟩)
            rw [List.length_append,← Nat.add_assoc]
            exact isHere
    · by_cases isBody : text = bodyKey
      · subst isBody
        have entry := @envelopeEntry_bodyKey _ _ _ capacity _ parts isKey keyHere
        rcases skipMsgpackValue_scans payload capacity (pos + key.length) with
          overflow | ⟨error,failed⟩ | ⟨next,skipped,behind,isThere⟩
        · refine .inr (.inl ⟨?_,key,_,isKey,keyHere,stackOverflow_iff.mp overflow⟩)
          rw [entry,overflow]
          rfl
        · refine .inl ⟨error,?_⟩
          rw [entry,failed]
          rfl
        · obtain ⟨value,bytes,isValue,rfl,bodyHere⟩ := skipMsgpackValue_whole skipped
          refine .inr (.inr ⟨{ parts with body := some bytes },key ++ bytes,?_,?_,
            .body isKey isValue,?_⟩)
          · have isBytes : window payload (pos + key.length) bytes.length = bytes := by
              rw [window,bodyHere,List.take_left]
            rw [entry]
            simp only [skipped,readSlice_eq isThere,isBytes,bind,Except.bind]
            rw [List.length_append,Nat.add_assoc]
            rfl
          · rintro body ⟨⟩
            refine List.IsInfix.trans ?_ (List.drop_suffix (pos + key.length) payload).isInfix
            rw [bodyHere]
            exact (List.prefix_append _ _).isInfix
          · rw [List.length_append,← Nat.add_assoc,List.append_assoc,← bodyHere]
            exact keyHere
      · refine .inl ⟨.unknownKey,?_⟩
        simp only [envelopeEntry,isText,isEvent,isBody,bind,Except.bind,if_false]

theorem envelopeMapLen_cases (first : UInt8) (rest : List UInt8) :
    (∃ error, envelopeMapLen (first :: rest) first = .error (.error error)) ∨
      ∃ header, envelopeMapLen (first :: rest) first = .ok 2 ∧
        envelopeStart first = .ok header.length ∧
        (∀ entries : List (Value × Value), entries.length = 2 → Header (.map entries) header) ∧
        first :: rest = header ++ (first :: rest).drop header.length := by
  have read : ∀ {width : Nat}, width ≤ rest.length →
      readLength (first :: rest) 1 width = .ok (BigEndian.decode (rest.take width)) ∧
        BigEndian.encode width (BigEndian.decode (rest.take width)) = rest.take width := by
    intro width isThere
    have inside : 1 + width ≤ (first :: rest).length := by
      rw [List.length_cons]
      omega
    exact ⟨readLength_eq inside,(encode_window inside).1⟩
  unfold envelopeMapLen
  split
  · rename_i isFixMap
    refine .inr ⟨[0x82],rfl,by rw [isFixMap]; rfl,?_,by rw [isFixMap]; rfl⟩
    intro entries two
    have header := @Header.fixMap entries (by omega)
    rwa [two] at header
  · split
    · rename_i isMap16
      obtain ⟨isFirst,long⟩ := isMap16
      obtain ⟨isLength,encoded⟩ := @read 2 (Nat.le_of_succ_le_succ long)
      rw [isLength]
      simp only [bind,Except.bind]
      split
      · rename_i isTwo
        rw [isTwo] at encoded
        refine .inr ⟨0xDE :: rest.take 2,rfl,?_,?_,?_⟩
        · rw [isFirst,← encoded]
          rfl
        · intro entries two
          have header := @Header.map16 entries (by omega)
          rwa [two,encoded] at header
        · have taken : (rest.take 2).length = 2 := List.length_take_of_le (Nat.le_of_succ_le_succ long)
          rw [List.length_cons,taken,isFirst,List.cons_append,List.drop_succ_cons,
            List.take_append_drop]
      · exact .inl ⟨.envelopeShape,rfl⟩
    · split
      · rename_i isMap32
        obtain ⟨isFirst,long⟩ := isMap32
        obtain ⟨isLength,encoded⟩ := @read 4 (Nat.le_of_succ_le_succ long)
        rw [isLength]
        simp only [bind,Except.bind]
        split
        · rename_i isTwo
          rw [isTwo] at encoded
          refine .inr ⟨0xDF :: rest.take 4,rfl,?_,?_,?_⟩
          · rw [isFirst,← encoded]
            rfl
          · intro entries two
            have header := @Header.map32 entries (by omega)
            rwa [two,encoded] at header
          · have taken : (rest.take 4).length = 4 :=
              List.length_take_of_le (Nat.le_of_succ_le_succ long)
            rw [List.length_cons,taken,isFirst,List.cons_append,List.drop_succ_cons,
              List.take_append_drop]
        · exact .inl ⟨.envelopeShape,rfl⟩
      · exact .inl ⟨.envelopeShape,rfl⟩

end Entries

/-! ### Envelopes -/

def envelopeMap (eventName : String) (body : Value) (bodyFirst : Bool) : Value :=
  .map (if bodyFirst then [(.str bodyKey,body),(.str eventKey,.str (strAsBytes eventName))]
    else [(.str eventKey,.str (strAsBytes eventName)),(.str bodyKey,body)])

/-- The map, and an encoding of each part of it. -/
structure MsgpackEnvelope where
  eventName : String
  body : Value
  bodyFirst : Bool
  header : List UInt8
  eventKeyBytes : List UInt8
  eventNameBytes : List UInt8
  bodyKeyBytes : List UInt8
  bodyBytes : List UInt8
  isEventKey : Encodes (.str eventKey) eventKeyBytes
  isEventName : Encodes (.str (strAsBytes eventName)) eventNameBytes
  isBodyKey : Encodes (.str bodyKey) bodyKeyBytes
  isBody : Encodes body bodyBytes
  isHeader : Header (envelopeMap eventName body bodyFirst) header

namespace MsgpackEnvelope

variable (envelope : MsgpackEnvelope)

def value : Value := envelopeMap envelope.eventName envelope.body envelope.bodyFirst

def eventBytes : List UInt8 := envelope.eventKeyBytes ++ envelope.eventNameBytes

def bodyEntryBytes : List UInt8 := envelope.bodyKeyBytes ++ envelope.bodyBytes

def bytes : List UInt8 :=
  envelope.header ++
    if envelope.bodyFirst then envelope.bodyEntryBytes ++ envelope.eventBytes
    else envelope.eventBytes ++ envelope.bodyEntryBytes

theorem encodes : Encodes envelope.value envelope.bytes := by
  obtain ⟨eventName,body,bodyFirst,header,_,_,_,_,isEventKey,isEventName,isBodyKey,
    isBody,isHeader⟩ := envelope
  have isEvent := isEventKey.cons isEventName
  have isBodyEntry := isBodyKey.cons isBody
  cases bodyFirst with
  | true =>
      have held := EncodesAll.value isHeader (isBodyEntry.append isEvent) .none
      rw [List.append_nil] at held
      exact held
  | false =>
      have held := EncodesAll.value isHeader (isEvent.append isBodyEntry) .none
      rw [List.append_nil] at held
      exact held

end MsgpackEnvelope

section Envelopes

variable {payload rest : List UInt8} {pos : Nat}
variable {entries : List (Value × Value)} {capacity : Nat}
variable {header : List UInt8}

theorem envelopeStart_header (isHeader : Header (.map entries) header) (two : entries.length = 2)
    (isHere : payload = header ++ rest) :
    ∃ first others, payload = first :: others ∧ envelopeMapLen payload first = .ok 2 ∧
      envelopeStart first = .ok header.length := by
  cases isHeader with
  | fixMap fits =>
      rw [two] at isHere
      exact ⟨0x82,rest,isHere,rfl,rfl⟩
  | map16 fits =>
      rw [two] at isHere fits
      have isDrop : payload.drop 0 = 0xDE :: BigEndian.encode 2 2 ++ rest := isHere
      obtain ⟨isThere,read⟩ := readLength_here isDrop (List.append_nil _).symm fits
      have long : 3 ≤ payload.length := isThere
      refine ⟨0xDE,_,isHere,?_,?_⟩
      · rw [envelopeMapLen,if_neg (by decide),if_pos ⟨rfl,long⟩]
        rw [Nat.zero_add] at read
        rw [read]
        rfl
      · rw [List.length_cons,BigEndian.length_encode]
        rfl
  | map32 fits =>
      rw [two] at isHere fits
      have isDrop : payload.drop 0 = 0xDF :: BigEndian.encode 4 2 ++ rest := isHere
      obtain ⟨isThere,read⟩ := readLength_here isDrop (List.append_nil _).symm fits
      have long : 5 ≤ payload.length := isThere
      have notMap16 : ¬ ((0xDF : UInt8) = 0xDE ∧ 3 ≤ payload.length) := by
        rintro ⟨same,-⟩
        exact absurd same (by decide)
      refine ⟨0xDF,_,isHere,?_,?_⟩
      · rw [envelopeMapLen,if_neg (by decide),if_neg notMap16,if_pos ⟨rfl,long⟩]
        rw [Nat.zero_add] at read
        rw [read]
        rfl
      · rw [List.length_cons,BigEndian.length_encode]
        rfl

/-- Behind the header of a map with two entries the parser goes on with the entries. -/
theorem parseMsgpackEnvelope_header {capacity : Nat} {entries : List (Value × Value)}
    {header : List UInt8} (isHeader : Header (.map entries) header) (two : entries.length = 2)
    (isHere : payload = header ++ rest) :
    parseMsgpackEnvelope payload capacity = do
      let parts ← envelopeEntries payload capacity 2 ⟨none,none⟩ header.length
      match parts.eventName with
      | none => .error (.error (.missingField "event"))
      | some eventName =>
          match parts.body with
          | none => .error (.error (.missingField "body"))
          | some body => return (eventName,body) := by
  obtain ⟨first,others,isPayload,isTwo,starts⟩ := envelopeStart_header isHeader two isHere
  have isFirst : readByte payload 0 = .ok first := by
    rw [isPayload]
    rfl
  have notEmpty : payload.isEmpty = false := by
    rw [isPayload]
    rfl
  simp only [parseMsgpackEnvelope,notEmpty,if_false,Bool.false_eq_true,isFirst,isTwo,starts,
    bind,Except.bind,ne_eq,not_true_eq_false]

theorem parseMsgpackEnvelope_entries
    (isHeader : Header (.map entries) header) (two : entries.length = 2)
    (isHere : payload = header ++ rest) {eventName : String} {body : List UInt8}
    (read : envelopeEntries payload capacity 2 ⟨none,none⟩ header.length =
      .ok ⟨some eventName,some body⟩) :
    parseMsgpackEnvelope payload capacity = .ok (eventName,body) := by
  rw [parseMsgpackEnvelope_header isHeader two isHere,read]
  rfl

theorem parseMsgpackEnvelope_envelope (envelope : MsgpackEnvelope) (rest : List UInt8)
    (shallow : ¬ envelope.body.Nested (capacity + 1)) :
    parseMsgpackEnvelope (envelope.bytes ++ rest) capacity =
      .ok (envelope.eventName,envelope.bodyBytes) := by
  obtain ⟨eventName,body,bodyFirst,header,eventKeyBytes,eventNameBytes,bodyKeyBytes,
    bodyBytes,isEventKey,isEventName,isBodyKey,isBody,isHeader⟩ := envelope
  dsimp only [MsgpackEnvelope.bytes,MsgpackEnvelope.eventBytes,MsgpackEnvelope.bodyEntryBytes]
  cases bodyFirst with
  | true =>
      rw [envelopeMap,if_pos rfl] at isHeader
      rw [if_pos rfl,List.append_assoc]
      apply parseMsgpackEnvelope_entries isHeader rfl rfl
      have first : (header ++ (bodyKeyBytes ++ bodyBytes ++ (eventKeyBytes ++ eventNameBytes) ++
          rest)).drop header.length =
            bodyKeyBytes ++ bodyBytes ++ (eventKeyBytes ++ eventNameBytes ++ rest) := by
        rw [List.drop_left,List.append_assoc]
      have second : (header ++ (bodyKeyBytes ++ bodyBytes ++ (eventKeyBytes ++ eventNameBytes) ++
          rest)).drop (header.length + (bodyKeyBytes ++ bodyBytes).length) =
            eventKeyBytes ++ eventNameBytes ++ rest := by
        rw [← List.drop_drop,first,List.drop_left]
      rw [envelopeEntries,envelopeEntry_body _ isBodyKey isBody first shallow]
      simp only [bind,Except.bind]
      rw [envelopeEntries,envelopeEntry_event _ isEventKey isEventName second]
      rfl
  | false =>
      rw [envelopeMap,if_neg Bool.false_ne_true] at isHeader
      rw [if_neg Bool.false_ne_true,List.append_assoc]
      apply parseMsgpackEnvelope_entries isHeader rfl rfl
      have first : (header ++ (eventKeyBytes ++ eventNameBytes ++ (bodyKeyBytes ++ bodyBytes) ++
          rest)).drop header.length =
            eventKeyBytes ++ eventNameBytes ++ (bodyKeyBytes ++ bodyBytes ++ rest) := by
        rw [List.drop_left,List.append_assoc]
      have second : (header ++ (eventKeyBytes ++ eventNameBytes ++ (bodyKeyBytes ++ bodyBytes) ++
          rest)).drop (header.length + (eventKeyBytes ++ eventNameBytes).length) =
            bodyKeyBytes ++ bodyBytes ++ rest := by
        rw [← List.drop_drop,first,List.drop_left]
      rw [envelopeEntries,envelopeEntry_event _ isEventKey isEventName first]
      simp only [bind,Except.bind]
      rw [envelopeEntries,envelopeEntry_body _ isBodyKey isBody second shallow]
      rfl

/-- The parser returns an error or the parts of an envelope, or a body is nested too deep. -/
theorem parseMsgpackEnvelope_cases (payload : List UInt8) (capacity : Nat) :
    (∃ error, parseMsgpackEnvelope payload capacity = .error (.error error)) ∨
      (parseMsgpackEnvelope payload capacity = .error .stackOverflow ∧
        BodyOpens payload (capacity + 1)) ∨
      ∃ eventName body, parseMsgpackEnvelope payload capacity = .ok (eventName,body) ∧
        body <:+: payload := by
  cases payload with
  | nil => exact .inl ⟨.truncated,rfl⟩
  | cons first rest =>
      rcases envelopeMapLen_cases first rest with
        ⟨error,failed⟩ | ⟨header,-,-,headers,isHere⟩
      · refine .inl ⟨error,?_⟩
        rw [parseMsgpackEnvelope,List.isEmpty_cons,if_neg Bool.false_ne_true,
          readByte_eq (Nat.succ_pos _),List.getElem_cons_zero]
        simp only [failed,bind,Except.bind]
      · have isHeader := headers [(.nil,.nil),(.nil,.nil)] rfl
        have parsed := @parseMsgpackEnvelope_header _ _ capacity _ _ isHeader rfl isHere
        generalize first :: rest = payload at isHere parsed ⊢
        have noneInside : MsgpackParts.Inside payload ⟨none,none⟩ := by
          rintro body ⟨⟩
        rcases @envelopeEntry_cases payload header.length capacity _ noneInside with
          ⟨error,failed⟩ | ⟨overflow,key,behind,isKey,keyHere,opens⟩ |
            ⟨parts,entry,passed,partsInside,isEntry,entryHere⟩
        · refine .inl ⟨error,?_⟩
          rw [parsed,envelopeEntries,failed]
          rfl
        · refine .inr (.inl ⟨?_,_,.first isHeader rfl isKey (keyHere ▸ isHere),opens⟩)
          rw [parsed,envelopeEntries,overflow]
          rfl
        · rcases @envelopeEntry_cases payload (header.length + entry.length) capacity _
              partsInside with
            ⟨error,failed⟩ | ⟨overflow,key,behind,isKey,keyHere,opens⟩ |
              ⟨last,other,ended,lastInside,-,-⟩
          · refine .inl ⟨error,?_⟩
            rw [parsed,envelopeEntries,passed]
            simp only [bind,Except.bind,envelopeEntries,failed]
          · rw [keyHere] at entryHere
            refine .inr (.inl ⟨?_,_,.second isHeader rfl isEntry isKey (entryHere ▸ isHere),
              opens⟩)
            rw [parsed,envelopeEntries,passed]
            simp only [bind,Except.bind,envelopeEntries,overflow]
          · have result : parseMsgpackEnvelope payload capacity =
                match last.eventName with
                | none => .error (.error (.missingField "event"))
                | some eventName =>
                    match last.body with
                    | none => .error (.error (.missingField "body"))
                    | some body => .ok (eventName,body) := by
              rw [parsed,envelopeEntries,passed]
              simp only [bind,Except.bind,envelopeEntries,ended]
              rfl
            rw [result]
            cases last.eventName with
            | none => exact .inl ⟨.missingField "event",rfl⟩
            | some eventName =>
                cases isBody : last.body with
                | none => exact .inl ⟨.missingField "body",rfl⟩
                | some body => exact .inr (.inr ⟨eventName,body,rfl,lastInside body isBody⟩)

theorem parseMsgpackEnvelope_overflows (opens : BodyOpens payload (capacity + 1)) :
    parseMsgpackEnvelope payload capacity = .error .stackOverflow := by
  obtain ⟨pos,atBody,opens⟩ := opens
  cases atBody with
  | @first entries header key rest isHeader two isKey isHere =>
      have keyHere : payload.drop header.length = key ++ rest := by
        rw [isHere,List.drop_left]
      rw [parseMsgpackEnvelope_header isHeader two isHere,envelopeEntries,
        envelopeEntry_overflows _ isKey keyHere opens]
      rfl
  | @second entries header entry key rest isHeader two isEntry isKey isHere =>
      have entryHere : payload.drop header.length = entry ++ (key ++ rest) := by
        rw [isHere,List.drop_left]
      have keyHere : payload.drop (header.length + entry.length) = key ++ rest := by
        rw [← List.drop_drop,entryHere,List.drop_left]
      rw [parseMsgpackEnvelope_header isHeader two isHere,envelopeEntries]
      have later : ∀ parts, envelopeEntry payload capacity ⟨none,none⟩ header.length =
          .ok (parts,header.length + entry.length) →
          (envelopeEntry payload capacity ⟨none,none⟩ header.length >>= fun passed =>
            envelopeEntries payload capacity 1 passed.1 passed.2) = .error .stackOverflow := by
        intro parts passed
        rw [passed]
        simp only [bind,Except.bind,envelopeEntries,
          envelopeEntry_overflows parts isKey keyHere opens]
      have overflow : (envelopeEntry payload capacity ⟨none,none⟩ header.length >>= fun passed =>
          envelopeEntries payload capacity 1 passed.1 passed.2) = .error .stackOverflow := by
        cases isEntry with
        | event isEventKey isName =>
            exact later _ (envelopeEntry_event _ isEventKey isName entryHere)
        | @body value bodyKeyBytes bytes isBodyKey isBody =>
            by_cases deep : value.Nested (capacity + 1)
            · rw [List.append_assoc] at entryHere
              have bytesHere : payload.drop (header.length + bodyKeyBytes.length) =
                  bytes ++ (key ++ rest) := by
                rw [← List.drop_drop,entryHere,List.drop_left]
              have early := stackOverflow_iff.mp (skipMsgpackValue_overflows isBody bytesHere deep)
              rw [envelopeEntry_overflows _ isBodyKey entryHere early]
              rfl
            · exact later _ (envelopeEntry_body _ isBodyKey isBody entryHere deep)
      rw [overflow]
      rfl

theorem bodyOpens_envelope (envelope : MsgpackEnvelope) (rest : List UInt8) {depth : Nat}
    (nested : envelope.body.Nested (depth + 1)) :
    BodyOpens (envelope.bytes ++ rest) (depth + 1) := by
  obtain ⟨eventName,body,bodyFirst,header,eventKeyBytes,eventNameBytes,bodyKeyBytes,
    bodyBytes,isEventKey,isEventName,isBodyKey,isBody,isHeader⟩ := envelope
  dsimp only [MsgpackEnvelope.bytes,MsgpackEnvelope.eventBytes,MsgpackEnvelope.bodyEntryBytes]
  cases bodyFirst with
  | true =>
      rw [envelopeMap,if_pos rfl] at isHeader
      rw [if_pos rfl]
      have isPayload : header ++ (bodyKeyBytes ++ bodyBytes ++ (eventKeyBytes ++ eventNameBytes)) ++
          rest = header ++ (bodyKeyBytes ++ (bodyBytes ++ (eventKeyBytes ++ eventNameBytes ++
            rest))) := by
        simp only [List.append_assoc]
      have bodyHere : (header ++ (bodyKeyBytes ++ bodyBytes ++ (eventKeyBytes ++ eventNameBytes)) ++
          rest).drop (header.length + bodyKeyBytes.length) =
            bodyBytes ++ (eventKeyBytes ++ eventNameBytes ++ rest) := by
        rw [isPayload,← List.drop_drop,List.drop_left,List.drop_left]
      exact ⟨_,.first isHeader rfl isBodyKey isPayload,
        stackOverflow_iff.mp (skipMsgpackValue_overflows isBody bodyHere nested)⟩
  | false =>
      rw [envelopeMap,if_neg Bool.false_ne_true] at isHeader
      rw [if_neg Bool.false_ne_true]
      have isPayload : header ++ (eventKeyBytes ++ eventNameBytes ++ (bodyKeyBytes ++ bodyBytes)) ++
          rest = header ++ (eventKeyBytes ++ eventNameBytes ++ (bodyKeyBytes ++ (bodyBytes ++
            rest))) := by
        simp only [List.append_assoc]
      have bodyHere : (header ++ (eventKeyBytes ++ eventNameBytes ++ (bodyKeyBytes ++ bodyBytes)) ++
          rest).drop (header.length + (eventKeyBytes ++ eventNameBytes).length +
            bodyKeyBytes.length) = bodyBytes ++ rest := by
        rw [isPayload,← List.drop_drop,← List.drop_drop,List.drop_left,List.drop_left,
          List.drop_left]
      exact ⟨_,.second isHeader rfl (.event isEventKey isEventName) isBodyKey isPayload,
        stackOverflow_iff.mp (skipMsgpackValue_overflows isBody bodyHere nested)⟩

end Envelopes

theorem tcpMsgpackRequest_returns (payload : List UInt8) (capacity : Nat) :
    (∃ request, tcpMsgpackRequest payload capacity = .ok request) ↔
      ¬ BodyOpens payload (capacity + 1) := by
  constructor
  · rintro ⟨request,returned⟩ opens
    rw [tcpMsgpackRequest,parseMsgpackEnvelope_overflows opens] at returned
    cases returned
  · intro shallow
    rw [tcpMsgpackRequest]
    rcases parseMsgpackEnvelope_cases payload capacity with
      ⟨error,failed⟩ | ⟨-,opens⟩ | ⟨eventName,body,parsed,-⟩
    · rw [failed]
      exact ⟨_,rfl⟩
    · exact absurd opens shallow
    · rw [parsed]
      exact ⟨_,rfl⟩

/-- What the stack has room for decides: an encoding is skipped exactly when its value is not
nested deeper; on any payload the scanner fails or moves on inside it exactly when the payload
does not open more values, one in another; an envelope is read to its event name and the bytes of
its body, and the parser returns on a payload at all, under the same condition on the bodies. -/
theorem msgpack_scanned_iff (capacity : Nat) :
    (∀ (value : Value) (encoding : List UInt8), Encodes value encoding →
      ∀ before rest : List UInt8,
        (skipMsgpackValue (before ++ (encoding ++ rest)) capacity before.length =
          .ok (before.length + encoding.length) ↔ ¬ value.Nested (capacity + 1))) ∧
    (∀ (payload : List UInt8) (pos : Nat),
      ((∃ error, skipMsgpackValue payload capacity pos = .error (.error error)) ∨
        ∃ next, skipMsgpackValue payload capacity pos = .ok next ∧ pos < next ∧
          next ≤ payload.length) ↔ ¬ Opens payload pos (capacity + 1)) ∧
    (∀ (envelope : MsgpackEnvelope) (rest : List UInt8),
      parseMsgpackEnvelope (envelope.bytes ++ rest) capacity =
        .ok (envelope.eventName,envelope.bodyBytes) ↔ ¬ envelope.body.Nested (capacity + 1)) ∧
    ∀ payload : List UInt8,
      ((∃ error, parseMsgpackEnvelope payload capacity = .error (.error error)) ∨
        ∃ eventName body, parseMsgpackEnvelope payload capacity = .ok (eventName,body) ∧
          body <:+: payload) ↔ ¬ BodyOpens payload (capacity + 1) := by
  refine ⟨?_,?_,?_,?_⟩
  · intro value encoding encodes before rest
    have isHere : (before ++ (encoding ++ rest)).drop before.length = encoding ++ rest :=
      List.drop_left
    refine ⟨?_,skipMsgpackValue_encodes encodes isHere⟩
    intro skipped deep
    rw [skipMsgpackValue_overflows encodes isHere deep] at skipped
    cases skipped
  · intro payload pos
    rw [← stackOverflow_iff]
    constructor
    · rintro (⟨error,failed⟩ | ⟨next,skipped,-⟩) overflow
      · rw [failed] at overflow
        cases overflow
      · rw [skipped] at overflow
        cases overflow
    · exact fun shallow => (skipMsgpackValue_scans payload capacity pos).resolve_left shallow
  · intro envelope rest
    refine ⟨?_,parseMsgpackEnvelope_envelope envelope rest⟩
    intro parsed deep
    rw [parseMsgpackEnvelope_overflows (bodyOpens_envelope envelope rest deep)] at parsed
    cases parsed
  · intro payload
    constructor
    · rintro (⟨error,failed⟩ | ⟨eventName,body,parsed,-⟩) opens
      · rw [parseMsgpackEnvelope_overflows opens] at failed
        cases failed
      · rw [parseMsgpackEnvelope_overflows opens] at parsed
        cases parsed
    · intro shallow
      rcases parseMsgpackEnvelope_cases payload capacity with failed | ⟨-,opens⟩ | parsed
      · exact .inl failed
      · exact absurd opens shallow
      · exact .inr parsed

/-- `{body: [nil, {"a": 1}], event: "E"}` with a map of sixteen bits. -/
theorem msgpack_scanned_sample :
    parseMsgpackEnvelope
      ([0xDE,0x00,0x02,0xA4,0x62,0x6F,0x64,0x79,0x92,0xC0,0x81,0xA1,0x61,0x01,
        0xD9,0x05,0x65,0x76,0x65,0x6E,0x74,0xA1,0x45] ++ [0xC1]) 3 =
      .ok ("E",[0x92,0xC0,0x81,0xA1,0x61,0x01]) := by
  have key : EncodesAll [.str [0x61]] [0xA1,0x61] := .value (.fixStr (by decide)) .none .none
  have one : EncodesAll [.int (1 : Nat)] [0x01] := .value (.fixPos (by decide)) .none .none
  have nil : EncodesAll [.nil] [0xC0] := .value .nil .none .none
  have map : EncodesAll [.map [(.str [0x61],.int (1 : Nat))]] [0x81,0xA1,0x61,0x01] :=
    @EncodesAll.value (.map [(.str [0x61],.int (1 : Nat))]) [0x81] [0xA1,0x61,0x01] [] []
      (.fixMap (by decide)) (key.append one) .none
  have body : Encodes (.array [.nil,.map [(.str [0x61],.int (1 : Nat))]])
      [0x92,0xC0,0x81,0xA1,0x61,0x01] :=
    @EncodesAll.value (.array [.nil,.map [(.str [0x61],.int (1 : Nat))]]) [0x92]
      [0xC0,0x81,0xA1,0x61,0x01] [] [] (.fixArray (by decide)) (nil.append map) .none
  have isEventKey : Encodes (.str eventKey) [0xD9,0x05,0x65,0x76,0x65,0x6E,0x74] :=
    .value (@Header.str 0 eventKey (by decide) (by decide)) .none .none
  have isEventName : Encodes (.str (strAsBytes "E")) [0xA1,0x45] :=
    .value (.fixStr (by decide)) .none .none
  have isBodyKey : Encodes (.str bodyKey) [0xA4,0x62,0x6F,0x64,0x79] :=
    .value (.fixStr (by decide)) .none .none
  have isHeader : Header
      (envelopeMap "E" (.array [.nil,.map [(.str [0x61],.int (1 : Nat))]]) true)
      [0xDE,0x00,0x02] := @Header.map16 [(_,_),(_,_)] (by decide)
  have shallow : ¬ (Value.array [.nil,.map [(.str [0x61],.int (1 : Nat))]]).Nested 4 := by
    simp [Value.nested_succ_iff,Value.held]
  exact ((msgpack_scanned_iff 3).2.2.1
    ⟨"E",_,true,_,_,_,_,_,isEventKey,isEventName,isBodyKey,body,isHeader⟩ [0xC1]).mpr
    shallow

/-- An array in an array, and so on, around `nil`. -/
def nestedArrays : Nat → Value
  | 0 => .nil
  | depth + 1 => .array [nestedArrays depth]

theorem encodes_nestedArrays (depth : Nat) :
    Encodes (nestedArrays depth) (List.replicate depth 0x91 ++ [0xC0]) := by
  induction depth with
  | zero => exact .value .nil .none .none
  | succ depth ih =>
      have encodes := @EncodesAll.value (nestedArrays (depth + 1)) [0x91] _ [] []
        (@Header.fixArray [nestedArrays depth] (Nat.lt_of_lt_of_le Nat.one_lt_two (by decide))) ih
        .none
      rwa [List.append_nil] at encodes

theorem nested_nestedArrays (depth : Nat) : (nestedArrays depth).Nested (depth + 1) := by
  induction depth with
  | zero => exact .value .nil
  | succ depth ih => exact .held (List.mem_singleton.mpr rfl) ih

/-- A call takes sixteen bytes of the stack at the least, so two mebibytes hold 131072 calls; a
frame with that many arrays, each in the one before, is far below the limit of a frame. -/
theorem msgpack_overflows :
    ∃ (value : Value) (encoding : List UInt8), Encodes value encoding ∧
      encoding.length = 131073 ∧
      skipMsgpackValue encoding 131072 0 = .error .stackOverflow := by
  refine ⟨nestedArrays 131072,_,encodes_nestedArrays 131072,?_,?_⟩
  · rw [List.length_append,List.length_replicate,List.length_singleton]
  · have isHere : (List.replicate 131072 (0x91 : UInt8) ++ [0xC0]).drop 0 =
        List.replicate 131072 0x91 ++ [0xC0] ++ [] := (List.append_nil _).symm
    exact skipMsgpackValue_overflows (encodes_nestedArrays 131072) isHere
      (nested_nestedArrays 131072)

end Beava.Server
