/-
The record layout of the hand-rolled event log.

A record starts with a version byte.  Version 3 then carries its assigned LSN;
version 2 carries none and is numbered by the position after its last byte.
Both continue with the body format, the registry version, the arrival time and
the length-prefixed event name and body.  There is no checksum and no length
of the whole record, so a reader advances by its own arithmetic alone.

`decodeWalHead` states this layout once, over the bytes that remain.  The two
parsers of the program are compared with it in `Beava.Wal.Parsers`.
-/

import Beava.Lib.BigEndian
import Beava.Lib.Checked
import Beava.Lib.RecordScan

namespace Beava.Wal

open Checked (window)

/-! ### Machine integers -/

def u64Max : Nat := 2 ^ 64 - 1

/-- `n as u64`. -/
def asU64 (n : Nat) : Nat := n % 2 ^ 64

/-- `u64::saturating_add`. -/
def saturatingAddU64 (left right : Nat) : Nat := min (left + right) u64Max

/-- `i64` from its 64 bits. -/
def i64OfBits (bits : Nat) : Int :=
  if bits < 2 ^ 63 then (bits : Int) else (bits : Int) - 2 ^ 64

/-- `std::str::from_utf8`, with the copy into an owned string. -/
def strFromUtf8 (bytes : List UInt8) : Option String :=
  String.fromUTF8? ⟨bytes.toArray⟩

/-- `str::as_bytes`. -/
def strAsBytes (text : String) : List UInt8 :=
  text.toUTF8.data.toList

theorem strFromUtf8_strAsBytes (text : String) :
    strFromUtf8 (strAsBytes text) = some text := by
  have sameBytes : (⟨(strAsBytes text).toArray⟩ : ByteArray) = text.toByteArray := by
    simp only [strAsBytes,String.toUTF8,Array.toArray_toList]
  simp only [strFromUtf8,sameBytes,String.fromUTF8?,dif_pos text.isValidUTF8,String.fromUTF8]

theorem strAsBytes_eq (text : String) :
    strAsBytes text = text.toList.flatMap String.utf8EncodeChar := by
  have bytes : text.toUTF8 = text.toList.utf8Encode := String.utf8Encode_toList.symm
  rw [strAsBytes,bytes]
  simp only [List.utf8Encode,List.data_toByteArray,List.toList_toArray]

theorem ascii_front {ch : Char} {byte : UInt8} {others rest : List UInt8}
    (ascii : byte.toNat < 128)
    (same : String.utf8EncodeChar ch ++ others = byte :: rest) :
    ch = Char.ofUInt8 byte ∧ others = rest := by
  have large : ∀ number low : Nat, 128 ≤ low → number + low < 256 →
      UInt8.ofNat (number + low) ≠ byte := by
    intro number low isLow fits isByte
    rw [← isByte,UInt8.toNat_ofNat_of_lt' fits] at ascii
    omega
  rw [String.utf8EncodeChar] at same
  split at same
  · rename_i small
    rw [List.singleton_append,List.cons.injEq] at same
    refine ⟨?_,same.2⟩
    apply Char.ext
    apply UInt32.toNat.inj
    rw [← same.1]
    show ch.val.toNat = (UInt8.ofNat ch.val.toNat).toUInt32.toNat
    rw [UInt8.toNat_toUInt32,UInt8.toNat_ofNat_of_lt' (Nat.lt_of_le_of_lt small (by decide))]
  · split at same
    · exact absurd (List.cons.inj same).1 (large _ _ (by omega) (by omega))
    · split at same
      · exact absurd (List.cons.inj same).1 (large _ _ (by omega) (by omega))
      · exact absurd (List.cons.inj same).1 (large _ _ (by omega) (by omega))
theorem ascii_prefix {chars : List Char} {ascii rest : List UInt8}
    (areAscii : ∀ byte ∈ ascii, byte.toNat < 128)
    (same : chars.flatMap String.utf8EncodeChar = ascii ++ rest) :
    ∃ others, chars = ascii.map Char.ofUInt8 ++ others ∧
      others.flatMap String.utf8EncodeChar = rest := by
  induction ascii generalizing chars with
  | nil => exact ⟨chars,rfl,same⟩
  | cons byte ascii ih =>
      cases chars with
      | nil => cases same
      | cons ch chars =>
          rw [List.flatMap_cons,List.cons_append] at same
          obtain ⟨isChar,restSame⟩ := ascii_front (areAscii byte List.mem_cons_self) same
          obtain ⟨others,isChars,isRest⟩ :=
            ih (fun other member => areAscii other (List.mem_cons_of_mem byte member)) restSame
          refine ⟨others,?_,isRest⟩
          rw [isChar,isChars]
          rfl

theorem strAsBytes_of_strFromUtf8 {bytes : List UInt8} {text : String}
    (isText : strFromUtf8 bytes = some text) : strAsBytes text = bytes := by
  unfold strFromUtf8 String.fromUTF8? at isText
  split at isText
  · cases isText
    rfl
  · cases isText

/-! ### One record at the front of the remaining bytes -/

structure WalHead where
  version : UInt8
  assignedLsn : Option Nat
  bodyFormat : UInt8
  rv : Nat
  etMs : Int
  eventName : String
  body : List UInt8
  deriving DecidableEq

/-- The bytes before `body_format`: the version and, in version 3, the LSN. -/
def headerStart (version : UInt8) : Nat :=
  if version = 0x03 then 9 else 1

def headAssignedLsn (version : UInt8) (data : List UInt8) : Option Nat :=
  if version = 0x03 then some (BigEndian.decode (window data 1 8)) else none

def headNameLen (version : UInt8) (data : List UInt8) : Nat :=
  BigEndian.decode (window data (headerStart version + 13) 2)

def headBodyLen (version : UInt8) (data : List UInt8) : Nat :=
  BigEndian.decode
    (window data (headerStart version + 15 + headNameLen version data) 4)

def headSize (version : UInt8) (data : List UInt8) : Nat :=
  headerStart version + 15 + headNameLen version data + 4 + headBodyLen version data

def decodeWalHead (data : List UInt8) : Option (WalHead × Nat) :=
  match data[0]? with
  | none => none
  | some version =>
      if version ≠ 0x02 ∧ version ≠ 0x03 then none
      else if data.length < headerStart version + 15 then none
      else if data.length < headerStart version + 15 + headNameLen version data + 4 then none
      else
        match strFromUtf8
          (window data (headerStart version + 15) (headNameLen version data)) with
        | none => none
        | some eventName =>
            if data.length < headSize version data then none
            else
              some
                ({ version := version
                   assignedLsn := headAssignedLsn version data
                   bodyFormat := data.getD (headerStart version) 0
                   rv := BigEndian.decode (window data (headerStart version + 1) 4)
                   etMs := i64OfBits
                     (BigEndian.decode (window data (headerStart version + 5) 8))
                   eventName := eventName
                   body := window data
                     (headerStart version + 15 + headNameLen version data + 4)
                     (headBodyLen version data) },
                  headSize version data)

theorem decodeWalHead_eq_some_iff (data : List UInt8) (head : WalHead) (size : Nat) :
    decodeWalHead data = some (head,size) ↔
      (head.version = 0x02 ∨ head.version = 0x03) ∧
        data[0]? = some head.version ∧
        strFromUtf8
            (window data (headerStart head.version + 15) (headNameLen head.version data)) =
          some head.eventName ∧
        size = headSize head.version data ∧
        headSize head.version data ≤ data.length ∧
        head.assignedLsn = headAssignedLsn head.version data ∧
        head.bodyFormat = data.getD (headerStart head.version) 0 ∧
        head.rv = BigEndian.decode (window data (headerStart head.version + 1) 4) ∧
        head.etMs = i64OfBits
          (BigEndian.decode (window data (headerStart head.version + 5) 8)) ∧
        head.body = window data
          (headerStart head.version + 15 + headNameLen head.version data + 4)
          (headBodyLen head.version data) := by
  constructor
  · intro decoded
    unfold decodeWalHead at decoded
    split at decoded
    · contradiction
    · rename_i version first
      split at decoded
      · contradiction
      · rename_i known
        split at decoded
        · contradiction
        · split at decoded
          · contradiction
          · split at decoded
            · contradiction
            · rename_i eventName named
              split at decoded
              · contradiction
              · rename_i fits
                cases Option.some.inj decoded
                have versionKnown : version = 0x02 ∨ version = 0x03 := by
                  by_cases two : version = 0x02
                  · exact Or.inl two
                  · exact Or.inr (not_not.mp fun three => known ⟨two,three⟩)
                exact ⟨versionKnown,first,named,rfl,Nat.le_of_not_lt fits,
                  rfl,rfl,rfl,rfl,rfl⟩
  · rintro ⟨known,first,named,rfl,fits,assigned,format,rv,etMs,body⟩
    have notUnknown : ¬(head.version ≠ 0x02 ∧ head.version ≠ 0x03) := by
      rintro ⟨notTwo,notThree⟩
      rcases known with two | three
      · exact notTwo two
      · exact notThree three
    have sizeEq : headSize head.version data =
        headerStart head.version + 15 + headNameLen head.version data + 4 +
          headBodyLen head.version data := rfl
    have headerFits : ¬ data.length < headerStart head.version + 15 := by omega
    have nameFits :
        ¬ data.length < headerStart head.version + 15 + headNameLen head.version data + 4 := by
      omega
    unfold decodeWalHead
    simp only [first,if_neg notUnknown,if_neg headerFits,if_neg nameFits,named,
      if_neg (Nat.not_lt.mpr fits),← assigned,← format,← rv,← etMs,← body]

theorem headerStart_pos (version : UInt8) : 0 < headerStart version := by
  unfold headerStart
  split <;> omega

theorem headSize_take_append {version : UInt8} {data : List UInt8} (rest : List UInt8)
    {cut : Nat} (cutEq : cut = headSize version data) (fits : cut ≤ data.length) :
    headNameLen version (data.take cut ++ rest) = headNameLen version data ∧
      headBodyLen version (data.take cut ++ rest) = headBodyLen version data ∧
      headSize version (data.take cut ++ rest) = headSize version data := by
  have sizeEq : headSize version data =
      headerStart version + 15 + headNameLen version data + 4 + headBodyLen version data := rfl
  have nameSame : headNameLen version (data.take cut ++ rest) = headNameLen version data := by
    unfold headNameLen
    rw [Checked.window_take_append data rest (by omega) fits]
  have bodySame : headBodyLen version (data.take cut ++ rest) = headBodyLen version data := by
    unfold headBodyLen
    rw [nameSame,Checked.window_take_append data rest (by omega) fits]
  refine ⟨nameSame,bodySame,?_⟩
  unfold headSize
  rw [nameSame,bodySame]

theorem getElem?_take_append (data rest : List UInt8) {index cut : Nat} (before : index < cut)
    (fits : cut ≤ data.length) : (data.take cut ++ rest)[index]? = data[index]? := by
  have inTake : index < (data.take cut).length := by
    rw [List.length_take]
    omega
  rw [List.getElem?_append_left inTake,List.getElem?_take_of_lt before]

def walHeadDecoder : RecordScan.HeadDecoder UInt8 WalHead where
  decode := decodeWalHead
  positive := by
    intro data head size decoded
    obtain ⟨_,_,_,sizeEq,_⟩ := (decodeWalHead_eq_some_iff data head size).mp decoded
    rw [sizeEq]
    unfold headSize
    omega
  bounded := by
    intro data head size decoded
    obtain ⟨_,_,_,sizeEq,fits,_⟩ := (decodeWalHead_eq_some_iff data head size).mp decoded
    rw [sizeEq]
    exact fits
  localized := by
    intro data head size decoded rest
    obtain ⟨known,first,named,sizeEq,fits,assigned,format,rv,etMs,body⟩ :=
      (decodeWalHead_eq_some_iff data head size).mp decoded
    have sizeFits : size ≤ data.length := by omega
    obtain ⟨nameSame,bodySame,sizeSame⟩ :=
      headSize_take_append rest sizeEq sizeFits
    have sizeSum : size = headerStart head.version + 15 + headNameLen head.version data + 4 +
        headBodyLen head.version data := sizeEq
    have startPos := headerStart_pos head.version
    have inside : ∀ offset width, offset + width ≤ size →
        window (data.take size ++ rest) offset width = window data offset width :=
      fun offset width before => Checked.window_take_append data rest before sizeFits
    apply (decodeWalHead_eq_some_iff _ head size).mpr
    refine ⟨known,?_,?_,?_,?_,?_,?_,?_,?_,?_⟩
    · rw [getElem?_take_append data rest (by omega) sizeFits]
      exact first
    · rw [nameSame,inside _ _ (by omega)]
      exact named
    · rw [sizeSame]
      exact sizeEq
    · rw [sizeSame,← sizeEq,List.length_append,List.length_take]
      omega
    · rw [assigned]
      unfold headAssignedLsn
      split
      · rename_i three
        have nine : headerStart head.version = 9 := if_pos three
        rw [inside 1 8 (by omega)]
      · rfl
    · rw [format,List.getD_eq_getElem?_getD,List.getD_eq_getElem?_getD,
        getElem?_take_append data rest (by omega) sizeFits]
    · rw [inside _ _ (by omega)]
      exact rv
    · rw [inside _ _ (by omega)]
      exact etMs
    · rw [nameSame,bodySame,inside _ _ (by omega)]
      exact body

/-! ### Records as the push path encodes them -/

/-- The values `dispatch_push_sync` puts into one version-3 record.  The LSN,
registry version and clock are machine integers; the name and the body fit the
width of their length prefix. -/
structure PushRecord where
  lsn : Nat
  bodyFormat : UInt8
  registryVersion : Nat
  nowMs : Nat
  eventName : String
  body : List UInt8
  lsnFits : lsn < 2 ^ 64
  registryVersionFits : registryVersion < 2 ^ 32
  nowMsFits : nowMs < 2 ^ 64
  nameFits : (strAsBytes eventName).length ≤ 65535
  bodyFits : body.length < 2 ^ 32

/-- `payload_bytes` of `dispatch_push_sync`.  The two length casts truncate. -/
def encodePushPayload (expectedAckLsn : Nat) (bodyFormat : UInt8) (registryVersion nowMs : Nat)
    (eventName : String) (body : List UInt8) : List UInt8 :=
  0x03 :: (BigEndian.encode 8 expectedAckLsn ++
    (bodyFormat :: (BigEndian.encode 4 registryVersion ++
      (BigEndian.encode 8 nowMs ++
        (BigEndian.encode 2 (strAsBytes eventName).length ++
          (strAsBytes eventName ++
            (BigEndian.encode 4 body.length ++ body)))))))

def PushRecord.encode (record : PushRecord) : List UInt8 :=
  encodePushPayload record.lsn record.bodyFormat record.registryVersion record.nowMs
    record.eventName record.body

def PushRecord.head (record : PushRecord) : WalHead :=
  { version := 0x03
    assignedLsn := some record.lsn
    bodyFormat := record.bodyFormat
    rv := record.registryVersion
    etMs := i64OfBits record.nowMs
    eventName := record.eventName
    body := record.body }

theorem length_encodePushPayload (expectedAckLsn : Nat) (bodyFormat : UInt8)
    (registryVersion nowMs : Nat) (eventName : String) (body : List UInt8) :
    (encodePushPayload expectedAckLsn bodyFormat registryVersion nowMs eventName body).length =
      28 + (strAsBytes eventName).length + body.length := by
  simp only [encodePushPayload,List.length_cons,List.length_append,BigEndian.length_encode]
  omega

theorem PushRecord.length_encode (record : PushRecord) :
    record.encode.length =
      28 + (strAsBytes record.eventName).length + record.body.length :=
  length_encodePushPayload _ _ _ _ _ _

theorem PushRecord.windows_encode (record : PushRecord) (rest : List UInt8) :
    window (record.encode ++ rest) 1 8 = BigEndian.encode 8 record.lsn ∧
      (record.encode ++ rest)[9]? = some record.bodyFormat ∧
      window (record.encode ++ rest) 10 4 = BigEndian.encode 4 record.registryVersion ∧
      window (record.encode ++ rest) 14 8 = BigEndian.encode 8 record.nowMs ∧
      window (record.encode ++ rest) 22 2 =
        BigEndian.encode 2 (strAsBytes record.eventName).length ∧
      window (record.encode ++ rest) 24 (strAsBytes record.eventName).length =
        strAsBytes record.eventName ∧
      window (record.encode ++ rest) (24 + (strAsBytes record.eventName).length) 4 =
        BigEndian.encode 4 record.body.length ∧
      window (record.encode ++ rest) (28 + (strAsBytes record.eventName).length)
        record.body.length = record.body := by
  generalize nameEq : strAsBytes record.eventName = name
  have whole : record.encode ++ rest =
      [0x03] ++ (BigEndian.encode 8 record.lsn ++ ([record.bodyFormat] ++
        (BigEndian.encode 4 record.registryVersion ++ (BigEndian.encode 8 record.nowMs ++
          (BigEndian.encode 2 name.length ++ (name ++
            (BigEndian.encode 4 record.body.length ++ (record.body ++ rest)))))))) := by
    simp only [PushRecord.encode,encodePushPayload,nameEq,List.cons_append,
      List.append_assoc,List.nil_append]
  refine ⟨?_,?_,?_,?_,?_,?_,?_,?_⟩
  · rw [whole]
    exact Checked.window_middle _ _ _ (by simp) (by simp)
  · rw [whole,← List.append_assoc,List.getElem?_append_right (by simp)]
    simp
  · rw [whole,← List.append_assoc,← List.append_assoc]
    exact Checked.window_middle _ _ _ (by simp) (by simp)
  · rw [whole,← List.append_assoc,← List.append_assoc,← List.append_assoc]
    exact Checked.window_middle _ _ _ (by simp) (by simp)
  · rw [whole,← List.append_assoc,← List.append_assoc,← List.append_assoc,
      ← List.append_assoc]
    exact Checked.window_middle _ _ _ (by simp) (by simp)
  · rw [whole,← List.append_assoc,← List.append_assoc,← List.append_assoc,
      ← List.append_assoc,← List.append_assoc]
    exact Checked.window_middle _ _ _ (by simp) (by simp)
  · rw [whole,← List.append_assoc,← List.append_assoc,← List.append_assoc,
      ← List.append_assoc,← List.append_assoc,← List.append_assoc]
    exact Checked.window_middle _ _ _ (by simp; omega) (by simp)
  · rw [whole,← List.append_assoc,← List.append_assoc,← List.append_assoc,
      ← List.append_assoc,← List.append_assoc,← List.append_assoc,← List.append_assoc]
    exact Checked.window_middle _ _ _ (by simp; omega) rfl

theorem decodeWalHead_encode (record : PushRecord) (rest : List UInt8) :
    decodeWalHead (record.encode ++ rest) = some (record.head,record.encode.length) := by
  obtain ⟨lsnAt,formatAt,rvAt,etAt,nameLenAt,nameAt,bodyLenAt,bodyAt⟩ :=
    record.windows_encode rest
  have startEq : headerStart 0x03 = 9 := rfl
  have nameLenEq : headNameLen 0x03 (record.encode ++ rest) =
      (strAsBytes record.eventName).length := by
    have fits : (strAsBytes record.eventName).length < 256 ^ 2 := by
      have bound := record.nameFits
      omega
    rw [headNameLen,startEq,nameLenAt,BigEndian.decode_encode_of_lt fits]
  have bodyLenEq : headBodyLen 0x03 (record.encode ++ rest) = record.body.length := by
    have fits : record.body.length < 256 ^ 4 := by
      have bound := record.bodyFits
      omega
    rw [headBodyLen,startEq,nameLenEq,bodyLenAt,BigEndian.decode_encode_of_lt fits]
  have sizeEq : headSize 0x03 (record.encode ++ rest) = record.encode.length := by
    rw [headSize,startEq,nameLenEq,bodyLenEq,record.length_encode]
    omega
  apply (decodeWalHead_eq_some_iff _ record.head record.encode.length).mpr
  change (_ ∨ (0x03 : UInt8) = 0x03) ∧ _[0]? = some 0x03 ∧
    strFromUtf8 (window _ (headerStart 0x03 + 15) (headNameLen 0x03 _)) = _ ∧
    _ = headSize 0x03 _ ∧ headSize 0x03 _ ≤ _ ∧ some record.lsn = headAssignedLsn 0x03 _ ∧
    record.bodyFormat = List.getD _ (headerStart 0x03) 0 ∧
    record.registryVersion = BigEndian.decode (window _ (headerStart 0x03 + 1) 4) ∧
    i64OfBits record.nowMs =
      i64OfBits (BigEndian.decode (window _ (headerStart 0x03 + 5) 8)) ∧
    record.body = window _ (headerStart 0x03 + 15 + headNameLen 0x03 _ + 4)
      (headBodyLen 0x03 _)
  rw [startEq,sizeEq,nameLenEq,bodyLenEq,nameAt]
  refine ⟨Or.inr rfl,rfl,strFromUtf8_strAsBytes _,rfl,?_,?_,?_,?_,?_,?_⟩
  · rw [List.length_append]
    omega
  · have fits : record.lsn < 256 ^ 8 := record.lsnFits
    rw [headAssignedLsn,if_pos rfl,lsnAt,BigEndian.decode_encode_of_lt fits]
  · rw [List.getD_eq_getElem?_getD,formatAt,Option.getD_some]
  · have fits : record.registryVersion < 256 ^ 4 := record.registryVersionFits
    rw [rvAt,BigEndian.decode_encode_of_lt fits]
  · have fits : record.nowMs < 256 ^ 8 := record.nowMsFits
    rw [etAt,BigEndian.decode_encode_of_lt fits]
  · have offset : 9 + 15 + (strAsBytes record.eventName).length + 4 =
        28 + (strAsBytes record.eventName).length := by omega
    rw [offset,bodyAt]

theorem walHeadDecoder_decode (data : List UInt8) :
    walHeadDecoder.decode data = decodeWalHead data := rfl

def pushCodec : RecordScan.Codec UInt8 WalHead PushRecord where
  decoder := walHeadDecoder
  encode := PushRecord.encode
  view := PushRecord.head
  decode_encode := by
    intro record rest
    rw [walHeadDecoder_decode]
    exact decodeWalHead_encode record rest

end Beava.Wal
