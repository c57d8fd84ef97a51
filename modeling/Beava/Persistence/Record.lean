/-
Records and segment files of the registry log.

A record is its length, counted from behind the length field, a checksum and the
body: the LSN, the type and the payload.  A file is a header of 24 bytes and
records.  The reader takes a record that the file does not hold to its end for a
write that was interrupted, which is no error; a body that is there must have the
checksum it declares.

The checksum is a parameter.
-/

import Beava.Lib.BigEndian
import Beava.Lib.Incremental

namespace Beava.Persistence

open Incremental (Step Reads)

/-- `to_le_bytes` of the low `width` bytes. -/
def toLeBytes (width value : Nat) : List UInt8 := (BigEndian.encode width value).reverse

def fromLeBytes (bytes : List UInt8) : Nat := BigEndian.decode bytes.reverse

@[simp] theorem length_toLeBytes (width value : Nat) : (toLeBytes width value).length = width := by
  rw [toLeBytes,List.length_reverse,BigEndian.length_encode]

theorem fromLeBytes_toLeBytes (width value : Nat) :
    fromLeBytes (toLeBytes width value) = value % 256 ^ width := by
  rw [fromLeBytes,toLeBytes,List.reverse_reverse,BigEndian.decode_encode]

theorem fromLeBytes_toLeBytes_of_lt {width value : Nat} (fits : value < 256 ^ width) :
    fromLeBytes (toLeBytes width value) = value := by
  rw [fromLeBytes_toLeBytes,Nat.mod_eq_of_lt fits]

/-! ### Records -/

inductive RecordType where
  | event
  | registryBump
  deriving DecidableEq, Repr

structure WalRecord where
  lsn : UInt64
  recordType : RecordType
  payload : List UInt8
  deriving DecidableEq, Repr

inductive PersistError where
  /-- `read_exact` met the end of the file. -/
  | unexpectedEof
  | crcMismatch (offset expected got : Nat)
  | badMagic (got : List UInt8)
  | unsupportedVersion (version : Nat)
  | unknownRecordType (byte : UInt8)
  | tornRecord (offset : Nat) (reason : String)
  deriving DecidableEq, Repr

namespace RecordType

def fromU8 (byte : UInt8) : Except PersistError RecordType :=
  if byte = 0x01 then .ok .event
  else if byte = 0x02 then .ok .registryBump
  else .error (.unknownRecordType byte)

def toU8 : RecordType → UInt8
  | .event => 0x01
  | .registryBump => 0x02

theorem fromU8_toU8 (recordType : RecordType) : fromU8 recordType.toU8 = .ok recordType := by
  cases recordType <;> rfl

end RecordType

def u32Size : Nat := 2 ^ 32

section Codec

variable (crc32c : List UInt8 → UInt32)

def recordBody (rec : WalRecord) : List UInt8 :=
  toLeBytes 8 rec.lsn.toNat ++ [rec.recordType.toU8] ++ rec.payload

/-- `encode_record`; the length field takes the low 32 bits. -/
def encodeRecord (rec : WalRecord) (out : List UInt8) : List UInt8 :=
  let body := recordBody rec
  out ++ toLeBytes 4 (4 + body.length) ++ toLeBytes 4 (crc32c body).toNat ++ body

inductive ReadResult where
  | full
  | partialRead
  | eof
  deriving DecidableEq, Repr

/-- `read_exact_or_eof`: what was read and what is left to read. -/
def readExactOrEof (r : List UInt8) (count : Nat) : ReadResult × List UInt8 × List UInt8 :=
  (if count ≤ r.length then .full else if r.isEmpty then .eof else .partialRead,
    r.take count,r.drop count)

/-- `decode_record`: the result and what is left to read. -/
def decodeRecord (r : List UInt8) (currentOffset : Nat) :
    Except PersistError (Option WalRecord) × List UInt8 :=
  match readExactOrEof r 4 with
  | (.full,lenBuf,afterLength) =>
      let length := fromLeBytes lenBuf
      if length < 13 then
        (.error (.tornRecord currentOffset
          ("declared length " ++ toString length ++ " < minimum header 13")),afterLength)
      else
        match readExactOrEof afterLength length with
        | (.full,body,rest) =>
            let crcExpected := fromLeBytes (body.take 4)
            let crcPayload := body.drop 4
            let crcGot := (crc32c crcPayload).toNat
            if crcExpected ≠ crcGot then
              (.error (.crcMismatch currentOffset crcExpected crcGot),rest)
            else
              match RecordType.fromU8 (crcPayload.getD 8 0) with
              | .error error => (.error error,rest)
              | .ok recordType =>
                  (.ok (some ⟨UInt64.ofNat (fromLeBytes (crcPayload.take 8)),recordType,
                    crcPayload.drop 9⟩),rest)
        | (_,_,rest) => (.ok none,rest)
  | (_,_,rest) => (.ok none,rest)

/-- A result as a step that says how many bytes a record took. -/
def resultStep (data : List UInt8) :
    Except PersistError (Option WalRecord) × List UInt8 → Step WalRecord Unit
  | (.ok none,_) => .needMore
  | (.ok (some rec),rest) => .item rec (data.length - rest.length)
  | (.error _,_) => .failed ()

def recordStep (data : List UInt8) : Step WalRecord Unit :=
  resultStep data (decodeRecord crc32c data 0)

def WalRecord.bytes (rec : WalRecord) : List UInt8 := encodeRecord crc32c rec []

end Codec

/-! ### One record -/

section One

variable {crc32c : List UInt8 → UInt32} {rec : WalRecord}
variable {data : List UInt8} {offset : Nat}

/-- The length field can hold the length of the record. -/
def WalRecord.Fits (rec : WalRecord) : Prop := 13 + rec.payload.length < u32Size

instance WalRecord.instDecidableFits (rec : WalRecord) : Decidable rec.Fits :=
  inferInstanceAs (Decidable (_ < _))

theorem length_recordBody (rec : WalRecord) : (recordBody rec).length = 9 + rec.payload.length := by
  simp only [recordBody,List.length_append,length_toLeBytes,List.length_singleton]

theorem WalRecord.bytes_eq (rec : WalRecord) :
    rec.bytes crc32c = toLeBytes 4 (13 + rec.payload.length) ++
      (toLeBytes 4 (crc32c (recordBody rec)).toNat ++ recordBody rec) := by
  have sum : 4 + (9 + rec.payload.length) = 13 + rec.payload.length := by omega
  simp only [WalRecord.bytes,encodeRecord,length_recordBody,List.nil_append,
    List.append_assoc,sum]

theorem WalRecord.length_bytes (rec : WalRecord) :
    (rec.bytes crc32c).length = 17 + rec.payload.length := by
  rw [WalRecord.bytes_eq]
  simp only [List.length_append,length_toLeBytes,length_recordBody]
  omega

variable (crc32c) in
theorem WalRecord.declaredLength (rec : WalRecord) (rest : List UInt8) :
    fromLeBytes ((rec.bytes crc32c ++ rest).take 4) = (13 + rec.payload.length) % u32Size := by
  rw [WalRecord.bytes_eq,List.append_assoc,List.take_left' (length_toLeBytes 4 _),
    fromLeBytes_toLeBytes]
  rfl

variable (crc32c) in
theorem WalRecord.behindLength (rec : WalRecord) (rest : List UInt8) :
    (rec.bytes crc32c ++ rest).drop 4 =
      toLeBytes 4 (crc32c (recordBody rec)).toNat ++ recordBody rec ++ rest := by
  rw [WalRecord.bytes_eq,List.append_assoc,List.drop_left' (length_toLeBytes 4 _)]

theorem decodeRecord_noLength (isShort : data.length < 4) :
    (decodeRecord crc32c data offset).1 = .ok none := by
  unfold decodeRecord readExactOrEof
  rw [if_neg (by omega)]
  split
  · rename_i isFull
    split at isFull <;> cases isFull
  · rfl

theorem decodeRecord_noBody (hasLength : 4 ≤ data.length) (covers : ¬fromLeBytes (data.take 4) < 13)
    (isShort : data.length < 4 + fromLeBytes (data.take 4)) :
    (decodeRecord crc32c data offset).1 = .ok none := by
  unfold decodeRecord readExactOrEof
  rw [if_pos hasLength]
  simp only
  rw [if_neg covers,if_neg (by rw [List.length_drop]; omega)]
  split
  · rename_i isFull
    split at isFull <;> cases isFull
  · rfl

theorem decodeRecord_some {found : WalRecord} {rest : List UInt8}
    (decoded : decodeRecord crc32c data offset = (.ok (some found),rest)) :
    found.payload.length + 13 = fromLeBytes (data.take 4) ∧
      rest = data.drop (4 + fromLeBytes (data.take 4)) ∧
      4 + fromLeBytes (data.take 4) ≤ data.length := by
  unfold decodeRecord readExactOrEof at decoded
  split at decoded
  · rename_i lenBuf afterLength isFull
    split at isFull
    · cases isFull
      simp only at decoded
      split at decoded
      · cases decoded
      · rename_i covers
        split at decoded
        · rename_i body after bodyFull
          split at bodyFull
          · rename_i isThere
            cases bodyFull
            split at decoded
            · cases decoded
            · split at decoded
              · cases decoded
              · cases decoded
                rw [List.length_drop] at isThere
                refine ⟨?_,?_,by omega⟩
                · simp only [List.length_drop,List.length_take]
                  omega
                · rw [List.drop_drop]
          · split at bodyFull <;> cases bodyFull
        · cases decoded
    · split at isFull <;> cases isFull
  · cases decoded

theorem decodeRecord_whole (fits : rec.Fits) (rest : List UInt8) (offset : Nat) :
    decodeRecord crc32c (rec.bytes crc32c ++ rest) offset = (.ok (some rec),rest) := by
  have declared := rec.declaredLength crc32c rest
  rw [Nat.mod_eq_of_lt fits] at declared
  have length : (rec.bytes crc32c ++ rest).length = 17 + rec.payload.length + rest.length := by
    rw [List.length_append,WalRecord.length_bytes]
  have behind := rec.behindLength crc32c rest
  have bodyLength : (toLeBytes 4 (crc32c (recordBody rec)).toNat ++ recordBody rec).length =
      13 + rec.payload.length := by
    rw [List.length_append,length_toLeBytes,length_recordBody]
    omega
  have checksum : fromLeBytes (toLeBytes 4 (crc32c (recordBody rec)).toNat) =
      (crc32c (recordBody rec)).toNat :=
    fromLeBytes_toLeBytes_of_lt (crc32c (recordBody rec)).toNat_lt
  have lsn : UInt64.ofNat (fromLeBytes ((recordBody rec).take 8)) = rec.lsn := by
    rw [recordBody,List.append_assoc,List.take_left' (length_toLeBytes 8 _),
      fromLeBytes_toLeBytes_of_lt rec.lsn.toNat_lt,UInt64.ofNat_toNat]
  have recordType : (recordBody rec).getD 8 0 = rec.recordType.toU8 := by
    rw [recordBody,List.append_assoc,List.getD_eq_getElem?_getD,
      List.getElem?_append_right (by simp)]
    simp
  have payload : (recordBody rec).drop 9 = rec.payload := by
    rw [recordBody,List.drop_left' (by simp)]
  unfold decodeRecord readExactOrEof
  rw [if_pos (by omega)]
  simp only [declared,behind]
  rw [if_neg (by omega),if_pos (by rw [List.length_append,bodyLength]; omega),
    List.take_left' bodyLength,List.drop_left' bodyLength]
  simp only
  rw [List.take_left' (length_toLeBytes 4 _),List.drop_left' (length_toLeBytes 4 _),checksum,
    if_neg (by simp),recordType,RecordType.fromU8_toU8]
  simp only [lsn,payload]

theorem decodeRecord_short (fits : rec.Fits) {cut : Nat}
    (isShort : cut < (rec.bytes crc32c).length) (offset : Nat) :
    (decodeRecord crc32c ((rec.bytes crc32c).take cut) offset).1 = .ok none := by
  have length : ((rec.bytes crc32c).take cut).length = cut := by
    rw [List.length_take]
    omega
  by_cases hasLength : 4 ≤ cut
  · have declared := rec.declaredLength crc32c []
    rw [List.append_nil,Nat.mod_eq_of_lt fits] at declared
    have sameField : fromLeBytes (((rec.bytes crc32c).take cut).take 4) =
        13 + rec.payload.length := by
      rw [List.take_take,Nat.min_eq_left hasLength,declared]
    rw [WalRecord.length_bytes] at isShort
    apply decodeRecord_noBody
    · rw [length]
      exact hasLength
    · rw [sameField]
      omega
    · rw [sameField,length]
      omega
  · apply decodeRecord_noLength
    rw [length]
    omega

theorem resultStep_decodeRecord (data : List UInt8) (offset : Nat) :
    resultStep data (decodeRecord crc32c data offset) = recordStep crc32c data := by
  unfold recordStep decodeRecord
  rcases readExactOrEof data 4 with ⟨_ | _ | _,lenBuf,afterLength⟩
  · simp only
    split
    · rfl
    · rcases readExactOrEof afterLength (fromLeBytes lenBuf) with ⟨_ | _ | _,body,rest⟩
      · simp only
        split
        · rfl
        · rfl
      · rfl
      · rfl
  · rfl
  · rfl

theorem recordStep_nil : recordStep crc32c [] = .needMore := rfl

theorem recordStep_of_none (isNone : (decodeRecord crc32c data 0).1 = .ok none) :
    recordStep crc32c data = .needMore := by
  unfold recordStep resultStep
  split
  · rfl
  · rename_i same
    rw [same] at isNone
    cases isNone
  · rename_i same
    rw [same] at isNone
    cases isNone

theorem WalRecord.Fits.reads (fits : rec.Fits) :
    Reads (recordStep crc32c) (WalRecord.bytes crc32c) rec where
  nonempty := by
    rw [WalRecord.length_bytes]
    omega
  whole := by
    intro rest
    rw [recordStep,decodeRecord_whole fits rest 0]
    simp only [resultStep,List.length_append,Nat.add_sub_cancel]
  short := by
    intro cut isShort
    exact recordStep_of_none (decodeRecord_short fits isShort 0)

variable (crc32c) in
/-- A record whose length field wrapped is never read as itself, and the reading
does not just end there. -/
theorem recordStep_wrapped (wraps : ¬rec.Fits) (rest : List UInt8) :
    (∀ size, recordStep crc32c (rec.bytes crc32c ++ rest) ≠ .item rec size) ∧
      recordStep crc32c (rec.bytes crc32c ++ rest) ≠ .needMore := by
  have declared := rec.declaredLength crc32c rest
  have smaller : (13 + rec.payload.length) % u32Size < 13 + rec.payload.length := by
    have := Nat.mod_lt (13 + rec.payload.length) (show 0 < u32Size by decide)
    unfold WalRecord.Fits at wraps
    omega
  have length : (rec.bytes crc32c ++ rest).length = 17 + rec.payload.length + rest.length := by
    rw [List.length_append,WalRecord.length_bytes]
  constructor
  · intro size isItem
    unfold recordStep resultStep at isItem
    split at isItem
    · cases isItem
    · rename_i same
      cases isItem
      have := (decodeRecord_some same).1
      omega
    · cases isItem
  · intro needsMore
    unfold recordStep resultStep at needsMore
    split at needsMore
    · rename_i after same
      unfold decodeRecord readExactOrEof at same
      rw [if_pos (by omega)] at same
      simp only [declared] at same
      split at same
      · cases same
      · rw [if_pos (by rw [List.length_drop]; omega)] at same
        simp only at same
        split at same
        · cases same
        · split at same <;> cases same
    · cases needsMore
    · cases needsMore

end One

end Beava.Persistence
