/-
The two parsers of the event log.

`parseHandrolledRecords` is the parser recovery replays from;
`parseWalRecordBoundsWithPrefix` is the one the writer repairs and compacts
with.  They are translated separately.  Every index and slice is checked, and
each loop runs on a budget of one turn for every byte and one more; both
violations are faults.  A `break` of the source is `none`.

Each turn of either loop is identified with `decodeWalHead` at the bytes that
remain, so the two loops are two readings of one scan.
-/

import Beava.Wal.Record
import Mathlib.Data.List.Forall2

namespace Beava.Wal

open Checked (Fault byteAt slice window)
open RecordScan (Piece Tiles endOf)

variable {data : List UInt8}
variable {pos : Nat} {piece : Piece WalHead}

structure HandrolledWalRecord where
  lsn : Nat
  bodyFormat : UInt8
  rv : Nat
  etMs : Int
  eventName : String
  body : List UInt8
  deriving DecidableEq

/-- A turn of the loop of `parse_handrolled_records` after the assigned LSN. -/
def parseHandrolledFields (data : List UInt8) (baseLsn : Nat) (assignedLsn : Option Nat)
    (pos : Nat) : Except Fault (Option (HandrolledWalRecord × Nat)) := do
  -- The remaining fixed header is 1 + 4 + 8 + 2 bytes.
  if pos + 15 > data.length then
    return none
  let bodyFormat ← byteAt data pos
  let pos := pos + 1
  let rv ← slice data pos (pos + 4)
  let pos := pos + 4
  let etMs ← slice data pos (pos + 8)
  let pos := pos + 8
  let nameLenBytes ← slice data pos (pos + 2)
  let nameLen := BigEndian.decode nameLenBytes
  let pos := pos + 2
  if pos + nameLen + 4 > data.length then
    return none
  let nameBytes ← slice data pos (pos + nameLen)
  match strFromUtf8 nameBytes with
  | none => return none
  | some eventName =>
      let pos := pos + nameLen
      let bodyLenBytes ← slice data pos (pos + 4)
      let bodyLen := BigEndian.decode bodyLenBytes
      let pos := pos + 4
      if pos + bodyLen > data.length then
        return none
      let body ← slice data pos (pos + bodyLen)
      let pos := pos + bodyLen
      return some
        ({ lsn := assignedLsn.getD (saturatingAddU64 baseLsn (asU64 pos))
           bodyFormat := bodyFormat
           rv := BigEndian.decode rv
           etMs := i64OfBits (BigEndian.decode etMs)
           eventName := eventName
           body := body },pos)

/-- One turn of the loop of `parse_handrolled_records`, from the position at
its head to the position at the head of the next turn. -/
def parseHandrolledRecord (data : List UInt8) (baseLsn pos : Nat) :
    Except Fault (Option (HandrolledWalRecord × Nat)) := do
  if pos ≥ data.length then
    return none
  let version ← byteAt data pos
  if version ≠ 0x02 ∧ version ≠ 0x03 then
    return none
  let pos := pos + 1
  if version = 0x03 then
    if pos + 8 > data.length then
      return none
    let lsn ← slice data pos (pos + 8)
    parseHandrolledFields data baseLsn (some (BigEndian.decode lsn)) (pos + 8)
  else
    parseHandrolledFields data baseLsn none pos

def parseHandrolledRecordsLoop (data : List UInt8) (baseLsn : Nat) :
    Nat → Nat → Except Fault (List HandrolledWalRecord)
  | 0, _ => .error .outOfFuel
  | fuel + 1, pos => do
      match ← parseHandrolledRecord data baseLsn pos with
      | none => return []
      | some (record,pos) =>
          let records ← parseHandrolledRecordsLoop data baseLsn fuel pos
          return record :: records

def parseHandrolledRecords (data : List UInt8) (baseLsn : Nat) :
    Except Fault (List HandrolledWalRecord) :=
  parseHandrolledRecordsLoop data baseLsn (data.length + 1) 0

/-- `ParsedWalRecord` of `wal_writer.rs`; `stop` is the source's `end`. -/
structure ParsedWalRecord where
  lsn : Nat
  start : Nat
  stop : Nat
  version : UInt8
  deriving DecidableEq, Repr

structure ParsedWalRecords where
  records : List ParsedWalRecord
  validPrefixLen : Nat
  deriving DecidableEq, Repr

/-- A turn of the loop of `parse_wal_record_bounds_with_prefix` after the
assigned LSN. -/
def parseWalRecordFields (data : List UInt8) (start : Nat) (version : UInt8)
    (assignedLsn : Option Nat) (pos : Nat) : Except Fault (Option ParsedWalRecord) := do
  if pos + 15 > data.length then
    return none
  let pos := pos + 1
  let pos := pos + 4
  let pos := pos + 8
  let nameLenBytes ← slice data pos (pos + 2)
  let nameLen := BigEndian.decode nameLenBytes
  let pos := pos + 2
  if pos + nameLen + 4 > data.length then
    return none
  let nameBytes ← slice data pos (pos + nameLen)
  if (strFromUtf8 nameBytes).isNone then
    return none
  let pos := pos + nameLen
  let bodyLenBytes ← slice data pos (pos + 4)
  let bodyLen := BigEndian.decode bodyLenBytes
  let pos := pos + 4
  if pos + bodyLen > data.length then
    return none
  let pos := pos + bodyLen
  return some
    { lsn := assignedLsn.getD (asU64 pos)
      start := start
      stop := pos
      version := version }

def parseWalRecordBounds (data : List UInt8) (pos : Nat) :
    Except Fault (Option ParsedWalRecord) := do
  if ¬ pos < data.length then
    return none
  let start := pos
  let version ← byteAt data pos
  if version ≠ 0x02 ∧ version ≠ 0x03 then
    return none
  let pos := pos + 1
  if version = 0x03 then
    if pos + 8 > data.length then
      return none
    let lsn ← slice data pos (pos + 8)
    parseWalRecordFields data start version (some (BigEndian.decode lsn)) (pos + 8)
  else
    parseWalRecordFields data start version none pos

/-- The loop, with `valid_prefix_len` as it is when the turn starts. -/
def parseWalRecordBoundsLoop (data : List UInt8) :
    Nat → Nat → Nat → Except Fault ParsedWalRecords
  | 0, _, _ => .error .outOfFuel
  | fuel + 1, pos, validPrefixLen => do
      match ← parseWalRecordBounds data pos with
      | none => return { records := [], validPrefixLen := validPrefixLen }
      | some record =>
          let parsed ← parseWalRecordBoundsLoop data fuel record.stop record.stop
          return { parsed with records := record :: parsed.records }

def parseWalRecordBoundsWithPrefix (data : List UInt8) : Except Fault ParsedWalRecords :=
  parseWalRecordBoundsLoop data (data.length + 1) 0 0

def handrolledOfHead (baseLsn stop : Nat) (head : WalHead) : HandrolledWalRecord :=
  { lsn := head.assignedLsn.getD (saturatingAddU64 baseLsn (asU64 stop))
    bodyFormat := head.bodyFormat
    rv := head.rv
    etMs := head.etMs
    eventName := head.eventName
    body := head.body }

def boundsOfHead (start stop : Nat) (head : WalHead) : ParsedWalRecord :=
  { lsn := head.assignedLsn.getD (asU64 stop)
    start := start
    stop := stop
    version := head.version }

/-- The fields after the assigned LSN, read at the absolute position `start`. -/
def headFieldsAt (data : List UInt8) (version : UInt8) (assignedLsn : Option Nat)
    (start : Nat) : Option (WalHead × Nat) :=
  let nameLen := BigEndian.decode (window data (start + 13) 2)
  let bodyLen := BigEndian.decode (window data (start + 15 + nameLen) 4)
  if data.length < start + 15 then none
  else if data.length < start + 15 + nameLen + 4 then none
  else
    (strFromUtf8 (window data (start + 15) nameLen)).bind fun eventName =>
      if data.length < start + 15 + nameLen + 4 + bodyLen then none
      else
        some
          ({ version := version
             assignedLsn := assignedLsn
             bodyFormat := data.getD start 0
             rv := BigEndian.decode (window data (start + 1) 4)
             etMs := i64OfBits (BigEndian.decode (window data (start + 5) 8))
             eventName := eventName
             body := window data (start + 15 + nameLen + 4) bodyLen },
            start + 15 + nameLen + 4 + bodyLen)

theorem parseHandrolledFields_eq (data : List UInt8) (baseLsn : Nat) (version : UInt8)
    (assignedLsn : Option Nat) (pos : Nat) :
    parseHandrolledFields data baseLsn assignedLsn pos =
      .ok ((headFieldsAt data version assignedLsn pos).map fun found =>
        (handrolledOfHead baseLsn found.2 found.1,found.2)) := by
  unfold parseHandrolledFields headFieldsAt
  by_cases headerFits : pos + 15 ≤ data.length
  · have inside : pos < data.length := by omega
    have format : data.getD pos 0 = data[pos] := by
      rw [List.getD_eq_getElem?_getD,List.getElem?_eq_getElem inside,Option.getD_some]
    have rvAt : slice data (pos + 1) (pos + 1 + 4) = .ok (window data (pos + 1) 4) :=
      Checked.slice_eq_ok (by omega)
    have etAt : slice data (pos + 1 + 4) (pos + 1 + 4 + 8) = .ok (window data (pos + 5) 8) :=
      Checked.slice_eq_ok (by omega)
    have nameLenAt : slice data (pos + 1 + 4 + 8) (pos + 1 + 4 + 8 + 2) =
        .ok (window data (pos + 13) 2) :=
      Checked.slice_eq_ok (by omega)
    have header : pos + 1 + 4 + 8 + 2 = pos + 15 := rfl
    simp only [gt_iff_lt,if_neg (Nat.not_lt.mpr headerFits),Checked.byteAt_eq_ok inside,rvAt,
      etAt,nameLenAt,format,bind,Except.bind,pure,Except.pure,header]
    generalize BigEndian.decode (window data (pos + 13) 2) = nameLen
    by_cases nameFits : pos + 15 + nameLen + 4 ≤ data.length
    · have nameAt : slice data (pos + 15) (pos + 15 + nameLen) =
          .ok (window data (pos + 15) nameLen) :=
        Checked.slice_eq_ok (by omega)
      have bodyLenAt : slice data (pos + 15 + nameLen) (pos + 15 + nameLen + 4) =
          .ok (window data (pos + 15 + nameLen) 4) :=
        Checked.slice_eq_ok (by omega)
      simp only [if_neg (Nat.not_lt.mpr nameFits),nameAt]
      cases strFromUtf8 (window data (pos + 15) nameLen) with
      | none => rfl
      | some eventName =>
          simp only [bodyLenAt,Option.bind_some]
          generalize BigEndian.decode (window data (pos + 15 + nameLen) 4) = bodyLen
          by_cases bodyFits : pos + 15 + nameLen + 4 + bodyLen ≤ data.length
          · simp only [if_neg (Nat.not_lt.mpr bodyFits),Checked.slice_eq_ok bodyFits,
              Option.map_some,handrolledOfHead]
          · simp only [if_pos (Nat.lt_of_not_le bodyFits),Option.map_none]
    · simp only [if_pos (Nat.lt_of_not_le nameFits),Option.map_none]
  · simp only [gt_iff_lt,if_pos (Nat.lt_of_not_le headerFits),pure,Except.pure,Option.map_none]

theorem parseWalRecordFields_eq (data : List UInt8) (start : Nat) (version : UInt8)
    (assignedLsn : Option Nat) (pos : Nat) :
    parseWalRecordFields data start version assignedLsn pos =
      .ok ((headFieldsAt data version assignedLsn pos).map fun found =>
        boundsOfHead start found.2 found.1) := by
  unfold parseWalRecordFields headFieldsAt
  by_cases headerFits : pos + 15 ≤ data.length
  · have nameLenAt : slice data (pos + 1 + 4 + 8) (pos + 1 + 4 + 8 + 2) =
        .ok (window data (pos + 13) 2) :=
      Checked.slice_eq_ok (by omega)
    have header : pos + 1 + 4 + 8 + 2 = pos + 15 := rfl
    simp only [gt_iff_lt,if_neg (Nat.not_lt.mpr headerFits),nameLenAt,bind,Except.bind,pure,
      Except.pure,header]
    generalize BigEndian.decode (window data (pos + 13) 2) = nameLen
    by_cases nameFits : pos + 15 + nameLen + 4 ≤ data.length
    · have nameAt : slice data (pos + 15) (pos + 15 + nameLen) =
          .ok (window data (pos + 15) nameLen) :=
        Checked.slice_eq_ok (by omega)
      have bodyLenAt : slice data (pos + 15 + nameLen) (pos + 15 + nameLen + 4) =
          .ok (window data (pos + 15 + nameLen) 4) :=
        Checked.slice_eq_ok (by omega)
      simp only [if_neg (Nat.not_lt.mpr nameFits),nameAt]
      cases strFromUtf8 (window data (pos + 15) nameLen) with
      | none => rfl
      | some eventName =>
          simp only [bodyLenAt,Option.bind_some,Option.isNone_some,Bool.false_eq_true,if_false]
          generalize BigEndian.decode (window data (pos + 15 + nameLen) 4) = bodyLen
          by_cases bodyFits : pos + 15 + nameLen + 4 + bodyLen ≤ data.length
          · simp only [if_neg (Nat.not_lt.mpr bodyFits),Option.map_some,boundsOfHead]
          · simp only [if_pos (Nat.lt_of_not_le bodyFits),Option.map_none]
    · simp only [if_pos (Nat.lt_of_not_le nameFits),Option.map_none]
  · simp only [gt_iff_lt,if_pos (Nat.lt_of_not_le headerFits),pure,Except.pure,Option.map_none]

theorem decodeWalHead_drop (inside : pos < data.length) :
    (decodeWalHead (data.drop pos)).map (fun found => (found.1,pos + found.2)) =
      if data[pos] ≠ 0x02 ∧ data[pos] ≠ 0x03 then none
      else headFieldsAt data data[pos] (headAssignedLsn data[pos] (data.drop pos))
        (pos + headerStart data[pos]) := by
  have first : (data.drop pos)[0]? = some data[pos] := by
    rw [List.getElem?_drop,Nat.add_zero,List.getElem?_eq_getElem inside]
  generalize data[pos] = version at first ⊢
  have nameLenEq : headNameLen version (data.drop pos) =
      BigEndian.decode (window data (pos + headerStart version + 13) 2) := by
    rw [headNameLen,Checked.window_drop,Nat.add_assoc]
  have bodyLenEq : headBodyLen version (data.drop pos) =
      BigEndian.decode (window data (pos + headerStart version + 15 +
        BigEndian.decode (window data (pos + headerStart version + 13) 2)) 4) := by
    rw [headBodyLen,nameLenEq,Checked.window_drop]
    simp only [Nat.add_assoc]
  have short : ∀ bound, (data.drop pos).length < bound ↔ data.length < pos + bound := by
    intro bound
    rw [List.length_drop]
    omega
  have format : (data.drop pos).getD (headerStart version) 0 =
      data.getD (pos + headerStart version) 0 := by
    rw [List.getD_eq_getElem?_getD,List.getElem?_drop,List.getD_eq_getElem?_getD]
  unfold decodeWalHead headFieldsAt
  simp only [first,headSize,nameLenEq,bodyLenEq,short,Checked.window_drop,format]
  simp only [← Nat.add_assoc]
  generalize BigEndian.decode (window data (pos + headerStart version + 13) 2) = nameLen
  by_cases unknown : version ≠ 0x02 ∧ version ≠ 0x03
  · simp only [if_pos unknown,Option.map_none]
  · rw [if_neg unknown,if_neg unknown]
    cases strFromUtf8 (window data (pos + headerStart version + 15) nameLen) with
    | none => simp only [Option.bind_none,ite_self,Option.map_none]
    | some eventName =>
        simp only [Option.bind_some,apply_ite (Option.map _),Option.map_none,Option.map_some,
          ← Nat.add_assoc]

theorem headFieldsAt_of_short {version : UInt8} {assignedLsn : Option Nat} {start : Nat}
    (short : data.length < start + 15) : headFieldsAt data version assignedLsn start = none := by
  simp only [headFieldsAt,if_pos short]

/-- The head of a turn of either loop, with `fields` for what follows the assigned
LSN. -/
theorem turn_eq {α : Type} (fields : UInt8 → Option Nat → Nat → Except Fault (Option α))
    (found : WalHead × Nat → α) {data : List UInt8}
    (fieldsEq : ∀ version assignedLsn pos, fields version assignedLsn pos =
      .ok ((headFieldsAt data version assignedLsn pos).map found))
    (inside : pos < data.length) :
    (do
      let version ← byteAt data pos
      if version ≠ 0x02 ∧ version ≠ 0x03 then
        return none
      let pos := pos + 1
      if version = 0x03 then
        if pos + 8 > data.length then
          return none
        let lsn ← slice data pos (pos + 8)
        fields version (some (BigEndian.decode lsn)) (pos + 8)
      else
        fields version none pos) =
      .ok ((decodeWalHead (data.drop pos)).map fun head => found (head.1,pos + head.2)) := by
  have decoded := congrArg (Option.map found) (decodeWalHead_drop inside)
  rw [Option.map_map] at decoded
  refine Eq.trans ?_ (congrArg Except.ok decoded.symm)
  rw [Checked.byteAt_eq_ok inside]
  generalize data[pos] = version
  simp only [bind,Except.bind,pure,Except.pure]
  by_cases unknown : version ≠ 0x02 ∧ version ≠ 0x03
  · simp only [if_pos unknown,Option.map_none]
  · rw [if_neg unknown,if_neg unknown]
    by_cases three : version = 0x03
    · subst three
      rw [if_pos rfl]
      by_cases short : pos + 1 + 8 > data.length
      · have shortFields : data.length < pos + headerStart 0x03 + 15 := by
          change _ < pos + 9 + 15
          omega
        rw [if_pos short,headFieldsAt_of_short shortFields,Option.map_none]
      · simp only [if_neg short,Checked.slice_eq_ok (Nat.le_of_not_lt short),fieldsEq,
          headAssignedLsn,Checked.window_drop]
        rfl
    · rw [if_neg three,fieldsEq,headAssignedLsn,if_neg three,headerStart,if_neg three]

theorem decodeWalHead_drop_of_end {data : List UInt8} (atEnd : ¬pos < data.length) :
    decodeWalHead (data.drop pos) = none := by
  rw [List.drop_of_length_le (Nat.le_of_not_lt atEnd)]
  rfl

theorem parseHandrolledRecord_eq (data : List UInt8) (baseLsn pos : Nat) :
    parseHandrolledRecord data baseLsn pos =
      .ok ((decodeWalHead (data.drop pos)).map fun found =>
        (handrolledOfHead baseLsn (pos + found.2) found.1,pos + found.2)) := by
  unfold parseHandrolledRecord
  by_cases inside : pos < data.length
  · rw [if_neg (Nat.not_le.mpr inside)]
    exact turn_eq (fun _ => parseHandrolledFields data baseLsn)
      (fun found => (handrolledOfHead baseLsn found.2 found.1,found.2))
      (parseHandrolledFields_eq data baseLsn) inside
  · rw [if_pos (Nat.le_of_not_lt inside),decodeWalHead_drop_of_end inside]
    rfl

theorem parseWalRecordBounds_eq (data : List UInt8) (pos : Nat) :
    parseWalRecordBounds data pos =
      .ok ((decodeWalHead (data.drop pos)).map fun found =>
        boundsOfHead pos (pos + found.2) found.1) := by
  unfold parseWalRecordBounds
  by_cases inside : pos < data.length
  · rw [if_neg (not_not.mpr inside)]
    exact turn_eq (parseWalRecordFields data pos) (fun found => boundsOfHead pos found.2 found.1)
      (parseWalRecordFields_eq data pos) inside
  · rw [if_pos inside,decodeWalHead_drop_of_end inside]
    rfl

def handrolledOfPiece (baseLsn : Nat) (piece : Piece WalHead) : HandrolledWalRecord :=
  handrolledOfHead baseLsn piece.stop piece.item

def boundsOfPiece (piece : Piece WalHead) : ParsedWalRecord :=
  boundsOfHead piece.start piece.stop piece.item

theorem parseHandrolledRecordsLoop_eq (data : List UInt8) (baseLsn : Nat) :
    ∀ fuel pos, data.length - pos < fuel →
      parseHandrolledRecordsLoop data baseLsn fuel pos =
        .ok ((walHeadDecoder.pieces pos (data.drop pos)).map (handrolledOfPiece baseLsn)) := by
  intro fuel
  induction fuel with
  | zero =>
      intro pos enough
      omega
  | succ fuel ih =>
      intro pos enough
      rw [parseHandrolledRecordsLoop,parseHandrolledRecord_eq]
      cases decoded : decodeWalHead (data.drop pos) with
      | none =>
          rw [walHeadDecoder.pieces_of_decode_none pos decoded]
          rfl
      | some found =>
          obtain ⟨head,size⟩ := found
          have advances := walHeadDecoder.positive decoded
          have fits := walHeadDecoder.bounded decoded
          rw [List.length_drop] at fits
          have next := ih (pos + size) (by omega)
          rw [walHeadDecoder.pieces_of_decode_some pos decoded,List.drop_drop]
          simp only [Option.map_some,bind,Except.bind,next,pure,Except.pure,List.map_cons,
            handrolledOfPiece]

theorem parseWalRecordBoundsLoop_eq (data : List UInt8) :
    ∀ fuel pos validPrefixLen, data.length - pos < fuel →
      parseWalRecordBoundsLoop data fuel pos validPrefixLen =
        .ok { records := (walHeadDecoder.pieces pos (data.drop pos)).map boundsOfPiece
              validPrefixLen :=
                endOf validPrefixLen (walHeadDecoder.pieces pos (data.drop pos)) } := by
  intro fuel
  induction fuel with
  | zero =>
      intro pos validPrefixLen enough
      omega
  | succ fuel ih =>
      intro pos validPrefixLen enough
      rw [parseWalRecordBoundsLoop,parseWalRecordBounds_eq]
      cases decoded : decodeWalHead (data.drop pos) with
      | none =>
          rw [walHeadDecoder.pieces_of_decode_none pos decoded]
          rfl
      | some found =>
          obtain ⟨head,size⟩ := found
          have advances := walHeadDecoder.positive decoded
          have fits := walHeadDecoder.bounded decoded
          rw [List.length_drop] at fits
          have next := ih (pos + size) (pos + size) (by omega)
          rw [walHeadDecoder.pieces_of_decode_some pos decoded,List.drop_drop,
            RecordScan.endOf_cons]
          simp only [Option.map_some,bind,Except.bind,boundsOfHead,next,pure,Except.pure,
            List.map_cons,boundsOfPiece]

theorem parseHandrolledRecords_eq (data : List UInt8) (baseLsn : Nat) :
    parseHandrolledRecords data baseLsn =
      .ok ((walHeadDecoder.pieces 0 data).map (handrolledOfPiece baseLsn)) := by
  rw [parseHandrolledRecords,parseHandrolledRecordsLoop_eq data baseLsn _ _ (by omega),
    List.drop_zero]

theorem parseWalRecordBoundsWithPrefix_eq (data : List UInt8) :
    parseWalRecordBoundsWithPrefix data =
      .ok { records := (walHeadDecoder.pieces 0 data).map boundsOfPiece
            validPrefixLen := endOf 0 (walHeadDecoder.pieces 0 data) } := by
  rw [parseWalRecordBoundsWithPrefix,parseWalRecordBoundsLoop_eq data _ _ _ (by omega),
    List.drop_zero]

theorem pieces_of_interval (member : piece ∈ walHeadDecoder.pieces 0 data) :
    slice data piece.start piece.stop =
        .ok (window data piece.start (piece.stop - piece.start)) ∧
      walHeadDecoder.pieces 0 (window data piece.start (piece.stop - piece.start)) =
        [{ item := piece.item, start := 0, stop := piece.stop - piece.start }] := by
  obtain ⟨_,ordered,inside,decoded⟩ := walHeadDecoder.decode_interval 0 data piece member
  rw [Nat.zero_add] at inside
  rw [Nat.sub_zero] at decoded
  have wide : piece.start + (piece.stop - piece.start) = piece.stop := by omega
  have sliced := Checked.slice_eq_ok
    (show piece.start + (piece.stop - piece.start) ≤ data.length by omega)
  rw [wide] at sliced
  refine ⟨sliced,?_⟩
  have all : (window data piece.start (piece.stop - piece.start)).length =
      piece.stop - piece.start := Checked.length_window (by omega)
  change walHeadDecoder.decode (window data piece.start (piece.stop - piece.start)) = _ at decoded
  rw [walHeadDecoder.pieces_of_decode_some 0 decoded,
    List.drop_of_length_le (Nat.le_of_eq all),walHeadDecoder.pieces_nil,Nat.zero_add]

theorem handrolledOfPiece_lsn (piece : Piece WalHead) :
    (handrolledOfPiece 0 piece).lsn = (boundsOfPiece piece).lsn := by
  have small : asU64 piece.stop ≤ u64Max :=
    Nat.le_pred_of_lt (Nat.mod_lt _ (Nat.two_pow_pos 64))
  simp only [handrolledOfPiece,handrolledOfHead,boundsOfPiece,boundsOfHead,saturatingAddU64,
    Nat.zero_add,Nat.min_eq_left small]

/-- Recovery's record is the decoding of the bytes between the writer's bounds.
A version-2 record does not carry its LSN; it is the offset of its end. -/
def DecodesBounds (data : List UInt8) (record : HandrolledWalRecord) (bounds : ParsedWalRecord) :
    Prop :=
  ∃ bytes alone,
    slice data bounds.start bounds.stop = .ok bytes ∧
      parseHandrolledRecords bytes 0 = .ok [alone] ∧
      record =
        { alone with lsn := if bounds.version = 0x03 then alone.lsn else asU64 bounds.stop }

theorem head_assignedLsn_isSome_iff {head : WalHead} {size : Nat}
    (decoded : decodeWalHead data = some (head,size)) :
    head.assignedLsn.isSome ↔ head.version = 0x03 := by
  obtain ⟨_,_,_,_,_,assigned,_⟩ := (decodeWalHead_eq_some_iff data head size).mp decoded
  rw [assigned,headAssignedLsn]
  by_cases three : head.version = 0x03
  · rw [if_pos three]
    exact iff_of_true rfl three
  · rw [if_neg three]
    exact iff_of_false Bool.false_ne_true three

theorem decodesBounds_of_mem (member : piece ∈ walHeadDecoder.pieces 0 data) :
    DecodesBounds data (handrolledOfPiece 0 piece) (boundsOfPiece piece) := by
  obtain ⟨sliced,alone⟩ := pieces_of_interval member
  obtain ⟨_,_,_,decoded⟩ := walHeadDecoder.decode_interval 0 data piece member
  have assigned := head_assignedLsn_isSome_iff decoded
  refine ⟨_,handrolledOfPiece 0
    { item := piece.item, start := 0, stop := piece.stop - piece.start },sliced,?_,?_⟩
  · rw [parseHandrolledRecords_eq,alone,List.map_singleton]
  · have numbered := handrolledOfPiece_lsn piece
    have versionEq : (boundsOfPiece piece).version = piece.item.version := rfl
    by_cases three : piece.item.version = 0x03
    · obtain ⟨lsn,lsnEq⟩ := Option.isSome_iff_exists.mp (assigned.mpr three)
      rw [versionEq,if_pos three]
      simp only [handrolledOfPiece,handrolledOfHead,lsnEq,Option.getD_some]
    · have unassigned : piece.item.assignedLsn = none := by
        rw [← Option.not_isSome_iff_eq_none,assigned]
        exact three
      rw [versionEq,if_neg three]
      simp only [boundsOfPiece,boundsOfHead,unassigned,Option.getD_none] at numbered
      simp only [boundsOfPiece,boundsOfHead,← numbered]
      rfl

/-- Both parsers return, with the same LSNs, on every byte string.  The
writer's bounds tile the valid prefix and every record of recovery is the
decoding of the corresponding interval.  A longer budget changes neither
result, so neither loop was cut short. -/
theorem parsers_agree (data : List UInt8) :
    ∃ records parsed,
      parseHandrolledRecords data 0 = .ok records ∧
        parseWalRecordBoundsWithPrefix data = .ok parsed ∧
        (∀ extra, parseHandrolledRecordsLoop data 0 (data.length + 1 + extra) 0 = .ok records) ∧
        (∀ extra, parseWalRecordBoundsLoop data (data.length + 1 + extra) 0 0 = .ok parsed) ∧
        records.length = parsed.records.length ∧
        records.map HandrolledWalRecord.lsn = parsed.records.map ParsedWalRecord.lsn ∧
        Tiles 0 parsed.validPrefixLen
          (parsed.records.map fun bounds => (bounds.start,bounds.stop)) ∧
        parsed.validPrefixLen ≤ data.length ∧
        List.Forall₂ (DecodesBounds data) records parsed.records := by
  refine ⟨_,_,parseHandrolledRecords_eq data 0,parseWalRecordBoundsWithPrefix_eq data,
    ?_,?_,?_,?_,?_,?_,?_⟩
  · intro extra
    rw [parseHandrolledRecordsLoop_eq data 0 _ _ (by omega),List.drop_zero]
  · intro extra
    rw [parseWalRecordBoundsLoop_eq data _ _ _ (by omega),List.drop_zero]
  · rw [List.length_map,List.length_map]
  · rw [List.map_map,List.map_map]
    exact List.map_congr_left fun piece _ => handrolledOfPiece_lsn piece
  · rw [List.map_map]
    exact walHeadDecoder.pieces_tile 0 data
  · have bound := (walHeadDecoder.endOf_pieces_le 0 data).2
    rwa [Nat.zero_add] at bound
  · rw [List.forall₂_map_left_iff,List.forall₂_map_right_iff,List.forall₂_same]
    exact fun piece member => decodesBounds_of_mem member

end Beava.Wal
