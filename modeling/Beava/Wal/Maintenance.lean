/-
What the writer does to a log file apart from appending to it.

On startup `repair_wal_file_tail` truncates the file to its valid prefix.
After a snapshot `compact_wal_file` drops the records the snapshot covers and
renames a rewritten file over the old one.  Both are translated together with
the file operations that can fail: an outcome of the operating system is an
argument, and the result says what the file holds afterwards.
-/

import Beava.Wal.Parsers

namespace Beava.Wal

open Checked (Fault byteAt slice window)
open RecordScan (Piece Tiles endOf)

variable {data : List UInt8} {coveredLsn : Nat} {found : List (Piece WalHead)}
variable {file : List UInt8}

inductive IoErrorKind where
  | invalidData
  | invalidInput
  | other
  deriving DecidableEq, Repr

structure IoError where
  kind : IoErrorKind
  message : String
  deriving DecidableEq, Repr

inductive FileStep where
  | syncOpenFile
  | readFile
  | setLen
  | syncFile
  | removeTemporary
  | createTemporary
  | writeTemporary
  | syncTemporary
  | openReplacement
  | rename
  | syncParentDir
  deriving DecidableEq, Repr

/-- What the operating system answers to each operation; `none` is success.
For `removeTemporary`, a missing file is success. -/
abbrev FileOutcome := FileStep → Option IoError

inductive WalFailure where
  | fault (fault : Fault)
  | io (error : IoError)
  deriving DecidableEq, Repr

def attempt (outcome : FileOutcome) (step : FileStep) : Except WalFailure Unit :=
  match outcome step with
  | none => .ok ()
  | some error => .error (.io error)

def liftFault {α : Type} : Except Fault α → Except WalFailure α
  | .ok value => .ok value
  | .error fault => .error (.fault fault)

/-- `repair_wal_file_tail`: the file afterwards and the result.  A file that does
not exist needs no repair; once `set_len` has succeeded the file stays truncated. -/
def repairWalFileTail (outcome : FileOutcome) :
    Option (List UInt8) → Option (List UInt8) × Except WalFailure Unit
  | none => (none,.ok ())
  | some data =>
      match attempt outcome .readFile with
      | .error failure => (some data,.error failure)
      | .ok () =>
          match parseWalRecordBoundsWithPrefix data with
          | .error fault => (some data,.error (.fault fault))
          | .ok parsed =>
              if parsed.validPrefixLen = data.length then (some data,.ok ())
              else
                match attempt outcome .setLen with
                | .error failure => (some data,.error failure)
                | .ok () =>
                    (some (data.take parsed.validPrefixLen),do
                      attempt outcome .syncFile
                      attempt outcome .syncParentDir)

variable {outcome : FileOutcome}

theorem repairWalFileTail_of_ok {file : Option (List UInt8)}
    (repaired : repairWalFileTail outcome (some data) = (file,.ok ())) :
    file = some (data.take (endOf 0 (walHeadDecoder.pieces 0 data))) := by
  simp only [repairWalFileTail,parseWalRecordBoundsWithPrefix_eq] at repaired
  cases read : attempt outcome .readFile with
  | error failure => simp only [read,Prod.mk.injEq,reduceCtorEq,and_false] at repaired
  | ok done =>
      simp only [read] at repaired
      by_cases whole : endOf 0 (walHeadDecoder.pieces 0 data) = data.length
      · rw [if_pos whole,Prod.mk.injEq] at repaired
        rw [whole,List.take_length,repaired.1]
      · rw [if_neg whole] at repaired
        cases cut : attempt outcome .setLen with
        | error failure => simp only [cut,Prod.mk.injEq,reduceCtorEq,and_false] at repaired
        | ok done =>
            simp only [cut,Prod.mk.injEq] at repaired
            exact repaired.1.symm

theorem repairWalFileTail_of_no_failure (data : List UInt8) :
    (repairWalFileTail (fun _ => none) (some data)).2 = .ok () := by
  simp only [repairWalFileTail,parseWalRecordBoundsWithPrefix_eq]
  by_cases whole : endOf 0 (walHeadDecoder.pieces 0 data) = data.length
  · simp only [attempt,if_pos whole]
  · simp only [attempt,if_neg whole]
    rfl

def PushRecord.handrolled (record : PushRecord) : HandrolledWalRecord :=
  { lsn := record.lsn
    bodyFormat := record.bodyFormat
    rv := record.registryVersion
    etMs := i64OfBits record.nowMs
    eventName := record.eventName
    body := record.body }

theorem map_handrolledOfPiece_placed (baseLsn start : Nat) (records : List PushRecord) :
    (pushCodec.placed start records).map (handrolledOfPiece baseLsn) =
      records.map PushRecord.handrolled := by
  induction records generalizing start with
  | nil => rfl
  | cons record rest ih =>
      rw [RecordScan.Codec.placed,List.map_cons,List.map_cons,ih]
      rfl

theorem parse_validPrefix_append (data : List UInt8) (more : List PushRecord) (baseLsn : Nat) :
    parseHandrolledRecords
        (data.take (endOf 0 (walHeadDecoder.pieces 0 data)) ++ pushCodec.encodeAll more)
        baseLsn =
      .ok ((walHeadDecoder.pieces 0 data).map (handrolledOfPiece baseLsn) ++
        more.map PushRecord.handrolled) := by
  have kept := walHeadDecoder.pieces_prefix_append 0 data (pushCodec.encodeAll more)
  have appended := pushCodec.pieces_encodeAll_append
    (endOf 0 (walHeadDecoder.pieces 0 data)) more []
  rw [List.append_nil,pushCodec.decoder.pieces_nil,List.append_nil] at appended
  rw [Nat.sub_zero] at kept
  rw [parseHandrolledRecords_eq,kept,List.map_append]
  change Except.ok (_ ++ (pushCodec.decoder.pieces _ _).map _) = _
  rw [appended,map_handrolledOfPiece_placed]

/-- A log cut anywhere is read back up to the cut, and the repaired file accepts
further records behind those that survived. -/
theorem cutLog_recovered (records more : List PushRecord) (cut baseLsn : Nat) :
    parseHandrolledRecords ((pushCodec.encodeAll records).take cut) baseLsn =
        .ok ((pushCodec.wholeRecords records cut).map PushRecord.handrolled) ∧
      (repairWalFileTail (fun _ => none) (some ((pushCodec.encodeAll records).take cut))).2 =
        .ok () ∧
      ∀ outcome file,
        repairWalFileTail outcome (some ((pushCodec.encodeAll records).take cut)) =
            (file,.ok ()) →
          ∃ bytes, file = some bytes ∧
            parseHandrolledRecords (bytes ++ pushCodec.encodeAll more) baseLsn =
              .ok ((pushCodec.wholeRecords records cut ++ more).map PushRecord.handrolled) := by
  have surviving : walHeadDecoder.pieces 0 ((pushCodec.encodeAll records).take cut) =
      pushCodec.placed 0 (pushCodec.wholeRecords records cut) :=
    pushCodec.pieces_take_encodeAll 0 records cut
  refine ⟨?_,repairWalFileTail_of_no_failure _,?_⟩
  · rw [parseHandrolledRecords_eq,surviving,map_handrolledOfPiece_placed]
  · intro outcome file repaired
    refine ⟨_,repairWalFileTail_of_ok repaired,?_⟩
    rw [parse_validPrefix_append,surviving,map_handrolledOfPiece_placed,← List.map_append]

def samplePush (lsn : Nat) (lsnFits : lsn < 2 ^ 64) : PushRecord :=
  { lsn := lsn
    bodyFormat := 0x01
    registryVersion := 1
    nowMs := 1000
    eventName := "e"
    body := [0x7b,0x7d]
    lsnFits := lsnFits
    registryVersionFits := by decide
    nowMsFits := by decide
    nameFits := by decide
    bodyFits := by decide }

/-- Two records of 31 bytes, cut in the second: the first survives the repair. -/
theorem cutLog_recovered_sample :
    ∃ bytes,
      (repairWalFileTail (fun _ => none)
          (some ((pushCodec.encodeAll
            [samplePush 31 (by decide),samplePush 62 (by decide)]).take 40))).1 = some bytes ∧
        parseHandrolledRecords (bytes ++ pushCodec.encodeAll [samplePush 93 (by decide)]) 0 =
          .ok (([samplePush 31 (by decide)] ++ [samplePush 93 (by decide)]).map
            PushRecord.handrolled) := by
  obtain ⟨_,succeeds,appended⟩ := cutLog_recovered
    [samplePush 31 (by decide),samplePush 62 (by decide)] [samplePush 93 (by decide)] 40 0
  exact appended (fun _ => none) _ (Prod.ext rfl succeeds)

structure WalCompactStats where
  beforeBytes : Nat
  afterBytes : Nat
  removedRecords : Nat
  retainedRecords : Nat
  deriving DecidableEq, Repr

structure Retained where
  bytes : List UInt8
  removedRecords : Nat
  retainedRecords : Nat
  deriving DecidableEq, Repr

def retainedLegacyRecord : IoError :=
  { kind := .invalidData
    message := "cannot compact retained legacy v2 WAL records without assigned LSNs" }

def retainRecords (data : List UInt8) (coveredLsn : Nat) :
    List ParsedWalRecord → Retained → Except WalFailure Retained
  | [], retained => .ok retained
  | record :: rest, retained =>
      if record.lsn ≤ coveredLsn then
        retainRecords data coveredLsn rest
          { retained with removedRecords := retained.removedRecords + 1 }
      else if record.version ≠ 0x03 then
        .error (.io retainedLegacyRecord)
      else do
        let bytes ← liftFault (slice data record.start record.stop)
        retainRecords data coveredLsn rest
          { retained with
            bytes := retained.bytes ++ bytes
            retainedRecords := retained.retainedRecords + 1 }

/-- `compact_wal_file` up to and including the rename.  No content means that
the file is left as it is. -/
def prepareCompaction (outcome : FileOutcome) (data : List UInt8) (coveredLsn : Nat) :
    Except WalFailure (WalCompactStats × Option (List UInt8)) := do
  attempt outcome .syncOpenFile
  attempt outcome .readFile
  if data.isEmpty then
    return ({ beforeBytes := data.length
              afterBytes := 0
              removedRecords := 0
              retainedRecords := 0 },none)
  let parsed ← liftFault (parseWalRecordBoundsWithPrefix data)
  let retained ← retainRecords data coveredLsn parsed.records
    { bytes := [], removedRecords := 0, retainedRecords := 0 }
  if retained.removedRecords = 0 ∧ parsed.validPrefixLen = data.length then
    attempt outcome .syncParentDir
    return ({ beforeBytes := data.length
              afterBytes := data.length
              removedRecords := retained.removedRecords
              retainedRecords := retained.retainedRecords },none)
  attempt outcome .removeTemporary
  attempt outcome .createTemporary
  attempt outcome .writeTemporary
  attempt outcome .syncTemporary
  attempt outcome .openReplacement
  attempt outcome .rename
  return ({ beforeBytes := data.length
            afterBytes := retained.bytes.length
            removedRecords := retained.removedRecords
            retainedRecords := retained.retainedRecords },some retained.bytes)

/-- `compact_wal_file`: the file afterwards and the result.  Only the directory
sync comes after the rename, so it alone can fail with a rewritten file. -/
def compactWalFile (outcome : FileOutcome) (data : List UInt8) (coveredLsn : Nat) :
    List UInt8 × Except WalFailure WalCompactStats :=
  match prepareCompaction outcome data coveredLsn with
  | .error failure => (data,.error failure)
  | .ok (stats,none) => (data,.ok stats)
  | .ok (stats,some rewritten) =>
      match attempt outcome .syncParentDir with
      | .error failure => (rewritten,.error failure)
      | .ok () => (rewritten,.ok stats)

def uncovered (coveredLsn : Nat) (found : List (Piece WalHead)) : List (Piece WalHead) :=
  found.filter fun piece => coveredLsn < (boundsOfPiece piece).lsn

def copied (data : List UInt8) (found : List (Piece WalHead)) : List UInt8 :=
  (found.map fun piece => window data piece.start (piece.stop - piece.start)).flatten

theorem copied_cons (data : List UInt8) (piece : Piece WalHead) (rest : List (Piece WalHead)) :
    copied data (piece :: rest) =
      window data piece.start (piece.stop - piece.start) ++ copied data rest := by
  rw [copied,List.map_cons,List.flatten_cons,copied]

theorem uncovered_cons (coveredLsn : Nat) (piece : Piece WalHead) (rest : List (Piece WalHead)) :
    uncovered coveredLsn (piece :: rest) =
      if (boundsOfPiece piece).lsn ≤ coveredLsn then uncovered coveredLsn rest
      else piece :: uncovered coveredLsn rest := by
  rw [uncovered,List.filter_cons]
  by_cases covered : (boundsOfPiece piece).lsn ≤ coveredLsn
  · rw [if_pos covered,if_neg (by simpa using covered)]
    rfl
  · rw [if_neg covered,if_pos (by simpa using covered)]
    rfl

theorem retainRecords_ok (members : ∀ piece ∈ found, piece ∈ walHeadDecoder.pieces 0 data)
    {before after : Retained}
    (retained : retainRecords data coveredLsn (found.map boundsOfPiece) before = .ok after) :
    (∀ piece ∈ uncovered coveredLsn found, piece.item.version = 0x03) ∧
      after.bytes = before.bytes ++ copied data (uncovered coveredLsn found) := by
  induction found generalizing before with
  | nil =>
      cases Except.ok.inj retained
      refine ⟨fun piece member => (by cases member),?_⟩
      exact (List.append_nil _).symm
  | cons piece rest ih =>
      have restMembers : ∀ later ∈ rest, later ∈ walHeadDecoder.pieces 0 data :=
        fun later member => members later (List.mem_cons_of_mem _ member)
      rw [List.map_cons,retainRecords] at retained
      rw [uncovered_cons]
      by_cases covered : (boundsOfPiece piece).lsn ≤ coveredLsn
      · rw [if_pos covered] at retained ⊢
        obtain ⟨restThree,restBytes⟩ := ih restMembers retained
        exact ⟨restThree,restBytes⟩
      · rw [if_neg covered] at retained ⊢
        by_cases three : piece.item.version = 0x03
        · obtain ⟨sliced,_⟩ := pieces_of_interval (members piece List.mem_cons_self)
          have kept : ¬ (boundsOfPiece piece).version ≠ 0x03 := not_not.mpr three
          have copy : slice data (boundsOfPiece piece).start (boundsOfPiece piece).stop =
              .ok (window data piece.start (piece.stop - piece.start)) := sliced
          rw [if_neg kept,copy] at retained
          obtain ⟨restThree,restBytes⟩ := ih restMembers retained
          constructor
          · intro later member
            rcases List.mem_cons.mp member with same | tail
            · rw [same]
              exact three
            · exact restThree later tail
          · rw [restBytes,copied_cons,← List.append_assoc]
        · have refused : (boundsOfPiece piece).version ≠ 0x03 := three
          rw [if_pos refused] at retained
          cases retained

variable {stats : WalCompactStats}

/-- A preparation that succeeded found only version-3 records to keep.  The file
is valid as it is, or its replacement holds those records. -/
theorem prepareCompaction_ok {rewritten : Option (List UInt8)}
    (prepared : prepareCompaction outcome data coveredLsn = .ok (stats,rewritten)) :
    (∀ piece ∈ uncovered coveredLsn (walHeadDecoder.pieces 0 data),
        piece.item.version = 0x03) ∧
      ((rewritten = none ∧ endOf 0 (walHeadDecoder.pieces 0 data) = data.length) ∨
        rewritten = some (copied data (uncovered coveredLsn (walHeadDecoder.pieces 0 data)))) := by
  unfold prepareCompaction at prepared
  obtain ⟨_,_,prepared⟩ := Checked.bind_eq_ok prepared
  obtain ⟨_,_,prepared⟩ := Checked.bind_eq_ok prepared
  by_cases empty : data.isEmpty
  · rw [if_pos empty] at prepared
    cases prepared
    have nil : data = [] := List.isEmpty_iff.mp empty
    subst nil
    rw [walHeadDecoder.pieces_nil]
    exact ⟨fun piece member => (by cases member),Or.inl ⟨rfl,rfl⟩⟩
  · rw [if_neg empty,parseWalRecordBoundsWithPrefix_eq] at prepared
    obtain ⟨parsed,parsedEq,prepared⟩ := Checked.bind_eq_ok prepared
    cases parsedEq
    obtain ⟨retained,kept,prepared⟩ := Checked.bind_eq_ok prepared
    obtain ⟨three,bytes⟩ := retainRecords_ok (fun piece member => member) kept
    rw [List.nil_append] at bytes
    refine ⟨three,?_⟩
    split at prepared
    · rename_i unchanged
      obtain ⟨_,_,prepared⟩ := Checked.bind_eq_ok prepared
      cases prepared
      exact Or.inl ⟨rfl,unchanged.2⟩
    · obtain ⟨_,_,prepared⟩ := Checked.bind_eq_ok prepared
      obtain ⟨_,_,prepared⟩ := Checked.bind_eq_ok prepared
      obtain ⟨_,_,prepared⟩ := Checked.bind_eq_ok prepared
      obtain ⟨_,_,prepared⟩ := Checked.bind_eq_ok prepared
      obtain ⟨_,_,prepared⟩ := Checked.bind_eq_ok prepared
      obtain ⟨_,_,prepared⟩ := Checked.bind_eq_ok prepared
      cases prepared
      exact Or.inr (congrArg some bytes)

theorem compactWalFile_ok (compacted : compactWalFile outcome data coveredLsn = (file,.ok stats)) :
    (∀ piece ∈ uncovered coveredLsn (walHeadDecoder.pieces 0 data),
        piece.item.version = 0x03) ∧
      ((file = data ∧ endOf 0 (walHeadDecoder.pieces 0 data) = data.length) ∨
        file = copied data (uncovered coveredLsn (walHeadDecoder.pieces 0 data))) := by
  unfold compactWalFile at compacted
  cases prepared : prepareCompaction outcome data coveredLsn with
  | error failure =>
      simp only [prepared,Prod.mk.injEq,reduceCtorEq,and_false] at compacted
  | ok result =>
      obtain ⟨found,rewritten⟩ := result
      obtain ⟨three,kept⟩ := prepareCompaction_ok prepared
      refine ⟨three,?_⟩
      rcases kept with ⟨same,valid⟩ | replaced
      · subst same
        simp only [prepared,Prod.mk.injEq] at compacted
        exact Or.inl ⟨compacted.1.symm,valid⟩
      · subst replaced
        cases synced : attempt outcome .syncParentDir with
        | error failure =>
            simp only [prepared,synced,Prod.mk.injEq,reduceCtorEq,and_false] at compacted
        | ok done =>
            simp only [prepared,synced,Prod.mk.injEq] at compacted
            exact Or.inr compacted.1.symm

theorem compactWalFile_error {failure : WalFailure} (synced : outcome .syncParentDir = none)
    (compacted : compactWalFile outcome data coveredLsn = (file,.error failure)) : file = data := by
  unfold compactWalFile at compacted
  cases prepared : prepareCompaction outcome data coveredLsn with
  | error stopped =>
      simp only [prepared,Prod.mk.injEq] at compacted
      exact compacted.1.symm
  | ok result =>
      obtain ⟨stats,rewritten⟩ := result
      cases rewritten with
      | none => simp only [prepared,Prod.mk.injEq,reduceCtorEq,and_false] at compacted
      | some bytes =>
          simp only [prepared,attempt,synced,Prod.mk.injEq,reduceCtorEq,and_false]
            at compacted

theorem compactWalFile_legacy {piece : Piece WalHead}
    (member : piece ∈ walHeadDecoder.pieces 0 data)
    (retained : coveredLsn < (boundsOfPiece piece).lsn)
    (legacy : (boundsOfPiece piece).version ≠ 0x03) :
    ∃ failure, compactWalFile outcome data coveredLsn = (data,.error failure) := by
  have kept : piece ∈ uncovered coveredLsn (walHeadDecoder.pieces 0 data) := by
    rw [uncovered,List.mem_filter]
    exact ⟨member,decide_eq_true retained⟩
  cases prepared : prepareCompaction outcome data coveredLsn with
  | error failure =>
      refine ⟨failure,?_⟩
      simp only [compactWalFile,prepared]
  | ok result =>
      obtain ⟨three,_⟩ := prepareCompaction_ok prepared
      exact absurd (three piece kept) legacy

theorem retainRecords_of_three (members : ∀ piece ∈ found, piece ∈ walHeadDecoder.pieces 0 data)
    (three : ∀ piece ∈ uncovered coveredLsn found, piece.item.version = 0x03) (before : Retained) :
    ∃ after, retainRecords data coveredLsn (found.map boundsOfPiece) before = .ok after := by
  induction found generalizing before with
  | nil => exact ⟨before,rfl⟩
  | cons piece rest ih =>
      have restMembers : ∀ later ∈ rest, later ∈ walHeadDecoder.pieces 0 data :=
        fun later member => members later (List.mem_cons_of_mem _ member)
      rw [uncovered_cons] at three
      rw [List.map_cons,retainRecords]
      by_cases covered : (boundsOfPiece piece).lsn ≤ coveredLsn
      · rw [if_pos covered] at three ⊢
        exact ih restMembers three _
      · rw [if_neg covered] at three ⊢
        have kept : ¬ (boundsOfPiece piece).version ≠ 0x03 :=
          not_not.mpr (three piece List.mem_cons_self)
        have copy : slice data (boundsOfPiece piece).start (boundsOfPiece piece).stop =
            .ok (window data piece.start (piece.stop - piece.start)) :=
          (pieces_of_interval (members piece List.mem_cons_self)).1
        rw [if_neg kept,copy]
        exact ih restMembers (fun later member => three later (List.mem_cons_of_mem _ member)) _

theorem compactWalFile_pushes (records : List PushRecord) (coveredLsn : Nat) :
    ∃ file stats,
      compactWalFile (fun _ => none) (pushCodec.encodeAll records) coveredLsn =
        (file,.ok stats) := by
  have scanned : walHeadDecoder.pieces 0 (pushCodec.encodeAll records) =
      pushCodec.placed 0 records := by
    have whole := pushCodec.pieces_encodeAll_append 0 records []
    rwa [List.append_nil,pushCodec.decoder.pieces_nil,List.append_nil] at whole
  have three : ∀ piece ∈ uncovered coveredLsn
      (walHeadDecoder.pieces 0 (pushCodec.encodeAll records)), piece.item.version = 0x03 := by
    intro piece member
    have placed := List.mem_of_mem_filter member
    rw [scanned] at placed
    have item := List.mem_map_of_mem (f := Piece.item) placed
    rw [pushCodec.map_item_placed] at item
    obtain ⟨record,_,itemEq⟩ := List.mem_map.mp item
    rw [← itemEq]
    rfl
  obtain ⟨retained,kept⟩ := retainRecords_of_three (fun piece member => member) three
    { bytes := [], removedRecords := 0, retainedRecords := 0 }
  unfold compactWalFile prepareCompaction
  rw [parseWalRecordBoundsWithPrefix_eq]
  simp only [attempt,liftFault,bind,Except.bind,pure,Except.pure,kept]
  split
  · rename_i failure failed
    split at failed
    · cases failed
    · split at failed <;> cases failed
  · exact ⟨_,_,rfl⟩
  · exact ⟨_,_,rfl⟩

/-- The records recovery replays when a snapshot covers everything up to `fromLsn`. -/
def replayedFrom (fromLsn : Nat) (records : List HandrolledWalRecord) :
    List HandrolledWalRecord :=
  records.filter fun record => fromLsn < record.lsn

theorem map_handrolledOfPiece_of_items {first second : List (Piece WalHead)}
    (items : first.map Piece.item = second.map Piece.item)
    (assigned : ∀ piece ∈ second, piece.item.assignedLsn.isSome) (baseLsn : Nat) :
    first.map (handrolledOfPiece baseLsn) = second.map (handrolledOfPiece baseLsn) := by
  induction second generalizing first with
  | nil =>
      rw [List.map_nil,List.map_eq_nil_iff] at items
      rw [items]
  | cons piece rest ih =>
      cases first with
      | nil => cases items
      | cons other others =>
          rw [List.map_cons,List.map_cons,List.cons.injEq] at items
          obtain ⟨sameItem,sameItems⟩ := items
          have restAssigned : ∀ later ∈ rest, later.item.assignedLsn.isSome :=
            fun later member => assigned later (List.mem_cons_of_mem _ member)
          obtain ⟨lsn,lsnEq⟩ :=
            Option.isSome_iff_exists.mp (assigned piece List.mem_cons_self)
          rw [List.map_cons,List.map_cons,ih sameItems restAssigned]
          simp only [handrolledOfPiece,handrolledOfHead,sameItem,lsnEq,Option.getD_some]

theorem replayedFrom_append (fromLsn : Nat) (first second : List HandrolledWalRecord) :
    replayedFrom fromLsn (first ++ second) =
      replayedFrom fromLsn first ++ replayedFrom fromLsn second :=
  List.filter_append ..

theorem replayedFrom_uncovered {fromLsn : Nat} (later : coveredLsn ≤ fromLsn)
    (found : List (Piece WalHead)) :
    replayedFrom fromLsn ((uncovered coveredLsn found).map (handrolledOfPiece 0)) =
      replayedFrom fromLsn (found.map (handrolledOfPiece 0)) := by
  induction found with
  | nil => rfl
  | cons piece rest ih =>
      rw [uncovered_cons,List.map_cons]
      by_cases covered : (boundsOfPiece piece).lsn ≤ coveredLsn
      · have skipped : ¬ fromLsn < (handrolledOfPiece 0 piece).lsn := by
          rw [handrolledOfPiece_lsn]
          omega
        rw [if_pos covered,ih]
        simp only [replayedFrom,List.filter_cons,decide_eq_false skipped,Bool.false_eq_true,
          if_false]
      · rw [if_neg covered,List.map_cons]
        simp only [replayedFrom,List.filter_cons] at ih ⊢
        rw [ih]

theorem parse_copied_append (members : ∀ piece ∈ found, piece ∈ walHeadDecoder.pieces 0 data)
    (three : ∀ piece ∈ found, piece.item.version = 0x03) (more : List PushRecord) :
    parseHandrolledRecords (copied data found ++ pushCodec.encodeAll more) 0 =
      .ok (found.map (handrolledOfPiece 0) ++ more.map PushRecord.handrolled) := by
  have assigned : ∀ piece ∈ found, piece.item.assignedLsn.isSome := by
    intro piece member
    obtain ⟨_,_,_,decoded⟩ := walHeadDecoder.decode_interval 0 data piece (members piece member)
    exact (head_assignedLsn_isSome_iff decoded).mpr (three piece member)
  obtain ⟨fragments,bytes,items⟩ := RecordScan.exists_fragments_of_pieces _ members
  have scanned := (RecordScan.fragmentCodec walHeadDecoder).pieces_encodeAll_append 0 fragments
    (pushCodec.encodeAll more)
  have appended := pushCodec.pieces_encodeAll_append
    (0 + ((RecordScan.fragmentCodec walHeadDecoder).encodeAll fragments).length) more []
  rw [List.append_nil,pushCodec.decoder.pieces_nil,List.append_nil] at appended
  have placedItems := (RecordScan.fragmentCodec walHeadDecoder).map_item_placed 0 fragments
  change _ = fragments.map RecordScan.Fragment.item at placedItems
  rw [bytes] at scanned appended
  rw [parseHandrolledRecords_eq]
  change walHeadDecoder.pieces 0 (copied data found ++ _) = _ at scanned
  rw [scanned,List.map_append,
    map_handrolledOfPiece_of_items (placedItems.trans items) assigned]
  change Except.ok (_ ++ (pushCodec.decoder.pieces _ _).map _) = _
  rw [appended,map_handrolledOfPiece_placed]

/-- Whatever a successful compaction did, recovery replays from the new file what
it would have replayed from the old one, now and after further appends.  A
retained version-2 record makes it fail, and a failure leaves the file alone
unless it is that of the directory sync, which follows the rename. -/
theorem compaction_preserves_replay (outcome : FileOutcome) (data : List UInt8)
    (coveredLsn : Nat) :
    (∀ file stats, compactWalFile outcome data coveredLsn = (file,.ok stats) →
      ∀ fromLsn, coveredLsn ≤ fromLsn →
        (∃ kept original,
          parseHandrolledRecords file 0 = .ok kept ∧
            parseHandrolledRecords data 0 = .ok original ∧
            replayedFrom fromLsn kept = replayedFrom fromLsn original) ∧
        ∀ more : List PushRecord, ∃ parsed kept original,
          parseWalRecordBoundsWithPrefix data = .ok parsed ∧
            parseHandrolledRecords (file ++ pushCodec.encodeAll more) 0 = .ok kept ∧
            parseHandrolledRecords
              (data.take parsed.validPrefixLen ++ pushCodec.encodeAll more) 0 = .ok original ∧
            replayedFrom fromLsn kept = replayedFrom fromLsn original) ∧
      (∀ parsed bounds, parseWalRecordBoundsWithPrefix data = .ok parsed →
        bounds ∈ parsed.records → coveredLsn < bounds.lsn → bounds.version ≠ 0x03 →
          ∃ failure, compactWalFile outcome data coveredLsn = (data,.error failure)) ∧
      ∀ file failure, compactWalFile outcome data coveredLsn = (file,.error failure) →
        outcome .syncParentDir = none → file = data := by
  have members : ∀ piece ∈ uncovered coveredLsn (walHeadDecoder.pieces 0 data),
      piece ∈ walHeadDecoder.pieces 0 data :=
    fun piece member => List.mem_of_mem_filter member
  refine ⟨?_,?_,?_⟩
  · intro file stats compacted fromLsn later
    obtain ⟨three,shape⟩ := compactWalFile_ok compacted
    have afterAppend : ∀ more : List PushRecord, ∃ kept,
        parseHandrolledRecords (file ++ pushCodec.encodeAll more) 0 = .ok kept ∧
          replayedFrom fromLsn kept =
            replayedFrom fromLsn ((walHeadDecoder.pieces 0 data).map (handrolledOfPiece 0) ++
              more.map PushRecord.handrolled) := by
      intro more
      rcases shape with ⟨same,valid⟩ | copy
      · refine ⟨_,?_,rfl⟩
        have whole := parse_validPrefix_append data more 0
        rw [valid,List.take_length] at whole
        rw [same]
        exact whole
      · refine ⟨_,by rw [copy,parse_copied_append members three],?_⟩
        rw [replayedFrom_append,replayedFrom_append,replayedFrom_uncovered later]
    constructor
    · obtain ⟨kept,parsed,same⟩ := afterAppend []
      have none : pushCodec.encodeAll [] = [] := rfl
      rw [none,List.append_nil] at parsed
      rw [List.map_nil,List.append_nil] at same
      exact ⟨kept,_,parsed,parseHandrolledRecords_eq data 0,same⟩
    · intro more
      obtain ⟨kept,parsed,same⟩ := afterAppend more
      exact ⟨_,kept,_,parseWalRecordBoundsWithPrefix_eq data,parsed,
        parse_validPrefix_append data more 0,same⟩
  · intro parsed bounds parsedEq member retained legacy
    rw [parseWalRecordBoundsWithPrefix_eq] at parsedEq
    cases parsedEq
    obtain ⟨piece,found,rfl⟩ := List.mem_map.mp member
    exact compactWalFile_legacy found retained legacy
  · intro file failure compacted synced
    exact compactWalFile_error synced compacted

/-- A log of two pushes, compacted up to the first. -/
theorem compaction_preserves_replay_sample :
    ∃ file stats,
      compactWalFile (fun _ => none)
          (pushCodec.encodeAll [samplePush 31 (by decide),samplePush 62 (by decide)]) 31 =
          (file,.ok stats) ∧
        ∃ kept original,
          parseHandrolledRecords file 0 = .ok kept ∧
            parseHandrolledRecords
              (pushCodec.encodeAll [samplePush 31 (by decide),samplePush 62 (by decide)]) 0 =
                .ok original ∧
            replayedFrom 31 kept = replayedFrom 31 original := by
  obtain ⟨file,stats,compacted⟩ := compactWalFile_pushes
    [samplePush 31 (by decide),samplePush 62 (by decide)] 31
  have replayed := (compaction_preserves_replay (fun _ => none)
    (pushCodec.encodeAll [samplePush 31 (by decide),samplePush 62 (by decide)]) 31).1
      file stats compacted 31 (Nat.le_refl 31)
  exact ⟨file,stats,compacted,replayed.1⟩

end Beava.Wal
