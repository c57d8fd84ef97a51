/-
The worker of the registry log.

The worker numbers the records, appends them to the current segment file, answers
a per-event request after the fsync of its batch, starts a new file when the
current one is full, and deletes files whose records are covered, judging by the
file names alone.

Every operation of the file system may fail, and how it does is part of the step.
Numbers are 64 bits wide and wrap.
-/

import Beava.Lib.Machine
import Beava.Persistence.Record
import Mathlib.Data.List.Sort

namespace Beava.Persistence

structure LogFile where
  startLsn : UInt64
  registryVersion : UInt32
  headerWhole : Bool
  records : List WalRecord
  tornBytes : Bool

/-- `list_segments`. -/
def listSegments (files : List LogFile) : List LogFile :=
  files.insertionSort fun first second => first.startLsn ≤ second.startLsn

inductive OpenIo where
  | ok
  | failed
  | failedAfterCreate (headerWhole : Bool)
  deriving DecidableEq, Repr

/-- `WalWriter::open`: a new file, or one that is exactly the header asked for. -/
def openWriter (files : List LogFile) (startLsn : UInt64) (registryVersion : UInt32) (io : OpenIo) :
    Bool × List LogFile :=
  match files.find? fun file => file.startLsn = startLsn with
  | none =>
      match io with
      | .ok => (true,files ++ [⟨startLsn,registryVersion,true,[],false⟩])
      | .failed => (false,files)
      | .failedAfterCreate headerWhole =>
          (false,files ++ [⟨startLsn,registryVersion,headerWhole,[],false⟩])
  | some file =>
      (file.headerWhole && file.records.isEmpty && !file.tornBytes &&
        file.registryVersion = registryVersion && io = .ok,files)

/-- The deletions of `truncate_up_to` on the listed segments, of which so many
succeed before one fails. -/
def truncateFrom (currentStartLsn coveredLsn : UInt64) : List LogFile → Nat → List LogFile
  | [], _ => []
  | [last], _ => [last]
  | segment :: next :: rest, removals =>
      if segment.startLsn ≠ currentStartLsn ∧ next.startLsn ≤ coveredLsn then
        match removals with
        | 0 => segment :: next :: rest
        | removals + 1 => truncateFrom currentStartLsn coveredLsn (next :: rest) removals
      else segment :: truncateFrom currentStartLsn coveredLsn (next :: rest) removals

theorem truncateFrom_cons (currentStartLsn coveredLsn : UInt64) (segment next : LogFile)
    (rest : List LogFile) (removals : Nat) :
    truncateFrom currentStartLsn coveredLsn (segment :: next :: rest) removals =
      if segment.startLsn ≠ currentStartLsn ∧ next.startLsn ≤ coveredLsn then
        match removals with
        | 0 => segment :: next :: rest
        | removals + 1 => truncateFrom currentStartLsn coveredLsn (next :: rest) removals
      else segment :: truncateFrom currentStartLsn coveredLsn (next :: rest) removals := by
  cases removals <;> rfl

def truncateUpTo (files : List LogFile) (currentStartLsn coveredLsn : UInt64) (removals : Nat) :
    List LogFile :=
  truncateFrom currentStartLsn coveredLsn (listSegments files) removals

/-! ### The worker -/

inductive SyncMode where
  | periodic
  | perEvent
  deriving DecidableEq, Repr

structure AppendRequest where
  recordType : RecordType
  payload : List UInt8
  minLsn : UInt64
  mode : SyncMode
  deriving DecidableEq, Repr

def AppendRequest.record (request : AppendRequest) (lsn : UInt64) : WalRecord :=
  ⟨lsn,request.recordType,request.payload⟩

structure WalSinkConfig where
  initialStartLsn : UInt64
  initialRegistryVersion : UInt32
  fsyncBytes : Nat
  segmentBytes : Nat

structure PendingFsync where
  lsn : UInt64
  request : AppendRequest

inductive Event where
  | synced (records : List WalRecord)
  | answered (request : AppendRequest) (lsn : Option UInt64)

structure LogWorker where
  files : List LogFile
  writerStartLsn : UInt64
  bytesSinceHeader : Nat
  pending : List PendingFsync
  stagedBytes : Nat
  nextLsn : UInt64
  currentStartLsn : UInt64
  durableLsn : UInt64
  stopped : Bool
  trace : List Event

inductive RotateIo where
  | syncFailed
  | opened (io : OpenIo)
  deriving DecidableEq, Repr

structure FsyncIo where
  syncOk : Bool
  rotate : RotateIo
  deriving DecidableEq, Repr

inductive AppendIo where
  | ok
  | failed (leftPart : Bool)
  deriving DecidableEq, Repr

inductive WorkerAction where
  | truncate (coveredLsn : UInt64) (removals : Nat) (io : FsyncIo)
  | append (request : AppendRequest) (io : AppendIo) (fsyncIo : FsyncIo)
  | tick (io : FsyncIo)
  /-- `Shutdown`, or the end of a channel. -/
  | stop (io : FsyncIo)

namespace LogWorker

/-- `WalSink::spawn`. -/
def spawn (cfg : WalSinkConfig) (files : List LogFile) (io : OpenIo) : Option LogWorker :=
  match openWriter files cfg.initialStartLsn cfg.initialRegistryVersion io with
  | (false,_) => none
  | (true,opened) =>
      some
        { files := opened
          writerStartLsn := cfg.initialStartLsn
          bytesSinceHeader := 0
          pending := []
          stagedBytes := 0
          nextLsn := cfg.initialStartLsn
          currentStartLsn := cfg.initialStartLsn
          durableLsn := UInt64.ofNat (cfg.initialStartLsn.toNat - 1)
          stopped := false
          trace := [] }

def encodedSize (payloadLen : Nat) : Nat := 4 + 4 + 8 + 1 + payloadLen

/-- `WalWriter::append` on the file that is written to. -/
def onCurrent (change : LogFile → LogFile) (worker : LogWorker) : LogWorker :=
  { worker with
    files := worker.files.map fun file =>
      if file.startLsn = worker.writerStartLsn then change file else file }

def currentRecords (worker : LogWorker) : List WalRecord :=
  (worker.files.filter fun file => file.startLsn = worker.writerStartLsn).flatMap LogFile.records

/-- `stage_request`. -/
def stageRequest (request : AppendRequest) (io : AppendIo) (worker : LogWorker) : LogWorker :=
  let lsn := max worker.nextLsn request.minLsn
  let numbered := { worker with nextLsn := lsn + 1 }
  match io with
  | .failed leftPart =>
      let torn := numbered.onCurrent fun file =>
        { file with tornBytes := file.tornBytes || leftPart }
      { torn with trace := torn.trace ++ [.answered request none] }
  | .ok =>
      let appended := numbered.onCurrent fun file =>
        { file with records := file.records ++ [request.record lsn] }
      let staged :=
        { appended with
          bytesSinceHeader := appended.bytesSinceHeader + encodedSize request.payload.length
          stagedBytes := appended.stagedBytes + encodedSize request.payload.length }
      match request.mode with
      | .periodic => { staged with trace := staged.trace ++ [.answered request (some lsn)] }
      | .perEvent => { staged with pending := staged.pending ++ [⟨lsn,request⟩] }

/-- `rotate`, and the new start when it succeeds. -/
def rotate (cfg : WalSinkConfig) (io : RotateIo) (worker : LogWorker) : LogWorker :=
  match io with
  | .syncFailed => worker
  | .opened io =>
      let newStart := worker.nextLsn
      match openWriter worker.files newStart cfg.initialRegistryVersion io with
      | (false,files) => { worker with files := files }
      | (true,files) =>
          { worker with
            files := files
            writerStartLsn := newStart
            bytesSinceHeader := 0
            currentStartLsn := newStart }

/-- `fsync_batch`. -/
def fsyncBatch (cfg : WalSinkConfig) (io : FsyncIo) (worker : LogWorker) : LogWorker :=
  if worker.stagedBytes = 0 && worker.pending.isEmpty then worker
  else if io.syncOk then
    let synced :=
      { worker with
        durableLsn := UInt64.ofNat (worker.nextLsn.toNat - 1)
        pending := []
        stagedBytes := 0
        trace := worker.trace ++ .synced worker.currentRecords ::
          worker.pending.map fun waiting => .answered waiting.request (some waiting.lsn) }
    if cfg.segmentBytes ≤ synced.bytesSinceHeader then synced.rotate cfg io.rotate else synced
  else
    { worker with
      pending := []
      stagedBytes := 0
      trace := worker.trace ++ worker.pending.map fun waiting => .answered waiting.request none }

/-- One turn of `worker_loop`. -/
def next (cfg : WalSinkConfig) (worker : LogWorker) (action : WorkerAction) : LogWorker :=
  if worker.stopped then worker
  else
    let forceNow := decide (cfg.fsyncBytes ≤ worker.stagedBytes)
    match action with
    | .truncate coveredLsn removals io =>
        let truncated :=
          { worker with
            files := truncateUpTo worker.files worker.currentStartLsn coveredLsn removals }
        if forceNow then truncated.fsyncBatch cfg io else truncated
    | .append request appendIo io =>
        let staged := worker.stageRequest request appendIo
        if cfg.fsyncBytes ≤ staged.stagedBytes || forceNow then staged.fsyncBatch cfg io else staged
    | .tick io => if 0 < worker.stagedBytes || forceNow then worker.fsyncBatch cfg io else worker
    | .stop io => { worker.fsyncBatch cfg io with stopped := true }

end LogWorker

/-- What the names of the segments promise of their records. -/
structure InOrder (segments : List LogFile) : Prop where
  increasing : (segments.flatMap LogFile.records).Pairwise fun first second =>
    first.lsn < second.lsn
  within : ∀ index segment, segments[index]? = some segment → ∀ rec ∈ segment.records,
    segment.startLsn ≤ rec.lsn ∧
      ∀ next, segments[index + 1]? = some next → rec.lsn < next.startLsn

structure Ascending (files : List LogFile) : Prop where
  between : files.Pairwise fun first second =>
    first.startLsn < second.startLsn ∧ ∀ rec ∈ first.records, rec.lsn < second.startLsn
  inside : ∀ file ∈ files, (file.records.Pairwise fun first second => first.lsn < second.lsn) ∧
    ∀ rec ∈ file.records, file.startLsn ≤ rec.lsn

variable {files : List LogFile}

theorem Ascending.listSegments_eq (ascending : Ascending files) : listSegments files = files :=
  List.Pairwise.insertionSort_eq (ascending.between.imp fun both => UInt64.le_of_lt both.1)

theorem Ascending.sublist {fewer : List LogFile} (ascending : Ascending files)
    (isSublist : fewer.Sublist files) : Ascending fewer :=
  ⟨ascending.between.sublist isSublist,
    fun file member => ascending.inside file (isSublist.subset member)⟩

theorem Ascending.inOrder (ascending : Ascending files) : InOrder (listSegments files) := by
  rw [ascending.listSegments_eq]
  constructor
  · rw [List.pairwise_flatMap]
    refine ⟨fun file member => (ascending.inside file member).1,?_⟩
    refine ascending.between.imp_of_mem ?_
    intro first second _ inSecond both rec inFirst other inOther
    exact UInt64.lt_of_lt_of_le (both.2 rec inFirst) ((ascending.inside second inSecond).2 other inOther)
  · intro index segment isSegment rec inSegment
    have member := List.mem_of_getElem? isSegment
    refine ⟨(ascending.inside segment member).2 rec inSegment,?_⟩
    intro next isNext
    obtain ⟨inRange,rfl⟩ := List.getElem?_eq_some_iff.mp isSegment
    obtain ⟨nextInRange,rfl⟩ := List.getElem?_eq_some_iff.mp isNext
    exact (List.pairwise_iff_getElem.mp ascending.between index (index + 1) inRange nextInRange
      (Nat.lt_succ_self index)).2 rec inSegment

theorem mem_truncateFrom {currentStartLsn coveredLsn : UInt64} {segments : List LogFile}
    (ascending : Ascending segments) (removals : Nat) {segment : LogFile}
    (member : segment ∈ segments)
    (needed : segment.startLsn = currentStartLsn ∨ ∃ rec ∈ segment.records, coveredLsn ≤ rec.lsn) :
    segment ∈ truncateFrom currentStartLsn coveredLsn segments removals := by
  induction segments generalizing removals with
  | nil => cases member
  | cons first rest ih =>
      cases rest with
      | nil =>
          rw [truncateFrom]
          exact member
      | cons second others =>
          have later : Ascending (second :: others) :=
            ascending.sublist (List.sublist_cons_self first _)
          rw [truncateFrom_cons]
          split
          · rename_i deletable
            cases removals with
            | zero => exact member
            | succ removals =>
                rcases List.mem_cons.mp member with rfl | inRest
                · -- Its records are below the start of the next segment.
                  rcases needed with isCurrent | ⟨rec,inSegment,covered⟩
                  · exact absurd isCurrent deletable.1
                  · have below := ((List.pairwise_cons.mp ascending.between).1 second
                      List.mem_cons_self).2 rec inSegment
                    have := deletable.2
                    rw [UInt64.lt_iff_toNat_lt] at below
                    rw [UInt64.le_iff_toNat_le] at this covered
                    omega
                · exact ih later removals inRest
          · rcases List.mem_cons.mp member with rfl | inRest
            · exact List.mem_cons_self
            · exact List.mem_cons_of_mem _ (ih later removals inRest)

theorem truncateFrom_last (currentStartLsn coveredLsn : UInt64) (removals : Nat)
    (closed : List LogFile) (last : LogFile) :
    ∃ kept, kept.Sublist closed ∧
      truncateFrom currentStartLsn coveredLsn (closed ++ [last]) removals = kept ++ [last] := by
  induction closed generalizing removals with
  | nil =>
      refine ⟨[],List.Sublist.refl [],?_⟩
      rw [List.nil_append,truncateFrom]
  | cons first rest ih =>
      obtain ⟨second,others,isCons⟩ : ∃ second others, rest ++ [last] = second :: others := by
        cases rest with
        | nil => exact ⟨last,[],rfl⟩
        | cons second others => exact ⟨second,others ++ [last],rfl⟩
      rw [List.cons_append,isCons,truncateFrom_cons,← isCons]
      split
      · cases removals with
        | zero => exact ⟨first :: rest,List.Sublist.refl _,by rw [List.cons_append,isCons]⟩
        | succ removals =>
            obtain ⟨kept,isSublist,same⟩ := ih removals
            exact ⟨kept,isSublist.cons first,same⟩
      · obtain ⟨kept,isSublist,same⟩ := ih removals
        exact ⟨first :: kept,isSublist.cons_cons first,by rw [same,List.cons_append]⟩

/-- Before a per-event request is answered with an LSN, there is a successful fsync
of a file that has its record under this LSN. -/
def AckedAfterSync (trace : List Event) : Prop :=
  ∀ before after request lsn, trace = before ++ .answered request (some lsn) :: after →
    request.mode = .perEvent →
      ∃ records, .synced records ∈ before ∧ request.record lsn ∈ records

def Event.MayFollow (trace : List Event) : Event → Prop
  | .answered request (some lsn) => request.mode = .perEvent →
      ∃ records, .synced records ∈ trace ∧ request.record lsn ∈ records
  | _ => True

theorem AckedAfterSync.concat {trace : List Event} (acked : AckedAfterSync trace) {event : Event}
    (mayFollow : event.MayFollow trace) : AckedAfterSync (trace ++ [event]) := by
  intro before after request lsn isSplit perEvent
  rcases List.eq_nil_or_concat after with rfl | ⟨others,last,rfl⟩
  · obtain ⟨rfl,isEvent⟩ := List.append_inj' isSplit rfl
    cases isEvent
    exact mayFollow perEvent
  · rw [List.concat_eq_append,← List.cons_append,← List.append_assoc] at isSplit
    exact acked before others request lsn (List.append_inj' isSplit rfl).1 perEvent

theorem AckedAfterSync.append {trace : List Event} (acked : AckedAfterSync trace)
    {events : List Event} (mayFollow : ∀ event ∈ events, event.MayFollow trace) :
    AckedAfterSync (trace ++ events) := by
  induction events generalizing trace with
  | nil =>
      rw [List.append_nil]
      exact acked
  | cons event rest ih =>
      rw [List.append_cons]
      apply ih (acked.concat (mayFollow event List.mem_cons_self))
      intro other member
      have earlier := mayFollow other (List.mem_cons_of_mem _ member)
      unfold Event.MayFollow at earlier ⊢
      split at earlier
      · intro perEvent
        obtain ⟨records,isSynced,inRecords⟩ := earlier perEvent
        exact ⟨records,List.mem_append_left _ isSynced,inRecords⟩
      · trivial

section Files

variable {closed : List LogFile} {last : LogFile} {startLsn : UInt64}

theorem Ascending.startLsn_lt (ascending : Ascending (closed ++ [last])) :
    ∀ file ∈ closed, file.startLsn < last.startLsn ∧ ∀ rec ∈ file.records, rec.lsn < last.startLsn := by
  intro file member
  exact (List.pairwise_append.mp ascending.between).2.2 file member last List.mem_cons_self

theorem Ascending.map_last (ascending : Ascending (closed ++ [last]))
    (isLast : last.startLsn = startLsn) (change : LogFile → LogFile) :
    ((closed ++ [last]).map fun file => if file.startLsn = startLsn then change file else file) =
      closed ++ [change last] := by
  have others : (closed.map fun file =>
      if file.startLsn = startLsn then change file else file) = closed.map id := by
    apply List.map_congr_left
    intro file member
    have less := (ascending.startLsn_lt file member).1
    rw [isLast] at less
    exact if_neg (UInt64.ne_of_lt less)
  rw [List.map_append,List.map_singleton,if_pos isLast,others,List.map_id]

theorem Ascending.filter_last (ascending : Ascending (closed ++ [last]))
    (isLast : last.startLsn = startLsn) :
    ((closed ++ [last]).filter fun file => file.startLsn = startLsn) = [last] := by
  have others : (closed.filter fun file => file.startLsn = startLsn) = [] := by
    apply List.filter_eq_nil_iff.mpr
    intro file member same
    have less := (ascending.startLsn_lt file member).1
    rw [isLast,of_decide_eq_true same] at less
    exact absurd less (UInt64.lt_irrefl _)
  rw [List.filter_append,others,List.nil_append,List.filter_singleton,decide_eq_true isLast]
  rfl

theorem Ascending.record (ascending : Ascending (closed ++ [last])) {rec : WalRecord}
    (started : last.startLsn ≤ rec.lsn) (larger : ∀ other ∈ last.records, other.lsn < rec.lsn)
    {after : LogFile} (sameStart : after.startLsn = last.startLsn)
    (isAppended : after.records = last.records ++ [rec]) : Ascending (closed ++ [after]) := by
  have before := List.pairwise_append.mp ascending.between
  have inLast := ascending.inside last (List.mem_append_right _ List.mem_cons_self)
  constructor
  · rw [List.pairwise_append]
    refine ⟨before.1,List.pairwise_singleton _ _,?_⟩
    intro file member other isAfter
    rw [List.mem_singleton.mp isAfter,sameStart]
    exact ascending.startLsn_lt file member
  · intro file member
    rcases List.mem_append.mp member with inClosed | isAfter
    · exact ascending.inside file (List.mem_append_left _ inClosed)
    · rw [List.mem_singleton.mp isAfter,isAppended,sameStart]
      constructor
      · rw [List.pairwise_append]
        refine ⟨inLast.1,List.pairwise_singleton _ _,?_⟩
        intro other inRecords added isAdded
        rw [List.mem_singleton.mp isAdded]
        exact larger other inRecords
      · intro other inRecords
        rcases List.mem_append.mp inRecords with earlier | isAdded
        · exact inLast.2 other earlier
        · rw [List.mem_singleton.mp isAdded]
          exact started

theorem Ascending.newFile {files : List LogFile} (ascending : Ascending files) (file : LogFile)
    (behind : ∀ other ∈ files,
      other.startLsn < file.startLsn ∧ ∀ rec ∈ other.records, rec.lsn < file.startLsn)
    (noRecords : file.records = []) : Ascending (files ++ [file]) := by
  constructor
  · rw [List.pairwise_append]
    refine ⟨ascending.between,List.pairwise_singleton _ _,?_⟩
    intro other member new isNew
    rw [List.mem_singleton.mp isNew]
    exact behind other member
  · intro other member
    rcases List.mem_append.mp member with earlier | isNew
    · exact ascending.inside other earlier
    · rw [List.mem_singleton.mp isNew,noRecords]
      exact ⟨List.Pairwise.nil,by intro rec isRecord; cases isRecord⟩

end Files

/-! ### The invariant -/

namespace LogWorker

/-- The last file is the current one, and the counter is above everything. -/
structure Sound (worker : LogWorker) : Prop where
  ascending : Ascending worker.files
  current : ∃ closed last, worker.files = closed ++ [last] ∧
    last.startLsn = worker.currentStartLsn
  writer : worker.writerStartLsn = worker.currentStartLsn
  started : worker.currentStartLsn ≤ worker.nextLsn
  below : ∀ file ∈ worker.files, ∀ rec ∈ file.records, rec.lsn < worker.nextLsn
  busy : 0 < worker.stagedBytes ∨ worker.pending ≠ [] → worker.currentStartLsn < worker.nextLsn
  waiting : ∀ waiting ∈ worker.pending,
    waiting.request.record waiting.lsn ∈ worker.currentRecords
  acked : AckedAfterSync worker.trace

def FsyncIo.LeavesNoFile (io : FsyncIo) : Prop :=
  ∀ headerWhole, io.rotate ≠ .opened (.failedAfterCreate headerWhole)

/-- The counter of the LSNs is not used up, and no rotation leaves a file behind. -/
def SafeStep (worker : LogWorker) : WorkerAction → Prop
  | .append request _ io =>
      (max worker.nextLsn request.minLsn).toNat + 1 < 2 ^ 64 ∧ FsyncIo.LeavesNoFile io
  | .truncate _ _ io => FsyncIo.LeavesNoFile io
  | .tick io => FsyncIo.LeavesNoFile io
  | .stop io => FsyncIo.LeavesNoFile io

section Steps

variable {cfg : WalSinkConfig} {worker : LogWorker}

variable {closed : List LogFile} {last : LogFile}

theorem Sound.currentRecords_eq (sound : Sound worker) (isFiles : worker.files = closed ++ [last])
    (isLast : last.startLsn = worker.currentStartLsn) : worker.currentRecords = last.records := by
  have ascending := sound.ascending
  rw [isFiles] at ascending
  rw [currentRecords,isFiles,ascending.filter_last (isLast.trans sound.writer.symm),
    List.flatMap_singleton]

theorem Sound.truncate (sound : Sound worker) (coveredLsn : UInt64) (removals : Nat) :
    Sound { worker with
      files := truncateUpTo worker.files worker.currentStartLsn coveredLsn removals } := by
  obtain ⟨closed,last,isFiles,isLast⟩ := sound.current
  obtain ⟨kept,isSublist,same⟩ :=
    truncateFrom_last worker.currentStartLsn coveredLsn removals closed last
  have isKept : truncateUpTo worker.files worker.currentStartLsn coveredLsn removals =
      kept ++ [last] := by
    rw [truncateUpTo,sound.ascending.listSegments_eq,isFiles,same]
  have fewer : (kept ++ [last]).Sublist worker.files := by
    rw [isFiles]
    exact isSublist.append (List.Sublist.refl _)
  have ascending : Ascending (kept ++ [last]) := sound.ascending.sublist fewer
  rw [isKept]
  refine ⟨ascending,⟨kept,last,rfl,isLast⟩,sound.writer,sound.started,?_,sound.busy,?_,
    sound.acked⟩
  · intro file member
    exact sound.below file (fewer.subset member)
  · intro waiting member
    have inCurrent := sound.waiting waiting member
    rw [sound.currentRecords_eq isFiles isLast] at inCurrent
    simp only [currentRecords,ascending.filter_last (isLast.trans sound.writer.symm),
      List.flatMap_singleton]
    exact inCurrent

theorem nextLsn_lt {next floor : UInt64} (room : (max next floor).toNat + 1 < 2 ^ 64) :
    next ≤ max next floor ∧ max next floor < max next floor + 1 := by
  constructor
  · show next ≤ if next ≤ floor then floor else next
    split
    · assumption
    · exact UInt64.le_refl next
  · rw [UInt64.lt_iff_toNat_lt,UInt64.toNat_add]
    show _ < (_ + 1) % 2 ^ 64
    rw [Nat.mod_eq_of_lt room]
    exact Nat.lt_succ_self _

theorem Sound.current_changed (sound : Sound worker) (isFiles : worker.files = closed ++ [last])
    (isLast : last.startLsn = worker.currentStartLsn) (after : LogFile)
    (sameStart : after.startLsn = last.startLsn) {lsn : UInt64} (atLeast : worker.nextLsn ≤ lsn)
    (passes : lsn < lsn + 1) {added : List WalRecord}
    (isAfter : after.records = last.records ++ added)
    (isAdded : added = [] ∨ ∃ rec, added = [rec] ∧ rec.lsn = lsn) :
    Ascending (closed ++ [after]) ∧ worker.currentStartLsn ≤ lsn + 1 ∧
      worker.currentStartLsn < lsn + 1 ∧
      ∀ file ∈ closed ++ [after], ∀ rec ∈ file.records, rec.lsn < lsn + 1 := by
  have ascending := sound.ascending
  rw [isFiles] at ascending
  have started : worker.currentStartLsn < lsn + 1 :=
    UInt64.lt_of_le_of_lt (UInt64.le_trans sound.started atLeast) passes
  have earlier : ∀ file ∈ closed ++ [last], ∀ rec ∈ file.records, rec.lsn < lsn := by
    intro file member rec inFile
    exact UInt64.lt_of_lt_of_le (sound.below file (isFiles ▸ member) rec inFile) atLeast
  have inLast := earlier last (List.mem_append_right _ List.mem_cons_self)
  have below : ∀ rec ∈ after.records, rec.lsn < lsn + 1 := by
    intro rec inAfter
    rw [isAfter] at inAfter
    rcases List.mem_append.mp inAfter with inRecords | inAdded
    · exact UInt64.lt_trans (inLast rec inRecords) passes
    · rcases isAdded with rfl | ⟨other,rfl,rfl⟩
      · cases inAdded
      · rw [List.mem_singleton.mp inAdded]
        exact passes
  refine ⟨?_,UInt64.le_of_lt started,started,?_⟩
  · rcases isAdded with rfl | ⟨rec,rfl,rfl⟩
    · rw [List.append_nil] at isAfter
      have before := List.pairwise_append.mp ascending.between
      refine ⟨?_,?_⟩
      · rw [List.pairwise_append]
        refine ⟨before.1,List.pairwise_singleton _ _,?_⟩
        intro file member other isOther
        rw [List.mem_singleton.mp isOther,sameStart]
        exact ascending.startLsn_lt file member
      · intro file member
        rcases List.mem_append.mp member with inClosed | isOther
        · exact ascending.inside file (List.mem_append_left _ inClosed)
        · rw [List.mem_singleton.mp isOther,isAfter,sameStart]
          exact ascending.inside last (List.mem_append_right _ List.mem_cons_self)
    · refine ascending.record ?_ inLast sameStart isAfter
      rw [isLast]
      exact UInt64.le_trans sound.started atLeast
  · intro file member
    rcases List.mem_append.mp member with inClosed | isOther
    · intro rec inFile
      exact UInt64.lt_trans (earlier file (List.mem_append_left _ inClosed) rec inFile) passes
    · rw [List.mem_singleton.mp isOther]
      exact below

theorem onCurrent_eq (worker : LogWorker) (isFiles : worker.files = closed ++ [last])
    (ascending : Ascending (closed ++ [last])) (isWriter : last.startLsn = worker.writerStartLsn)
    (change : LogFile → LogFile) :
    worker.onCurrent change = { worker with files := closed ++ [change last] } := by
  rw [onCurrent,isFiles,ascending.map_last isWriter]

theorem Sound.stageRequest (sound : Sound worker) (request : AppendRequest) (io : AppendIo)
    (room : (max worker.nextLsn request.minLsn).toNat + 1 < 2 ^ 64) :
    Sound (worker.stageRequest request io) := by
  obtain ⟨closed,last,isFiles,isLast⟩ := sound.current
  obtain ⟨atLeast,passes⟩ := nextLsn_lt room
  have isWriter : last.startLsn = worker.writerStartLsn := isLast.trans sound.writer.symm
  have ascending := sound.ascending
  rw [isFiles] at ascending
  cases io with
  | failed leftPart =>
      obtain ⟨later,started,passed,below⟩ := sound.current_changed isFiles isLast
        { last with tornBytes := last.tornBytes || leftPart } rfl atLeast passes
        (List.append_nil _).symm (.inl rfl)
      simp only [LogWorker.stageRequest]
      rw [onCurrent_eq { worker with nextLsn := max worker.nextLsn request.minLsn + 1 } isFiles
        ascending isWriter]
      refine ⟨later,⟨closed,_,rfl,isLast⟩,sound.writer,started,below,fun _ => passed,?_,
        sound.acked.concat trivial⟩
      intro waiting member
      have inCurrent := sound.waiting waiting member
      rw [sound.currentRecords_eq isFiles isLast] at inCurrent
      simp only [currentRecords,later.filter_last isWriter,List.flatMap_singleton]
      exact inCurrent
  | ok =>
      obtain ⟨later,started,passed,below⟩ := sound.current_changed isFiles isLast
        { last with
          records := last.records ++ [request.record (max worker.nextLsn request.minLsn)] }
        rfl atLeast passes rfl (.inr ⟨_,rfl,rfl⟩)
      have waiting : ∀ waiting ∈ worker.pending, waiting.request.record waiting.lsn ∈
          last.records ++ [request.record (max worker.nextLsn request.minLsn)] := by
        intro waiting member
        have inCurrent := sound.waiting waiting member
        rw [sound.currentRecords_eq isFiles isLast] at inCurrent
        exact List.mem_append_left _ inCurrent
      simp only [LogWorker.stageRequest]
      rw [onCurrent_eq { worker with nextLsn := max worker.nextLsn request.minLsn + 1 } isFiles
        ascending isWriter]
      cases isMode : request.mode with
      | periodic =>
          refine ⟨later,⟨closed,_,rfl,isLast⟩,sound.writer,started,below,fun _ => passed,
            ?_,sound.acked.concat ?_⟩
          · simp only [currentRecords,later.filter_last isWriter,List.flatMap_singleton]
            exact waiting
          · intro perEvent
            rw [isMode] at perEvent
            cases perEvent
      | perEvent =>
          refine ⟨later,⟨closed,_,rfl,isLast⟩,sound.writer,started,below,fun _ => passed,
            ?_,sound.acked⟩
          simp only [currentRecords,later.filter_last isWriter,List.flatMap_singleton]
          intro other member
          rcases List.mem_append.mp member with earlier | isNew
          · exact waiting other earlier
          · rw [List.mem_singleton.mp isNew]
            exact List.mem_append_right _ List.mem_cons_self

theorem Sound.behind (sound : Sound worker) (used : worker.currentStartLsn < worker.nextLsn) :
    ∀ file ∈ worker.files, file.startLsn < worker.nextLsn ∧
      ∀ rec ∈ file.records, rec.lsn < worker.nextLsn := by
  obtain ⟨closed,last,isFiles,isLast⟩ := sound.current
  intro file member
  refine ⟨?_,sound.below file member⟩
  have ascending := sound.ascending
  rw [isFiles] at ascending member
  rcases List.mem_append.mp member with inClosed | isOther
  · have less := (ascending.startLsn_lt file inClosed).1
    rw [isLast] at less
    exact UInt64.lt_trans less used
  · rw [List.mem_singleton.mp isOther,isLast]
    exact used

theorem Sound.rotate (sound : Sound worker) (used : worker.currentStartLsn < worker.nextLsn)
    (noPending : worker.pending = []) (noStaged : worker.stagedBytes = 0) (io : RotateIo)
    (leaves : ∀ headerWhole, io ≠ .opened (.failedAfterCreate headerWhole)) :
    Sound (worker.rotate cfg io) := by
  cases io with
  | syncFailed => exact sound
  | opened io =>
      have behind := sound.behind used
      have noFile : (worker.files.find? fun file => file.startLsn = worker.nextLsn) = none := by
        apply List.find?_eq_none.mpr
        intro file member same
        have less := (behind file member).1
        rw [of_decide_eq_true same] at less
        exact absurd less (UInt64.lt_irrefl _)
      cases io with
      | failed =>
          simp only [LogWorker.rotate,openWriter,noFile]
          exact sound
      | failedAfterCreate headerWhole => exact absurd rfl (leaves headerWhole)
      | ok =>
          simp only [LogWorker.rotate,openWriter,noFile]
          have ascending := sound.ascending.newFile
            ⟨worker.nextLsn,cfg.initialRegistryVersion,true,[],false⟩ behind rfl
          refine ⟨ascending,⟨worker.files,_,rfl,rfl⟩,rfl,UInt64.le_refl _,?_,?_,?_,
            sound.acked⟩
          · intro file member
            rcases List.mem_append.mp member with earlier | isNew
            · exact sound.below file earlier
            · rw [List.mem_singleton.mp isNew]
              intro rec isRecord
              cases isRecord
          · intro busy
            rcases busy with staged | waiting
            · exact absurd noStaged (Nat.ne_of_gt staged)
            · exact absurd noPending waiting
          · intro waiting member
            rw [noPending] at member
            cases member

theorem Sound.fsyncBatch (sound : Sound worker) (io : FsyncIo)
    (leaves : FsyncIo.LeavesNoFile io) : Sound (worker.fsyncBatch cfg io) := by
  rw [LogWorker.fsyncBatch]
  split
  · exact sound
  · rename_i isBusy
    have used : worker.currentStartLsn < worker.nextLsn := by
      apply sound.busy
      by_contra idle
      rw [not_or,not_lt,Nat.le_zero,not_not] at idle
      apply isBusy
      rw [idle.1,idle.2]
      rfl
    have idle : ∀ rest : List Event, AckedAfterSync (worker.trace ++ rest) →
        ∀ durable : UInt64, Sound { worker with
          durableLsn := durable, pending := [], stagedBytes := 0, trace := worker.trace ++ rest } := by
      intro rest acked durable
      refine ⟨sound.ascending,sound.current,sound.writer,sound.started,sound.below,?_,?_,acked⟩
      · intro _
        exact used
      · intro waiting member
        cases member
    split
    · -- The answers follow the sync of the records they are about.
      have acked : AckedAfterSync (worker.trace ++ .synced worker.currentRecords ::
          worker.pending.map fun waiting => .answered waiting.request (some waiting.lsn)) := by
        rw [List.append_cons]
        have synced : AckedAfterSync (worker.trace ++ [.synced worker.currentRecords]) :=
          sound.acked.concat (by trivial)
        apply synced.append
        intro event isAnswer
        obtain ⟨waiting,member,rfl⟩ := List.mem_map.mp isAnswer
        intro _
        exact ⟨worker.currentRecords,List.mem_append_right _ List.mem_cons_self,
          sound.waiting waiting member⟩
      have synced := idle _ acked (UInt64.ofNat (worker.nextLsn.toNat - 1))
      dsimp only
      split
      · apply Sound.rotate synced used rfl rfl
        exact leaves
      · exact synced
    · have acked : AckedAfterSync (worker.trace ++
          worker.pending.map fun waiting => .answered waiting.request none) := by
        apply sound.acked.append
        intro event isAnswer
        obtain ⟨waiting,member,rfl⟩ := List.mem_map.mp isAnswer
        trivial
      exact idle _ acked worker.durableLsn

theorem Sound.next (sound : Sound worker) {action : WorkerAction} (safe : SafeStep worker action) :
    Sound (worker.next cfg action) := by
  rw [LogWorker.next]
  split
  · exact sound
  · cases action with
    | truncate coveredLsn removals io =>
        have truncated := sound.truncate coveredLsn removals
        dsimp only
        split
        · exact truncated.fsyncBatch io safe
        · exact truncated
    | append request appendIo io =>
        have staged := sound.stageRequest request appendIo safe.1
        dsimp only
        split
        · exact staged.fsyncBatch io safe.2
        · exact staged
    | tick io =>
        dsimp only
        split
        · exact sound.fsyncBatch io safe
        · exact sound
    | stop io =>
        have flushed : Sound (worker.fsyncBatch cfg io) := sound.fsyncBatch io safe
        exact ⟨flushed.ascending,flushed.current,flushed.writer,flushed.started,flushed.below,
          flushed.busy,flushed.waiting,flushed.acked⟩

end Steps

/-! ### Every run -/

/-- The files a boot finds lie behind the first LSN it hands out; a file of an
earlier boot may sit at that LSN. -/
structure Directory (cfg : WalSinkConfig) (files : List LogFile) : Prop where
  ascending : Ascending files
  behind : ∀ file ∈ files,
    (file.startLsn < cfg.initialStartLsn ∧ ∀ rec ∈ file.records, rec.lsn < cfg.initialStartLsn) ∨
      file.startLsn = cfg.initialStartLsn

variable {cfg : WalSinkConfig} {files : List LogFile}

theorem Directory.splits (directory : Directory cfg files) {file : LogFile} (member : file ∈ files)
    (isStart : file.startLsn = cfg.initialStartLsn) : ∃ closed, files = closed ++ [file] := by
  obtain ⟨closed,others,rfl⟩ := List.append_of_mem member
  cases others with
  | nil => exact ⟨closed,rfl⟩
  | cons other rest =>
      have isLater := ((List.pairwise_cons.mp
        (List.pairwise_append.mp directory.ascending.between).2.1).1 other List.mem_cons_self).1
      rw [isStart] at isLater
      have notBehind := directory.behind other
        (List.mem_append_right _ (List.mem_cons_of_mem _ List.mem_cons_self))
      rcases notBehind with ⟨isEarlier,_⟩ | same
      · exact absurd (UInt64.lt_trans isLater isEarlier) (UInt64.lt_irrefl _)
      · rw [same] at isLater
        exact absurd isLater (UInt64.lt_irrefl _)

variable {worker : LogWorker}

theorem Sound.spawn {io : OpenIo} (directory : Directory cfg files)
    (spawned : LogWorker.spawn cfg files io = some worker) : Sound worker := by
  have fresh : ∀ closed last, Ascending (closed ++ [last]) → last.startLsn = cfg.initialStartLsn →
      (∀ file ∈ closed ++ [last], ∀ rec ∈ file.records, rec.lsn < cfg.initialStartLsn) →
      Sound
        { files := closed ++ [last]
          writerStartLsn := cfg.initialStartLsn
          bytesSinceHeader := 0
          pending := []
          stagedBytes := 0
          nextLsn := cfg.initialStartLsn
          currentStartLsn := cfg.initialStartLsn
          durableLsn := UInt64.ofNat (cfg.initialStartLsn.toNat - 1)
          stopped := false
          trace := [] } := by
    intro closed last ascending isStart below
    refine ⟨ascending,⟨closed,last,rfl,isStart⟩,rfl,UInt64.le_refl _,below,?_,?_,?_⟩
    · intro busy
      rcases busy with staged | waiting
      · exact absurd staged (Nat.lt_irrefl 0)
      · exact absurd rfl waiting
    · intro waiting member
      cases member
    · intro before after request lsn isSplit
      exact absurd (congrArg List.length isSplit) (by simp)
  rw [LogWorker.spawn] at spawned
  split at spawned
  · cases spawned
  · rename_i opened isOpened
    cases spawned
    unfold openWriter at isOpened
    split at isOpened
    · rename_i noFile
      cases io with
      | failed => cases isOpened
      | failedAfterCreate headerWhole => cases isOpened
      | ok =>
          cases isOpened
          have behind : ∀ file ∈ files, file.startLsn < cfg.initialStartLsn ∧
              ∀ rec ∈ file.records, rec.lsn < cfg.initialStartLsn := by
            intro file member
            rcases directory.behind file member with isBehind | isStart
            · exact isBehind
            · exact absurd (decide_eq_true isStart) (List.find?_eq_none.mp noFile file member)
          apply fresh files _ (directory.ascending.newFile _ behind rfl) rfl
          intro file member
          rcases List.mem_append.mp member with earlier | isNew
          · exact (behind file earlier).2
          · rw [List.mem_singleton.mp isNew]
            intro rec isRecord
            cases isRecord
    · rename_i file isFound
      have isStart : file.startLsn = cfg.initialStartLsn := by
        have found := List.find?_some isFound
        exact of_decide_eq_true found
      obtain ⟨isReused,isSame⟩ := Prod.mk.injEq .. ▸ isOpened
      obtain ⟨closed,rfl⟩ := directory.splits (List.mem_of_find?_eq_some isFound) isStart
      cases isSame
      have isEmpty : file.records = [] := by
        simp only [Bool.and_eq_true,List.isEmpty_iff] at isReused
        exact isReused.1.1.1.2
      apply fresh closed file directory.ascending isStart
      intro other member
      rcases List.mem_append.mp member with earlier | isLast
      · intro rec isRecord
        have less := (directory.ascending.startLsn_lt other earlier).2 rec isRecord
        rw [isStart] at less
        exact less
      · rw [List.mem_singleton.mp isLast,isEmpty]
        intro rec isRecord
        cases isRecord

/-- What the log owes to the ones that append, truncate and read. -/
structure Safe (worker : LogWorker) : Prop where
  inOrder : InOrder (listSegments worker.files)
  acked : AckedAfterSync worker.trace
  keeps : ∀ coveredLsn removals, ∀ segment ∈ worker.files,
    (segment.startLsn = worker.currentStartLsn ∨ ∃ rec ∈ segment.records, coveredLsn ≤ rec.lsn) →
      segment ∈ truncateUpTo worker.files worker.currentStartLsn coveredLsn removals

theorem Sound.safe (sound : Sound worker) : Safe worker := by
  refine ⟨sound.ascending.inOrder,sound.acked,?_⟩
  intro coveredLsn removals segment member needed
  rw [truncateUpTo,sound.ascending.listSegments_eq]
  exact mem_truncateFrom sound.ascending removals member needed

theorem log_safe {cfg : WalSinkConfig} {files : List LogFile} {io : OpenIo} {worker : LogWorker}
    (directory : Directory cfg files) (spawned : LogWorker.spawn cfg files io = some worker)
    {actions : List WorkerAction} (safe : Machine.Meets (next cfg) SafeStep worker actions)
    (count : Nat) : Safe (Machine.run (next cfg) worker (actions.take count)) := by
  apply Sound.safe
  apply Machine.invariant_reached (next cfg) _ (Sound.spawn directory spawned) safe count
  intro state action sound isSafe
  exact sound.next isSafe

def smallSegments : WalSinkConfig where
  initialStartLsn := 1
  initialRegistryVersion := 0
  fsyncBytes := 1
  segmentBytes := 1

def eventRequest (minLsn : UInt64) : AppendRequest where
  recordType := .event
  payload := []
  minLsn := minLsn
  mode := .perEvent

def firstWorker : LogWorker where
  files := [⟨1,0,true,[],false⟩]
  writerStartLsn := 1
  bytesSinceHeader := 0
  pending := []
  stagedBytes := 0
  nextLsn := 1
  currentStartLsn := 1
  durableLsn := 0
  stopped := false
  trace := []

def rotating : List WorkerAction :=
  [.append (eventRequest 0) .ok ⟨true,.opened .ok⟩,
    .append (eventRequest 5) .ok ⟨true,.opened .ok⟩,
    .truncate 5 2 ⟨true,.opened .ok⟩]

theorem rotating_safe :
    Safe (Machine.run (next smallSegments) firstWorker (rotating.take 3)) := by
  have directory : Directory smallSegments [] :=
    ⟨⟨List.Pairwise.nil,by intro file member; cases member⟩,by intro file member; cases member⟩
  have leaves : FsyncIo.LeavesNoFile ⟨true,.opened .ok⟩ := by
    intro headerWhole same
    cases same
  have spawned : LogWorker.spawn smallSegments [] .ok = some firstWorker := rfl
  apply log_safe directory spawned
  exact ⟨⟨by decide,leaves⟩,⟨by decide,leaves⟩,leaves,trivial⟩

/-- The first rotation creates its file and fails at the header. -/
def rotationFails : List WorkerAction :=
  [.append (eventRequest 0) .ok ⟨true,.opened (.failedAfterCreate false)⟩,
    .append (eventRequest 0) .ok ⟨true,.opened .ok⟩]

/-- The record with LSN 2 is in the segment that `truncate_up_to(2)` deletes. -/
theorem rotationFails_unsafe :
    LogWorker.spawn smallSegments [] .ok = some firstWorker ∧
      ¬ Safe (Machine.run (next smallSegments) firstWorker rotationFails) := by
  refine ⟨rfl,?_⟩
  intro safe
  have kept := safe.keeps 2 1
    ⟨1,0,true,[(eventRequest 0).record 1,(eventRequest 0).record 2],false⟩
    List.mem_cons_self (.inr ⟨(eventRequest 0).record 2,by decide,by decide⟩)
  have starts := List.mem_map_of_mem (f := LogFile.startLsn) kept
  revert starts
  decide

end LogWorker

end Beava.Persistence
