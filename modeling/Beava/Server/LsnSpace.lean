/-
One LSN space over two logs and restarts.

Events are numbered from the larger of the committed and the durable LSN by the
length of their record; bumps are numbered by the worker of the other log, but
above every applied event.  A restart reads what survived of both logs and
numbers on from there.

A bump whose sync failed has a number in the file that no watermark shows.  How
far such numbers lie above the watermarks is counted from the outcomes of the
appends and syncs alone.
-/

import Beava.Persistence.Worker
import Beava.Server.History
import Beava.Server.SnapshotCut
import Beava.Wal.Record

namespace Beava.Server

open Beava.Core Beava.Registry Beava.Persistence Beava.Wal

variable {Expr : Type} (env : Env Expr)

/-! ### The log of the bumps -/

/-- `RegistryBumpPayload::encode` and `decode`, and the size of a full segment. -/
structure BumpLog where
  encode : RegistryBump → List UInt8
  decode : List UInt8 → Option RegistryBump
  segmentBytes : Nat

/-- Torn bytes of a failed append, with the number of records in front of them. -/
structure TornPlace where
  startLsn : UInt64
  behind : Nat

/-- Records of the file lie behind the torn bytes. -/
def TornPlace.Hides (place : TornPlace) (file : LogFile) : Prop :=
  place.startLsn = file.startLsn ∧ place.behind < file.records.length

instance (place : TornPlace) (file : LogFile) : Decidable (place.Hides file) :=
  inferInstanceAs (Decidable (_ ∧ _))

/-- `WalReader::open` and the records; behind torn bytes the reader finds a bad
checksum, or bytes that it takes for the end. -/
def readFile (torn : List TornPlace) (tornEnds : Bool) (file : LogFile) :
    Option (List WalRecord) :=
  if file.headerWhole then
    match torn.find? fun place => place.Hides file with
    | none => some file.records
    | some place => if tornEnds then some (file.records.take place.behind) else none
  else none

/-- The loop of `WalReader::read_all`. -/
def readFiles (torn : List TornPlace) (tornEnds : Bool) :
    List LogFile → Option (List WalRecord)
  | [] => some []
  | file :: rest => do
      let records ← readFile torn tornEnds file
      let others ← readFiles torn tornEnds rest
      return records ++ others

section Replay

variable (log : BumpLog)

/-- The bumps of `replay_wal_from_lsn`: those behind the version of the registry
are applied, and the first that fails ends the replay. -/
def replayLog : RegistryInner Expr → List WalRecord → RegistryInner Expr × Bool
  | registry, [] => (registry,true)
  | registry, record :: rest =>
      match log.decode record.payload with
      | none => (registry,false)
      | some bump =>
          if bump.newVersion ≤ registry.version then replayLog registry rest
          else
            match applyRegistryBump env registry bump with
            | (applied,.ok ()) => replayLog applied rest
            | (applied,.error _) => (applied,false)

def recordLsns (records : List WalRecord) : List Nat := records.map fun record => record.lsn.toNat

def lastLsn (lsns : List Nat) : Nat := lsns.foldl max 0

/-- The registry and the LSN that come from the log of the bumps; an error counts
as an empty log. -/
def replayFiles (torn : List TornPlace) (tornEnds : Bool) (files : List LogFile) :
    RegistryInner Expr × Nat :=
  match readFiles torn tornEnds (listSegments files) with
  | none => (.empty,0)
  | some records =>
      match replayLog env log .empty records with
      | (registry,true) => (registry,lastLsn (recordLsns records))
      | (registry,false) => (registry,0)

end Replay

inductive SegmentCut where
  | lost
  | tornHeader
  | keep (count : Nat) (tornTail : Bool)
  deriving DecidableEq

def SegmentCut.survivor (file : LogFile) : SegmentCut → Option LogFile
  | .lost => none
  | .tornHeader => some { file with headerWhole := false, records := [], tornBytes := false }
  | .keep count tornTail =>
      some { file with records := file.records.take count, tornBytes := tornTail }

/-- Every file is cut on its own; a file without a cut stays as it is. -/
def survivingFiles : List LogFile → List SegmentCut → List LogFile
  | file :: rest, cut :: cuts => (cut.survivor file).toList ++ survivingFiles rest cuts
  | files, [] => files
  | [], _ => []

def survivingPlaces (torn : List TornPlace) (files : List LogFile) : List TornPlace :=
  torn.filter fun place => files.any fun file => place.Hides file

/-! ### The server -/

inductive LoggedRecord where
  | event (lsn : Nat)
  | bump (lsn : Nat)
  deriving DecidableEq

namespace LoggedRecord

def lsn : LoggedRecord → Nat
  | .event lsn => lsn
  | .bump lsn => lsn

def eventLsn : LoggedRecord → Option Nat
  | .event lsn => some lsn
  | .bump _ => none

end LoggedRecord

/-- `appended` has the records of both logs in the order of the appends.  `debt`
counts the numbers that bumps have taken without becoming durable, and `ghosts`
how far the last of them that is in a file lies above the watermarks. -/
structure LsnServer (Expr : Type) where
  registry : RegistryInner Expr
  committed : Nat
  nextEventId : Nat
  config : WalSinkConfig
  worker : LogWorker
  torn : List TornPlace
  wal : List LoggedEvent
  appended : List LoggedRecord
  debt : Nat
  ghosts : Nat

/-- `tornEnds`: how the reader takes torn bytes in front of records. -/
inductive LsnAction where
  | push (event : PushedEvent)
  | register (call : RegisterCall) (append : AppendIo) (fsync : FsyncIo)
  | restart (keptEvents : Nat) (cuts : List SegmentCut) (tornEnds : Bool) (openIo : OpenIo)

namespace LsnServer

variable (log : BumpLog) (server : LsnServer Expr)
variable {files : List LogFile} {worker : LogWorker} {lsns : List Nat} {tornEnds : Bool}
variable {io : OpenIo} {limit : Nat}

def eventLsns (wal : List LoggedEvent) : List Nat := wal.map LoggedEvent.lsn

def bumpLsns (files : List LogFile) : List Nat :=
  files.flatMap fun file => recordLsns file.records

/-- `mark_committed_at_least(durable_lsn)`. -/
def watermark : Nat := max server.committed server.worker.durableLsn.toNat

def pushLsn (event : PushedEvent) : Nat := saturatingAddU64 server.watermark event.payloadLen

def pushStep (event : PushedEvent) : LsnServer Expr :=
  { server with
    committed := server.pushLsn event
    nextEventId := max server.nextEventId (server.pushLsn event)
    wal := server.wal ++ [⟨server.pushLsn event,event⟩]
    appended := server.appended ++ [.event (server.pushLsn event)]
    debt := server.debt - event.payloadLen
    ghosts := server.ghosts - event.payloadLen }

/-- `append_record_at_least` with `registry_bump_min_lsn`. -/
def bumpRequest (bump : RegistryBump) : AppendRequest :=
  ⟨.registryBump,log.encode bump,UInt64.ofNat (saturatingAddU64 server.nextEventId 1),.perEvent⟩

/-- The LSN of `stage_request`. -/
def bumpLsn (bump : RegistryBump) : UInt64 :=
  max server.worker.nextLsn (server.bumpRequest log bump).minLsn

def appendOutcome (append : AppendIo) (fsync : FsyncIo) : AppendOutcome :=
  match append with
  | .failed _ => .notWritten
  | .ok => if fsync.syncOk then .durable else .notSynced

def logBump (bump : RegistryBump) (append : AppendIo) (fsync : FsyncIo) : LsnServer Expr :=
  let after :=
    { server with
      worker := server.worker.next server.config
        (.append (server.bumpRequest log bump) append fsync) }
  let place : TornPlace := ⟨server.worker.writerStartLsn,server.worker.currentRecords.length⟩
  let written := server.appended ++ [.bump (server.bumpLsn log bump).toNat]
  match append with
  | .failed leftPart =>
      { after with
        torn := if leftPart then server.torn ++ [place] else server.torn
        debt := server.debt + 1 }
  | .ok =>
      if fsync.syncOk then { after with appended := written, debt := 0, ghosts := 0 }
      else { after with appended := written, debt := server.debt + 1, ghosts := server.debt + 1 }

def registerStep (call : RegisterCall) (append : AppendIo) (fsync : FsyncIo) : LsnServer Expr :=
  let result := dispatchRegister env server.registry call (appendOutcome append fsync)
  match (dispatchRegister env server.registry call .durable).record with
  | none => { server with registry := result.registry }
  | some bump => { server.logBump log bump append fsync with registry := result.registry }

/-- A process that did not start. -/
def offline (files : List LogFile) : LogWorker :=
  { files := files
    writerStartLsn := 0
    bytesSinceHeader := 0
    pending := []
    stagedBytes := 0
    nextLsn := 0
    currentStartLsn := 0
    durableLsn := 0
    stopped := true
    trace := [] }

def bootConfig (startLsn version : Nat) : WalSinkConfig :=
  ⟨UInt64.ofNat startLsn,UInt32.ofNat version,0,log.segmentBytes⟩

def survives (wal : List LoggedEvent) (files : List LogFile) : LoggedRecord → Bool
  | .event lsn => decide (lsn ∈ eventLsns wal)
  | .bump lsn => decide (lsn ∈ bumpLsns files)

def crash (keptEvents : Nat) (cuts : List SegmentCut) : LsnServer Expr :=
  let wal := server.wal.take keptEvents
  let files := survivingFiles server.worker.files cuts
  { server with
    worker := offline files
    torn := survivingPlaces server.torn files
    wal := wal
    appended := server.appended.filter (survives wal files) }

/-- `serve_with_dirs` without snapshots. -/
def boot (tornEnds : Bool) (openIo : OpenIo) : LsnServer Expr :=
  let files := server.worker.files
  let replayed := replayFiles env log server.torn tornEnds files
  let eventLsn := lastLsn (eventLsns server.wal)
  let initialStartLsn := max eventLsn replayed.2 + 1
  let config := bootConfig log initialStartLsn replayed.1.version
  { server with
    registry := replayed.1
    committed := initialStartLsn - 1
    nextEventId := eventLsn
    config := config
    worker := (LogWorker.spawn config files openIo).getD
      (offline (openWriter files config.initialStartLsn config.initialRegistryVersion openIo).2)
    debt := 0
    ghosts := 0 }

def next (server : LsnServer Expr) : LsnAction → LsnServer Expr
  | .push event => if server.worker.stopped then server else server.pushStep event
  | .register call append fsync =>
      if server.worker.stopped then server else server.registerStep env log call append fsync
  | .restart keptEvents cuts tornEnds openIo =>
      (server.crash keptEvents cuts).boot env log tornEnds openIo

def start : LsnServer Expr :=
  { registry := .empty
    committed := 0
    nextEventId := 0
    config := bootConfig log 1 0
    worker := offline []
    torn := []
    wal := []
    appended := []
    debt := 0
    ghosts := 0 }

/-- The records of the two logs, each of them and no others, are in one order: their
LSNs grow with the appends. -/
structure InOneOrder (server : LsnServer Expr) : Prop where
  increasing : server.appended.Pairwise fun first second => first.lsn < second.lsn
  events : server.appended.filterMap LoggedRecord.eventLsn = eventLsns server.wal
  bumps : ∀ lsn, .bump lsn ∈ server.appended ↔ lsn ∈ bumpLsns server.worker.files

/-- The files of the bumps have whole headers and no torn bytes in front of a record,
and every newer bump applies. -/
def LogReplays (torn : List TornPlace) (files : List LogFile) : Prop :=
  (∀ file ∈ files, file.headerWhole = true ∧ ∀ place ∈ torn, ¬place.Hides file) ∧
    (replayLog env log (RegistryInner.empty : RegistryInner Expr)
      ((listSegments files).flatMap LogFile.records)).2 = true

/-- The numbers fit 64 bits.  A record of an event is longer than the numbers of failed
bumps reach above the watermarks; at a restart the log of the bumps replays, or no bump
that survives is behind the last event. -/
def LsnCondition (server : LsnServer Expr) : LsnAction → Prop
  | .push event =>
      server.ghosts < event.payloadLen ∧ server.watermark + event.payloadLen < u64Max
  | .register _ _ _ =>
      max server.worker.nextLsn.toNat (server.nextEventId + 1) < u64Max
  | .restart keptEvents cuts _ _ =>
      let crashed := server.crash keptEvents cuts
      LogReplays env log crashed.torn crashed.worker.files ∨
        ∀ lsn ∈ bumpLsns crashed.worker.files, lsn ≤ lastLsn (eventLsns crashed.wal)

variable {env} {log : BumpLog} {server : LsnServer Expr}

theorem mem_bumpLsns {lsn : Nat} :
    lsn ∈ bumpLsns files ↔ ∃ file ∈ files, ∃ record ∈ file.records, record.lsn.toNat = lsn := by
  simp only [bumpLsns,recordLsns,List.mem_flatMap,List.mem_map]

theorem bumpLsns_append (files others : List LogFile) :
    bumpLsns (files ++ others) = bumpLsns files ++ bumpLsns others :=
  List.flatMap_append

/-- New files behind the files, without records. -/
def Extends (files after : List LogFile) : Prop :=
  ∃ opened, after = files ++ opened ∧ ∀ file ∈ opened, file.records = []

theorem Extends.bumpLsns_eq {after : List LogFile} (extends_ : Extends files after) :
    bumpLsns after = bumpLsns files := by
  obtain ⟨opened,rfl,blank⟩ := extends_
  have noLsns : bumpLsns opened = [] := by
    rw [bumpLsns,List.flatMap_eq_nil_iff]
    intro file member
    rw [blank file member]
    rfl
  rw [bumpLsns_append,noLsns,List.append_nil]

theorem openWriter_extends (files : List LogFile) (startLsn : UInt64) (registryVersion : UInt32)
    (io : OpenIo) : Extends files (openWriter files startLsn registryVersion io).2 := by
  unfold openWriter
  split
  · cases io with
    | ok => exact ⟨_,rfl,by simp⟩
    | failed => exact ⟨[],(List.append_nil _).symm,nofun⟩
    | failedAfterCreate headerWhole => exact ⟨_,rfl,by simp⟩
  · exact ⟨[],(List.append_nil _).symm,nofun⟩

theorem openWriter_current {opened : List LogFile} {startLsn : UInt64} {registryVersion : UInt32}
    (isOpened : openWriter files startLsn registryVersion io = (true,opened)) :
    ∃ file ∈ opened, file.startLsn = startLsn := by
  unfold openWriter at isOpened
  split at isOpened
  · cases io with
    | ok =>
        cases isOpened
        exact ⟨_,List.mem_append_right _ List.mem_cons_self,rfl⟩
    | failed => cases isOpened
    | failedAfterCreate headerWhole => cases isOpened
  · rename_i file isFound
    rw [Prod.mk.injEq] at isOpened
    rw [← isOpened.2]
    exact ⟨file,List.mem_of_find?_eq_some isFound,by simpa using List.find?_some isFound⟩

/-- Between two requests: nothing waits for a sync, and the current file is there. -/
structure Idle (worker : LogWorker) : Prop where
  running : worker.stopped = false
  noPending : worker.pending = []
  noStaged : worker.stagedBytes = 0
  hasFile : ∃ file ∈ worker.files, file.startLsn = worker.writerStartLsn

theorem Idle.rotate (idle : Idle worker) (cfg : WalSinkConfig) (io : RotateIo) :
    Idle (worker.rotate cfg io) ∧ Extends worker.files (worker.rotate cfg io).files ∧
      (worker.rotate cfg io).nextLsn = worker.nextLsn ∧
      (worker.rotate cfg io).durableLsn = worker.durableLsn := by
  have same : Extends worker.files worker.files := ⟨[],(List.append_nil _).symm,nofun⟩
  cases io with
  | syncFailed => exact ⟨idle,same,rfl,rfl⟩
  | opened io =>
      have extends_ := openWriter_extends worker.files worker.nextLsn cfg.initialRegistryVersion io
      simp only [LogWorker.rotate]
      split
      · rename_i files isFailed
        rw [isFailed] at extends_
        refine ⟨⟨idle.running,idle.noPending,idle.noStaged,?_⟩,extends_,rfl,rfl⟩
        obtain ⟨opened,rfl,blank⟩ := extends_
        obtain ⟨file,member,isCurrent⟩ := idle.hasFile
        exact ⟨file,List.mem_append_left _ member,isCurrent⟩
      · rename_i files isOpened
        rw [isOpened] at extends_
        exact ⟨⟨idle.running,idle.noPending,idle.noStaged,openWriter_current isOpened⟩,
          extends_,rfl,rfl⟩

theorem mem_bumpLsns_onCurrent (idle : Idle worker) (record : WalRecord) (lsn : Nat) :
    lsn ∈ bumpLsns (worker.onCurrent fun file =>
        { file with records := file.records ++ [record] }).files ↔
      lsn = record.lsn.toNat ∨ lsn ∈ bumpLsns worker.files := by
  simp only [LogWorker.onCurrent,mem_bumpLsns,List.mem_map]
  constructor
  · rintro ⟨_,⟨file,member,rfl⟩,other,inRecords,same⟩
    split at inRecords
    · rcases List.mem_append.mp inRecords with earlier | isNew
      · exact .inr ⟨file,member,other,earlier,same⟩
      · rw [List.mem_singleton.mp isNew] at same
        exact .inl same.symm
    · exact .inr ⟨file,member,other,inRecords,same⟩
  · rintro (rfl | ⟨file,member,other,inRecords,same⟩)
    · obtain ⟨file,member,isCurrent⟩ := idle.hasFile
      refine ⟨_,⟨file,member,rfl⟩,record,?_,rfl⟩
      rw [if_pos isCurrent]
      exact List.mem_append_right _ List.mem_cons_self
    · refine ⟨_,⟨file,member,rfl⟩,other,?_,same⟩
      split
      · exact List.mem_append_left _ inRecords
      · exact inRecords

theorem hasFile_onCurrent (idle : Idle worker) {change : LogFile → LogFile}
    (sameStart : ∀ file, (change file).startLsn = file.startLsn) :
    ∃ file ∈ (worker.onCurrent change).files, file.startLsn = worker.writerStartLsn := by
  obtain ⟨file,member,isCurrent⟩ := idle.hasFile
  refine ⟨_,List.mem_map_of_mem member,?_⟩
  rw [if_pos isCurrent,sameStart,isCurrent]

structure Appended (worker after : LogWorker) (lsn : UInt64) (outcome : AppendOutcome) : Prop where
  idle : Idle after
  nextLsn : after.nextLsn = lsn + 1
  durableLsn : after.durableLsn = if outcome = .durable then lsn else worker.durableLsn
  bumps : ∀ other, other ∈ bumpLsns after.files ↔
    outcome ≠ .notWritten ∧ other = lsn.toNat ∨ other ∈ bumpLsns worker.files

theorem succ_sub_one {lsn : UInt64} (room : lsn.toNat < u64Max) :
    (lsn + 1).toNat = lsn.toNat + 1 ∧ UInt64.ofNat ((lsn + 1).toNat - 1) = lsn := by
  have limit : u64Max = 2 ^ 64 - 1 := rfl
  have passes : (lsn + 1).toNat = lsn.toNat + 1 := by
    rw [UInt64.toNat_add]
    exact Nat.mod_eq_of_lt (by change lsn.toNat + 1 < 2 ^ 64; omega)
  refine ⟨passes,?_⟩
  rw [passes,Nat.add_sub_cancel,UInt64.ofNat_toNat]

theorem fsyncBatch_idle (noStaged : worker.stagedBytes = 0) (noPending : worker.pending = [])
    (cfg : WalSinkConfig) (io : FsyncIo) : worker.fsyncBatch cfg io = worker := by
  rw [LogWorker.fsyncBatch]
  exact if_pos (by rw [noStaged,noPending]; rfl)

theorem fsyncBatch_settles (running : worker.stopped = false)
    (hasFile : ∃ file ∈ worker.files, file.startLsn = worker.writerStartLsn)
    (busy : 0 < worker.stagedBytes) {lsn : UInt64} (room : lsn.toNat < u64Max)
    (nextLsn : worker.nextLsn = lsn + 1) (cfg : WalSinkConfig) (io : FsyncIo) :
    Idle (worker.fsyncBatch cfg io) ∧ Extends worker.files (worker.fsyncBatch cfg io).files ∧
      (worker.fsyncBatch cfg io).nextLsn = lsn + 1 ∧
      (worker.fsyncBatch cfg io).durableLsn = if io.syncOk then lsn else worker.durableLsn := by
  have isBusy : (decide (worker.stagedBytes = 0) && worker.pending.isEmpty) = false := by
    rw [decide_eq_false (Nat.ne_of_gt busy),Bool.false_and]
  have same : Extends worker.files worker.files := ⟨[],(List.append_nil _).symm,nofun⟩
  have settled : ∀ durableLsn trace, Idle { worker with
      durableLsn := durableLsn, pending := [], stagedBytes := 0, trace := trace } :=
    fun _ _ => ⟨running,rfl,rfl,hasFile⟩
  simp only [LogWorker.fsyncBatch,isBusy,Bool.false_eq_true,if_false]
  by_cases synced : io.syncOk = true
  · have durable : UInt64.ofNat (worker.nextLsn.toNat - 1) = lsn := by
      rw [nextLsn,(succ_sub_one room).2]
    rw [if_pos synced,if_pos synced]
    split
    · obtain ⟨idle,extends_,sameNext,sameDurable⟩ := (settled _ _).rotate cfg io.rotate
      exact ⟨idle,extends_,sameNext.trans nextLsn,sameDurable.trans durable⟩
    · exact ⟨settled _ _,same,nextLsn,durable⟩
  · rw [if_neg synced,if_neg synced]
    exact ⟨settled _ _,same,nextLsn,rfl⟩

theorem next_append (idle : Idle worker) {cfg : WalSinkConfig} (eager : cfg.fsyncBytes = 0)
    {request : AppendRequest} (isMode : request.mode = .perEvent)
    (room : (max worker.nextLsn request.minLsn).toNat < u64Max) (append : AppendIo)
    (fsync : FsyncIo) :
    Appended worker (worker.next cfg (.append request append fsync))
      (max worker.nextLsn request.minLsn) (appendOutcome append fsync) := by
  have synced : worker.next cfg (.append request append fsync) =
      (worker.stageRequest request append).fsyncBatch cfg fsync := by
    simp [LogWorker.next,idle.running,eager]
  rw [synced]
  cases append with
  | failed leftPart =>
      have noStaged : (worker.stageRequest request (.failed leftPart)).stagedBytes = 0 :=
        idle.noStaged
      have noPending : (worker.stageRequest request (.failed leftPart)).pending = [] :=
        idle.noPending
      rw [fsyncBatch_idle noStaged noPending]
      refine ⟨⟨idle.running,idle.noPending,idle.noStaged,?_⟩,rfl,rfl,?_⟩
      · exact hasFile_onCurrent idle fun _ => rfl
      · intro other
        have same : bumpLsns (worker.stageRequest request (.failed leftPart)).files =
            bumpLsns worker.files := by
          simp only [bumpLsns,LogWorker.stageRequest,LogWorker.onCurrent,List.flatMap_map]
          congr 1
          funext file
          split <;> rfl
        rw [same]
        simp [appendOutcome]
  | ok =>
      let record := request.record (max worker.nextLsn request.minLsn)
      let appended := worker.onCurrent fun file =>
        { file with records := file.records ++ [record] }
      generalize isStaged : worker.stageRequest request .ok = staged
      have stagedEq : staged.stopped = false ∧ staged.writerStartLsn = worker.writerStartLsn ∧
          staged.files = appended.files ∧ 0 < staged.stagedBytes ∧
          staged.nextLsn = max worker.nextLsn request.minLsn + 1 ∧
          staged.durableLsn = worker.durableLsn := by
        rw [← isStaged]
        simp only [LogWorker.stageRequest,isMode]
        refine ⟨idle.running,rfl,rfl,?_,rfl,rfl⟩
        show 0 < worker.stagedBytes + LogWorker.encodedSize request.payload.length
        unfold LogWorker.encodedSize
        omega
      obtain ⟨running,sameWriter,sameFiles,busy,nextLsn,sameDurable⟩ := stagedEq
      have hasFile : ∃ file ∈ staged.files, file.startLsn = staged.writerStartLsn := by
        rw [sameFiles,sameWriter]
        exact hasFile_onCurrent idle fun _ => rfl
      obtain ⟨settled,extends_,nextAfter,durableLsn⟩ :=
        fsyncBatch_settles running hasFile busy room nextLsn cfg fsync
      have outcome : appendOutcome .ok fsync = if fsync.syncOk then .durable else .notSynced := rfl
      refine ⟨settled,nextAfter,?_,?_⟩
      · rw [durableLsn,sameDurable,outcome]
        cases fsync.syncOk <;> rfl
      · intro other
        rw [extends_.bumpLsns_eq,sameFiles,mem_bumpLsns_onCurrent idle record,outcome]
        cases fsync.syncOk <;> simp [record,AppendRequest.record]

/-! ### The invariant -/

/-- Events lie below the watermarks; bumps lie below the counter, and no further above
the watermarks than the failed ones count. -/
structure Live (server : LsnServer Expr) : Prop where
  idle : Idle server.worker
  eager : server.config.fsyncBytes = 0
  events : ∀ lsn, .event lsn ∈ server.appended → lsn ≤ server.nextEventId
  applied : server.nextEventId ≤ server.watermark
  bumps : ∀ lsn, .bump lsn ∈ server.appended →
    lsn < server.worker.nextLsn.toNat ∧ lsn ≤ server.watermark + server.ghosts
  counter : server.worker.nextLsn.toNat ≤ server.watermark + 1 + server.debt
  counted : server.ghosts ≤ server.debt

structure Numbered (server : LsnServer Expr) : Prop where
  order : server.InOneOrder
  room : ∀ record ∈ server.appended, record.lsn < u64Max
  live : server.worker.stopped = false → server.Live

variable {records : List LoggedRecord}

variable {record : LoggedRecord}

theorem increasing_append (increasing : records.Pairwise fun first second => first.lsn < second.lsn)
    (above : ∀ other ∈ records, other.lsn < record.lsn) :
    (records ++ [record]).Pairwise fun first second => first.lsn < second.lsn := by
  rw [List.pairwise_append]
  refine ⟨increasing,List.pairwise_singleton _ _,?_⟩
  intro other member last isLast
  rw [List.mem_singleton.mp isLast]
  exact above other member

theorem Live.above (live : server.Live) {lsn : Nat} (aboveEvents : server.nextEventId < lsn)
    (aboveBumps : ∀ bump, .bump bump ∈ server.appended → bump < lsn) :
    ∀ record ∈ server.appended, record.lsn < lsn := by
  intro record member
  cases record with
  | event other => exact Nat.lt_of_le_of_lt (live.events other member) aboveEvents
  | bump other => exact aboveBumps other member

theorem mem_event_append {lsn : Nat} :
    record ∈ records ++ [.event lsn] ↔ record ∈ records ∨ record = .event lsn := by
  rw [List.mem_append,List.mem_singleton]

theorem Numbered.push (numbered : server.Numbered) (running : server.worker.stopped = false)
    {event : PushedEvent} (short : server.ghosts < event.payloadLen)
    (fits : server.watermark + event.payloadLen < u64Max) : (server.pushStep event).Numbered := by
  have live := numbered.live running
  have applied := live.applied
  have lsnEq : server.pushLsn event = server.watermark + event.payloadLen := by
    rw [pushLsn,saturatingAddU64,Nat.min_eq_left (Nat.le_of_lt fits)]
  have passes : server.watermark < server.pushLsn event := by omega
  have watermark : (server.pushStep event).watermark = server.pushLsn event := by
    have durable : server.worker.durableLsn.toNat ≤ server.watermark := Nat.le_max_right _ _
    show max (server.pushLsn event) server.worker.durableLsn.toNat = server.pushLsn event
    omega
  have above : ∀ record ∈ server.appended, record.lsn < server.pushLsn event := by
    refine live.above (by omega) fun bump member => ?_
    have := (live.bumps bump member).2
    omega
  refine ⟨⟨increasing_append numbered.order.increasing above,?_,?_⟩,?_,fun _ => ?_⟩
  · show (server.appended ++ [LoggedRecord.event _]).filterMap _ = eventLsns (server.wal ++ [_])
    rw [List.filterMap_append,numbered.order.events,eventLsns,eventLsns,List.map_append]
    rfl
  · intro lsn
    exact mem_event_append.trans ((or_iff_left (by simp)).trans (numbered.order.bumps lsn))
  · intro record member
    rcases mem_event_append.mp member with earlier | rfl
    · exact numbered.room record earlier
    · show server.pushLsn event < u64Max
      omega
  · refine ⟨live.idle,live.eager,?_,?_,?_,?_,Nat.sub_le_sub_right live.counted _⟩
    · intro lsn member
      show lsn ≤ max server.nextEventId (server.pushLsn event)
      rcases mem_event_append.mp member with earlier | isNew
      · exact Nat.le_trans (live.events lsn earlier) (Nat.le_max_left _ _)
      · cases isNew
        exact Nat.le_max_right _ _
    · rw [watermark]
      exact Nat.max_le.mpr ⟨by omega,Nat.le_refl _⟩
    · intro lsn member
      rw [watermark]
      rcases mem_event_append.mp member with earlier | isNew
      · have := live.bumps lsn earlier
        exact ⟨this.1,by omega⟩
      · cases isNew
    · have := live.counter
      rw [watermark]
      show server.worker.nextLsn.toNat ≤ _ + 1 + (server.debt - event.payloadLen)
      omega

theorem toNat_max (first second : UInt64) :
    (max first second).toNat = max first.toNat second.toNat := by
  show (if first ≤ second then second else first).toNat = _
  split
  · rename_i isLe
    exact (Nat.max_eq_right isLe).symm
  · rename_i notLe
    rw [UInt64.le_iff_toNat_le] at notLe
    exact (Nat.max_eq_left (by omega)).symm

theorem bumpLsn_toNat (bump : RegistryBump)
    (fits : max server.worker.nextLsn.toNat (server.nextEventId + 1) < u64Max) :
    (server.bumpLsn log bump).toNat = max server.worker.nextLsn.toNat (server.nextEventId + 1) := by
  have limit : u64Max = 2 ^ 64 - 1 := rfl
  have floor : (UInt64.ofNat (saturatingAddU64 server.nextEventId 1)).toNat =
      server.nextEventId + 1 := by
    rw [saturatingAddU64,Nat.min_eq_left (by omega),UInt64.toNat_ofNat_of_lt']
    change _ < 2 ^ 64
    omega
  rw [bumpLsn,toNat_max,bumpRequest,floor]

theorem Numbered.withBump (numbered : server.Numbered) (live : server.Live)
    {after : LsnServer Expr} {lsn : Nat}
    (isLsn : lsn = max server.worker.nextLsn.toNat (server.nextEventId + 1)) (fits : lsn < u64Max)
    (sameWal : after.wal = server.wal) (sameEventId : after.nextEventId = server.nextEventId)
    (appended : after.appended = server.appended ++ [.bump lsn])
    (bumps : ∀ other, other ∈ bumpLsns after.worker.files ↔
      other = lsn ∨ other ∈ bumpLsns server.worker.files)
    (idle : Idle after.worker) (eager : after.config.fsyncBytes = 0)
    (nextLsn : after.worker.nextLsn.toNat = lsn + 1)
    (applied : server.nextEventId ≤ after.watermark)
    (reach : lsn ≤ after.watermark + after.ghosts) (counted : after.ghosts ≤ after.debt) :
    after.Numbered := by
  have member : ∀ {record}, record ∈ after.appended ↔
      record ∈ server.appended ∨ record = .bump lsn := by
    intro record
    rw [appended,List.mem_append,List.mem_singleton]
  have above : ∀ record ∈ server.appended, record.lsn < lsn := by
    refine live.above (by omega) fun bump isBump => ?_
    have := (live.bumps bump isBump).1
    omega
  refine ⟨⟨?_,?_,?_⟩,?_,fun _ => ⟨idle,eager,?_,?_,?_,?_,counted⟩⟩
  · rw [appended]
    exact increasing_append numbered.order.increasing above
  · rw [appended,List.filterMap_append,numbered.order.events,sameWal]
    exact List.append_nil _
  · intro other
    rw [member,bumps,numbered.order.bumps,LoggedRecord.bump.injEq,or_comm]
  · intro record isRecord
    rcases member.mp isRecord with earlier | rfl
    · exact numbered.room record earlier
    · exact fits
  · intro other isEvent
    rw [sameEventId]
    rcases member.mp isEvent with earlier | isNew
    · exact live.events other earlier
    · cases isNew
  · rw [sameEventId]
    exact applied
  · intro other isBump
    rcases member.mp isBump with earlier | isNew
    · have := above _ earlier
      change other < lsn at this
      omega
    · cases isNew
      omega
  · omega

theorem logBump_worker (bump : RegistryBump) (append : AppendIo) (fsync : FsyncIo) :
    (server.logBump log bump append fsync).worker =
      server.worker.next server.config
        (.append (server.bumpRequest log bump) append fsync) := by
  cases append with
  | failed leftPart => rfl
  | ok =>
      unfold logBump
      cases fsync.syncOk <;> rfl

theorem Numbered.logBump (numbered : server.Numbered) (running : server.worker.stopped = false)
    (bump : RegistryBump) (append : AppendIo) (fsync : FsyncIo)
    (fits : max server.worker.nextLsn.toNat (server.nextEventId + 1) < u64Max) :
    (server.logBump log bump append fsync).Numbered := by
  have live := numbered.live running
  have applied := live.applied
  have counter := live.counter
  have lsnEq : (server.bumpLsn log bump).toNat =
      max server.worker.nextLsn.toNat (server.nextEventId + 1) := bumpLsn_toNat bump fits
  have room : (server.bumpLsn log bump).toNat < u64Max := by rw [lsnEq]; exact fits
  have appended : Appended server.worker (server.logBump log bump append fsync).worker
      (server.bumpLsn log bump) (appendOutcome append fsync) := by
    rw [logBump_worker]
    exact next_append live.idle live.eager rfl room append fsync
  have nextLsn := congrArg UInt64.toNat appended.nextLsn
  rw [(succ_sub_one room).1] at nextLsn
  have durableLsn := appended.durableLsn
  have bumps := appended.bumps
  cases append with
  | failed leftPart =>
      have refused : appendOutcome (.failed leftPart) fsync = .notWritten := rfl
      rw [refused] at durableLsn bumps
      have sameWatermark : (server.logBump log bump (.failed leftPart) fsync).watermark =
          server.watermark := by
        rw [watermark,durableLsn,if_neg (by decide)]
        rfl
      refine ⟨⟨numbered.order.increasing,numbered.order.events,?_⟩,numbered.room,
        fun _ => ⟨appended.idle,live.eager,live.events,?_,?_,?_,?_⟩⟩
      · intro lsn
        rw [bumps]
        exact (numbered.order.bumps lsn).trans (by simp)
      · rw [sameWatermark]
        exact applied
      · intro lsn isBump
        obtain ⟨below,reach⟩ := live.bumps lsn isBump
        rw [sameWatermark,nextLsn]
        exact ⟨by omega,reach⟩
      · rw [sameWatermark,nextLsn]
        show _ ≤ server.watermark + 1 + (server.debt + 1)
        omega
      · exact Nat.le_succ_of_le live.counted
  | ok =>
      by_cases synced : fsync.syncOk = true
      · have isDurable : appendOutcome .ok fsync = .durable := if_pos synced
        have after : server.logBump log bump .ok fsync =
            { server with
              worker := (server.logBump log bump .ok fsync).worker
              appended := server.appended ++ [.bump (server.bumpLsn log bump).toNat]
              debt := 0
              ghosts := 0 } := by
          simp only [LsnServer.logBump,synced,if_true]
        rw [isDurable] at durableLsn bumps
        have watermark : (server.logBump log bump .ok fsync).watermark =
            max server.committed (server.bumpLsn log bump).toNat := by
          rw [LsnServer.watermark,durableLsn,if_pos rfl,after]
        refine numbered.withBump live lsnEq room (by rw [after]) (by rw [after]) (by rw [after])
          (fun other => by simpa using bumps other) appended.idle (by rw [after]; exact live.eager)
          nextLsn ?_ ?_ (by rw [after])
        · rw [watermark]
          omega
        · rw [watermark]
          omega
      · have notSynced : appendOutcome .ok fsync = .notSynced := if_neg synced
        have after : server.logBump log bump .ok fsync =
            { server with
              worker := (server.logBump log bump .ok fsync).worker
              appended := server.appended ++ [.bump (server.bumpLsn log bump).toNat]
              debt := server.debt + 1
              ghosts := server.debt + 1 } := by
          simp only [LsnServer.logBump,synced,Bool.false_eq_true,if_false]
        rw [notSynced] at durableLsn bumps
        have sameWatermark : (server.logBump log bump .ok fsync).watermark = server.watermark := by
          rw [watermark,durableLsn,if_neg (by decide),after]
          rfl
        have ghosts : (server.logBump log bump .ok fsync).ghosts = server.debt + 1 := by rw [after]
        refine numbered.withBump live lsnEq room (by rw [after]) (by rw [after]) (by rw [after])
          (fun other => by simpa using bumps other) appended.idle (by rw [after]; exact live.eager)
          nextLsn (by rw [sameWatermark]; exact applied) ?_ (by rw [after])
        rw [sameWatermark,ghosts]
        omega

theorem Numbered.withRegistry (numbered : server.Numbered) (registry : RegistryInner Expr) :
    Numbered { server with registry := registry } :=
  ⟨⟨numbered.order.increasing,numbered.order.events,numbered.order.bumps⟩,numbered.room,
    fun running =>
      let live := numbered.live running
      ⟨live.idle,live.eager,live.events,live.applied,live.bumps,live.counter,live.counted⟩⟩

theorem Numbered.register (numbered : server.Numbered) (running : server.worker.stopped = false)
    (call : RegisterCall) (append : AppendIo) (fsync : FsyncIo)
    (fits : max server.worker.nextLsn.toNat (server.nextEventId + 1) < u64Max) :
    (server.registerStep env log call append fsync).Numbered := by
  unfold registerStep
  dsimp only
  split
  · exact numbered.withRegistry _
  · rename_i bump isRecord
    exact (numbered.logBump running bump append fsync fits).withRegistry _

/-! ### Crash and boot -/

theorem survivor_records {file survivor : LogFile} {cut : SegmentCut}
    (survives : cut.survivor file = some survivor) : survivor.records ⊆ file.records := by
  cases cut with
  | lost => cases survives
  | tornHeader =>
      cases survives
      exact List.nil_subset _
  | keep count tornTail =>
      cases survives
      exact List.take_subset count file.records

theorem survivingFiles_bumpLsns (files : List LogFile) (cuts : List SegmentCut) :
    bumpLsns (survivingFiles files cuts) ⊆ bumpLsns files := by
  induction files generalizing cuts with
  | nil => cases cuts <;> exact List.Subset.refl _
  | cons file rest ih =>
      cases cuts with
      | nil => exact List.Subset.refl _
      | cons cut cuts =>
          intro lsn member
          rw [survivingFiles,bumpLsns_append,List.mem_append] at member
          rw [bumpLsns,List.flatMap_cons,List.mem_append]
          rcases member with ofFile | ofRest
          · obtain ⟨survivor,isSurvivor,record,inRecords,same⟩ := mem_bumpLsns.mp ofFile
            have kept := survivor_records (Option.mem_toList.mp isSurvivor) inRecords
            exact .inl (List.mem_map.mpr ⟨record,kept,same⟩)
          · exact .inr (ih cuts ofRest)

theorem filter_mem_take {items : List Nat} (nodup : items.Nodup) (count : Nat) :
    items.filter (fun item => decide (item ∈ items.take count)) = items.take count := by
  have apart := List.disjoint_take_drop nodup (Nat.le_refl count)
  have inFront : (items.take count).filter (fun item => decide (item ∈ items.take count)) =
      items.take count := List.filter_eq_self.mpr fun item member => decide_eq_true member
  have behind : (items.drop count).filter (fun item => decide (item ∈ items.take count)) = [] :=
    List.filter_eq_nil_iff.mpr fun item member inTake =>
      apart (of_decide_eq_true inTake) member
  calc items.filter (fun item => decide (item ∈ items.take count))
      = (items.take count ++ items.drop count).filter
          (fun item => decide (item ∈ items.take count)) := by rw [List.take_append_drop]
    _ = items.take count := by rw [List.filter_append,inFront,behind,List.append_nil]

theorem eventLsns_survive (records : List LoggedRecord) (wal : List LoggedEvent)
    (files : List LogFile) :
    (records.filter (survives wal files)).filterMap LoggedRecord.eventLsn =
      (records.filterMap LoggedRecord.eventLsn).filter
        fun lsn => decide (lsn ∈ eventLsns wal) := by
  induction records with
  | nil => rfl
  | cons record rest ih =>
      cases record with
      | event lsn =>
          rw [List.filter_cons,survives,List.filterMap_cons,LoggedRecord.eventLsn,
            List.filter_cons]
          split
          · rw [List.filterMap_cons,LoggedRecord.eventLsn,ih]
          · exact ih
      | bump lsn =>
          rw [List.filter_cons,List.filterMap_cons,LoggedRecord.eventLsn]
          split
          · rw [List.filterMap_cons,LoggedRecord.eventLsn,ih]
          · exact ih

theorem InOneOrder.crash (order : server.InOneOrder) (keptEvents : Nat) (cuts : List SegmentCut) :
    (server.crash keptEvents cuts).InOneOrder := by
  have eventsIncrease : (eventLsns server.wal).Pairwise (· < ·) := by
    rw [← order.events,List.pairwise_filterMap]
    refine order.increasing.imp ?_
    intro first second below lsn isFirst other isSecond
    cases first <;> cases second <;> cases isFirst <;> cases isSecond
    exact below
  refine ⟨order.increasing.filter _,?_,?_⟩
  · have kept : eventLsns (server.wal.take keptEvents) = (eventLsns server.wal).take keptEvents :=
      List.map_take
    show (server.appended.filter _).filterMap _ = eventLsns (server.wal.take keptEvents)
    rw [eventLsns_survive,order.events,kept]
    exact filter_mem_take (eventsIncrease.imp Nat.ne_of_lt) keptEvents
  · intro lsn
    show .bump lsn ∈ server.appended.filter _ ↔ _
    rw [List.mem_filter,order.bumps,survives,decide_eq_true_eq]
    exact ⟨And.right,fun survives =>
      ⟨survivingFiles_bumpLsns server.worker.files cuts survives,survives⟩⟩

theorem foldl_max_le_iff {start : Nat} :
    lsns.foldl max start ≤ limit ↔ start ≤ limit ∧ ∀ lsn ∈ lsns, lsn ≤ limit := by
  induction lsns generalizing start with
  | nil => simp
  | cons lsn rest ih => rw [List.foldl_cons,ih,Nat.max_le,List.forall_mem_cons,and_assoc]

theorem le_lastLsn {lsn : Nat} (member : lsn ∈ lsns) : lsn ≤ lastLsn lsns :=
  (foldl_max_le_iff.mp (Nat.le_refl _)).2 lsn member

theorem lastLsn_le (within : ∀ lsn ∈ lsns, lsn ≤ limit) : lastLsn lsns ≤ limit :=
  foldl_max_le_iff.mpr ⟨Nat.zero_le limit,within⟩

variable {torn : List TornPlace}

theorem mem_of_readFiles (files : List LogFile) {records : List WalRecord}
    (isRead : readFiles torn tornEnds files = some records) :
    recordLsns records ⊆ bumpLsns files := by
  induction files generalizing records with
  | nil =>
      cases isRead
      exact List.Subset.refl _
  | cons file rest ih =>
      simp only [readFiles,Option.bind_eq_bind,Option.bind_eq_some_iff,Option.pure_def,
        Option.some_inj] at isRead
      obtain ⟨first,fromFile,others,fromRest,rfl⟩ := isRead
      have inFile : first ⊆ file.records := by
        unfold readFile at fromFile
        split at fromFile
        · split at fromFile
          · cases fromFile
            exact List.Subset.refl _
          · split at fromFile
            · cases fromFile
              exact List.take_subset _ _
            · cases fromFile
        · cases fromFile
      rw [recordLsns,List.map_append,bumpLsns,List.flatMap_cons]
      exact List.append_subset.mpr
        ⟨List.Subset.trans (List.map_subset _ inFile) (List.subset_append_left _ _),
          List.Subset.trans (ih fromRest) (List.subset_append_right _ _)⟩

theorem readFiles_whole
    (whole : ∀ file ∈ files, file.headerWhole = true ∧ ∀ place ∈ torn, ¬place.Hides file) :
    readFiles torn tornEnds files = some (files.flatMap LogFile.records) := by
  induction files with
  | nil => rfl
  | cons file rest ih =>
      obtain ⟨header,shown⟩ := whole file List.mem_cons_self
      have noPlace : (torn.find? fun place => place.Hides file) = none :=
        List.find?_eq_none.mpr fun place member => by simpa using shown place member
      have isRead : readFile torn tornEnds file = some file.records := by
        rw [readFile,if_pos header,noPlace]
      rw [readFiles,isRead,ih fun other member => whole other (List.mem_cons_of_mem _ member)]
      rfl

theorem bumpLsns_listSegments (files : List LogFile) (lsn : Nat) :
    lsn ∈ bumpLsns (listSegments files) ↔ lsn ∈ bumpLsns files := by
  simp only [mem_bumpLsns,listSegments,List.mem_insertionSort]

theorem replayFiles_le (within : ∀ lsn ∈ bumpLsns files, lsn ≤ limit) :
    (replayFiles env log torn tornEnds files).2 ≤ limit := by
  unfold replayFiles
  split
  · exact Nat.zero_le limit
  · rename_i records isRead
    split
    · refine lastLsn_le fun lsn member => within lsn ?_
      exact (bumpLsns_listSegments files lsn).mp (mem_of_readFiles _ isRead member)
    · exact Nat.zero_le limit

theorem LogReplays.le (replays : LogReplays env log torn files) {lsn : Nat}
    (member : lsn ∈ bumpLsns files) : lsn ≤ (replayFiles env log torn tornEnds files).2 := by
  obtain ⟨whole,applies⟩ := replays
  have isRead : readFiles torn tornEnds (listSegments files) =
      some ((listSegments files).flatMap LogFile.records) :=
    readFiles_whole fun file isFile => whole file ((List.mem_insertionSort _).mp isFile)
  unfold replayFiles
  rw [isRead]
  dsimp only
  split
  · refine le_lastLsn ?_
    rw [recordLsns,List.map_flatMap]
    exact (bumpLsns_listSegments files lsn).mpr member
  · rename_i registry failed
    rw [failed] at applies
    cases applies

theorem Numbered.crash (numbered : server.Numbered) (keptEvents : Nat) (cuts : List SegmentCut) :
    (server.crash keptEvents cuts).Numbered :=
  ⟨numbered.order.crash keptEvents cuts,
    fun record member => numbered.room record (List.mem_of_mem_filter member),nofun⟩

theorem spawn_some {config : WalSinkConfig}
    (isSpawned : LogWorker.spawn config files io = some worker) :
    Idle worker ∧ Extends files worker.files ∧ worker.nextLsn = config.initialStartLsn ∧
      worker.durableLsn = UInt64.ofNat (config.initialStartLsn.toNat - 1) := by
  have extends_ := openWriter_extends files config.initialStartLsn config.initialRegistryVersion io
  unfold LogWorker.spawn at isSpawned
  split at isSpawned
  · cases isSpawned
  · rename_i opened isOpened
    cases isSpawned
    rw [isOpened] at extends_
    exact ⟨⟨rfl,rfl,rfl,openWriter_current isOpened⟩,extends_,rfl,rfl⟩

theorem Numbered.boot (numbered : server.Numbered) (tornEnds : Bool) (openIo : OpenIo)
    (bumpsLe : ∀ lsn ∈ bumpLsns server.worker.files,
      lsn ≤ max (lastLsn (eventLsns server.wal))
        (replayFiles env log server.torn tornEnds server.worker.files).2) :
    (server.boot env log tornEnds openIo).Numbered := by
  have limit : u64Max = 2 ^ 64 - 1 := rfl
  have order := numbered.order
  have inEvents : ∀ lsn, .event lsn ∈ server.appended → lsn ∈ eventLsns server.wal := by
    intro lsn member
    rw [← order.events]
    exact List.mem_filterMap.mpr ⟨_,member,rfl⟩
  have eventsLe : lastLsn (eventLsns server.wal) ≤ u64Max - 1 := by
    refine lastLsn_le fun lsn member => ?_
    rw [← order.events] at member
    obtain ⟨record,inAppended,isEvent⟩ := List.mem_filterMap.mp member
    have room := numbered.room record inAppended
    cases record <;> cases isEvent
    exact Nat.le_sub_one_of_lt room
  have replayedLe : (replayFiles env log server.torn tornEnds server.worker.files).2 ≤ u64Max - 1 :=
    replayFiles_le fun lsn member =>
      Nat.le_sub_one_of_lt (numbered.room _ ((order.bumps lsn).mpr member))
  unfold LsnServer.boot
  dsimp only
  generalize replayFiles env log server.torn tornEnds server.worker.files = replayed at *
  generalize isLast : max (lastLsn (eventLsns server.wal)) replayed.2 = last at *
  have startLsn : (UInt64.ofNat (last + 1)).toNat = last + 1 :=
    UInt64.toNat_ofNat_of_lt' (by change last + 1 < 2 ^ 64; omega)
  cases isSpawned : LogWorker.spawn (bootConfig log (last + 1) replayed.1.version)
      server.worker.files openIo with
  | none =>
      have extends_ := openWriter_extends server.worker.files (UInt64.ofNat (last + 1))
        (UInt32.ofNat replayed.1.version) openIo
      refine ⟨⟨order.increasing,order.events,fun lsn => ?_⟩,numbered.room,nofun⟩
      show _ ↔ lsn ∈ bumpLsns (openWriter _ _ _ _).2
      exact extends_.bumpLsns_eq ▸ order.bumps lsn
  | some worker =>
      obtain ⟨idle,extends_,nextLsn,durableLsn⟩ := spawn_some isSpawned
      have durable : worker.durableLsn.toNat = last := by
        rw [durableLsn,bootConfig,startLsn,Nat.add_sub_cancel]
        exact UInt64.toNat_ofNat_of_lt' (by change last < 2 ^ 64; omega)
      have next : worker.nextLsn.toNat = last + 1 := by
        rw [nextLsn]
        exact startLsn
      rw [Option.getD_some]
      refine ⟨⟨order.increasing,order.events,fun lsn => ?_⟩,numbered.room,
        fun _ => ⟨idle,rfl,fun lsn member => le_lastLsn (inEvents lsn member),?_,?_,?_,
          Nat.le_refl 0⟩⟩
      · exact extends_.bumpLsns_eq ▸ order.bumps lsn
      · show lastLsn _ ≤ max (last + 1 - 1) worker.durableLsn.toNat
        omega
      · intro lsn member
        have := bumpsLe lsn ((order.bumps lsn).mp member)
        show lsn < worker.nextLsn.toNat ∧ lsn ≤ max (last + 1 - 1) worker.durableLsn.toNat + 0
        omega
      · show worker.nextLsn.toNat ≤ max (last + 1 - 1) worker.durableLsn.toNat + 1 + 0
        omega

theorem numbered_start : (start log : LsnServer Expr).Numbered :=
  ⟨⟨List.Pairwise.nil,rfl,fun _ => by simp [start,offline,bumpLsns]⟩,nofun,nofun⟩

theorem Numbered.step (numbered : server.Numbered) (action : LsnAction)
    (condition : server.LsnCondition env log action) :
    (server.next env log action).Numbered := by
  cases action with
  | push event =>
      unfold LsnServer.next
      dsimp only
      split
      · exact numbered
      · rename_i running
        exact numbered.push (Bool.eq_false_iff.mpr running) condition.1 condition.2
  | register call append fsync =>
      unfold LsnServer.next
      dsimp only
      split
      · exact numbered
      · rename_i running
        exact numbered.register (Bool.eq_false_iff.mpr running) call append fsync condition
  | restart keptEvents cuts tornEnds openIo =>
      refine (numbered.crash keptEvents cuts).boot tornEnds openIo fun lsn member => ?_
      rcases condition with replays | noneBehind
      · exact Nat.le_trans (replays.le member) (Nat.le_max_right _ _)
      · exact Nat.le_trans (noneBehind lsn member) (Nat.le_max_left _ _)

/-- In every state of a run that meets the condition the records of both logs are in
one order. -/
theorem records_inOneOrder (env : Env Expr) (log : BumpLog) (actions : List LsnAction)
    (meets : Machine.Meets (next env log) (LsnCondition env log) (start log) actions)
    (count : Nat) :
    (Machine.run (next env log) (start log) (actions.take count)).InOneOrder :=
  (Machine.invariant_reached (next env log)
    (fun _ action numbered condition => numbered.step action condition) numbered_start meets
    count).order

instance (torn : List TornPlace) (files : List LogFile) :
    Decidable (LogReplays env log torn files) :=
  inferInstanceAs (Decidable (_ ∧ _))

instance (server : LsnServer Expr) :
    (action : LsnAction) → Decidable (server.LsnCondition env log action)
  | .push _ => inferInstanceAs (Decidable (_ ∧ _))
  | .register _ _ _ => inferInstanceAs (Decidable (_ < _))
  | .restart _ _ _ _ => inferInstanceAs (Decidable (_ ∨ _))

/-- The bumps of the runs below, written as their version. -/
def sampleLog : BumpLog where
  encode bump := [UInt8.ofNat bump.newVersion]
  decode
    | [1] => some ⟨1,[sampleEvent "E"],[]⟩
    | [2] => some ⟨2,[sampleEvent "E",sampleEvent "F"],[]⟩
    | [3] => some ⟨3,[sampleEvent "E",sampleEvent "F",sampleEvent "G"],[]⟩
    | _ => none
  segmentBytes := 18

def registerNodes (nodes : List PayloadNode) (append : AppendIo) (fsync : FsyncIo) : LsnAction :=
  .register ⟨nodes,false,false⟩ append fsync

/-- The event `E` with all its fields. -/
def samplePush : PushedEvent :=
  ⟨[69],[123,34,107,34,58,34,117,34,44,34,120,34,58,49,44,34,121,34,58,50,125]⟩

/-- A rotation, a failed append and a failed sync, a crash that loses an event and a
crash that loses nothing. -/
def orderlyRun : List LsnAction :=
  [.restart 0 [] false .ok,registerNodes [sampleEvent "E"] .ok ⟨true,.opened .ok⟩,
    .push samplePush,
    registerNodes [sampleEvent "E",sampleEvent "F"] (.failed false) ⟨true,.syncFailed⟩,
    registerNodes [sampleEvent "E",sampleEvent "F"] .ok ⟨false,.syncFailed⟩,
    .push samplePush,.restart 1 [] false .ok,.push samplePush,
    registerNodes [sampleEvent "E",sampleEvent "F",sampleEvent "G"] .ok ⟨true,.syncFailed⟩,
    .restart 2 [] false .ok,.push samplePush]

theorem orderlyRun_inOneOrder :
    Machine.Meets (next sampleEnv sampleLog) (LsnCondition sampleEnv sampleLog) (start sampleLog)
        orderlyRun ∧
      (Machine.run (next sampleEnv sampleLog) (start sampleLog)
        (orderlyRun.take 11)).InOneOrder := by
  have meets : Machine.Meets (next sampleEnv sampleLog) (LsnCondition sampleEnv sampleLog)
      (start sampleLog) orderlyRun := by
    decide
  exact ⟨meets,records_inOneOrder sampleEnv sampleLog orderlyRun meets 11⟩

/-- Two bumps around an event; then a crash right after the start, which leaves
the new segment without its header, and a third bump. -/
def tornHeaderRun : List LsnAction :=
  [.restart 0 [] false .ok,registerNodes [sampleEvent "E"] .ok ⟨true,.syncFailed⟩,
    .push samplePush,
    registerNodes [sampleEvent "E",sampleEvent "F"] .ok ⟨true,.syncFailed⟩,
    .restart 1 [] false .ok,.restart 1 [.keep 2 false,.tornHeader] false .ok,
    registerNodes [sampleEvent "E"] .ok ⟨true,.syncFailed⟩]

/-- The third bump has the LSN of the second. -/
theorem tornHeaderRun_not_inOneOrder :
    ¬(Machine.run (next sampleEnv sampleLog) (start sampleLog) tornHeaderRun).InOneOrder ∧
      bumpLsns (Machine.run (next sampleEnv sampleLog) (start sampleLog)
        tornHeaderRun).worker.files = [1,52,52] :=
  ⟨fun order => absurd order.increasing (by decide),by decide⟩

end LsnServer

end Beava.Server
