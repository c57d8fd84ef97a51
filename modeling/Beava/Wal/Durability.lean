/-
What a crash leaves of the pushes that were answered.

The apply thread appends the record of a push to the ring, applies the event and
answers; it does not wait for the writer thread, and a request of the kind that
asks for a durable answer takes the same path.  The writer thread writes the
sealed buffers and syncs the file after each; a write can fail after some of its
bytes, and a sync can fail.  A crash keeps the part of the file that a successful
sync covers.
-/

import Beava.Wal.BufferRing
import Beava.Wal.Maintenance

namespace Beava.Wal

/-! ### Both threads and the file -/

/-- The requests that `dispatch_push_sync` serves. -/
inductive PushKind where
  | tcpPush
  | httpPush
  | httpPushSync
  | httpPushBatch
  deriving DecidableEq

/-- Where the apply thread is in `dispatch_push_sync`. -/
inductive PushPhase where
  | idle
  | appending (kind : PushKind) (record : PushRecord)
  | appended (kind : PushKind) (record : PushRecord)

def PushPhase.isAppended : PushPhase → Bool
  | .appended _ _ => true
  | _ => false

structure DurableSystem (n : Nat) where
  ring : RingSystem n
  phase : PushPhase
  /-- The pushes answered with `PushAck`, in order. -/
  acked : List (PushKind × PushRecord)
  file : List UInt8
  synced : Nat
  syncDue : Bool

structure FlushIo where
  writeFailsAfter : Option Nat
  syncOk : Bool

inductive DurableAction where
  | push (kind : PushKind) (record : PushRecord) (durableLsn : Nat)
  | applyThread
  | writerThread (io : FlushIo)

namespace DurableSystem

variable {n : Nat}

def raised (ring : RingSystem n) (durableLsn : Nat) : RingSystem n :=
  { ring with committed := max ring.committed durableLsn }

def pushStep (system : DurableSystem n) (kind : PushKind) (record : PushRecord)
    (durableLsn : Nat) : DurableSystem n :=
  match system.phase with
  | .idle =>
      let ring := raised system.ring durableLsn
      if record.lsn = ring.committed + record.encode.length ∧
          record.encode.length ≤ ring.capacity then
        { system with ring := ring.next (.append record.encode), phase := .appending kind record }
      else system
  | _ => system

/-- A step of the append, or the rest of the push up to its answer. -/
def applyStep (system : DurableSystem n) : DurableSystem n :=
  match system.phase with
  | .idle => system
  | .appending kind record =>
      let ring := system.ring.applyStep
      { system with
        ring := ring
        phase := if ring.apply = .idle then .appended kind record else .appending kind record }
  | .appended kind record =>
      { system with phase := .idle, acked := system.acked ++ [(kind,record)] }

/-- `flush_sealed_buffers` on one buffer: write, sync and free. -/
def writerStep (system : DurableSystem n) (io : FlushIo) : DurableSystem n :=
  match system.ring.writer with
  | .writing idx =>
      let bytes := (system.ring.buffers idx).bytes
      match bytes, io.writeFailsAfter with
      | [], _ => { system with ring := system.ring.writerStep }
      | bytes, none =>
          { system with
            ring := system.ring.writerStep, file := system.file ++ bytes, syncDue := true }
      | bytes, some kept =>
          { system with ring := system.ring.writerStep, file := system.file ++ bytes.take kept }
  | .returning _ =>
      if system.syncDue then
        { system with
          synced := if io.syncOk then system.file.length else system.synced, syncDue := false }
      else { system with ring := system.ring.writerStep }
  | _ => { system with ring := system.ring.writerStep }

def next (system : DurableSystem n) : DurableAction → DurableSystem n
  | .push kind record durableLsn => system.pushStep kind record durableLsn
  | .applyThread => system.applyStep
  | .writerThread io => system.writerStep io

def start (count capacity lsn : Nat) : DurableSystem (count + 2) :=
  { ring := .new count capacity lsn
    phase := .idle
    acked := []
    file := []
    synced := 0
    syncDue := false }

/-! ### Crashes -/

def crashFile (system : DurableSystem n) : List UInt8 := system.file.take system.synced

def ackedRecords (system : DurableSystem n) : List PushRecord := system.acked.map Prod.snd

/-- After a crash in this state recovery replays the record of every push that was
answered. -/
def CrashSafe (system : DurableSystem n) : Prop :=
  ∃ records, parseHandrolledRecords system.crashFile 0 = .ok records ∧
    List.Sublist (system.ackedRecords.map PushRecord.handrolled) (replayedFrom 0 records)

/-- A push is answered only when everything appended so far is in the file and
synced. -/
def AnswersSynced (system : DurableSystem n) : DurableAction → Prop
  | .applyThread =>
      system.phase.isAppended = true → system.crashFile = system.ring.appended.flatten
  | _ => True

instance (system : DurableSystem n) : ∀ action, Decidable (system.AnswersSynced action)
  | .applyThread => inferInstanceAs (Decidable (_ → _))
  | .push _ _ _ | .writerThread _ => .isTrue trivial

def WritesInOrder (system : DurableSystem n) : DurableAction → Prop
  | .writerThread io => system.ring.TickMeetsAppend .writerThread ∧ io.writeFailsAfter = none
  | _ => True

end DurableSystem

namespace RingSystem

variable {n : Nat} {ring : RingSystem n} {record : List UInt8}

theorem applyStep_handed (ring : RingSystem n) : ring.applyStep.handed = ring.handed := by
  unfold applyStep
  split
  · rfl
  · dsimp only
    split <;> rfl
  · split <;> rfl
  · rfl
  · split <;> rfl

theorem writerStep_handed (ring : RingSystem n) :
    ring.writerStep.handed = ring.handed ++ ring.writer.inFlight ring.bytesAt := by
  unfold writerStep
  cases atPc : ring.writer with
  | sleeping =>
      simp only [WriterPc.inFlight,List.append_nil]
      unfold sealActive
      split
      · rfl
      · split <;> rfl
  | draining =>
      simp only [WriterPc.inFlight,List.append_nil]
      split <;> rfl
  | writing idx => rfl
  | returning idx =>
      simp only [WriterPc.inFlight,List.append_nil]
      rfl

end RingSystem

def PushPhase.inRing : PushPhase → List PushRecord
  | .appended _ record => [record]
  | _ => []

/-- The LSN of the push in hand is positive, and the thread is in the append of its
record. -/
def PushPhase.Matches {n : Nat} (pc : ApplyPc n) : PushPhase → Prop
  | .idle => pc = .idle
  | .appending _ record => 0 < record.lsn ∧ pc.record = some record.encode
  | .appended _ record => 0 < record.lsn ∧ pc = .idle

namespace DurableSystem

variable {n : Nat} {system : DurableSystem n}

/-- The records in the ring are those of the answered pushes and of the push in
hand. -/
structure Threaded (system : DurableSystem n) : Prop where
  appended : system.ring.appended =
    (system.ackedRecords ++ system.phase.inRing).map PushRecord.encode
  positive : ∀ record ∈ system.ackedRecords, 0 < record.lsn
  phase : system.phase.Matches system.ring.apply
  within : system.synced ≤ system.file.length

theorem threaded_start (count capacity lsn : Nat) : (start count capacity lsn).Threaded where
  appended := rfl
  positive := nofun
  phase := rfl
  within := Nat.le_refl 0

theorem encode_length_pos (record : PushRecord) : 0 < record.encode.length := by
  rw [record.length_encode]
  omega

theorem Threaded.push (threaded : system.Threaded) (kind : PushKind) (record : PushRecord)
    (durableLsn : Nat) : (system.pushStep kind record durableLsn).Threaded := by
  unfold pushStep
  split
  · rename_i atIdle
    dsimp only
    split
    · rename_i stamped
      have idle : system.ring.apply = .idle := by
        have phase := threaded.phase
        rwa [atIdle] at phase
      have begun : (raised system.ring durableLsn).next (.append record.encode) =
          { raised system.ring durableLsn with apply := .retry record.encode } :=
        if_pos ⟨idle,stamped.2⟩
      have positive := encode_length_pos record
      refine ⟨?_,threaded.positive,⟨by omega,?_⟩,threaded.within⟩
      · have appended := threaded.appended
        rw [atIdle] at appended
        rw [begun]
        exact appended
      · rw [begun]
        rfl
    · exact threaded
  · exact threaded

theorem Threaded.apply (threaded : system.Threaded) : system.applyStep.Threaded := by
  unfold applyStep
  split
  · exact threaded
  · rename_i kind record atAppending
    have phase := threaded.phase
    have appended := threaded.appended
    rw [atAppending] at phase appended
    obtain ⟨positive,carries⟩ := phase
    rcases RingSystem.applyStep_record carries with ⟨still,same⟩ | ⟨done,grown⟩
    · have notIdle : system.ring.applyStep.apply ≠ .idle := by
        intro idle
        rw [idle] at still
        cases still
      dsimp only
      rw [if_neg notIdle]
      exact ⟨same.trans appended,threaded.positive,⟨positive,still⟩,threaded.within⟩
    · dsimp only
      rw [if_pos done]
      refine ⟨?_,threaded.positive,⟨positive,done⟩,threaded.within⟩
      change system.ring.appended =
        (system.ackedRecords ++ []).map PushRecord.encode at appended
      rw [List.append_nil] at appended
      show system.ring.applyStep.appended =
        (system.ackedRecords ++ [record]).map PushRecord.encode
      rw [grown,appended,List.map_append,List.map_singleton]
  · rename_i kind record atAppended
    have phase := threaded.phase
    have appended := threaded.appended
    rw [atAppended] at phase appended
    have ackedGrown : (system.acked ++ [(kind,record)]).map Prod.snd =
        system.ackedRecords ++ [record] := List.map_append
    refine ⟨?_,?_,phase.2,threaded.within⟩
    · show system.ring.appended =
        ((system.acked ++ [(kind,record)]).map Prod.snd ++ []).map PushRecord.encode
      rw [ackedGrown,List.append_nil]
      exact appended
    · show ∀ other ∈ (system.acked ++ [(kind,record)]).map Prod.snd, 0 < other.lsn
      rw [ackedGrown]
      intro other member
      rcases List.mem_append.mp member with old | new
      · exact threaded.positive other old
      · rw [List.mem_singleton.mp new]
        exact phase.1

theorem writerStep_cases (system : DurableSystem n) (io : FlushIo) :
    ∃ more ring synced syncDue, system.writerStep io =
        { system with
          ring := ring, file := system.file ++ more, synced := synced, syncDue := syncDue } ∧
      (ring = system.ring ∨ ring = system.ring.writerStep) ∧
      (synced = system.synced ∨ (synced = system.file.length ∧ more = [])) ∧
      (io.writeFailsAfter = none →
        ring.handed = system.ring.handed ++ more) := by
  have handed := system.ring.writerStep_handed
  unfold writerStep
  cases atPc : system.ring.writer with
  | writing idx =>
      rw [atPc] at handed
      change system.ring.writerStep.handed =
        system.ring.handed ++ (system.ring.buffers idx).bytes at handed
      dsimp only
      split
      · rename_i empty
        rw [empty] at handed
        exact ⟨[],system.ring.writerStep,system.synced,system.syncDue,
          by rw [List.append_nil],.inr rfl,.inl rfl,fun _ => handed⟩
      · exact ⟨_,_,_,_,rfl,.inr rfl,.inl rfl,fun _ => handed⟩
      · rename_i kept failed notEmpty
        refine ⟨_,_,_,_,rfl,.inr rfl,.inl rfl,fun notFailed => ?_⟩
        rw [failed] at notFailed
        cases notFailed
  | returning idx =>
      rw [atPc] at handed
      dsimp only
      split
      · refine ⟨[],system.ring,_,false,by rw [List.append_nil],.inl rfl,?_,
          fun _ => (List.append_nil _).symm⟩
        cases io.syncOk with
        | true => exact .inr ⟨rfl,rfl⟩
        | false => exact .inl rfl
      · exact ⟨[],system.ring.writerStep,_,_,by rw [List.append_nil],.inr rfl,.inl rfl,
          fun _ => handed⟩
  | sleeping | draining =>
      rw [atPc] at handed
      exact ⟨[],system.ring.writerStep,_,_,by rw [List.append_nil],.inr rfl,.inl rfl,
        fun _ => handed⟩

theorem Threaded.write (threaded : system.Threaded) (io : FlushIo) :
    (system.writerStep io).Threaded := by
  obtain ⟨more,ring,synced,syncDue,written,ringSteps,syncs,-⟩ := system.writerStep_cases io
  have sameThread : ring.apply = system.ring.apply ∧ ring.appended = system.ring.appended := by
    rcases ringSteps with rfl | rfl
    · exact ⟨rfl,rfl⟩
    · exact system.ring.writerStep_apply
  rw [written]
  refine ⟨sameThread.2.trans threaded.appended,threaded.positive,?_,?_⟩
  · show system.phase.Matches ring.apply
    rw [sameThread.1]
    exact threaded.phase
  · show synced ≤ (system.file ++ more).length
    have within := threaded.within
    rw [List.length_append]
    rcases syncs with rfl | ⟨rfl,-⟩ <;> omega

theorem Threaded.next (threaded : system.Threaded) (action : DurableAction) :
    (system.next action).Threaded := by
  cases action with
  | push kind record durableLsn => exact threaded.push kind record durableLsn
  | applyThread => exact threaded.apply
  | writerThread io => exact threaded.write io

theorem crashFile_write (threaded : system.Threaded) (io : FlushIo) :
    system.crashFile <+: (system.writerStep io).crashFile := by
  obtain ⟨more,ring,synced,syncDue,written,-,syncs,-⟩ := system.writerStep_cases io
  rw [written]
  show system.file.take system.synced <+: (system.file ++ more).take synced
  rcases syncs with rfl | ⟨rfl,rfl⟩
  · rw [List.take_append_of_le_length threaded.within]
  · rw [List.append_nil,List.take_length]
    exact ⟨_,List.take_append_drop _ _⟩

theorem applyStep_file (system : DurableSystem n) :
    system.applyStep.file = system.file ∧ system.applyStep.synced = system.synced := by
  unfold applyStep
  split <;> exact ⟨rfl,rfl⟩

theorem pushStep_file (system : DurableSystem n) (kind : PushKind) (record : PushRecord)
    (durableLsn : Nat) :
    (system.pushStep kind record durableLsn).crashFile = system.crashFile ∧
      (system.pushStep kind record durableLsn).acked = system.acked := by
  unfold pushStep
  split
  · dsimp only
    split <;> exact ⟨rfl,rfl⟩
  · exact ⟨rfl,rfl⟩

/-- The synced part of the file begins with the records of the answered pushes. -/
def Covered (system : DurableSystem n) : Prop :=
  pushCodec.encodeAll system.ackedRecords <+: system.crashFile

theorem Covered.crashSafe (covered : system.Covered) (threaded : system.Threaded) :
    system.CrashSafe := by
  obtain ⟨rest,crashFile⟩ := covered
  have pieces := pushCodec.pieces_encodeAll_append 0 system.ackedRecords rest
  refine ⟨_,parseHandrolledRecords_eq _ 0,?_⟩
  change pushCodec.decoder.pieces 0 _ = _ at pieces
  rw [← crashFile]
  change List.Sublist _ (replayedFrom 0 ((pushCodec.decoder.pieces 0 _).map _))
  rw [pieces,List.map_append,map_handrolledOfPiece_placed,replayedFrom_append]
  have allReplayed : replayedFrom 0 (system.ackedRecords.map PushRecord.handrolled) =
      system.ackedRecords.map PushRecord.handrolled := by
    apply List.filter_eq_self.mpr
    intro replayed member
    obtain ⟨record,acked,rfl⟩ := List.mem_map.mp member
    exact decide_eq_true (threaded.positive record acked)
  rw [allReplayed]
  exact List.sublist_append_left _ _

theorem Covered.next (covered : system.Covered) (threaded : system.Threaded)
    (action : DurableAction) (answers : system.AnswersSynced action) :
    (system.next action).Covered := by
  cases action with
  | push kind record durableLsn =>
      obtain ⟨sameFile,sameAcked⟩ := system.pushStep_file kind record durableLsn
      show pushCodec.encodeAll ((system.pushStep kind record durableLsn).acked.map Prod.snd) <+: _
      rw [sameAcked]
      exact covered.trans (by rw [← sameFile]; exact List.prefix_refl _)
  | writerThread io =>
      obtain ⟨more,ring,synced,syncDue,written,-⟩ := system.writerStep_cases io
      have sameAcked : (system.writerStep io).ackedRecords = system.ackedRecords := by
        rw [written]
        rfl
      show pushCodec.encodeAll (system.writerStep io).ackedRecords <+: _
      rw [sameAcked]
      exact covered.trans (crashFile_write threaded io)
  | applyThread =>
      cases atPhase : system.phase with
      | idle =>
          have same : system.applyStep = system := by simp only [applyStep,atPhase]
          show system.applyStep.Covered
          rwa [same]
      | appending kind record =>
          have same : system.applyStep.ackedRecords = system.ackedRecords ∧
              system.applyStep.crashFile = system.crashFile := by
            simp only [applyStep,atPhase]
            exact ⟨rfl,rfl⟩
          show pushCodec.encodeAll system.applyStep.ackedRecords <+: system.applyStep.crashFile
          rwa [same.1,same.2]
      | appended kind record =>
          have everything : system.crashFile = system.ring.appended.flatten :=
            answers (by rw [atPhase]; rfl)
          have appended := threaded.appended
          rw [atPhase] at appended
          have answered : system.applyStep.ackedRecords = system.ackedRecords ++ [record] ∧
              system.applyStep.crashFile = system.crashFile := by
            simp only [applyStep,atPhase]
            exact ⟨List.map_append,rfl⟩
          show pushCodec.encodeAll system.applyStep.ackedRecords <+: system.applyStep.crashFile
          rw [answered.1,answered.2,everything,appended]
          exact List.prefix_refl _

/-! ### Answers before the sync -/

/-- The buffers reach the file whole and in order. -/
structure InOrder (system : DurableSystem n) : Prop where
  threaded : system.Threaded
  ring : RingSystem.RingInvariant system.ring
  file : system.file = system.ring.handed

theorem inOrder_start (count capacity lsn : Nat) : (start count capacity lsn).InOrder where
  threaded := threaded_start count capacity lsn
  ring := RingSystem.invariant_new count capacity lsn
  file := rfl

theorem InOrder.push (inOrder : system.InOrder) (kind : PushKind) (record : PushRecord)
    (durableLsn : Nat) : (system.pushStep kind record durableLsn).InOrder := by
  refine ⟨inOrder.threaded.push kind record durableLsn,?_,?_⟩
  · unfold pushStep
    split
    · dsimp only
      split
      · have raisedHolds : RingSystem.RingInvariant (raised system.ring durableLsn) :=
          ⟨inOrder.ring.placed,inOrder.ring.loaded,inOrder.ring.waiting⟩
        exact RingSystem.invariant_next _ (.append record.encode) raisedHolds nofun
      · exact inOrder.ring
    · exact inOrder.ring
  · unfold pushStep
    split
    · dsimp only
      split
      · simp only [RingSystem.next]
        split <;> exact inOrder.file
      · exact inOrder.file
    · exact inOrder.file

theorem InOrder.apply (inOrder : system.InOrder) : system.applyStep.InOrder := by
  refine ⟨inOrder.threaded.apply,?_,?_⟩
  · unfold applyStep
    split
    · exact inOrder.ring
    · exact RingSystem.invariant_applyStep inOrder.ring
    · exact inOrder.ring
  · rw [system.applyStep_file.1]
    unfold applyStep
    split
    · exact inOrder.file
    · exact inOrder.file.trans (RingSystem.applyStep_handed system.ring).symm
    · exact inOrder.file

theorem InOrder.next (inOrder : system.InOrder) (action : DurableAction)
    (writes : system.WritesInOrder action) : (system.next action).InOrder := by
  cases action with
  | push kind record durableLsn => exact inOrder.push kind record durableLsn
  | applyThread => exact inOrder.apply
  | writerThread io =>
      obtain ⟨ticks,notFailed⟩ := writes
      refine ⟨inOrder.threaded.write io,?_,?_⟩
      · obtain ⟨more,ring,synced,syncDue,written,rfl | rfl,-⟩ := system.writerStep_cases io
        · show RingSystem.RingInvariant (system.writerStep io).ring
          rw [written]
          exact inOrder.ring
        · show RingSystem.RingInvariant (system.writerStep io).ring
          rw [written]
          exact RingSystem.invariant_writerStep inOrder.ring ticks
      · obtain ⟨more,ring,synced,syncDue,written,-,-,handed⟩ := system.writerStep_cases io
        show (system.writerStep io).file = (system.writerStep io).ring.handed
        rw [written]
        show system.file ++ more = ring.handed
        rw [handed notFailed,inOrder.file]

theorem InOrder.crashFile_eq_take (inOrder : system.InOrder) :
    system.crashFile = system.ring.appended.flatten.take system.crashFile.length := by
  have handed : system.ring.HandsInOrder :=
    (RingSystem.losesNothing_of_invariant inOrder.ring).inOrder
  have begins : system.crashFile <+: system.ring.appended.flatten := by
    rw [crashFile,inOrder.file]
    exact List.IsPrefix.trans ⟨_,List.take_append_drop _ _⟩ handed
  exact List.prefix_iff_eq_take.mp begins

theorem InOrder.answersSynced (inOrder : system.InOrder) (action : DurableAction)
    (safe : (system.next action).CrashSafe) : system.AnswersSynced action := by
  cases action with
  | push | writerThread => exact trivial
  | applyThread =>
      intro answering
      cases atPhase : system.phase with
      | idle =>
          rw [atPhase] at answering
          cases answering
      | appending kind record =>
          rw [atPhase] at answering
          cases answering
      | appended kind record =>
          obtain ⟨records,parsed,replayed⟩ := safe
          have appended := inOrder.threaded.appended
          rw [atPhase] at appended
          have answered : system.applyStep.ackedRecords = system.ackedRecords ++ [record] ∧
              system.applyStep.crashFile = system.crashFile := by
            simp only [applyStep,atPhase]
            exact ⟨List.map_append,rfl⟩
          have allAppended : system.ring.appended.flatten =
              pushCodec.encodeAll (system.ackedRecords ++ [record]) := by
            rw [appended]
            rfl
          change parseHandrolledRecords system.applyStep.crashFile 0 = .ok records at parsed
          change List.Sublist (system.applyStep.ackedRecords.map _) _ at replayed
          rw [answered.2,inOrder.crashFile_eq_take,allAppended,
            (cutLog_recovered _ [] _ 0).1] at parsed
          rw [answered.1] at replayed
          cases parsed
          have counted := replayed.length_le.trans (List.length_filter_le _ _)
          rw [List.length_map,List.length_map] at counted
          have behind := pushCodec.length_encodeAll_le_of_whole counted
          rw [inOrder.crashFile_eq_take,allAppended,List.take_of_length_le behind]

/-- In every run, answers after the sync of everything appended are enough for every
crash to be survived; and where the buffers reach the file in order, they are
necessary. -/
theorem acked_survive (count capacity lsn : Nat) (actions : List DurableAction) :
    (Machine.Meets next AnswersSynced (start count capacity lsn) actions →
      ∀ moment, (Machine.run next (start count capacity lsn) (actions.take moment)).CrashSafe) ∧
    (Machine.Meets next WritesInOrder (start count capacity lsn) actions →
      (∀ moment, (Machine.run next (start count capacity lsn) (actions.take moment)).CrashSafe) →
        Machine.Meets next AnswersSynced (start count capacity lsn) actions) := by
  constructor
  · intro answers moment
    have keeps : ∀ (system : DurableSystem (count + 2)) action,
        system.Threaded ∧ system.Covered → system.AnswersSynced action →
          (system.next action).Threaded ∧ (system.next action).Covered :=
      fun _ action both here => ⟨both.1.next action,both.2.next both.1 action here⟩
    have initial : (start count capacity lsn).Threaded ∧ (start count capacity lsn).Covered :=
      ⟨threaded_start count capacity lsn,List.prefix_refl _⟩
    have reached := Machine.invariant_reached next keeps initial answers moment
    exact reached.2.crashSafe reached.1
  · intro writes safe
    exact Machine.meets_of_reached next (fun _ action inOrder => inOrder.next action)
      (fun _ action inOrder => inOrder.answersSynced action) (inOrder_start count capacity lsn)
      writes safe

def sampleIo : FlushIo := ⟨none,true⟩

def appendSample (kind : PushKind) : List DurableAction :=
  [.push kind (samplePush 31 (by decide)) 0,.applyThread,.applyThread]

/-- The tick, the write and the sync come before the answer. -/
def syncedRun : List DurableAction :=
  appendSample .httpPush ++
    [.writerThread sampleIo,.writerThread sampleIo,.writerThread sampleIo,
      .writerThread sampleIo,.applyThread]

theorem acked_survive_syncedRun :
    (Machine.run next (start 0 64 0) syncedRun).acked.length = 1 ∧
      (Machine.run next (start 0 64 0) (syncedRun.take 8)).CrashSafe := by
  refine ⟨by decide,(acked_survive 0 64 0 syncedRun).1 ?_ 8⟩
  decide

def answeredRun (kind : PushKind) : List DurableAction :=
  appendSample kind ++ [.applyThread]

theorem answeredRun_not_crashSafe :
    ¬ (Machine.run next (start 0 64 0) (answeredRun .httpPush)).CrashSafe ∧
      ¬ (Machine.run next (start 0 64 0) (answeredRun .httpPushSync)).CrashSafe := by
  have lost : ∀ system : DurableSystem 2, system.crashFile = [] → system.acked.length = 1 →
      ¬ system.CrashSafe := by
    rintro system nothing answered ⟨records,parsed,replayed⟩
    rw [nothing] at parsed
    cases parsed
    have counted := replayed.length_le
    rw [ackedRecords,List.length_map,List.length_map,answered] at counted
    exact absurd counted (by decide)
  exact ⟨lost _ (by decide) (by decide),
    lost _ (by decide) (by decide)⟩

end DurableSystem

end Beava.Wal
