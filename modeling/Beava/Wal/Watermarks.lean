/-
The watermarks of the log and the flush of sealed buffers.

The apply thread copies a record into the active buffer and then advances the
committed watermark, which is the LSN of the record.  Either thread seals the
active buffer.  The writer thread takes the sealed buffers in order, writes each
one and syncs the file; both calls can fail.

A buffer whose write failed is dropped, and the watermark of the next buffer
jumps over its records.
-/

import Beava.Lib.Machine

namespace Beava.Wal

/-- `WalLsn`. -/
structure WalLsn where
  committed : Nat
  written : Nat
  synced : Nat
  deriving DecidableEq, Repr

namespace WalLsn

def newAt (lsn : Nat) : WalLsn := ⟨lsn,lsn,lsn⟩

def record (lsn : WalLsn) (n : Nat) : Nat × WalLsn :=
  (lsn.committed + n,{ lsn with committed := lsn.committed + n })

def markCommittedAtLeast (lsn : WalLsn) (floor : Nat) : WalLsn :=
  { lsn with committed := max lsn.committed floor }

def markWritten (lsn : WalLsn) (hi : Nat) : WalLsn :=
  if hi > lsn.written then { lsn with written := hi } else lsn

def markSynced (lsn : WalLsn) (hi : Nat) : WalLsn :=
  if hi > lsn.synced then { lsn with synced := hi } else lsn

@[simp] theorem markWritten_committed (lsn : WalLsn) (hi : Nat) :
    (lsn.markWritten hi).committed = lsn.committed := by
  unfold markWritten
  split <;> rfl

@[simp] theorem markWritten_synced (lsn : WalLsn) (hi : Nat) :
    (lsn.markWritten hi).synced = lsn.synced := by
  unfold markWritten
  split <;> rfl

@[simp] theorem markSynced_committed (lsn : WalLsn) (hi : Nat) :
    (lsn.markSynced hi).committed = lsn.committed := by
  unfold markSynced
  split <;> rfl

@[simp] theorem markSynced_synced (lsn : WalLsn) (hi : Nat) :
    (lsn.markSynced hi).synced = max lsn.synced hi := by
  unfold markSynced
  split
  · show hi = max lsn.synced hi
    omega
  · omega

end WalLsn

structure LogRecord where
  bytes : List UInt8
  notEmpty : bytes ≠ []
  deriving DecidableEq

structure LogEntry where
  number : Nat
  record : LogRecord
  deriving DecidableEq

structure SealedBuffer where
  entries : List LogEntry
  lsnHi : Nat
  deriving DecidableEq

namespace SealedBuffer

def writtenBytes (buffer : SealedBuffer) : List UInt8 :=
  buffer.entries.flatMap fun entry => entry.record.bytes

def numbers (buffer : SealedBuffer) : List Nat :=
  buffer.entries.map LogEntry.number

theorem writtenBytes_eq_nil {buffer : SealedBuffer} :
    buffer.writtenBytes = [] ↔ buffer.entries = [] := by
  constructor
  · intro empty
    cases entriesEq : buffer.entries with
    | nil => rfl
    | cons entry rest =>
        rw [writtenBytes,entriesEq,List.flatMap_cons,List.append_eq_nil_iff] at empty
        exact absurd empty.1 entry.record.notEmpty
  · intro empty
    rw [writtenBytes,empty]
    rfl

end SealedBuffer

/-! ### Both threads -/

/-- The watermarks, the buffers, and what happened to each record. -/
structure FlushSystem where
  lsn : WalLsn
  active : List LogEntry
  queue : List SealedBuffer
  inHand : Option SealedBuffer
  pending : Option LogEntry
  count : Nat
  assigned : List (Nat × Nat)
  written : List Nat
  durable : List Nat
  lost : List Nat
  deriving DecidableEq

namespace FlushSystem

variable {number : Nat}

def start (lsn : Nat) : FlushSystem :=
  { lsn := .newAt lsn
    active := []
    queue := []
    inHand := none
    pending := none
    count := 0
    assigned := []
    written := []
    durable := []
    lost := [] }

inductive FlushAction where
  | copy (record : LogRecord)
  | record
  | raise (floor : Nat)
  | sealActive
  | write (ok : Bool)
  | sync (ok : Bool)
  deriving DecidableEq

/-- The part of `flush_sealed_buffers` up to the sync. -/
def writeStep (system : FlushSystem) (ok : Bool) (buffer : SealedBuffer)
    (rest : List SealedBuffer) : FlushSystem :=
  if buffer.writtenBytes = [] then { system with queue := rest }
  else if ok then
    { system with
      queue := rest
      written := system.written ++ buffer.numbers
      lsn := system.lsn.markWritten buffer.lsnHi
      inHand := some buffer }
  else { system with queue := rest, lost := system.lost ++ buffer.numbers }

def syncStep (system : FlushSystem) (ok : Bool) (buffer : SealedBuffer) : FlushSystem :=
  if ok then
    { system with
      inHand := none
      durable := system.durable ++ system.written
      written := []
      lsn := system.lsn.markSynced buffer.lsnHi }
  else { system with inHand := none }

/-- A step that the threads cannot take leaves the state as it is. -/
def next (system : FlushSystem) : FlushAction → FlushSystem
  | .copy record =>
      match system.pending with
      | some _ => system
      | none =>
          let entry : LogEntry := ⟨system.count,record⟩
          { system with
            active := system.active ++ [entry]
            pending := some entry
            count := system.count + 1 }
  | .record =>
      match system.pending with
      | none => system
      | some entry =>
          let recorded := system.lsn.record entry.record.bytes.length
          { system with
            pending := none
            lsn := recorded.2
            assigned := system.assigned ++ [(entry.number,recorded.1)] }
  | .raise floor => { system with lsn := system.lsn.markCommittedAtLeast floor }
  | .sealActive =>
      { system with
        active := []
        queue := system.queue ++ [⟨system.active,system.lsn.committed⟩] }
  | .write ok =>
      match system.inHand, system.queue with
      | none, buffer :: rest => system.writeStep ok buffer rest
      | _, _ => system
  | .sync ok =>
      match system.inHand with
      | some buffer => system.syncStep ok buffer
      | none => system

/-- A record at or below the synced watermark is written and synced. -/
def SyncedHonest (system : FlushSystem) : Prop :=
  ∀ entry ∈ system.assigned, entry.2 ≤ system.lsn.synced → entry.1 ∈ system.durable

instance (system : FlushSystem) : Decidable system.SyncedHonest :=
  inferInstanceAs (Decidable (∀ entry ∈ system.assigned, _))

/-- No buffer is synced after an earlier buffer was lost. -/
def NothingLost (system : FlushSystem) : FlushAction → Prop
  | .sync true => system.inHand = none ∨ system.lost = []
  | _ => True

instance (system : FlushSystem) : (action : FlushAction) → Decidable (system.NothingLost action)
  | .sync true => inferInstanceAs (Decidable (_ ∨ _))
  | .sync false | .copy _ | .record | .raise _ | .sealActive | .write _ => .isTrue trivial

/-! ### The invariant -/

/-- The buffers that are neither freed nor filled, the oldest first. -/
def buffers (system : FlushSystem) : List SealedBuffer :=
  system.inHand.toList ++ system.queue

def Above (assigned : List (Nat × Nat)) (bound : Nat) (entry : LogEntry) : Prop :=
  ∀ lsn, (entry.number,lsn) ∈ assigned → bound < lsn

/-- Where a record can be. -/
def Placed (system : FlushSystem) (number : Nat) : Prop :=
  number ∈ system.durable ∨ number ∈ system.written ∨ number ∈ system.lost ∨
    (∃ buffer ∈ system.queue, number ∈ buffer.numbers) ∨
    number ∈ system.active.map LogEntry.number

structure Ordered (system : FlushSystem) : Prop where
  syncedLe : system.lsn.synced ≤ system.lsn.committed
  hiLe : ∀ buffer ∈ system.buffers, buffer.lsnHi ≤ system.lsn.committed
  numbered : ∀ entry ∈ system.assigned, entry.1 < system.count
  placed : ∀ entry ∈ system.assigned, system.Placed entry.1
  pendingPlaced : ∀ entry ∈ system.pending, entry.number < system.count ∧ system.Placed entry.number
  queued : system.buffers.Pairwise fun earlier later =>
    ∀ entry ∈ later.entries, Above system.assigned earlier.lsnHi entry
  activeAbove : ∀ buffer ∈ system.buffers, ∀ entry ∈ system.active,
    Above system.assigned buffer.lsnHi entry
  honest : system.SyncedHonest

theorem ordered_start (lsn : Nat) : (start lsn).Ordered := by
  constructor <;> simp [start,buffers,WalLsn.newAt,SyncedHonest]

variable {buffer : SealedBuffer}

theorem mem_numbers :
    number ∈ buffer.numbers ↔ ∃ entry ∈ buffer.entries, entry.number = number := by
  rw [SealedBuffer.numbers,List.mem_map]

variable {system : FlushSystem}

theorem Ordered.copy (ordered : system.Ordered) (record : LogRecord) :
    (system.next (.copy record)).Ordered := by
  simp only [next]
  cases isPending : system.pending with
  | some entry => exact ordered
  | none =>
      have placedStill : ∀ {number : Nat}, system.Placed number →
          Placed { system with
            active := system.active ++ [⟨system.count,record⟩]
            pending := some ⟨system.count,record⟩
            count := system.count + 1 } number := by
        rintro number (durable | written | lost | queued | active)
        · exact .inl durable
        · exact .inr (.inl written)
        · exact .inr (.inr (.inl lost))
        · exact .inr (.inr (.inr (.inl queued)))
        · refine .inr (.inr (.inr (.inr ?_)))
          rw [List.map_append]
          exact List.mem_append_left _ active
      refine ⟨ordered.syncedLe,ordered.hiLe,?_,?_,?_,ordered.queued,?_,ordered.honest⟩
      · exact fun entry member => Nat.lt_succ_of_lt (ordered.numbered entry member)
      · exact fun entry member => placedStill (ordered.placed entry member)
      · intro entry isEntry
        cases isEntry
        refine ⟨Nat.lt_succ_self _,.inr (.inr (.inr (.inr ?_)))⟩
        rw [List.map_append]
        exact List.mem_append_right _ (List.mem_singleton_self _)
      · intro buffer member entry inActive
        rcases List.mem_append.mp inActive with before | isNew
        · exact ordered.activeAbove buffer member entry before
        · -- The new number has no LSN yet.
          rw [List.mem_singleton] at isNew
          subst isNew
          intro lsn hasLsn
          exact absurd (ordered.numbered _ hasLsn) (Nat.lt_irrefl _)

theorem above_append {assigned : List (Nat × Nat)} {bound lsn : Nat} {entry : LogEntry}
    (above : Above assigned bound entry) (below : bound < lsn) :
    Above (assigned ++ [(number,lsn)]) bound entry := by
  intro found hasLsn
  rcases List.mem_append.mp hasLsn with before | isNew
  · exact above found before
  · rw [List.mem_singleton] at isNew
    cases isNew
    exact below

theorem Ordered.record (ordered : system.Ordered) : (system.next .record).Ordered := by
  simp only [next]
  cases isPending : system.pending with
  | none => exact ordered
  | some entry =>
      -- The new LSN is above the old watermark, and so above every buffer.
      have grows : system.lsn.committed < system.lsn.committed + entry.record.bytes.length :=
        Nat.lt_add_of_pos_right (List.length_pos_iff.mpr entry.record.notEmpty)
      obtain ⟨isCounted,isPlaced⟩ := ordered.pendingPlaced entry isPending
      simp only [WalLsn.record]
      refine ⟨?_,?_,?_,?_,nofun,?_,?_,?_⟩
      · exact Nat.le_trans ordered.syncedLe (Nat.le_of_lt grows)
      · exact fun buffer member => Nat.le_trans (ordered.hiLe buffer member) (Nat.le_of_lt grows)
      · intro found member
        rcases List.mem_append.mp member with before | isNew
        · exact ordered.numbered found before
        · rw [List.mem_singleton] at isNew
          rw [isNew]
          exact isCounted
      · intro found member
        rcases List.mem_append.mp member with before | isNew
        · exact ordered.placed found before
        · rw [List.mem_singleton] at isNew
          rw [isNew]
          exact isPlaced
      · refine ordered.queued.imp_of_mem ?_
        intro earlier later isEarlier isLater above other member
        exact above_append (above other member)
          (Nat.lt_of_le_of_lt (ordered.hiLe earlier isEarlier) grows)
      · intro buffer member other inActive
        exact above_append (ordered.activeAbove buffer member other inActive)
          (Nat.lt_of_le_of_lt (ordered.hiLe buffer member) grows)
      · intro found member atMost
        rcases List.mem_append.mp member with before | isNew
        · exact ordered.honest found before atMost
        · rw [List.mem_singleton] at isNew
          rw [isNew] at atMost
          change system.lsn.committed + entry.record.bytes.length ≤ system.lsn.synced at atMost
          have := ordered.syncedLe
          omega

theorem Ordered.raise (ordered : system.Ordered) (floor : Nat) :
    (system.next (.raise floor)).Ordered :=
  { syncedLe := Nat.le_trans ordered.syncedLe (Nat.le_max_left _ _)
    hiLe := fun buffer member => Nat.le_trans (ordered.hiLe buffer member) (Nat.le_max_left _ _)
    numbered := ordered.numbered
    placed := ordered.placed
    pendingPlaced := ordered.pendingPlaced
    queued := ordered.queued
    activeAbove := ordered.activeAbove
    honest := ordered.honest }

theorem Ordered.sealActive (ordered : system.Ordered) : (system.next .sealActive).Ordered := by
  have buffersEq : (system.next .sealActive).buffers =
      system.buffers ++ [⟨system.active,system.lsn.committed⟩] := by
    simp only [next,buffers,List.append_assoc]
  have placedStill : ∀ {number : Nat}, system.Placed number →
      (system.next .sealActive).Placed number := by
    rintro number (durable | written | lost | ⟨buffer,queued,isIn⟩ | active)
    · exact .inl durable
    · exact .inr (.inl written)
    · exact .inr (.inr (.inl lost))
    · exact .inr (.inr (.inr (.inl ⟨buffer,List.mem_append_left _ queued,isIn⟩)))
    · exact .inr (.inr (.inr (.inl
        ⟨_,List.mem_append_right _ (List.mem_singleton_self _),active⟩)))
  refine ⟨ordered.syncedLe,?_,ordered.numbered,?_,?_,?_,nofun,ordered.honest⟩
  · rw [buffersEq]
    intro buffer member
    rcases List.mem_append.mp member with before | isNew
    · exact ordered.hiLe buffer before
    · rw [List.mem_singleton] at isNew
      rw [isNew]
      exact Nat.le_refl _
  · exact fun entry member => placedStill (ordered.placed entry member)
  · intro entry isPending
    obtain ⟨isCounted,isPlaced⟩ := ordered.pendingPlaced entry isPending
    exact ⟨isCounted,placedStill isPlaced⟩
  · rw [buffersEq,List.pairwise_append]
    refine ⟨ordered.queued,List.pairwise_singleton _ _,?_⟩
    intro earlier isEarlier later isNew
    rw [List.mem_singleton] at isNew
    rw [isNew]
    exact ordered.activeAbove earlier isEarlier

/-- A step of the writer thread: buffers leave from the front and no record is
forgotten. -/
theorem Ordered.writerStep {after : FlushSystem} (ordered : system.Ordered)
    (sameCommitted : after.lsn.committed = system.lsn.committed)
    (sameActive : after.active = system.active) (samePending : after.pending = system.pending)
    (sameCount : after.count = system.count) (sameAssigned : after.assigned = system.assigned)
    (leaves : after.buffers.Sublist system.buffers)
    (placedStill : ∀ number, system.Placed number → after.Placed number)
    (syncedLe : after.lsn.synced ≤ after.lsn.committed) (honest : after.SyncedHonest) :
    after.Ordered where
  syncedLe := syncedLe
  hiLe := by
    rw [sameCommitted]
    exact fun buffer member => ordered.hiLe buffer (leaves.subset member)
  numbered := by
    rw [sameAssigned,sameCount]
    exact ordered.numbered
  placed := by
    rw [sameAssigned]
    exact fun entry member => placedStill _ (ordered.placed entry member)
  pendingPlaced := by
    rw [samePending,sameCount]
    intro entry isPending
    obtain ⟨isCounted,isPlaced⟩ := ordered.pendingPlaced entry isPending
    exact ⟨isCounted,placedStill _ isPlaced⟩
  queued := by
    rw [sameAssigned]
    exact ordered.queued.sublist leaves
  activeAbove := by
    rw [sameAssigned,sameActive]
    exact fun buffer member => ordered.activeAbove buffer (leaves.subset member)
  honest := honest

theorem mem_queue_cons {queue rest : List SealedBuffer} (queueEq : queue = buffer :: rest)
    (inQueue : ∃ found ∈ queue, number ∈ found.numbers) :
    number ∈ buffer.numbers ∨ ∃ found ∈ rest, number ∈ found.numbers := by
  obtain ⟨found,member,isIn⟩ := inQueue
  rw [queueEq] at member
  rcases List.mem_cons.mp member with isFirst | inRest
  · exact .inl (isFirst ▸ isIn)
  · exact .inr ⟨found,inRest,isIn⟩

theorem Ordered.write (ordered : system.Ordered) (ok : Bool) :
    (system.next (.write ok)).Ordered := by
  simp only [next]
  split
  · rename_i buffer rest noneInHand queueEq
    have buffersEq : system.buffers = buffer :: rest := by
      rw [buffers,noneInHand,queueEq]
      rfl
    unfold writeStep
    by_cases isEmpty : buffer.writtenBytes = []
    · rw [if_pos isEmpty]
      refine ordered.writerStep rfl rfl rfl rfl rfl ?_ ?_ ordered.syncedLe ordered.honest
      · rw [buffersEq,buffers,noneInHand]
        exact List.sublist_cons_self buffer rest
      · rintro number (durable | written | lost | inQueue | active)
        · exact .inl durable
        · exact .inr (.inl written)
        · exact .inr (.inr (.inl lost))
        · rcases mem_queue_cons queueEq inQueue with inFirst | inRest
          · rw [SealedBuffer.numbers,SealedBuffer.writtenBytes_eq_nil.mp isEmpty] at inFirst
            cases inFirst
          · exact .inr (.inr (.inr (.inl inRest)))
        · exact .inr (.inr (.inr (.inr active)))
    · rw [if_neg isEmpty]
      cases ok with
      | true =>
          refine ordered.writerStep (WalLsn.markWritten_committed _ _) rfl rfl rfl rfl ?_ ?_ ?_ ?_
          · rw [buffersEq]
            exact List.Sublist.refl _
          · rintro number (durable | written | lost | inQueue | active)
            · exact .inl durable
            · exact .inr (.inl (List.mem_append_left _ written))
            · exact .inr (.inr (.inl lost))
            · rcases mem_queue_cons queueEq inQueue with inFirst | inRest
              · exact .inr (.inl (List.mem_append_right _ inFirst))
              · exact .inr (.inr (.inr (.inl inRest)))
            · exact .inr (.inr (.inr (.inr active)))
          · simp only [if_true,WalLsn.markWritten_committed,WalLsn.markWritten_synced]
            exact ordered.syncedLe
          · intro entry member atMost
            refine ordered.honest entry member ?_
            simpa using atMost
      | false =>
          refine ordered.writerStep rfl rfl rfl rfl rfl ?_ ?_ ordered.syncedLe ordered.honest
          · rw [buffersEq]
            show (system.inHand.toList ++ rest).Sublist (buffer :: rest)
            rw [noneInHand]
            exact List.sublist_cons_self buffer rest
          · rintro number (durable | written | lost | inQueue | active)
            · exact .inl durable
            · exact .inr (.inl written)
            · exact .inr (.inr (.inl (List.mem_append_left _ lost)))
            · rcases mem_queue_cons queueEq inQueue with inFirst | inRest
              · exact .inr (.inr (.inl (List.mem_append_right _ inFirst)))
              · exact .inr (.inr (.inr (.inl inRest)))
            · exact .inr (.inr (.inr (.inr active)))
  · exact ordered

theorem syncStep_placed (buffer : SealedBuffer) (isPlaced : system.Placed number) :
    (system.syncStep true buffer).Placed number := by
  rcases isPlaced with durable | written | lost | inQueue | active
  · exact .inl (List.mem_append_left _ durable)
  · exact .inl (List.mem_append_right _ written)
  · exact .inr (.inr (.inl lost))
  · exact .inr (.inr (.inr (.inl inQueue)))
  · exact .inr (.inr (.inr (.inr active)))

/-- With nothing lost, a record that is not durable after the sync is in a later
buffer, above the watermark. -/
theorem Ordered.syncStep_honest (ordered : system.Ordered) (isInHand : system.inHand = some buffer)
    (nothingLost : system.lost = []) : (system.syncStep true buffer).SyncedHonest := by
  have inBuffers : buffer ∈ system.buffers := by
    rw [buffers,isInHand]
    exact List.mem_cons_self
  have queueAbove : ∀ later ∈ system.queue, ∀ entry ∈ later.entries,
      Above system.assigned buffer.lsnHi entry := by
    have queued := ordered.queued
    rw [buffers,isInHand] at queued
    exact fun later member => List.rel_of_pairwise_cons queued member
  intro entry member atMost
  change entry.2 ≤ (system.lsn.markSynced buffer.lsnHi).synced at atMost
  rw [WalLsn.markSynced_synced] at atMost
  show entry.1 ∈ system.durable ++ system.written
  rw [List.mem_append]
  rcases ordered.placed entry member with durable | written | lost | ⟨later,queued,isIn⟩ | active
  · exact .inl durable
  · exact .inr written
  · rw [nothingLost] at lost
    cases lost
  · obtain ⟨found,isFound,sameNumber⟩ := mem_numbers.mp isIn
    have above := queueAbove later queued found isFound entry.2 (by rw [sameNumber]; exact member)
    exact .inl (ordered.honest entry member (by omega))
  · obtain ⟨found,isFound,sameNumber⟩ := List.mem_map.mp active
    have above := ordered.activeAbove buffer inBuffers found isFound entry.2
      (by rw [sameNumber]; exact member)
    exact .inl (ordered.honest entry member (by omega))

theorem Ordered.sync (ordered : system.Ordered) (ok : Bool)
    (condition : system.NothingLost (.sync ok)) : (system.next (.sync ok)).Ordered := by
  simp only [next]
  cases isInHand : system.inHand with
  | none => exact ordered
  | some buffer =>
      have leaves : system.queue.Sublist system.buffers := by
        rw [buffers,isInHand]
        exact List.sublist_cons_self buffer system.queue
      cases ok with
      | false =>
          exact ordered.writerStep rfl rfl rfl rfl rfl leaves (fun _ isPlaced => isPlaced)
            ordered.syncedLe ordered.honest
      | true =>
          have nothingLost : system.lost = [] := by
            rcases condition with noneInHand | nothingLost
            · rw [noneInHand] at isInHand
              cases isInHand
            · exact nothingLost
          refine ordered.writerStep (WalLsn.markSynced_committed _ _) rfl rfl rfl rfl leaves
            (fun _ isPlaced => syncStep_placed buffer isPlaced) ?_
            (ordered.syncStep_honest isInHand nothingLost)
          have hiLe := ordered.hiLe buffer (by rw [buffers,isInHand]; exact List.mem_cons_self)
          have syncedLe := ordered.syncedLe
          show (system.lsn.markSynced buffer.lsnHi).synced ≤
            (system.lsn.markSynced buffer.lsnHi).committed
          rw [WalLsn.markSynced_synced,WalLsn.markSynced_committed]
          omega

theorem Ordered.step (ordered : system.Ordered) (action : FlushAction)
    (condition : system.NothingLost action) : (system.next action).Ordered := by
  cases action with
  | copy record => exact ordered.copy record
  | record => exact ordered.record
  | raise floor => exact ordered.raise floor
  | sealActive => exact ordered.sealActive
  | write ok => exact ordered.write ok
  | sync ok => exact ordered.sync ok condition

/-- The synced watermark is honest in every state of a run in which no buffer is
synced after a buffer was lost. -/
theorem synced_honest (lsn : Nat) (actions : List FlushAction)
    (meets : Machine.Meets next NothingLost (start lsn) actions) (count : Nat) :
    (Machine.run next (start lsn) (actions.take count)).SyncedHonest :=
  (Machine.invariant_reached next (fun _ action ordered condition => ordered.step action condition)
    (ordered_start lsn) meets count).honest

theorem oneByte_ne_nil (byte : UInt8) : [byte] ≠ [] := List.cons_ne_nil _ _

def flushRecord (byte : UInt8) (writeOk syncOk : Bool) : List FlushAction :=
  [.copy ⟨[byte],oneByte_ne_nil byte⟩,.record,.sealActive,.write writeOk,.sync syncOk]

/-- A failed sync that a later one makes good. -/
theorem synced_honest_resynced :
    Machine.Meets next NothingLost (start 7) (flushRecord 1 true false ++ flushRecord 2 true true) ∧
      (Machine.run next (start 7)
        ((flushRecord 1 true false ++ flushRecord 2 true true).take 10)).SyncedHonest :=
  ⟨by decide,synced_honest 7 _ (by decide) 10⟩

/-- The write of the first buffer fails and the second buffer is flushed. -/
theorem lostBuffer_not_honest :
    ¬(Machine.run next (start 0)
      (flushRecord 1 false true ++ flushRecord 2 true true)).SyncedHonest := by
  decide

end FlushSystem

end Beava.Wal
