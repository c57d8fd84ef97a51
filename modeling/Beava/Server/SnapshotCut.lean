/-
Snapshot cuts while the apply thread runs.

The apply thread appends an event to the log and then applies it under the lock
of the tables, where it also raises `next_event_id`; a register call appends a
bump to the other log, waits until it is durable and applies it.  The snapshot
thread reads the durable LSN first and then, under the lock, `next_event_id` and
the tables.  Events up to the larger of the two are dropped from the log, and
recovery replays what is behind `next_event_id`.
-/

import Beava.Lib.Machine

namespace Beava.Server

/-! ### Both threads -/

structure PushedEvent where
  name : List UInt8
  body : List UInt8
  deriving DecidableEq, Repr

/-- `payload_len` of a record of version 3. -/
def PushedEvent.payloadLen (event : PushedEvent) : Nat :=
  1 + 8 + 1 + 4 + 8 + 2 + event.name.length + 4 + event.body.length

structure LoggedEvent where
  lsn : Nat
  event : PushedEvent
  deriving DecidableEq, Repr

inductive CutApplyPc where
  | idle
  | appended (logged : LoggedEvent)
  | registering (minLsn : Nat)
  | staged
  | bumpDurable
  deriving DecidableEq, Repr

inductive CutSnapshotPc where
  | idle
  | readDurable (legacySnapshotLsn : Nat)
  deriving DecidableEq, Repr

/-- What a snapshot holds: the LSN it covers, and from the body the events in the
tables and `next_event_id`. -/
structure SnapshotCut where
  snapshotLsn : Nat
  captured : List LoggedEvent
  nextEventId : Nat
  deriving DecidableEq, Repr

structure CutSystem where
  committed : Nat
  /-- `next_lsn` of the worker that appends the bumps. -/
  nextLsn : Nat
  durable : Nat
  nextEventId : Nat
  wal : List LoggedEvent
  applied : List LoggedEvent
  apply : CutApplyPc
  snapshot : CutSnapshotPc
  cuts : List SnapshotCut
  deriving DecidableEq, Repr

/-- What recovery hands to the server: the events it applied, the counter it
left and the first LSN. -/
structure Booted where
  recovered : List LoggedEvent
  nextEventId : Nat
  initialStartLsn : Nat
  covered : ∀ logged ∈ recovered, logged.lsn ≤ nextEventId
  below : nextEventId < initialStartLsn

namespace CutSystem

def boot (booted : Booted) : CutSystem :=
  { committed := booted.initialStartLsn - 1
    nextLsn := booted.initialStartLsn
    durable := booted.initialStartLsn - 1
    nextEventId := booted.nextEventId
    wal := booted.recovered
    applied := booted.recovered
    apply := .idle
    snapshot := .idle
    cuts := [] }

inductive CutAction where
  | push (event : PushedEvent)
  | register
  | applyThread (ok : Bool)
  | snapshotThread
  deriving DecidableEq, Repr

def pushStep (system : CutSystem) (event : PushedEvent) : CutSystem :=
  let committed := max system.committed system.durable + event.payloadLen
  { system with
    committed := committed
    wal := system.wal ++ [⟨committed,event⟩]
    apply := .appended ⟨committed,event⟩ }

def applyStep (system : CutSystem) (ok : Bool) : CutSystem :=
  match system.apply with
  | .idle => system
  | .appended logged =>
      { system with
        applied := system.applied ++ [logged]
        nextEventId := max system.nextEventId logged.lsn
        apply := .idle }
  | .registering minLsn =>
      -- A failed append uses up its LSN.
      { system with
        nextLsn := max system.nextLsn minLsn + 1
        apply := if ok then .staged else .idle }
  | .staged =>
      if ok then { system with durable := system.nextLsn - 1, apply := .bumpDurable }
      else { system with apply := .idle }
  | .bumpDurable => { system with apply := .idle }

def snapshotStep (system : CutSystem) : CutSystem :=
  match system.snapshot with
  | .idle => { system with snapshot := .readDurable system.durable }
  | .readDurable legacySnapshotLsn =>
      { system with
        snapshot := .idle
        cuts := system.cuts ++
          [⟨max legacySnapshotLsn system.nextEventId,system.applied,system.nextEventId⟩] }

def next (system : CutSystem) : CutAction → CutSystem
  | .push event => if system.apply = .idle then system.pushStep event else system
  | .register =>
      if system.apply = .idle then
        { system with apply := .registering (system.nextEventId + 1) }
      else system
  | .applyThread ok => system.applyStep ok
  | .snapshotThread => system.snapshotStep

def reclaimed (cut : SnapshotCut) (wal : List LoggedEvent) : List LoggedEvent :=
  wal.filter fun logged => cut.snapshotLsn < logged.lsn

def replayed (cut : SnapshotCut) (wal : List LoggedEvent) : List LoggedEvent :=
  wal.filter fun logged => cut.nextEventId < logged.lsn

/-- Of the events in the log exactly those up to `next_event_id` are captured,
all those up to the snapshot LSN among them, and the snapshot with the replay of
what reclamation leaves has every event once. -/
structure CutExact (cut : SnapshotCut) (wal : List LoggedEvent) : Prop where
  reflected : ∀ logged ∈ wal, logged.lsn ≤ cut.snapshotLsn → logged ∈ cut.captured
  notBehind : ∀ logged ∈ cut.captured, logged.lsn ≤ cut.nextEventId
  exactlyOnce : cut.captured ++ replayed cut (reclaimed cut wal) = wal

/-- The log is what the cut captured, followed by events behind it. -/
structure CutSplits (system : CutSystem) (cut : SnapshotCut) : Prop where
  nextLe : cut.nextEventId ≤ cut.snapshotLsn
  lsnLe : cut.snapshotLsn ≤ max system.committed system.durable
  captured : ∀ logged ∈ cut.captured, logged.lsn ≤ cut.nextEventId
  rest : ∃ rest, system.wal = cut.captured ++ rest ∧
    ∀ logged ∈ rest, cut.snapshotLsn < logged.lsn

def pendingEvent (system : CutSystem) : List LoggedEvent :=
  match system.apply with
  | .appended logged => [logged]
  | _ => []

structure CutOrdered (system : CutSystem) : Prop where
  walEq : system.wal = system.applied ++ system.pendingEvent
  applied : ∀ logged ∈ system.applied, logged.lsn ≤ system.nextEventId
  pending : ∀ logged ∈ system.pendingEvent,
    system.nextEventId < logged.lsn ∧ system.durable < logged.lsn ∧ logged.lsn ≤ system.committed
  eventsLe : system.nextEventId ≤ system.committed
  durableLt : system.durable < system.nextLsn
  readLe : ∀ lsn, system.snapshot = .readDurable lsn → lsn ≤ system.durable
  cuts : ∀ cut ∈ system.cuts, CutSplits system cut

theorem payloadLen_pos (event : PushedEvent) : 0 < event.payloadLen := by
  unfold PushedEvent.payloadLen
  omega

theorem cutOrdered_boot (booted : Booted) : (boot booted).CutOrdered where
  walEq := (List.append_nil _).symm
  applied := booted.covered
  pending := nofun
  eventsLe := Nat.le_sub_one_of_lt booted.below
  durableLt := Nat.sub_one_lt_of_lt booted.below
  readLe := nofun
  cuts := nofun

variable {system : CutSystem}

variable {cut : SnapshotCut}

variable {after : CutSystem}

theorem CutSplits.grow (splits : CutSplits system cut)
    (counters : max system.committed system.durable ≤ max after.committed after.durable)
    (added : List LoggedEvent) (walEq : after.wal = system.wal ++ added)
    (behind : ∀ logged ∈ added, max system.committed system.durable < logged.lsn) :
    CutSplits after cut where
  nextLe := splits.nextLe
  lsnLe := Nat.le_trans splits.lsnLe counters
  captured := splits.captured
  rest := by
    obtain ⟨rest,isWal,above⟩ := splits.rest
    refine ⟨rest ++ added,by rw [walEq,isWal,List.append_assoc],?_⟩
    intro logged member
    rcases List.mem_append.mp member with inRest | isAdded
    · exact above logged inRest
    · exact Nat.lt_of_le_of_lt splits.lsnLe (behind logged isAdded)

theorem CutSplits.keep (splits : CutSplits system cut)
    (counters : max system.committed system.durable ≤ max after.committed after.durable)
    (walEq : after.wal = system.wal) : CutSplits after cut :=
  splits.grow counters [] (by rw [walEq,List.append_nil]) nofun

theorem CutSplits.exact (splits : CutSplits system cut) : CutExact cut system.wal := by
  obtain ⟨rest,isWal,above⟩ := splits.rest
  have capturedLe : ∀ logged ∈ cut.captured, logged.lsn ≤ cut.snapshotLsn :=
    fun logged member => Nat.le_trans (splits.captured logged member) splits.nextLe
  have left : reclaimed cut system.wal = rest := by
    rw [reclaimed,isWal,List.filter_append]
    have noneOfCaptured : (cut.captured.filter fun logged => cut.snapshotLsn < logged.lsn) = [] := by
      rw [List.filter_eq_nil_iff]
      intro logged member
      have := capturedLe logged member
      simp only [decide_eq_true_eq]
      omega
    have allOfRest : (rest.filter fun logged => cut.snapshotLsn < logged.lsn) = rest := by
      rw [List.filter_eq_self]
      exact fun logged member => decide_eq_true (above logged member)
    rw [noneOfCaptured,allOfRest,List.nil_append]
  refine ⟨?_,splits.captured,?_⟩
  · intro logged member atMost
    rw [isWal] at member
    rcases List.mem_append.mp member with captured | inRest
    · exact captured
    · exact absurd (above logged inRest) (Nat.not_lt.mpr atMost)
  · rw [left,isWal,replayed]
    have allReplayed : (rest.filter fun logged => cut.nextEventId < logged.lsn) = rest := by
      rw [List.filter_eq_self]
      exact fun logged member =>
        decide_eq_true (Nat.lt_of_le_of_lt splits.nextLe (above logged member))
    rw [allReplayed]

/-! ### Steps -/

theorem CutOrdered.push (ordered : system.CutOrdered) (event : PushedEvent) :
    (system.next (.push event)).CutOrdered := by
  simp only [next]
  split
  · rename_i isIdle
    have grows := payloadLen_pos event
    have noPending : system.pendingEvent = [] := by
      rw [pendingEvent,isIdle]
    have eventsLe := ordered.eventsLe
    refine ⟨?_,ordered.applied,?_,?_,ordered.durableLt,ordered.readLe,?_⟩
    · show system.wal ++ [_] = system.applied ++ [_]
      rw [ordered.walEq,noPending,List.append_nil]
    · intro logged isPending
      have isNew := List.mem_singleton.mp isPending
      subst isNew
      show system.nextEventId < max system.committed system.durable + event.payloadLen ∧
        system.durable < max system.committed system.durable + event.payloadLen ∧
        max system.committed system.durable + event.payloadLen ≤
          max system.committed system.durable + event.payloadLen
      omega
    · show system.nextEventId ≤ max system.committed system.durable + event.payloadLen
      omega
    · intro cut member
      refine (ordered.cuts cut member).grow ?_
        [⟨max system.committed system.durable + event.payloadLen,event⟩] rfl ?_
      · show max system.committed system.durable ≤
          max (max system.committed system.durable + event.payloadLen) system.durable
        omega
      · intro logged isNew
        rw [List.mem_singleton.mp isNew]
        show max system.committed system.durable <
          max system.committed system.durable + event.payloadLen
        omega
  · exact ordered

theorem CutOrdered.register (ordered : system.CutOrdered) :
    (system.next .register).CutOrdered := by
  simp only [next]
  split
  · rename_i isIdle
    have noPending : system.pendingEvent = [] := by
      rw [pendingEvent,isIdle]
    have walEq := ordered.walEq
    rw [noPending] at walEq
    exact ⟨walEq,ordered.applied,nofun,ordered.eventsLe,ordered.durableLt,ordered.readLe,
      fun cut member => (ordered.cuts cut member).keep (Nat.le_refl _) rfl⟩
  · exact ordered

/-- A step of a register call: no event is touched and the durable LSN only
grows. -/
theorem CutOrdered.bumpStep (ordered : system.CutOrdered) (noPending : system.pendingEvent = [])
    {nextLsn durable : Nat} {apply : CutApplyPc}
    (stillNone : pendingEvent { system with nextLsn, durable, apply } = [])
    (durableLe : system.durable ≤ durable) (durableLt : durable < nextLsn) :
    CutOrdered { system with nextLsn, durable, apply } where
  walEq := by
    rw [stillNone,← noPending]
    exact ordered.walEq
  applied := ordered.applied
  pending := by
    rw [stillNone]
    exact nofun
  eventsLe := ordered.eventsLe
  durableLt := durableLt
  readLe lsn isRead := Nat.le_trans (ordered.readLe lsn isRead) durableLe
  cuts cut member := by
    refine (ordered.cuts cut member).keep ?_ rfl
    show max system.committed system.durable ≤ max system.committed durable
    omega

theorem CutOrdered.applyThread (ordered : system.CutOrdered) (ok : Bool) :
    (system.next (.applyThread ok)).CutOrdered := by
  have durableLt := ordered.durableLt
  simp only [next,applyStep]
  cases isApply : system.apply with
  | idle => exact ordered
  | appended logged =>
      have pendingEq : system.pendingEvent = [logged] := by
        rw [pendingEvent,isApply]
      obtain ⟨aboveEvents,aboveDurable,belowCommitted⟩ :=
        ordered.pending logged (by rw [pendingEq]; exact List.mem_singleton_self _)
      refine ⟨?_,?_,nofun,?_,durableLt,ordered.readLe,?_⟩
      · show system.wal = (system.applied ++ [logged]) ++ []
        rw [ordered.walEq,pendingEq,List.append_nil]
      · intro found member
        show found.lsn ≤ max system.nextEventId logged.lsn
        rcases List.mem_append.mp member with before | isNew
        · have := ordered.applied found before
          omega
        · rw [List.mem_singleton.mp isNew]
          omega
      · show max system.nextEventId logged.lsn ≤ system.committed
        omega
      · exact fun cut member => (ordered.cuts cut member).keep (Nat.le_refl _) rfl
  | registering minLsn =>
      refine ordered.bumpStep (by rw [pendingEvent,isApply]) ?_ (Nat.le_refl _) (by omega)
      cases ok <;> rfl
  | staged =>
      cases ok with
      | true =>
          exact ordered.bumpStep (by rw [pendingEvent,isApply]) rfl
            (Nat.le_sub_one_of_lt durableLt) (Nat.sub_one_lt_of_lt durableLt)
      | false => exact ordered.bumpStep (by rw [pendingEvent,isApply]) rfl (Nat.le_refl _) durableLt
  | bumpDurable => exact ordered.bumpStep (by rw [pendingEvent,isApply]) rfl (Nat.le_refl _) durableLt

theorem CutOrdered.splits (ordered : system.CutOrdered) {legacySnapshotLsn : Nat}
    (isRead : system.snapshot = .readDurable legacySnapshotLsn) :
    CutSplits system
      ⟨max legacySnapshotLsn system.nextEventId,system.applied,system.nextEventId⟩ where
  nextLe := Nat.le_max_right _ _
  lsnLe := by
    have := ordered.readLe legacySnapshotLsn isRead
    have := ordered.eventsLe
    show max legacySnapshotLsn system.nextEventId ≤ max system.committed system.durable
    omega
  captured := ordered.applied
  rest := by
    refine ⟨system.pendingEvent,ordered.walEq,?_⟩
    intro logged isPending
    have := ordered.readLe legacySnapshotLsn isRead
    have := ordered.pending logged isPending
    show max legacySnapshotLsn system.nextEventId < logged.lsn
    omega

theorem CutOrdered.snapshotThread (ordered : system.CutOrdered) :
    (system.next .snapshotThread).CutOrdered := by
  simp only [next,snapshotStep]
  cases isSnapshot : system.snapshot with
  | idle =>
      refine ⟨ordered.walEq,ordered.applied,ordered.pending,ordered.eventsLe,ordered.durableLt,
        ?_,fun cut member => (ordered.cuts cut member).keep (Nat.le_refl _) rfl⟩
      intro lsn isRead
      cases isRead
      exact Nat.le_refl _
  | readDurable legacySnapshotLsn =>
      refine ⟨ordered.walEq,ordered.applied,ordered.pending,ordered.eventsLe,ordered.durableLt,
        nofun,?_⟩
      intro cut member
      rcases List.mem_append.mp member with before | isNew
      · exact (ordered.cuts cut before).keep (Nat.le_refl _) rfl
      · rw [List.mem_singleton.mp isNew]
        exact (ordered.splits isSnapshot).keep (Nat.le_refl _) rfl

theorem CutOrdered.step (ordered : system.CutOrdered) (action : CutAction) :
    (system.next action).CutOrdered := by
  cases action with
  | push event => exact ordered.push event
  | register => exact ordered.register
  | applyThread ok => exact ordered.applyThread ok
  | snapshotThread => exact ordered.snapshotThread

theorem CutOrdered.run (ordered : system.CutOrdered) (actions : List CutAction) :
    (Machine.run next system actions).CutOrdered := by
  induction actions generalizing system with
  | nil => exact ordered
  | cons action rest ih => exact ih (ordered.step action)

/-- Every cut that was taken is exact for the log, then and at every later
moment. -/
theorem cuts_exact (booted : Booted) (actions : List CutAction) (cut : SnapshotCut)
    (taken : cut ∈ (Machine.run next (boot booted) actions).cuts) :
    CutExact cut (Machine.run next (boot booted) actions).wal :=
  (((cutOrdered_boot booted).run actions).cuts cut taken).exact

/-- The durable LSN is read while a bump is on its way, and the cut is taken
between the append and the application of an event behind the bump. -/
def racingRun : List CutAction :=
  [.push ⟨[1],[2]⟩,.applyThread true,.register,.applyThread true,.applyThread true,
    .snapshotThread,.applyThread true,.push ⟨[1],[3]⟩,.snapshotThread,.applyThread true,
    .push ⟨[1],[4]⟩,.applyThread true]

def freshBoot : Booted :=
  { recovered := []
    nextEventId := 0
    initialStartLsn := 1
    covered := nofun
    below := Nat.zero_lt_one }

theorem cuts_exact_racingRun :
    (⟨31,[⟨30,⟨[1],[2]⟩⟩],30⟩ : SnapshotCut) ∈
        (Machine.run next (boot freshBoot) racingRun).cuts ∧
      CutExact ⟨31,[⟨30,⟨[1],[2]⟩⟩],30⟩ (Machine.run next (boot freshBoot) racingRun).wal :=
  ⟨by decide,cuts_exact freshBoot racingRun _ (by decide)⟩

end CutSystem

end Beava.Server
