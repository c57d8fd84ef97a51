/-
An append to the ring returns.

The record fits a buffer and both threads are scheduled again and again.  The
active buffer is sealed at most once: afterwards the active buffer is an empty
one until the record is in it.  A rank falls with every step of the thread that
the append waits for; while no buffer is free that is the writer thread.
-/

import Beava.Lib.Response
import Beava.Wal.BufferRing

namespace Beava.Wal

/-- Whose step is next. -/
inductive Turn where
  | applyThread
  | writerThread
  deriving DecidableEq, Repr

namespace RingSystem

variable {n : Nat}
variable {system after : RingSystem n} {idx : Fin n} {record : List UInt8}
variable {other : Fin n} {before : RingSystem n}

def turn (system : RingSystem n) : Turn → RingSystem n
  | .applyThread => system.applyStep
  | .writerThread => system.writerStep

/-- The apply thread calls `append` with a record of any length. -/
def callAppend (system : RingSystem n) (record : List UInt8) : RingSystem n :=
  { system with apply := .retry record }

/-- The buffer that a step hands to `do_seal_and_swap`. -/
def sealing (system : RingSystem n) : Turn → Option (Fin n)
  | .writerThread => none
  | .applyThread =>
      match system.apply with
      | .sealAndSwap _ idx => some idx
      | _ => none

/-- The calls of `do_seal_and_swap` before a moment. -/
def sealsBefore (schedule : Nat → Turn) (system : RingSystem n) (moment : Nat) : List (Fin n) :=
  (List.range moment).filterMap fun earlier =>
    (Machine.follow turn schedule system earlier).sealing (schedule earlier)

/-- The append returns with its record in the ring and has sealed no buffer twice. -/
def AppendReturns (system : RingSystem n) (record : List UInt8) (schedule : Nat → Turn) : Prop :=
  ∃ moment,
    (Machine.follow turn schedule (system.callAppend record) moment).apply = .idle ∧
      (Machine.follow turn schedule (system.callAppend record) moment).appended =
        system.appended ++ [record] ∧
      (sealsBefore schedule (system.callAppend record) moment).Nodup

/-- Sealed buffers are queued, flushing ones are held by the writer thread, and
whoever waits for a free buffer has one on its way. -/
structure Supplied (system : RingSystem n) : Prop where
  queued : ∀ idx, system.stateAt idx = .sealed → idx ∈ system.sealedQueue
  held : ∀ idx, system.stateAt idx = .flushing → system.writer.held = some idx
  awaited : system.apply.isWaiting →
    (∃ idx, system.stateAt idx = .free) ∨ system.sealedQueue ≠ [] ∨ system.writer.held ≠ none

theorem stateAt_of_update {state : BufState}
    (states : after.stateAt = Function.update system.stateAt idx state) {expected : BufState}
    (isExpected : after.stateAt other = expected) (different : state ≠ expected) :
    other ≠ idx ∧ system.stateAt other = expected := by
  rw [states] at isExpected
  by_cases same : other = idx
  · subst same
    rw [Function.update_self] at isExpected
    exact absurd isExpected different
  · rw [Function.update_of_ne same] at isExpected
    exact ⟨same,isExpected⟩

theorem Supplied.ofActivate (supplied : Supplied system)
    (states : after.stateAt = Function.update system.stateAt idx .active)
    (queue : after.sealedQueue = system.sealedQueue) (writer : after.writer = system.writer)
    (awaited : after.apply.isWaiting →
      (∃ idx, after.stateAt idx = .free) ∨ after.sealedQueue ≠ [] ∨ after.writer.held ≠ none) :
    Supplied after := by
  refine ⟨?_,?_,awaited⟩
  · intro other isSealed
    rw [queue]
    exact supplied.queued other (stateAt_of_update states isSealed BufState.noConfusion).2
  · intro other isFlushing
    rw [writer]
    exact supplied.held other (stateAt_of_update states isFlushing BufState.noConfusion).2

theorem Supplied.sealAndEnqueue (supplied : Supplied system) (idx : Fin n) :
    Supplied (system.sealAndEnqueue idx) := by
  have states : (system.sealAndEnqueue idx).stateAt =
      Function.update system.stateAt idx .sealed :=
    system.stateAt_updateBuffer _ _
  refine ⟨?_,?_,?_⟩
  · intro other isSealed
    show other ∈ system.sealedQueue ++ [idx]
    by_cases same : other = idx
    · exact List.mem_append_right _ (List.mem_singleton.mpr same)
    · rw [states,Function.update_of_ne same] at isSealed
      exact List.mem_append_left _ (supplied.queued other isSealed)
  · intro other isFlushing
    exact supplied.held other (stateAt_of_update states isFlushing BufState.noConfusion).2
  · intro _
    exact .inr (.inl (List.append_ne_nil_of_right_ne_nil _ (List.cons_ne_nil _ _)))

theorem Supplied.withApply (supplied : Supplied system) {pc : ApplyPc n}
    (notWaiting : ¬ pc.isWaiting) : Supplied { system with apply := pc } := by
  refine ⟨supplied.queued,supplied.held,?_⟩
  intro waiting
  exact absurd waiting notWaiting

theorem Supplied.applyStep (supplied : Supplied system) : Supplied system.applyStep := by
  unfold RingSystem.applyStep
  split
  · exact supplied
  · dsimp only
    split
    · exact supplied.withApply id
    · rename_i inactive
      refine ⟨supplied.queued,supplied.held,?_⟩
      intro _
      cases state : system.stateAt system.activeIdx with
      | free => exact .inl ⟨_,state⟩
      | active => exact absurd state inactive
      | sealed => exact .inr (.inl (List.ne_nil_of_mem (supplied.queued _ state)))
      | flushing =>
          have isHeld := supplied.held _ state
          refine .inr (.inr ?_)
          rw [isHeld]
          exact Option.some_ne_none _
  · rename_i record idx _
    split
    · rename_i buffer grown
      have sameState : buffer.state = system.stateAt idx := by
        unfold WalBuffer.tryAppend at grown
        split at grown
        · cases grown
        · rw [← Option.some.inj grown]
          rfl
      have states : (system.finishAppend idx buffer record).stateAt = system.stateAt := by
        have updated := system.stateAt_updateBuffer idx (fun _ => buffer)
        rw [sameState] at updated
        exact updated.trans (Function.update_eq_self _ _)
      refine ⟨?_,?_,fun waiting => absurd waiting id⟩
      · rw [states]
        exact supplied.queued
      · rw [states]
        exact supplied.held
    · exact supplied.withApply id
  · rename_i record idx _
    have sealed_ := supplied.sealAndEnqueue idx
    refine ⟨sealed_.queued,sealed_.held,?_⟩
    intro _
    exact .inr (.inl (List.append_ne_nil_of_right_ne_nil _ (List.cons_ne_nil _ _)))
  · split
    · exact supplied
    · rename_i newIdx _
      exact supplied.ofActivate (system.stateAt_updateBuffer _ _) rfl rfl
        fun waiting => absurd waiting id

theorem Supplied.writerStep (supplied : Supplied system) : Supplied system.writerStep := by
  unfold RingSystem.writerStep
  split
  · rename_i sleeping
    have draining : ∀ {after : RingSystem n}, Supplied after → after.writer = .sleeping →
        Supplied { after with writer := .draining } := by
      intro after holds isSleeping
      obtain ⟨queued,held,awaited⟩ := holds
      rw [isSleeping] at held awaited
      exact ⟨queued,held,awaited⟩
    apply draining
    · unfold sealActive
      split
      · exact supplied
      · split
        · rename_i newIdx _
          have sealed_ := supplied.sealAndEnqueue system.activeIdx
          refine sealed_.ofActivate (stateAt_updateBuffer _ _ _) rfl rfl ?_
          intro _
          exact .inr (.inl (List.append_ne_nil_of_right_ne_nil _ (List.cons_ne_nil _ _)))
        · exact supplied.sealAndEnqueue system.activeIdx
    · unfold sealActive
      split
      · exact sleeping
      · split
        · exact sleeping
        · exact sleeping
  · rename_i isDraining
    obtain ⟨queued,held,awaited⟩ := supplied
    rw [isDraining] at held awaited
    split
    · exact ⟨queued,held,awaited⟩
    · rename_i idx rest queue
      have states : (system.popSealed idx rest).stateAt =
          Function.update system.stateAt idx .flushing :=
        system.stateAt_updateBuffer _ _
      refine ⟨?_,?_,?_⟩
      · intro other isSealed
        obtain ⟨different,wasSealed⟩ := stateAt_of_update states isSealed BufState.noConfusion
        have member := queued other wasSealed
        rw [queue] at member
        exact (List.mem_cons.mp member).resolve_left different
      · intro other isFlushing
        by_cases same : other = idx
        · rw [same]
          rfl
        · rw [states,Function.update_of_ne same] at isFlushing
          cases held other isFlushing
      · intro _
        exact .inr (.inr (Option.some_ne_none idx))
  · rename_i idx isWriting
    obtain ⟨queued,held,awaited⟩ := supplied
    rw [isWriting] at held awaited
    exact ⟨queued,held,awaited⟩
  · rename_i idx isReturning
    have states : (system.returnToFree idx).stateAt = Function.update system.stateAt idx .free :=
      system.stateAt_updateBuffer _ _
    refine ⟨?_,?_,?_⟩
    · intro other isSealed
      exact supplied.queued other (stateAt_of_update states isSealed BufState.noConfusion).2
    · intro other isFlushing
      obtain ⟨different,wasFlushing⟩ := stateAt_of_update states isFlushing BufState.noConfusion
      have isHeld := supplied.held other wasFlushing
      rw [isReturning] at isHeld
      exact absurd (Option.some.inj isHeld).symm different
    · intro _
      refine .inl ⟨idx,?_⟩
      rw [states,Function.update_self]

theorem Supplied.next {system : RingSystem n} (supplied : Supplied system) (action : Action) :
    Supplied (system.next action) := by
  cases action with
  | append record =>
      simp only [RingSystem.next]
      split
      · exact supplied.withApply id
      · exact supplied
  | applyThread => exact supplied.applyStep
  | writerThread => exact supplied.writerStep

theorem supplied_new (count capacity start : Nat) :
    Supplied (RingSystem.new count capacity start) := by
  have freeOrActive : ∀ idx, (RingSystem.new count capacity start).stateAt idx = .free ∨
      (RingSystem.new count capacity start).stateAt idx = .active := by
    intro idx
    rw [stateAt_new]
    by_cases same : idx = 0
    · rw [same,Function.update_self]
      exact .inr rfl
    · rw [Function.update_of_ne same]
      exact .inl rfl
  refine ⟨?_,?_,fun waiting => absurd waiting id⟩
  · intro idx isSealed
    rcases freeOrActive idx with free | active
    · rw [free] at isSealed
      cases isSealed
    · rw [active] at isSealed
      cases isSealed
  · intro idx isFlushing
    rcases freeOrActive idx with free | active
    · rw [free] at isFlushing
      cases isFlushing
    · rw [active] at isFlushing
      cases isFlushing

/-- The active buffer holds records. -/
def usedWeight (system : RingSystem n) : Nat :=
  if (system.buffers system.activeIdx).pos = 0 then 0 else 1

/-- How far the apply thread is from having sealed a buffer with records. -/
def sealDistance (system : RingSystem n) : Nat :=
  match system.apply with
  | .idle => 0
  | .retry _ => 3 * system.usedWeight
  | .tryAppend _ idx => if (system.buffers idx).pos = 0 then 0 else 2
  | .sealAndSwap _ _ => 1
  | .waitForFree _ _ => 0

/-- The writer thread frees the active buffer before it sleeps again. -/
def Clearing (system : RingSystem n) : Prop :=
  system.writer ≠ .sleeping ∧
    (system.activeIdx ∈ system.sealedQueue ∨ system.writer.held = some system.activeIdx)

instance (system : RingSystem n) : Decidable system.Clearing :=
  inferInstanceAs (Decidable (_ ∧ (_ ∨ _)))

/-- A tick may still queue the active buffer. -/
def tickWeight (system : RingSystem n) : Nat :=
  if system.Clearing then 0 else system.usedWeight

def writerWeight (system : RingSystem n) : Nat :=
  match system.writer with
  | .sleeping => if system.sealedQueue = [] then 0 else 1
  | .draining => 0
  | .writing _ => 2
  | .returning _ => 1

/-- The steps of the writer thread until the queue is empty. -/
def backlog (system : RingSystem n) : Nat :=
  4 * system.sealedQueue.length + system.writerWeight

/-- The steps of the apply thread until the record is in an empty buffer. -/
def loopDistance (system : RingSystem n) : Nat :=
  match system.apply with
  | .idle => 0
  | .retry _ => if system.stateAt system.activeIdx = .active then 2 else 4
  | .tryAppend _ _ => 1
  | .sealAndSwap _ _ => 0
  | .waitForFree _ _ => 3

def rank (system : RingSystem n) : Nat :=
  1000 * system.usedWeight + 200 * system.sealDistance + 40 * system.tickWeight +
    5 * system.backlog + system.loopDistance

def helpful (system : RingSystem n) : Turn :=
  match system.apply with
  | .waitForFree _ _ => if system.findFreeBuffer = none then .writerThread else .applyThread
  | _ => .applyThread

theorem usedWeight_le (system : RingSystem n) : system.usedWeight ≤ 1 := by
  unfold usedWeight
  split <;> omega

theorem sealDistance_le (system : RingSystem n) : system.sealDistance ≤ 3 := by
  have used := system.usedWeight_le
  unfold sealDistance
  split
  · omega
  · omega
  · split <;> omega
  · omega
  · omega

theorem tickWeight_le (system : RingSystem n) : system.tickWeight ≤ system.usedWeight := by
  unfold tickWeight
  split <;> omega

theorem writerWeight_le (system : RingSystem n) : system.writerWeight ≤ 2 := by
  unfold writerWeight
  split
  · split <;> omega
  · omega
  · omega
  · omega

theorem loopDistance_le (system : RingSystem n) : system.loopDistance ≤ 4 := by
  unfold loopDistance
  split
  · omega
  · split <;> omega
  · omega
  · omega
  · omega

theorem sealDistance_le_of (sameApply : after.apply = system.apply)
    (used : after.usedWeight ≤ system.usedWeight)
    (emptied : ∀ idx, (system.buffers idx).pos = 0 → (after.buffers idx).pos = 0) :
    after.sealDistance ≤ system.sealDistance := by
  unfold sealDistance
  rw [sameApply]
  split
  · omega
  · omega
  · rename_i idx _
    split
    · omega
    · rename_i notEmpty
      split
      · rename_i empty
        exact absurd (emptied _ empty) notEmpty
      · omega
  · omega
  · omega

theorem rank_of_emptied (sameApply : after.apply = system.apply)
    (used : after.usedWeight ≤ system.usedWeight)
    (emptied : ∀ idx, (system.buffers idx).pos = 0 → (after.buffers idx).pos = 0)
    (tick : after.tickWeight ≤ system.tickWeight) (work : after.backlog < system.backlog) :
    after.rank < system.rank := by
  have seals := sealDistance_le_of sameApply used emptied
  have loops := after.loopDistance_le
  unfold rank
  omega

theorem pos_of_bytesAt (bytes : after.bytesAt = system.bytesAt) (idx : Fin n) :
    (after.buffers idx).pos = (system.buffers idx).pos :=
  congrArg (fun bytesAt => (bytesAt idx).length) bytes

theorem pos_updateBuffer_self (change : WalBuffer → WalBuffer)
    (empties : (change (system.buffers idx)).pos = 0) :
    ((system.updateBuffer idx change).buffers idx).pos = 0 := by
  simp only [updateBuffer,Function.update_self]
  exact empties

theorem pos_updateBuffer_of_ne {change : WalBuffer → WalBuffer} (different : other ≠ idx) :
    ((system.updateBuffer idx change).buffers other).pos = (system.buffers other).pos := by
  simp only [updateBuffer,Function.update_of_ne different]

theorem usedWeight_of_bytesAt (bytes : after.bytesAt = system.bytesAt)
    (sameActive : after.activeIdx = system.activeIdx) : after.usedWeight = system.usedWeight := by
  unfold usedWeight
  rw [sameActive,pos_of_bytesAt bytes]

theorem tickWeight_of_clearing
    (used : after.usedWeight = system.usedWeight) (awake : after.writer ≠ .sleeping)
    (clears : system.activeIdx ∈ system.sealedQueue ∨ system.writer.held = some system.activeIdx →
      after.activeIdx ∈ after.sealedQueue ∨ after.writer.held = some after.activeIdx) :
    after.tickWeight ≤ system.tickWeight := by
  unfold tickWeight
  split
  · omega
  · rename_i notClearing
    rw [if_neg fun clearing => notClearing ⟨awake,clears clearing.2⟩]
    omega

theorem rank_tick (sleeping : system.writer = .sleeping)
    (used : (system.buffers system.activeIdx).pos ≠ 0) : system.writerStep.rank < system.rank := by
  have wasUsed : system.usedWeight = 1 := if_neg used
  have notClearing : ¬ system.Clearing := fun clearing => clearing.1 sleeping
  have ticks : system.tickWeight = system.usedWeight := if_neg notClearing
  unfold writerStep
  rw [sleeping]
  simp only [sealActive,if_neg used]
  split
  · rename_i newIdx _
    set after : RingSystem n :=
      { (system.sealAndEnqueue system.activeIdx).activateBuffer newIdx system.committed with
        writer := .draining } with isAfter
    have empty : after.usedWeight = 0 := by
      refine if_pos ?_
      exact pos_updateBuffer_self (WalBuffer.activate system.committed) rfl
    have work : after.backlog = 4 * (system.sealedQueue.length + 1) := by
      show 4 * (system.sealedQueue ++ [system.activeIdx]).length + 0 = _
      rw [List.length_append,List.length_singleton]
      omega
    have seals := after.sealDistance_le
    have tick := after.tickWeight_le
    have loops := after.loopDistance_le
    unfold rank
    rw [work]
    unfold backlog
    omega
  · set after : RingSystem n :=
      { system.sealAndEnqueue system.activeIdx with writer := .draining } with isAfter
    have bytes : after.bytesAt = system.bytesAt := system.bytesAt_updateBuffer_of_same rfl
    have sameUsed := usedWeight_of_bytesAt bytes rfl
    have awake : after.writer ≠ .sleeping := by
      intro same
      cases same
    have clears : after.tickWeight = 0 := by
      refine if_pos ⟨awake,.inl ?_⟩
      exact List.mem_append_right _ (List.mem_singleton.mpr rfl)
    have work : after.backlog = 4 * (system.sealedQueue.length + 1) := by
      show 4 * (system.sealedQueue ++ [system.activeIdx]).length + 0 = _
      rw [List.length_append,List.length_singleton]
      omega
    have sameApply : after.apply = system.apply := rfl
    have seals := sealDistance_le_of sameApply sameUsed.le fun idx empty =>
      (pos_of_bytesAt bytes idx).trans empty
    have loops := after.loopDistance_le
    unfold rank
    rw [work,sameUsed,clears,ticks,wasUsed]
    unfold backlog
    omega

theorem rank_popSealed (draining : system.writer = .draining) {rest : List (Fin n)}
    (queue : system.sealedQueue = idx :: rest) :
    (system.popSealed idx rest).rank < system.rank := by
  have bytes : (system.popSealed idx rest).bytesAt = system.bytesAt :=
    system.bytesAt_updateBuffer_of_same rfl
  have sameUsed := usedWeight_of_bytesAt bytes rfl
  have sameApply : (system.popSealed idx rest).apply = system.apply := rfl
  have awake : (system.popSealed idx rest).writer ≠ .sleeping := by
    intro same
    cases same
  apply rank_of_emptied sameApply sameUsed.le
  · intro other empty
    rw [pos_of_bytesAt bytes]
    exact empty
  · apply tickWeight_of_clearing sameUsed awake
    rintro (queued | held)
    · rw [queue] at queued
      rcases List.mem_cons.mp queued with isFirst | inRest
      · refine .inr ?_
        show some idx = some system.activeIdx
        rw [isFirst]
      · exact .inl inRest
    · rw [draining] at held
      cases held
  · unfold backlog
    rw [queue]
    show 4 * rest.length + 2 < 4 * (idx :: rest).length + system.writerWeight
    rw [List.length_cons]
    omega

theorem rank_write (writing : system.writer = .writing idx)
    (steps : after = { system with
      handed := system.handed ++ (system.buffers idx).bytes, writer := .returning idx }) :
    after.rank < system.rank := by
  have sameUsed : after.usedWeight = system.usedWeight := by
    rw [steps]
    rfl
  have awake : after.writer ≠ .sleeping := by
    rw [steps]
    intro same
    cases same
  have sameApply : after.apply = system.apply := by rw [steps]
  subst steps
  apply rank_of_emptied sameApply sameUsed.le (fun _ => id)
  · apply tickWeight_of_clearing sameUsed awake
    rw [writing]
    exact id
  · unfold backlog writerWeight
    rw [writing]
    exact Nat.lt_succ_self _

theorem rank_returnToFree (returning : system.writer = .returning idx) :
    (system.returnToFree idx).rank < system.rank := by
  have emptied : ∀ other, (system.buffers other).pos = 0 →
      ((system.returnToFree idx).buffers other).pos = 0 := by
    intro other empty
    by_cases same : other = idx
    · subst same
      exact pos_updateBuffer_self WalBuffer.markFree rfl
    · exact (pos_updateBuffer_of_ne same).trans empty
  have sameApply : (system.returnToFree idx).apply = system.apply := rfl
  have work : (system.returnToFree idx).backlog < system.backlog := by
    unfold backlog writerWeight
    rw [returning]
    exact Nat.lt_succ_self _
  by_cases isActive : system.activeIdx = idx
  · have empty : (system.returnToFree idx).usedWeight = 0 := by
      have active : (system.returnToFree idx).activeIdx = idx := isActive
      refine if_pos ?_
      rw [active]
      exact pos_updateBuffer_self WalBuffer.markFree rfl
    have tick := (system.returnToFree idx).tickWeight_le
    exact rank_of_emptied sameApply (by omega) emptied (by omega) work
  · have sameUsed : (system.returnToFree idx).usedWeight = system.usedWeight := by
      have samePos : ((system.returnToFree idx).buffers system.activeIdx).pos =
          (system.buffers system.activeIdx).pos := pos_updateBuffer_of_ne isActive
      unfold usedWeight
      rw [← samePos]
      rfl
    have awake : (system.returnToFree idx).writer ≠ .sleeping := by
      intro same
      cases same
    apply rank_of_emptied sameApply sameUsed.le emptied ?_ work
    apply tickWeight_of_clearing sameUsed awake
    rintro (queued | held)
    · exact .inl queued
    · rw [returning] at held
      exact absurd (Option.some.inj held).symm isActive

theorem rank_writerStep (system : RingSystem n) :
    system.writerStep.rank < system.rank ∨
      (system.writerStep.rank = system.rank ∧ system.writerStep.helpful = system.helpful ∧
        system.sealedQueue = [] ∧ system.writer.held = none) := by
  cases writer : system.writer with
  | sleeping =>
      by_cases used : (system.buffers system.activeIdx).pos = 0
      · have steps : system.writerStep = { system with writer := .draining } := by
          unfold writerStep sealActive
          rw [writer]
          simp only [if_pos used]
        have unused : system.usedWeight = 0 := if_pos used
        have before := system.tickWeight_le
        have after := tickWeight_le { system with writer := .draining }
        have afterUnused : usedWeight { system with writer := .draining } = 0 := if_pos used
        rw [steps]
        by_cases queue : system.sealedQueue = []
        · refine .inr ⟨?_,rfl,queue,rfl⟩
          have work : system.backlog = backlog { system with writer := .draining } := by
            unfold backlog writerWeight
            rw [writer]
            simp only [if_pos queue]
          have seals : sealDistance { system with writer := .draining } = system.sealDistance := rfl
          have loops : loopDistance { system with writer := .draining } = system.loopDistance := rfl
          unfold rank
          omega
        · refine .inl (rank_of_emptied rfl le_rfl (fun _ => id) (by omega) ?_)
          unfold backlog writerWeight
          rw [writer]
          simp only [if_neg queue]
          exact Nat.lt_succ_self _
      · exact .inl (rank_tick writer used)
  | draining =>
      cases queue : system.sealedQueue with
      | nil =>
          have steps : system.writerStep = { system with writer := .sleeping } := by
            unfold writerStep
            rw [writer]
            simp only [queue]
          have notClearing : ¬ system.Clearing := by
            rintro ⟨-,queued | held⟩
            · rw [queue] at queued
              cases queued
            · rw [writer] at held
              cases held
          have stillNot : ¬ Clearing { system with writer := .sleeping } :=
            fun clearing => clearing.1 rfl
          have ticks : tickWeight { system with writer := .sleeping } = system.tickWeight := by
            unfold tickWeight
            rw [if_neg notClearing,if_neg stillNot]
            rfl
          have work : backlog { system with writer := .sleeping } = system.backlog := by
            unfold backlog writerWeight
            rw [writer]
            simp only [if_pos queue]
          rw [steps]
          refine .inr ⟨?_,rfl,rfl,rfl⟩
          unfold rank
          rw [ticks,work]
          rfl
      | cons idx rest =>
          have steps : system.writerStep = system.popSealed idx rest := by
            unfold writerStep
            rw [writer]
            simp only [queue]
          rw [steps]
          exact .inl (rank_popSealed writer queue)
  | writing idx =>
      have steps : system.writerStep = { system with
          handed := system.handed ++ (system.buffers idx).bytes, writer := .returning idx } := by
        unfold writerStep
        rw [writer]
      exact .inl (rank_write writer steps)
  | returning idx =>
      unfold writerStep
      rw [writer]
      exact .inl (rank_returnToFree writer)

theorem findFreeBuffer_none (noneFound : system.findFreeBuffer = none) (idx : Fin n) :
    system.stateAt idx ≠ .free := by
  intro free
  have absent := List.find?_eq_none.mp noneFound idx (List.mem_finRange idx)
  exact absent (decide_eq_true free)

theorem used_of_refused (fits : record.length ≤ system.capacity)
    (refused : (system.buffers idx).tryAppend system.capacity record = none) :
    (system.buffers idx).pos ≠ 0 := by
  intro empty
  unfold WalBuffer.tryAppend at refused
  split at refused
  · rename_i tooLong
    rw [empty] at tooLong
    omega
  · cases refused

theorem rank_waitForFree {lsn : Nat} (waiting : system.apply = .waitForFree record lsn)
    (newIdx : Fin n) :
    ({ system.activateBuffer newIdx lsn with apply := .retry record } : RingSystem n).rank <
      system.rank := by
  set after : RingSystem n :=
    { system.activateBuffer newIdx lsn with apply := .retry record } with isAfter
  have emptied : (after.buffers newIdx).pos = 0 :=
    pos_updateBuffer_self (WalBuffer.activate lsn) rfl
  have activated : after.stateAt newIdx = .active := by
    have states : after.stateAt = Function.update system.stateAt newIdx .active :=
      system.stateAt_updateBuffer _ _
    rw [states,Function.update_self]
  have unused : after.usedWeight = 0 := if_pos emptied
  have tick := after.tickWeight_le
  have seals : after.sealDistance = 3 * after.usedWeight := rfl
  have work : after.backlog = system.backlog := rfl
  have loops : after.loopDistance = 2 := if_pos activated
  have waited : system.loopDistance = 3 := by
    unfold loopDistance
    rw [waiting]
  unfold rank
  omega

theorem rank_sealAndSwap (sealing : system.apply = .sealAndSwap record idx) (lsn : Nat) :
    ({ system.sealAndEnqueue idx with apply := .waitForFree record lsn } : RingSystem n).rank <
      system.rank := by
  set after : RingSystem n :=
    { system.sealAndEnqueue idx with apply := .waitForFree record lsn } with isAfter
  have bytes : after.bytesAt = system.bytesAt := system.bytesAt_updateBuffer_of_same rfl
  have sameUsed := usedWeight_of_bytesAt bytes rfl
  have used := system.usedWeight_le
  have tick := after.tickWeight_le
  have seals : after.sealDistance = 0 := rfl
  have loops := after.loopDistance_le
  have sealed_ : system.sealDistance = 1 := by
    unfold sealDistance
    rw [sealing]
  have writerWork := after.writerWeight_le
  have work : after.backlog ≤ system.backlog + 6 := by
    unfold backlog
    show 4 * (system.sealedQueue ++ [idx]).length + after.writerWeight ≤ _
    rw [List.length_append,List.length_singleton]
    omega
  unfold rank
  omega

theorem rank_applyStep (inAppend : system.apply.record = some record)
    (fits : record.length ≤ system.capacity) (notWaiting : system.helpful = .applyThread) :
    system.applyStep.apply = .idle ∨ system.applyStep.rank < system.rank := by
  unfold applyStep
  split
  · rename_i isIdle
    exact .inl isIdle
  · rename_i current atRetry
    have before : system.sealDistance = 3 * system.usedWeight := by
      unfold sealDistance
      rw [atRetry]
    dsimp only
    refine .inr ?_
    split
    · rename_i active
      have loops : system.loopDistance = 2 := by
        unfold loopDistance
        rw [atRetry]
        exact if_pos active
      set after : RingSystem n :=
        { system with apply := .tryAppend current system.activeIdx } with isAfter
      have seals : after.sealDistance ≤ 3 * system.usedWeight := by
        show (if (system.buffers system.activeIdx).pos = 0 then 0 else 2) ≤ _
        unfold usedWeight
        split <;> omega
      have sameUsed : after.usedWeight = system.usedWeight := rfl
      have sameTick : after.tickWeight = system.tickWeight := rfl
      have sameWork : after.backlog = system.backlog := rfl
      have fewer : after.loopDistance = 1 := rfl
      unfold rank
      omega
    · rename_i inactive
      have loops : system.loopDistance = 4 := by
        unfold loopDistance
        rw [atRetry]
        exact if_neg inactive
      set after : RingSystem n :=
        { system with apply := .waitForFree current system.committed } with isAfter
      have seals : after.sealDistance = 0 := rfl
      have sameUsed : after.usedWeight = system.usedWeight := rfl
      have sameTick : after.tickWeight = system.tickWeight := rfl
      have sameWork : after.backlog = system.backlog := rfl
      have fewer : after.loopDistance = 3 := rfl
      unfold rank
      omega
  · rename_i current idx atTry
    rw [atTry] at inAppend
    split
    · exact .inl rfl
    · rename_i refused
      have isRecord : current = record := Option.some.inj inAppend
      rw [isRecord] at refused ⊢
      have used := used_of_refused fits refused
      have before : system.sealDistance = 2 := by
        unfold sealDistance
        rw [atTry]
        exact if_neg used
      set after : RingSystem n := { system with apply := .sealAndSwap record idx } with isAfter
      have seals : after.sealDistance = 1 := rfl
      have sameUsed : after.usedWeight = system.usedWeight := rfl
      have sameTick : after.tickWeight = system.tickWeight := rfl
      have sameWork : after.backlog = system.backlog := rfl
      have fewer : after.loopDistance = 0 := rfl
      refine .inr ?_
      unfold rank
      omega
  · rename_i current idx atSeal
    exact .inr (rank_sealAndSwap atSeal _)
  · rename_i current lsn atWait
    split
    · rename_i noneFree
      have waits : system.helpful = .writerThread := by
        unfold helpful
        rw [atWait]
        exact if_pos noneFree
      rw [waits] at notWaiting
      cases notWaiting
    · rename_i newIdx _
      exact .inr (rank_waitForFree atWait newIdx)

theorem applyStep_of_helpful (waits : system.helpful = .writerThread) :
    system.applyStep = system ∧ system.apply.isWaiting ∧ system.findFreeBuffer = none := by
  unfold helpful at waits
  cases pc : system.apply with
  | waitForFree record lsn =>
      rw [pc] at waits
      dsimp only at waits
      split at waits
      · rename_i noneFree
        refine ⟨?_,trivial,noneFree⟩
        unfold applyStep
        rw [pc]
        simp only [noneFree]
      · cases waits
  | _ =>
      rw [pc] at waits
      cases waits

/-- The append runs and the record is not in the ring yet, or it has returned. -/
structure Appending (before : RingSystem n) (record : List UInt8) (system : RingSystem n) :
    Prop where
  capacity : system.capacity = before.capacity
  phase : system.apply.record = some record ∧ system.appended = before.appended ∨
    system.apply = .idle ∧ system.appended = before.appended ++ [record]

theorem writerStep_capacity (system : RingSystem n) :
    system.writerStep.capacity = system.capacity := by
  unfold writerStep
  split
  · unfold sealActive
    split
    · rfl
    · split
      · rfl
      · rfl
  · split
    · rfl
    · rfl
  · rfl
  · rfl

theorem applyStep_capacity (system : RingSystem n) :
    system.applyStep.capacity = system.capacity := by
  unfold applyStep
  split
  · rfl
  · dsimp only
    split
    · rfl
    · rfl
  · split
    · rfl
    · rfl
  · rfl
  · split
    · rfl
    · rfl

theorem Appending.applyStep (appending : Appending before record system) :
    Appending before record system.applyStep := by
  obtain ⟨capacity,phase⟩ := appending
  refine ⟨system.applyStep_capacity.trans capacity,?_⟩
  rcases phase with ⟨current,appended⟩ | ⟨isIdle,appended⟩
  · have step := applyStep_record current
    rw [appended] at step
    exact step
  · have stays : system.applyStep = system := by
      unfold RingSystem.applyStep
      rw [isIdle]
    rw [stays]
    exact .inr ⟨isIdle,appended⟩

theorem Appending.turn (appending : Appending before record system) (turn : Turn) :
    Appending before record (system.turn turn) := by
  cases turn with
  | applyThread => exact appending.applyStep
  | writerThread =>
      obtain ⟨apply,appended⟩ := system.writerStep_apply
      show Appending before record system.writerStep
      refine ⟨system.writerStep_capacity.trans appending.capacity,?_⟩
      rw [apply,appended]
      exact appending.phase

theorem Supplied.turn (supplied : Supplied system) (turn : Turn) : Supplied (system.turn turn) := by
  cases turn with
  | applyThread => exact supplied.applyStep
  | writerThread => exact supplied.writerStep

/-- The thread the append waits for brings it nearer to its end, and the other
thread does not set it back. -/
theorem append_progress (before : RingSystem n) (fits : record.length ≤ before.capacity) :
    Machine.Progress turn (fun system => Supplied system ∧ Appending before record system)
      (fun system => system.apply = .idle) rank helpful := by
  have applySteps : ∀ system : RingSystem n, Appending before record system →
      system.apply ≠ .idle → system.helpful = .applyThread →
      system.applyStep.apply = .idle ∨ system.applyStep.rank < system.rank := by
    intro system appending running helps
    have current := (appending.phase.resolve_right fun ended => running ended.1).1
    have fitsHere : record.length ≤ system.capacity := by
      rw [appending.capacity]
      exact fits
    exact rank_applyStep current fitsHere helps
  refine ⟨?_,?_,?_⟩
  · intro system action holds
    exact ⟨holds.1.turn action,holds.2.turn action⟩
  · intro system holds running
    cases helps : system.helpful with
    | applyThread => exact applySteps system holds.2 running helps
    | writerThread =>
        obtain ⟨-,waiting,noneFree⟩ := applyStep_of_helpful helps
        rcases system.rank_writerStep with lower | ⟨-,-,queueEmpty,noneHeld⟩
        · exact .inr lower
        · rcases holds.1.awaited waiting with ⟨idx,free⟩ | queued | held
          · exact absurd free (findFreeBuffer_none noneFree idx)
          · exact absurd queueEmpty queued
          · exact absurd noneHeld held
  · intro system action holds running
    cases action with
    | applyThread =>
        cases helps : system.helpful with
        | applyThread =>
            rcases applySteps system holds.2 running helps with ended | lower
            · exact .inl ended
            · exact .inr (.inl lower)
        | writerThread =>
            have stays : system.turn .applyThread = system := (applyStep_of_helpful helps).1
            rw [stays]
            exact .inr (.inr ⟨rfl,helps⟩)
    | writerThread =>
        rcases system.rank_writerStep with lower | ⟨sameRank,sameHelp,-,-⟩
        · exact .inr (.inl lower)
        · exact .inr (.inr ⟨sameRank,sameHelp⟩)

/-- The buffers that an append may still seal. -/
def sealsLeft (system : RingSystem n) : Nat :=
  match system.apply with
  | .retry _ => system.usedWeight
  | .tryAppend _ idx => if (system.buffers idx).pos = 0 then 0 else 1
  | .sealAndSwap _ _ => 1
  | _ => 0

theorem sealActive_emptied (system : RingSystem n) (empty : (system.buffers idx).pos = 0) :
    (system.sealActive.buffers idx).pos = 0 := by
  have bytes : (system.sealAndEnqueue system.activeIdx).bytesAt = system.bytesAt :=
    system.bytesAt_updateBuffer_of_same rfl
  have stillEmpty := (pos_of_bytesAt bytes idx).trans empty
  unfold sealActive
  split
  · exact empty
  · split
    · rename_i newIdx _
      by_cases same : idx = newIdx
      · subst same
        exact pos_updateBuffer_self (WalBuffer.activate system.committed) rfl
      · exact (pos_updateBuffer_of_ne same).trans stillEmpty
    · exact stillEmpty

theorem writerStep_emptied (system : RingSystem n) (empty : (system.buffers idx).pos = 0) :
    (system.writerStep.buffers idx).pos = 0 := by
  unfold writerStep
  split
  · exact system.sealActive_emptied empty
  · split
    · exact empty
    · rename_i first rest _
      have bytes : (system.popSealed first rest).bytesAt = system.bytesAt :=
        system.bytesAt_updateBuffer_of_same rfl
      exact (pos_of_bytesAt bytes idx).trans empty
  · exact empty
  · rename_i freed _
    by_cases same : idx = freed
    · subst same
      exact pos_updateBuffer_self WalBuffer.markFree rfl
    · exact (pos_updateBuffer_of_ne same).trans empty

theorem writerStep_activeIdx (system : RingSystem n) :
    system.writerStep.activeIdx = system.activeIdx ∨
      (system.writerStep.buffers system.writerStep.activeIdx).pos = 0 := by
  unfold writerStep
  split
  · unfold sealActive
    split
    · exact .inl rfl
    · split
      · rename_i newIdx _
        exact .inr (pos_updateBuffer_self (WalBuffer.activate system.committed) rfl)
      · exact .inl rfl
  · split
    · exact .inl rfl
    · exact .inl rfl
  · exact .inl rfl
  · exact .inl rfl

theorem usedWeight_writerStep (system : RingSystem n) :
    system.writerStep.usedWeight ≤ system.usedWeight := by
  unfold usedWeight
  split
  · omega
  · rename_i used
    rcases system.writerStep_activeIdx with same | empty
    · rw [same] at used
      split
      · rename_i wasEmpty
        exact absurd (system.writerStep_emptied wasEmpty) used
      · omega
    · exact absurd empty used

theorem sealsLeft_writerStep (system : RingSystem n) :
    system.writerStep.sealsLeft ≤ system.sealsLeft := by
  unfold sealsLeft
  rw [system.writerStep_apply.1]
  cases system.apply with
  | retry record => exact system.usedWeight_writerStep
  | tryAppend record idx =>
      dsimp only
      split
      · omega
      · rename_i used
        split
        · rename_i empty
          exact absurd (system.writerStep_emptied empty) used
        · omega
  | _ => exact le_rfl

theorem sealsLeft_applyStep (inAppend : system.apply.record = some record)
    (fits : record.length ≤ system.capacity) :
    system.applyStep.sealsLeft + (system.sealing .applyThread).toList.length ≤
      system.sealsLeft := by
  cases pc : system.apply with
  | idle =>
      rw [pc] at inAppend
      cases inAppend
  | retry current =>
      have notSealing : system.sealing .applyThread = none := by
        unfold sealing
        rw [pc]
      have left : system.sealsLeft = system.usedWeight := by
        unfold sealsLeft
        rw [pc]
      rw [notSealing,left]
      unfold applyStep
      rw [pc]
      dsimp only
      split
      · exact le_rfl
      · exact Nat.zero_le _
  | tryAppend current idx =>
      have notSealing : system.sealing .applyThread = none := by
        unfold sealing
        rw [pc]
      rw [notSealing]
      unfold applyStep
      rw [pc]
      dsimp only
      split
      · exact Nat.zero_le _
      · rename_i refused
        rw [pc] at inAppend
        rw [Option.some.inj inAppend] at refused
        have left : system.sealsLeft = 1 := by
          unfold sealsLeft
          rw [pc]
          exact if_neg (used_of_refused fits refused)
        rw [left]
        exact le_rfl
  | sealAndSwap current idx =>
      have isSealing : system.sealing .applyThread = some idx := by
        unfold sealing
        rw [pc]
      have left : system.sealsLeft = 1 := by
        unfold sealsLeft
        rw [pc]
      rw [isSealing,left]
      unfold applyStep
      rw [pc]
      exact le_rfl
  | waitForFree current lsn =>
      have notSealing : system.sealing .applyThread = none := by
        unfold sealing
        rw [pc]
      rw [notSealing]
      unfold applyStep
      rw [pc]
      dsimp only
      split
      · rw [Option.toList_none,List.length_nil,Nat.add_zero]
      · rename_i newIdx _
        have emptied : usedWeight { system.activateBuffer newIdx lsn with
            apply := .retry current } = 0 :=
          if_pos (pos_updateBuffer_self (WalBuffer.activate lsn) rfl)
        show usedWeight _ + 0 ≤ _
        rw [emptied]
        exact Nat.zero_le _

theorem sealsBefore_length (fits : record.length ≤ before.capacity) (schedule : Nat → Turn)
    (appending : Appending before record system) (moment : Nat) :
    (sealsBefore schedule system moment).length +
      (Machine.follow turn schedule system moment).sealsLeft ≤ system.sealsLeft := by
  induction moment with
  | zero => exact (Nat.zero_add _).le
  | succ moment ih =>
      set reached := Machine.follow turn schedule system moment with isReached
      have appendingHere : Appending before record reached :=
        Machine.invariant_follow turn (fun _ action holds => holds.turn action) appending moment
      have step : (reached.turn (schedule moment)).sealsLeft +
          (reached.sealing (schedule moment)).toList.length ≤ reached.sealsLeft := by
        cases schedule moment with
        | writerThread => exact reached.sealsLeft_writerStep
        | applyThread =>
            rcases appendingHere.phase with ⟨current,-⟩ | ⟨isIdle,-⟩
            · apply sealsLeft_applyStep current
              rw [appendingHere.capacity]
              exact fits
            · have stays : reached.turn .applyThread = reached := by
                show reached.applyStep = reached
                unfold RingSystem.applyStep
                rw [isIdle]
              have notSealing : reached.sealing .applyThread = none := by
                unfold sealing
                rw [isIdle]
              rw [stays,notSealing]
              exact le_rfl
      have seals : sealsBefore schedule system (moment + 1) =
          sealsBefore schedule system moment ++ (reached.sealing (schedule moment)).toList := by
        rw [sealsBefore,List.range_succ,List.filterMap_append]
        refine congrArg _ ?_
        rw [List.filterMap_cons,List.filterMap_nil,← isReached]
        cases reached.sealing (schedule moment) with
        | none => rfl
        | some idx => rfl
      show _ + (reached.turn (schedule moment)).sealsLeft ≤ _
      rw [seals,List.length_append]
      omega

theorem appendReturns (supplied : Supplied system) (fits : record.length ≤ system.capacity)
    {schedule : Nat → Turn} (fair : Machine.Fair schedule) :
    system.AppendReturns record schedule := by
  have called : Supplied (system.callAppend record) := supplied.withApply id
  have appending : Appending system record (system.callAppend record) :=
    ⟨rfl,.inl ⟨rfl,rfl⟩⟩
  obtain ⟨moment,ended⟩ := (append_progress system fits).reaches turn fair ⟨called,appending⟩
  have reached : Appending system record
      (Machine.follow turn schedule (system.callAppend record) moment) :=
    Machine.invariant_follow turn (fun _ action holds => holds.turn action) appending moment
  have seals := sealsBefore_length fits schedule appending moment
  have atMostOne : (system.callAppend record).sealsLeft ≤ 1 :=
    (system.callAppend record).usedWeight_le
  refine ⟨moment,ended,?_,?_⟩
  · rcases reached.phase with ⟨running,-⟩ | ⟨-,appended⟩
    · rw [ended] at running
      cases running
    · exact appended
  · cases list : sealsBefore schedule (system.callAppend record) moment with
    | nil => exact List.nodup_nil
    | cons idx rest =>
        rw [list,List.length_cons] at seals
        have noMore : rest = [] := List.eq_nil_of_length_eq_zero (by omega)
        rw [noMore]
        exact List.nodup_singleton idx

theorem not_appendReturns (system : RingSystem n) (tooLong : system.capacity < record.length)
    (schedule : Nat → Turn) : ¬ system.AppendReturns record schedule := by
  rintro ⟨moment,ended,-⟩
  have refused : ∀ (reached : RingSystem n) (idx : Fin n), reached.capacity = system.capacity →
      (reached.buffers idx).tryAppend reached.capacity record = none := by
    intro reached idx capacity
    refine if_pos ?_
    rw [capacity]
    omega
  have neverEnds : ∀ (reached : RingSystem n) (action : Turn),
      (reached.capacity = system.capacity ∧ reached.apply.record = some record) →
      (reached.turn action).capacity = system.capacity ∧
        (reached.turn action).apply.record = some record := by
    rintro reached action ⟨capacity,current⟩
    cases action with
    | writerThread =>
        refine ⟨reached.writerStep_capacity.trans capacity,?_⟩
        show reached.writerStep.apply.record = _
        rw [reached.writerStep_apply.1]
        exact current
    | applyThread =>
        refine ⟨reached.applyStep_capacity.trans capacity,?_⟩
        show reached.applyStep.apply.record = _
        unfold applyStep
        split
        · exact current
        all_goals
          rename_i atPc
          rw [atPc] at current
        · dsimp only
          split
          · exact current
          · exact current
        · rename_i tried idx
          have isRecord : tried = record := Option.some.inj current
          rw [isRecord,refused reached idx capacity]
          rfl
        · exact current
        · split
          · rw [atPc]
            exact current
          · exact current
  have called : (system.callAppend record).capacity = system.capacity ∧
      (system.callAppend record).apply.record = some record := ⟨rfl,rfl⟩
  have reached : (Machine.follow turn schedule (system.callAppend record) moment).apply.record =
      some record :=
    (Machine.invariant_follow turn neverEnds called moment).2
  rw [ended] at reached
  cases reached

end RingSystem

end Beava.Wal
