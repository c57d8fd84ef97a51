/-
The ring of log buffers between the apply thread and the writer thread.

The apply thread appends records to the active buffer; a full buffer is sealed
and queued, and a free one becomes active.  The writer thread seals the active
buffer on every tick and then drains the queue: it writes a sealed buffer to
the file and frees it.  Each thread carries a program counter, and a run is any
interleaving of their steps.

`seal_active` looks at the position of the buffer that `active_idx` names and
not at its state.  When the apply thread has sealed that buffer and is parked,
or is about to seal it, the tick seals and queues it a second time.
-/

import Beava.Lib.Machine
import Mathlib.Data.Fintype.Basic
import Mathlib.Data.List.FinRange

namespace Beava.Wal

inductive BufState where
  | free
  | active
  | sealed
  | flushing
  deriving DecidableEq, Repr

/-- `WalBuffer`; `bytes` is the part of the store below `pos`. -/
structure WalBuffer where
  bytes : List UInt8
  lsnLo : Nat
  lsnHi : Nat
  state : BufState
  deriving DecidableEq, Repr

namespace WalBuffer

def new : WalBuffer :=
  { bytes := [], lsnLo := 0, lsnHi := 0, state := .free }

def pos (buffer : WalBuffer) : Nat := buffer.bytes.length

def activate (lsnLo : Nat) (_ : WalBuffer) : WalBuffer :=
  { bytes := [], lsnLo := lsnLo, lsnHi := 0, state := .active }

def tryAppend (capacity : Nat) (data : List UInt8) (buffer : WalBuffer) : Option WalBuffer :=
  if buffer.pos + data.length > capacity ∧ data.length ≠ 0 then none
  else some { buffer with bytes := buffer.bytes ++ data }

def sealBuffer (lsnHi : Nat) (buffer : WalBuffer) : WalBuffer :=
  { buffer with lsnHi := lsnHi, state := .sealed }

def markFlushing (buffer : WalBuffer) : WalBuffer :=
  { buffer with state := .flushing }

def markFree (buffer : WalBuffer) : WalBuffer :=
  { buffer with bytes := [], state := .free }

end WalBuffer

/-! ### Threads -/

inductive ApplyPc (n : Nat) where
  | idle
  /-- At the head of the loop of `append`. -/
  | retry (record : List UInt8)
  /-- `active_idx` is loaded and the buffer was seen ACTIVE. -/
  | tryAppend (record : List UInt8) (idx : Fin n)
  /-- The record did not fit: `do_seal_and_swap` is called. -/
  | sealAndSwap (record : List UInt8) (idx : Fin n)
  /-- Looking for a free buffer, to be activated with `lsn`. -/
  | waitForFree (record : List UInt8) (lsn : Nat)
  deriving DecidableEq, Repr

/-- Where the writer thread is in `run_writer_loop`. -/
inductive WriterPc (n : Nat) where
  | sleeping
  | draining
  | writing (idx : Fin n)
  | returning (idx : Fin n)
  deriving DecidableEq, Repr

/-- The ring, both threads, and two histories: the records appended so far and
the bytes handed to the file. -/
structure RingSystem (n : Nat) where
  capacity : Nat
  buffers : Fin n → WalBuffer
  activeIdx : Fin n
  sealedQueue : List (Fin n)
  committed : Nat
  apply : ApplyPc n
  writer : WriterPc n
  appended : List (List UInt8)
  handed : List UInt8

namespace RingSystem

variable {n : Nat}

def updateBuffer (system : RingSystem n) (idx : Fin n) (change : WalBuffer → WalBuffer) :
    RingSystem n :=
  { system with
    buffers := Function.update system.buffers idx (change (system.buffers idx)) }

/-- `find_free_buffer`: the first buffer in state FREE. -/
def findFreeBuffer (system : RingSystem n) : Option (Fin n) :=
  (List.finRange n).find? fun idx => (system.buffers idx).state = .free

/-- `seal` followed by the push onto the queue. -/
def sealAndEnqueue (system : RingSystem n) (idx : Fin n) : RingSystem n :=
  { system.updateBuffer idx (WalBuffer.sealBuffer system.committed) with
    sealedQueue := system.sealedQueue ++ [idx] }

def activateBuffer (system : RingSystem n) (idx : Fin n) (lsn : Nat) : RingSystem n :=
  { system.updateBuffer idx (WalBuffer.activate lsn) with activeIdx := idx }

def sealActive (system : RingSystem n) : RingSystem n :=
  if (system.buffers system.activeIdx).pos = 0 then system
  else
    match system.findFreeBuffer with
    | some newIdx =>
        (system.sealAndEnqueue system.activeIdx).activateBuffer newIdx system.committed
    | none => system.sealAndEnqueue system.activeIdx

/-- The end of a successful `append`: the buffer has grown and `lsn.record` has
advanced the committed LSN. -/
def finishAppend (system : RingSystem n) (idx : Fin n) (buffer : WalBuffer)
    (record : List UInt8) : RingSystem n :=
  { system.updateBuffer idx (fun _ => buffer) with
    committed := system.committed + record.length
    apply := .idle
    appended := system.appended ++ [record] }

def popSealed (system : RingSystem n) (idx : Fin n) (rest : List (Fin n)) : RingSystem n :=
  { system.updateBuffer idx WalBuffer.markFlushing with
    sealedQueue := rest
    writer := .writing idx }

def returnToFree (system : RingSystem n) (idx : Fin n) : RingSystem n :=
  { system.updateBuffer idx WalBuffer.markFree with writer := .draining }

def applyStep (system : RingSystem n) : RingSystem n :=
  match system.apply with
  | .idle => system
  | .retry record =>
      let idx := system.activeIdx
      if (system.buffers idx).state = .active then
        { system with apply := .tryAppend record idx }
      else
        { system with apply := .waitForFree record system.committed }
  | .tryAppend record idx =>
      match (system.buffers idx).tryAppend system.capacity record with
      | some buffer => system.finishAppend idx buffer record
      | none => { system with apply := .sealAndSwap record idx }
  | .sealAndSwap record idx =>
      { system.sealAndEnqueue idx with apply := .waitForFree record system.committed }
  | .waitForFree record lsn =>
      match system.findFreeBuffer with
      | none => system
      | some newIdx => { system.activateBuffer newIdx lsn with apply := .retry record }

def writerStep (system : RingSystem n) : RingSystem n :=
  match system.writer with
  | .sleeping => { system.sealActive with writer := .draining }
  | .draining =>
      match system.sealedQueue with
      | [] => { system with writer := .sleeping }
      | idx :: rest => system.popSealed idx rest
  | .writing idx =>
      { system with
        handed := system.handed ++ (system.buffers idx).bytes
        writer := .returning idx }
  | .returning idx => system.returnToFree idx

inductive Action where
  /-- The apply thread calls `append` with a record that fits a buffer. -/
  | append (record : List UInt8)
  | applyThread
  | writerThread
  deriving DecidableEq, Repr

def next (system : RingSystem n) : Action → RingSystem n
  | .append record =>
      if system.apply = .idle ∧ record.length ≤ system.capacity then
        { system with apply := .retry record }
      else system
  | .applyThread => system.applyStep
  | .writerThread => system.writerStep

/-- `WalBufferRing::new`: buffer 0 is active, the others are free. -/
def new (count capacity start : Nat) : RingSystem (count + 2) :=
  { capacity := capacity
    buffers := Function.update (fun _ => WalBuffer.new) 0 (WalBuffer.new.activate start)
    activeIdx := 0
    sealedQueue := []
    committed := start
    apply := .idle
    writer := .sleeping
    appended := []
    handed := [] }

def HandsInOrder (system : RingSystem n) : Prop :=
  system.handed <+: system.appended.flatten

instance (system : RingSystem n) : Decidable system.HandsInOrder :=
  inferInstanceAs (Decidable (_ <+: _))

/-! ### The invariant -/

end RingSystem

def ApplyPc.loadedIdx {n : Nat} : ApplyPc n → Option (Fin n)
  | .tryAppend _ idx => some idx
  | .sealAndSwap _ idx => some idx
  | _ => none

def ApplyPc.record {n : Nat} : ApplyPc n → Option (List UInt8)
  | .idle => none
  | .retry record => some record
  | .tryAppend record _ => some record
  | .sealAndSwap record _ => some record
  | .waitForFree record _ => some record

def ApplyPc.isWaiting {n : Nat} : ApplyPc n → Prop
  | .waitForFree _ _ => True
  | _ => False

def WriterPc.held {n : Nat} : WriterPc n → Option (Fin n)
  | .writing idx => some idx
  | .returning idx => some idx
  | _ => none

def WriterPc.inFlight {n : Nat} (bytesAt : Fin n → List UInt8) : WriterPc n → List UInt8
  | .writing idx => bytesAt idx
  | _ => []

def activeBytes {n : Nat} (stateAt : Fin n → BufState) (bytesAt : Fin n → List UInt8)
    (activeIdx : Fin n) : List UInt8 :=
  if stateAt activeIdx = .active then bytesAt activeIdx else []

/-- Each buffer is in the place its state names, and the places, from the file
back to the apply thread, hold the appended bytes in order. -/
structure WellPlaced {n : Nat} (stateAt : Fin n → BufState) (bytesAt : Fin n → List UInt8)
    (activeIdx : Fin n) (queue : List (Fin n)) (writer : WriterPc n)
    (handed appended : List UInt8) : Prop where
  queued : ∀ idx, idx ∈ queue ↔ stateAt idx = .sealed
  distinct : queue.Nodup
  held : ∀ idx, writer.held = some idx ↔ stateAt idx = .flushing
  unique : ∀ idx, stateAt idx = .active → idx = activeIdx
  empty : ∀ idx, stateAt idx = .free → bytesAt idx = []
  content : handed ++ (writer.inFlight bytesAt ++
    (queue.flatMap bytesAt ++ activeBytes stateAt bytesAt activeIdx)) = appended

namespace WellPlaced

variable {n : Nat} {stateAt : Fin n → BufState} {bytesAt : Fin n → List UInt8}
  {activeIdx : Fin n} {queue : List (Fin n)} {writer : WriterPc n} {handed appended : List UInt8}
variable {idx : Fin n}

theorem activeBytes_of_active (active : stateAt activeIdx = .active) :
    activeBytes stateAt bytesAt activeIdx = bytesAt activeIdx :=
  if_pos active

theorem activeBytes_of_ne (inactive : stateAt activeIdx ≠ .active) :
    activeBytes stateAt bytesAt activeIdx = [] :=
  if_neg inactive

theorem flatMap_update_of_notMem (value : List UInt8) (outside : idx ∉ queue) :
    queue.flatMap (Function.update bytesAt idx value) = queue.flatMap bytesAt := by
  apply List.flatMap_congr
  intro other member
  have different : other ≠ idx := by
    intro same
    rw [same] at member
    exact outside member
  exact Function.update_of_ne different _ _

theorem activeBytes_update {idx : Fin n} {state : BufState} (value : List UInt8)
    (before : stateAt idx ≠ .active) (after : state ≠ .active) :
    activeBytes (Function.update stateAt idx state) (Function.update bytesAt idx value)
        activeIdx =
      activeBytes stateAt bytesAt activeIdx := by
  by_cases same : activeIdx = idx
  · subst same
    rw [activeBytes_of_ne before,activeBytes_of_ne]
    rw [Function.update_self]
    exact after
  · simp only [activeBytes,Function.update_of_ne same]

/-- Sealing the active buffer moves its bytes from the end of the ring to the
end of the queue. -/
theorem sealActiveBuffer
    (placed : WellPlaced stateAt bytesAt activeIdx queue writer handed appended)
    (active : stateAt activeIdx = .active) :
    WellPlaced (Function.update stateAt activeIdx .sealed) bytesAt activeIdx
      (queue ++ [activeIdx]) writer handed appended := by
  have outside : activeIdx ∉ queue := by
    rw [placed.queued,active]
    exact nofun
  refine ⟨?_,?_,?_,?_,?_,?_⟩
  · intro idx
    rw [List.mem_append,List.mem_singleton]
    by_cases same : idx = activeIdx
    · subst same
      rw [Function.update_self]
      exact iff_of_true (Or.inr rfl) rfl
    · rw [Function.update_of_ne same,← placed.queued idx]
      exact or_iff_left same
  · rw [List.nodup_append]
    refine ⟨placed.distinct,List.nodup_singleton _,?_⟩
    intro idx member other isActive same
    rw [List.mem_singleton] at isActive
    rw [same,isActive] at member
    exact outside member
  · intro idx
    by_cases same : idx = activeIdx
    · subst same
      rw [Function.update_self,placed.held,active]
      exact iff_of_false nofun nofun
    · rw [Function.update_of_ne same]
      exact placed.held idx
  · intro idx isActive
    by_cases same : idx = activeIdx
    · exact same
    · rw [Function.update_of_ne same] at isActive
      exact placed.unique idx isActive
  · intro idx isFree
    by_cases same : idx = activeIdx
    · subst same
      rw [Function.update_self] at isFree
      cases isFree
    · rw [Function.update_of_ne same] at isFree
      exact placed.empty idx isFree
  · have inactive : Function.update stateAt activeIdx .sealed activeIdx ≠ .active := by
      rw [Function.update_self]
      exact nofun
    have content := placed.content
    rw [activeBytes_of_active active] at content
    rw [activeBytes_of_ne inactive,List.flatMap_append,List.flatMap_singleton,
      List.append_nil]
    exact content

theorem activateBuffer
    (placed : WellPlaced stateAt bytesAt activeIdx queue writer handed appended)
    (inactive : stateAt activeIdx ≠ .active) {newIdx : Fin n} (free : stateAt newIdx = .free) :
    WellPlaced (Function.update stateAt newIdx .active) bytesAt newIdx queue writer handed
      appended := by
  have noBytes := placed.empty newIdx free
  refine ⟨?_,placed.distinct,?_,?_,?_,?_⟩
  · intro idx
    by_cases same : idx = newIdx
    · subst same
      rw [Function.update_self,placed.queued,free]
      exact iff_of_false nofun nofun
    · rw [Function.update_of_ne same]
      exact placed.queued idx
  · intro idx
    by_cases same : idx = newIdx
    · subst same
      rw [Function.update_self,placed.held,free]
      exact iff_of_false nofun nofun
    · rw [Function.update_of_ne same]
      exact placed.held idx
  · intro idx isActive
    by_cases same : idx = newIdx
    · exact same
    · rw [Function.update_of_ne same] at isActive
      rw [placed.unique idx isActive] at isActive
      exact absurd isActive inactive
  · intro idx isFree
    by_cases same : idx = newIdx
    · rw [same]
      exact noBytes
    · rw [Function.update_of_ne same] at isFree
      exact placed.empty idx isFree
  · have content := placed.content
    rw [activeBytes_of_ne inactive] at content
    rw [activeBytes_of_active (Function.update_self ..),noBytes]
    exact content

theorem append (placed : WellPlaced stateAt bytesAt activeIdx queue writer handed appended)
    (active : stateAt activeIdx = .active) (record : List UInt8) :
    WellPlaced stateAt (Function.update bytesAt activeIdx (bytesAt activeIdx ++ record)) activeIdx
      queue writer handed (appended ++ record) := by
  have outside : activeIdx ∉ queue := by
    rw [placed.queued,active]
    exact nofun
  have inFlight : writer.inFlight
      (Function.update bytesAt activeIdx (bytesAt activeIdx ++ record)) =
        writer.inFlight bytesAt := by
    cases writer with
    | writing idx =>
        have flushing : stateAt idx = .flushing := (placed.held idx).mp rfl
        have different : idx ≠ activeIdx := by
          intro same
          rw [same,active] at flushing
          cases flushing
        exact Function.update_of_ne different _ _
    | _ => rfl
  refine ⟨placed.queued,placed.distinct,placed.held,placed.unique,?_,?_⟩
  · intro idx isFree
    have different : idx ≠ activeIdx := by
      intro same
      rw [same,active] at isFree
      cases isFree
    rw [Function.update_of_ne different]
    exact placed.empty idx isFree
  · have content := placed.content
    rw [activeBytes_of_active active] at content
    rw [activeBytes_of_active active,Function.update_self,inFlight,
      flatMap_update_of_notMem _ outside,← content]
    simp only [List.append_assoc]

theorem popSealed {rest : List (Fin n)}
    (placed : WellPlaced stateAt bytesAt activeIdx (idx :: rest) .draining handed appended) :
    WellPlaced (Function.update stateAt idx .flushing) bytesAt activeIdx rest (.writing idx)
      handed appended := by
  have isSealed : stateAt idx = .sealed := (placed.queued idx).mp List.mem_cons_self
  have distinct := List.nodup_cons.mp placed.distinct
  refine ⟨?_,distinct.2,?_,?_,?_,?_⟩
  · intro other
    by_cases same : other = idx
    · subst same
      rw [Function.update_self]
      exact iff_of_false distinct.1 nofun
    · rw [Function.update_of_ne same,← placed.queued other,List.mem_cons]
      exact (or_iff_right same).symm
  · intro other
    by_cases same : other = idx
    · subst same
      rw [Function.update_self]
      exact iff_of_true rfl rfl
    · rw [Function.update_of_ne same,← placed.held other]
      exact iff_of_false (fun equal => same (Option.some.inj equal).symm) nofun
  · intro other isActive
    by_cases same : other = idx
    · subst same
      rw [Function.update_self] at isActive
      cases isActive
    · rw [Function.update_of_ne same] at isActive
      exact placed.unique other isActive
  · intro other isFree
    by_cases same : other = idx
    · subst same
      rw [Function.update_self] at isFree
      cases isFree
    · rw [Function.update_of_ne same] at isFree
      exact placed.empty other isFree
  · have content := placed.content
    have inactive : stateAt idx ≠ .active := by
      rw [isSealed]
      exact nofun
    have activeSame : activeBytes (Function.update stateAt idx .flushing) bytesAt activeIdx =
        activeBytes stateAt bytesAt activeIdx := by
      have updated := @activeBytes_update n stateAt bytesAt activeIdx idx .flushing (bytesAt idx)
        inactive nofun
      rwa [Function.update_eq_self] at updated
    rw [List.flatMap_cons] at content
    rw [activeSame,← content]
    simp only [WriterPc.inFlight,List.nil_append,List.append_assoc]

theorem write (placed : WellPlaced stateAt bytesAt activeIdx queue (.writing idx) handed appended) :
    WellPlaced stateAt bytesAt activeIdx queue (.returning idx) (handed ++ bytesAt idx)
      appended := by
  refine ⟨placed.queued,placed.distinct,placed.held,placed.unique,placed.empty,?_⟩
  rw [← placed.content]
  simp only [WriterPc.inFlight,List.nil_append,List.append_assoc]

theorem returnToFree
    (placed : WellPlaced stateAt bytesAt activeIdx queue (.returning idx) handed appended) :
    WellPlaced (Function.update stateAt idx .free) (Function.update bytesAt idx []) activeIdx
      queue .draining handed appended := by
  have flushing : stateAt idx = .flushing := (placed.held idx).mp rfl
  have outside : idx ∉ queue := by
    rw [placed.queued,flushing]
    exact nofun
  refine ⟨?_,placed.distinct,?_,?_,?_,?_⟩
  · intro other
    by_cases same : other = idx
    · subst same
      rw [Function.update_self]
      exact iff_of_false outside nofun
    · rw [Function.update_of_ne same]
      exact placed.queued other
  · intro other
    by_cases same : other = idx
    · subst same
      rw [Function.update_self]
      exact iff_of_false nofun nofun
    · rw [Function.update_of_ne same,← placed.held other]
      exact iff_of_false nofun fun equal => same (Option.some.inj equal).symm
  · intro other isActive
    by_cases same : other = idx
    · subst same
      rw [Function.update_self] at isActive
      cases isActive
    · rw [Function.update_of_ne same] at isActive
      exact placed.unique other isActive
  · intro other isFree
    by_cases same : other = idx
    · rw [same,Function.update_self]
    · rw [Function.update_of_ne same] at isFree ⊢
      exact placed.empty other isFree
  · have inactive : stateAt idx ≠ .active := by
      rw [flushing]
      exact nofun
    have stillInactive : BufState.free ≠ .active := nofun
    rw [activeBytes_update [] inactive stillInactive,flatMap_update_of_notMem _ outside,
      ← placed.content]
    rfl

theorem changeWriter
    (placed : WellPlaced stateAt bytesAt activeIdx queue writer handed appended)
    {other : WriterPc n} (before : writer.held = none) (after : other.held = none) :
    WellPlaced stateAt bytesAt activeIdx queue other handed appended := by
  have noneInFlight : ∀ {pc : WriterPc n}, pc.held = none → pc.inFlight bytesAt = [] := by
    intro pc notHeld
    cases pc with
    | writing idx => cases notHeld
    | _ => rfl
  refine ⟨placed.queued,placed.distinct,?_,placed.unique,placed.empty,?_⟩
  · intro idx
    rw [← placed.held idx,before,after]
  · rw [← placed.content,noneInFlight before,noneInFlight after]

end WellPlaced

namespace RingSystem

variable {n : Nat}
variable {idx : Fin n}

def stateAt (system : RingSystem n) (idx : Fin n) : BufState :=
  (system.buffers idx).state

def bytesAt (system : RingSystem n) (idx : Fin n) : List UInt8 :=
  (system.buffers idx).bytes

/-- An index the apply thread has loaded is still that of the active buffer, and
while it waits there is no active buffer. -/
structure RingInvariant (system : RingSystem n) : Prop where
  placed : WellPlaced system.stateAt system.bytesAt system.activeIdx system.sealedQueue
    system.writer system.handed system.appended.flatten
  loaded : ∀ idx, system.apply.loadedIdx = some idx →
    idx = system.activeIdx ∧ system.stateAt idx = .active
  waiting : system.apply.isWaiting → system.stateAt system.activeIdx ≠ .active

theorem stateAt_updateBuffer (system : RingSystem n) (idx : Fin n)
    (change : WalBuffer → WalBuffer) :
    (system.updateBuffer idx change).stateAt =
      Function.update system.stateAt idx (change (system.buffers idx)).state := by
  funext other
  by_cases same : other = idx
  · subst same
    simp only [stateAt,updateBuffer,Function.update_self]
  · simp only [stateAt,updateBuffer,Function.update_of_ne same]

theorem bytesAt_updateBuffer (system : RingSystem n) (idx : Fin n)
    (change : WalBuffer → WalBuffer) :
    (system.updateBuffer idx change).bytesAt =
      Function.update system.bytesAt idx (change (system.buffers idx)).bytes := by
  funext other
  by_cases same : other = idx
  · subst same
    simp only [bytesAt,updateBuffer,Function.update_self]
  · simp only [bytesAt,updateBuffer,Function.update_of_ne same]

theorem bytesAt_updateBuffer_of_same (system : RingSystem n) {change : WalBuffer → WalBuffer}
    (keeps : (change (system.buffers idx)).bytes = system.bytesAt idx) :
    (system.updateBuffer idx change).bytesAt = system.bytesAt := by
  rw [bytesAt_updateBuffer,keeps,Function.update_eq_self]

variable {system : RingSystem n}

theorem findFreeBuffer_free (found : system.findFreeBuffer = some idx) :
    system.stateAt idx = .free := by
  have holds := List.find?_some found
  exact of_decide_eq_true holds

theorem placed_sealAndEnqueue (holds : RingInvariant system)
    (active : system.stateAt system.activeIdx = .active) :
    WellPlaced (system.sealAndEnqueue system.activeIdx).stateAt system.bytesAt system.activeIdx
        (system.sealedQueue ++ [system.activeIdx]) system.writer system.handed
        system.appended.flatten ∧
      (system.sealAndEnqueue system.activeIdx).bytesAt = system.bytesAt ∧
      (system.sealAndEnqueue system.activeIdx).stateAt system.activeIdx ≠ .active := by
  have states : (system.sealAndEnqueue system.activeIdx).stateAt =
      Function.update system.stateAt system.activeIdx .sealed :=
    system.stateAt_updateBuffer _ _
  rw [states,Function.update_self]
  exact ⟨holds.placed.sealActiveBuffer active,system.bytesAt_updateBuffer_of_same rfl,nofun⟩

theorem placed_activateBuffer
    (placed : WellPlaced system.stateAt system.bytesAt system.activeIdx system.sealedQueue
      system.writer system.handed system.appended.flatten)
    (inactive : system.stateAt system.activeIdx ≠ .active) {newIdx : Fin n}
    (free : system.stateAt newIdx = .free) (lsn : Nat) :
    WellPlaced (system.activateBuffer newIdx lsn).stateAt
      (system.activateBuffer newIdx lsn).bytesAt newIdx system.sealedQueue system.writer
      system.handed system.appended.flatten := by
  have states : (system.activateBuffer newIdx lsn).stateAt =
      Function.update system.stateAt newIdx .active :=
    system.stateAt_updateBuffer _ _
  have bytes : (system.activateBuffer newIdx lsn).bytesAt = system.bytesAt :=
    system.bytesAt_updateBuffer_of_same (placed.empty newIdx free).symm
  rw [states,bytes]
  exact placed.activateBuffer inactive free

theorem applyStep_record {record : List UInt8} (carries : system.apply.record = some record) :
    (system.applyStep.apply.record = some record ∧ system.applyStep.appended = system.appended) ∨
      (system.applyStep.apply = .idle ∧ system.applyStep.appended = system.appended ++ [record]) := by
  unfold applyStep
  split
  · rename_i atPc
    rw [atPc] at carries
    cases carries
  · rename_i own atPc
    rw [atPc] at carries
    dsimp only
    split
    · exact .inl ⟨carries,rfl⟩
    · exact .inl ⟨carries,rfl⟩
  · rename_i own idx atPc
    rw [atPc] at carries
    split
    · rw [Option.some.inj carries]
      exact .inr ⟨rfl,rfl⟩
    · exact .inl ⟨carries,rfl⟩
  · rename_i own idx atPc
    rw [atPc] at carries
    exact .inl ⟨carries,rfl⟩
  · rename_i own lsn atPc
    split
    · exact .inl ⟨carries,rfl⟩
    · rw [atPc] at carries
      exact .inl ⟨carries,rfl⟩

theorem writerStep_apply (system : RingSystem n) :
    system.writerStep.apply = system.apply ∧ system.writerStep.appended = system.appended := by
  unfold writerStep
  split
  · unfold sealActive
    split
    · exact ⟨rfl,rfl⟩
    · split <;> exact ⟨rfl,rfl⟩
  · split <;> exact ⟨rfl,rfl⟩
  · exact ⟨rfl,rfl⟩
  · exact ⟨rfl,rfl⟩

/-! ### What the steps keep -/

/-- The condition on a tick: the buffer it is about to seal is empty, or it is
active and the apply thread has not loaded its index. -/
def TickMeetsAppend (system : RingSystem n) (action : Action) : Prop :=
  action = .writerThread → system.writer = .sleeping →
    (system.buffers system.activeIdx).pos = 0 ∨
      (system.stateAt system.activeIdx = .active ∧ system.apply.loadedIdx = none)

instance (system : RingSystem n) (action : Action) :
    Decidable (system.TickMeetsAppend action) :=
  inferInstanceAs (Decidable (_ → _ → _ ∨ _ ∧ _))

theorem invariant_applyStep (holds : RingInvariant system) : RingInvariant system.applyStep := by
  unfold applyStep
  split
  · exact holds
  · rename_i record atRetry
    dsimp only
    split
    · rename_i active
      refine ⟨holds.placed,?_,nofun⟩
      intro idx isLoaded
      cases isLoaded
      exact ⟨rfl,active⟩
    · rename_i inactive
      exact ⟨holds.placed,nofun,fun _ => inactive⟩
  · rename_i record idx atTryAppend
    obtain ⟨idxEq,active⟩ := holds.loaded idx (by rw [atTryAppend]; rfl)
    subst idxEq
    split
    · rename_i buffer grown
      have bufferEq : buffer = { system.buffers system.activeIdx with
          bytes := system.bytesAt system.activeIdx ++ record } := by
        unfold WalBuffer.tryAppend at grown
        split at grown
        · cases grown
        · exact (Option.some.inj grown).symm
      have states : (system.finishAppend system.activeIdx buffer record).stateAt =
          system.stateAt := by
        have updated := system.stateAt_updateBuffer system.activeIdx (fun _ => buffer)
        rw [bufferEq] at updated ⊢
        exact updated.trans (Function.update_eq_self _ _)
      have bytes : (system.finishAppend system.activeIdx buffer record).bytesAt =
          Function.update system.bytesAt system.activeIdx
            (system.bytesAt system.activeIdx ++ record) := by
        have updated := system.bytesAt_updateBuffer system.activeIdx (fun _ => buffer)
        rw [bufferEq] at updated ⊢
        exact updated
      have flattened : (system.finishAppend system.activeIdx buffer record).appended.flatten =
          system.appended.flatten ++ record := by
        change (system.appended ++ [record]).flatten = _
        rw [List.flatten_append,List.flatten_singleton]
      refine ⟨?_,nofun,nofun⟩
      rw [states,bytes,flattened]
      exact holds.placed.append active record
    · refine ⟨holds.placed,?_,nofun⟩
      intro idx isLoaded
      cases isLoaded
      exact ⟨rfl,active⟩
  · rename_i record idx atSeal
    obtain ⟨idxEq,active⟩ := holds.loaded idx (by rw [atSeal]; rfl)
    subst idxEq
    obtain ⟨placed,bytes,inactive⟩ := placed_sealAndEnqueue holds active
    rw [← bytes] at placed
    exact ⟨placed,nofun,fun _ => inactive⟩
  · rename_i record lsn atWait
    have inactive := holds.waiting (by rw [atWait]; trivial)
    split
    · exact holds
    · rename_i newIdx found
      exact ⟨placed_activateBuffer holds.placed inactive (findFreeBuffer_free found) lsn,
        nofun,nofun⟩

variable {state : BufState}

theorem update_eq_active_iff {stateAt : Fin n → BufState} {other : Fin n}
    (before : stateAt idx ≠ .active) (after : state ≠ .active) :
    Function.update stateAt idx state other = .active ↔ stateAt other = .active := by
  by_cases same : other = idx
  · subst same
    rw [Function.update_self]
    exact iff_of_false after before
  · rw [Function.update_of_ne same]

theorem invariant_of_update {after : RingSystem n} (holds : RingInvariant system)
    (states : after.stateAt = Function.update system.stateAt idx state)
    (before : system.stateAt idx ≠ .active) (inactive : state ≠ .active)
    (sameActive : after.activeIdx = system.activeIdx) (sameApply : after.apply = system.apply)
    (placed : WellPlaced after.stateAt after.bytesAt after.activeIdx after.sealedQueue
      after.writer after.handed after.appended.flatten) :
    RingInvariant after := by
  refine ⟨placed,?_,?_⟩
  · intro loadedIdx isLoaded
    rw [sameApply] at isLoaded
    rw [sameActive,states,update_eq_active_iff before inactive]
    exact holds.loaded loadedIdx isLoaded
  · intro isWaiting
    rw [sameApply] at isWaiting
    rw [sameActive,states,ne_eq,update_eq_active_iff before inactive]
    exact holds.waiting isWaiting

/-- The tick: under the condition it seals a buffer the apply thread has not
decided to seal. -/
theorem invariant_sealActive (holds : RingInvariant system) (sleeping : system.writer = .sleeping)
    (meets : TickMeetsAppend system .writerThread) :
    RingInvariant { system.sealActive with writer := .draining } := by
  have noneHeld : system.writer.held = none := by
    rw [sleeping]
    rfl
  unfold sealActive
  split
  · exact ⟨holds.placed.changeWriter noneHeld rfl,holds.loaded,holds.waiting⟩
  · rename_i nonempty
    obtain ⟨active,notLoaded⟩ := (meets rfl sleeping).resolve_left nonempty
    have notWaiting : ¬ system.apply.isWaiting := fun isWaiting => holds.waiting isWaiting active
    have noneLoaded : ∀ {idx : Fin n} {claim : Prop},
        system.apply.loadedIdx = some idx → claim := by
      intro idx claim isLoaded
      rw [notLoaded] at isLoaded
      cases isLoaded
    obtain ⟨placed,bytes,inactive⟩ := placed_sealAndEnqueue holds active
    rw [← bytes] at placed
    split
    · rename_i newIdx found
      have free : (system.sealAndEnqueue system.activeIdx).stateAt newIdx = .free := by
        have wasFree := findFreeBuffer_free found
        have different : newIdx ≠ system.activeIdx := by
          intro same
          rw [same,active] at wasFree
          cases wasFree
        have states : (system.sealAndEnqueue system.activeIdx).stateAt =
            Function.update system.stateAt system.activeIdx .sealed :=
          system.stateAt_updateBuffer _ _
        rw [states,Function.update_of_ne different]
        exact wasFree
      have activated := placed_activateBuffer placed inactive free system.committed
      exact ⟨activated.changeWriter noneHeld rfl,fun _ isLoaded => noneLoaded isLoaded,
        fun isWaiting => absurd isWaiting notWaiting⟩
    · exact ⟨placed.changeWriter noneHeld rfl,fun _ isLoaded => noneLoaded isLoaded,
        fun isWaiting => absurd isWaiting notWaiting⟩

theorem invariant_writerStep (holds : RingInvariant system)
    (meets : TickMeetsAppend system .writerThread) : RingInvariant system.writerStep := by
  have placed := holds.placed
  unfold writerStep
  split
  · rename_i sleeping
    exact invariant_sealActive holds sleeping meets
  · rename_i draining
    rw [draining] at placed
    split
    · exact ⟨placed.changeWriter rfl rfl,holds.loaded,holds.waiting⟩
    · rename_i idx rest queue
      have isSealed : system.stateAt idx = .sealed := by
        rw [← placed.queued,queue]
        exact List.mem_cons_self
      have inactive : system.stateAt idx ≠ .active := by
        rw [isSealed]
        exact nofun
      have states : (system.popSealed idx rest).stateAt =
          Function.update system.stateAt idx .flushing :=
        system.stateAt_updateBuffer _ _
      have bytes : (system.popSealed idx rest).bytesAt = system.bytesAt :=
        system.bytesAt_updateBuffer_of_same rfl
      refine invariant_of_update holds states inactive nofun rfl rfl ?_
      rw [queue] at placed
      rw [states,bytes]
      exact placed.popSealed
  · rename_i idx writing
    rw [writing] at placed
    exact ⟨placed.write,holds.loaded,holds.waiting⟩
  · rename_i idx returning
    rw [returning] at placed
    have flushing : system.stateAt idx = .flushing := (placed.held idx).mp rfl
    have inactive : system.stateAt idx ≠ .active := by
      rw [flushing]
      exact nofun
    have states : (system.returnToFree idx).stateAt =
        Function.update system.stateAt idx .free :=
      system.stateAt_updateBuffer _ _
    have bytes : (system.returnToFree idx).bytesAt = Function.update system.bytesAt idx [] :=
      system.bytesAt_updateBuffer _ _
    refine invariant_of_update holds states inactive nofun rfl rfl ?_
    rw [states,bytes]
    exact placed.returnToFree

theorem invariant_next (system : RingSystem n) (action : Action) (holds : RingInvariant system)
    (meets : TickMeetsAppend system action) : RingInvariant (system.next action) := by
  cases action with
  | append record =>
      simp only [next]
      split
      · exact ⟨holds.placed,nofun,nofun⟩
      · exact holds
  | applyThread => exact invariant_applyStep holds
  | writerThread => exact invariant_writerStep holds meets

theorem stateAt_new (count capacity start : Nat) :
    (RingSystem.new count capacity start).stateAt =
      Function.update (fun _ => .free) 0 .active := by
  funext idx
  by_cases same : idx = 0
  · subst same
    rfl
  · simp only [stateAt,new,Function.update_of_ne same]
    rfl

theorem invariant_new (count capacity start : Nat) :
    RingInvariant (RingSystem.new count capacity start) := by
  have states := stateAt_new count capacity start
  have bytes : (RingSystem.new count capacity start).bytesAt = fun _ => [] := by
    funext idx
    by_cases same : idx = 0
    · subst same
      rfl
    · simp only [bytesAt,new,Function.update_of_ne same]
      rfl
  refine ⟨?_,nofun,nofun⟩
  rw [states,bytes]
  have onlyTwo : ∀ idx : Fin (count + 2),
      Function.update (fun _ => BufState.free) 0 .active idx = .free ∨
        Function.update (fun _ => BufState.free) 0 .active idx = .active := by
    intro idx
    by_cases same : idx = 0
    · rw [same,Function.update_self]
      exact Or.inr rfl
    · rw [Function.update_of_ne same]
      exact Or.inl rfl
  refine ⟨?_,List.nodup_nil,?_,?_,fun _ _ => rfl,?_⟩
  · intro idx
    rcases onlyTwo idx with free | active
    · rw [free]
      exact iff_of_false nofun nofun
    · rw [active]
      exact iff_of_false nofun nofun
  · intro idx
    rcases onlyTwo idx with free | active
    · rw [free]
      exact iff_of_false nofun nofun
    · rw [active]
      exact iff_of_false nofun nofun
  · intro idx isActive
    by_contra other
    have nonzero : idx ≠ 0 := other
    rw [Function.update_of_ne nonzero] at isActive
    cases isActive
  · simp only [activeBytes,ite_self]
    rfl

/-- The bytes that are not in the file yet, from the buffer that is being written back to
the active one. -/
def waitingBytes (system : RingSystem n) : List UInt8 :=
  system.writer.inFlight system.bytesAt ++ (system.sealedQueue.flatMap system.bytesAt ++
    activeBytes system.stateAt system.bytesAt system.activeIdx)

/-- The file and the bytes on their way to it are the appended records, each of them once
and in order, and a ring without bytes has all of them in the file. -/
structure LosesNothing (system : RingSystem n) : Prop where
  inOrder : system.HandsInOrder
  conserved : system.handed ++ system.waitingBytes = system.appended.flatten
  drained : (∀ idx, system.bytesAt idx = []) → system.handed = system.appended.flatten

theorem waitingBytes_of_empty (empty : ∀ idx, system.bytesAt idx = []) :
    system.waitingBytes = [] := by
  have inFlight : system.writer.inFlight system.bytesAt = [] := by
    cases system.writer with
    | writing idx => exact empty idx
    | sleeping | draining | returning => rfl
  have queued : system.sealedQueue.flatMap system.bytesAt = [] :=
    List.flatMap_eq_nil_iff.mpr fun idx _ => empty idx
  have active : activeBytes system.stateAt system.bytesAt system.activeIdx = [] := by
    rw [activeBytes,empty,ite_self]
  rw [waitingBytes,inFlight,queued,active]
  rfl

theorem losesNothing_of_invariant (holds : RingInvariant system) : system.LosesNothing := by
  have conserved : system.handed ++ system.waitingBytes = system.appended.flatten :=
    holds.placed.content
  refine ⟨?_,conserved,?_⟩
  · rw [HandsInOrder,← conserved]
    exact List.prefix_append _ _
  · intro empty
    rw [waitingBytes_of_empty empty,List.append_nil] at conserved
    exact conserved

/-- In every run whose ticks meet the condition the file is, at every moment, a prefix of
what was appended, and the rest is in the ring. -/
theorem ring_handsInOrder (count capacity start : Nat) (actions : List Action)
    (meets : Machine.Meets next TickMeetsAppend (RingSystem.new count capacity start) actions)
    (moment : Nat) :
    (Machine.run next (RingSystem.new count capacity start)
      (actions.take moment)).LosesNothing := by
  apply losesNothing_of_invariant
  exact Machine.invariant_reached next invariant_next (invariant_new count capacity start) meets
    moment

def quietRun : List Action :=
  [.append [1],.applyThread,.applyThread,.writerThread,.writerThread,.writerThread]

theorem ring_handsInOrder_quietRun :
    Machine.Meets next TickMeetsAppend (RingSystem.new 0 1 0) quietRun ∧
      (Machine.run next (RingSystem.new 0 1 0) (quietRun.take 6)).handed = [1] ∧
      (Machine.run next (RingSystem.new 0 1 0) (quietRun.take 6)).LosesNothing := by
  have meets : Machine.Meets next TickMeetsAppend (RingSystem.new 0 1 0) quietRun := by
    decide
  exact ⟨meets,by decide,ring_handsInOrder 0 1 0 quietRun meets 6⟩

/-- Two one-byte buffers.  The apply thread fills both and parks; the tick queues
the second one again.  The second copy is popped while the buffer holds the
fourth record and the third is still queued behind it. -/
def parkedRun : List Action :=
  [.append [1],.applyThread,.applyThread,
    .append [2],.applyThread,.applyThread,.applyThread,.applyThread,.applyThread,
    .applyThread,
    .append [3],.applyThread,.applyThread,.applyThread,
    .writerThread,
    .writerThread,.writerThread,.writerThread,
    .applyThread,.applyThread,.applyThread,
    .writerThread,.writerThread,.writerThread,
    .append [4],.applyThread,.applyThread,.applyThread,.applyThread,.applyThread,
    .applyThread,
    .writerThread,.writerThread]

theorem parkedRun_not_handsInOrder :
    (Machine.run next (RingSystem.new 0 1 0) parkedRun).appended = [[1],[2],[3],[4]] ∧
      (Machine.run next (RingSystem.new 0 1 0) parkedRun).handed = [1,2,4] ∧
      ¬ (Machine.run next (RingSystem.new 0 1 0) parkedRun).HandsInOrder := by
  decide +kernel

end RingSystem

end Beava.Wal
