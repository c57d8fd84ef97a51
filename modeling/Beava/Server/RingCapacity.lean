/-
The longest push and the smallest log buffer.

The parsers bound a body by 4 MiB, or not at all when it comes in chunks, and the
smallest buffer that the configuration allows has 4 MiB.  A record has a header
and the event name besides the body, and nothing compares the two bounds.
-/

import Beava.Core.Wire
import Beava.Server.Envelope
import Beava.Wal.RingProgress

namespace Beava.Server

open Beava.Core Beava.Wal JsonText

variable {count : Nat}

/-! ### The configuration of the log -/

/-- `WalConfigOverrides`. -/
structure WalConfigOverrides where
  buffers : Option Nat
  bufferSizeMb : Option Nat
  tickMs : Option Nat

structure WalConfig where
  buffers : Nat
  bufferSizeMb : Nat
  tickMs : Nat

/-- `clamp_usize_with_warn` and `clamp_u64_with_warn`, without the warning. -/
def clampWithWarn (override : Option Nat) (default lo hi : Nat) : Nat :=
  match override with
  | some value => max lo (min value hi)
  | none => default

namespace WalConfig

def defaultBuffers : Nat := 4

def defaultBufferSizeMb : Nat := 32

def defaultTickMs : Nat := 20

def buffersMin : Nat := 2

def buffersMax : Nat := 32

def bufferSizeMbMin : Nat := 4

def bufferSizeMbMax : Nat := 256

def tickMsMin : Nat := 1

def tickMsMax : Nat := 1000

def resolve (overrides : WalConfigOverrides) : WalConfig :=
  { buffers := clampWithWarn overrides.buffers defaultBuffers buffersMin buffersMax
    bufferSizeMb := clampWithWarn overrides.bufferSizeMb defaultBufferSizeMb bufferSizeMbMin
      bufferSizeMbMax
    tickMs := clampWithWarn overrides.tickMs defaultTickMs tickMsMin tickMsMax }

/-- `buf_bytes`. -/
def bufBytes (config : WalConfig) : Nat := config.bufferSizeMb * 1024 * 1024

/-- The ring that the server starts; a configuration has two buffers at least. -/
def ring (config : WalConfig) (start : Nat) : RingSystem (config.buffers - 2 + 2) :=
  RingSystem.new (config.buffers - 2) config.bufBytes start

end WalConfig

section Appends

variable (config : WalConfig) (start : Nat) (actions : List RingSystem.Action)

def ringAfter : RingSystem (config.buffers - 2 + 2) :=
  Machine.run RingSystem.next (config.ring start) actions

theorem ringAfter_supplied : RingSystem.Supplied (ringAfter config start actions) := by
  induction actions using List.reverseRecOn with
  | nil => exact RingSystem.supplied_new _ _ _
  | append_singleton before action ih =>
      rw [ringAfter,Machine.run_append]
      exact ih.next action

theorem next_capacity {n : Nat} (system : RingSystem n) (action : RingSystem.Action) :
    (system.next action).capacity = system.capacity := by
  cases action with
  | append record =>
      simp only [RingSystem.next]
      split
      · rfl
      · rfl
  | writerThread => exact system.writerStep_capacity
  | applyThread => exact system.applyStep_capacity

theorem ringAfter_capacity : (ringAfter config start actions).capacity = config.bufBytes := by
  induction actions using List.reverseRecOn with
  | nil => rfl
  | append_singleton before action ih =>
      rw [ringAfter,Machine.run_append]
      exact (next_capacity _ action).trans ih

end Appends

def PushIsLogged (config : WalConfig) (ring : RingSystem (config.buffers - 2 + 2))
    (record : List UInt8) (schedule : Nat → Turn) : Prop :=
  record.length ≤ config.bufBytes ∧ ring.AppendReturns record schedule

/-- Whatever the parsers return, in whatever state the ring is and however the threads are
scheduled: the append of a push returns exactly when its name and its body leave room for
the header. -/
theorem pushIsLogged_iff (overrides : WalConfigOverrides) (start : Nat)
    (actions : List RingSystem.Action) (expectedAckLsn registryVersion nowMs : Nat)
    (eventName : String) (body : List UInt8) (bodyFormat : UInt8) {schedule : Nat → Turn}
    (fair : Machine.Fair schedule) :
    PushIsLogged (.resolve overrides) (ringAfter (.resolve overrides) start actions)
        (encodePushPayload expectedAckLsn bodyFormat registryVersion nowMs eventName body)
        schedule ↔
      28 + (strAsBytes eventName).length + body.length ≤
        (WalConfig.resolve overrides).bufBytes := by
  have length := length_encodePushPayload expectedAckLsn bodyFormat registryVersion nowMs
    eventName body
  constructor
  · rintro ⟨fits,-⟩
    rw [← length]
    exact fits
  · intro fits
    rw [← length] at fits
    refine ⟨fits,?_⟩
    apply RingSystem.appendReturns (ringAfter_supplied _ _ _) _ fair
    rw [ringAfter_capacity]
    exact fits

def alternating (moment : Nat) : Turn :=
  if moment % 2 = 0 then .applyThread else .writerThread

theorem alternating_fair : Machine.Fair alternating := by
  intro turn moment
  cases turn with
  | applyThread => exact ⟨2 * moment,by omega,if_pos (Nat.mul_mod_right 2 moment)⟩
  | writerThread =>
      refine ⟨2 * moment + 1,by omega,if_neg ?_⟩
      omega

theorem pushIsLogged_small :
    PushIsLogged (.resolve ⟨none,none,none⟩) (ringAfter (.resolve ⟨none,none,none⟩) 0 [])
      (encodePushPayload 0 ctJson 0 0 "E" [0x7B,0x7D]) alternating := by
  apply (pushIsLogged_iff ⟨none,none,none⟩ 0 [] 0 0 0 "E" [0x7B,0x7D] ctJson
    alternating_fair).mpr
  decide

/-! ### The largest frame -/

theorem ordinary_name : Ordinary (strAsBytes "E") := by
  have bytes : strAsBytes "E" = [0x45] := by decide
  rw [bytes]
  intro byte member
  rw [List.mem_singleton.mp member]
  decide

def blanks (count : Nat) : Gap :=
  ⟨List.replicate count 0x20,fun byte member => by rw [List.eq_of_mem_replicate member]; decide⟩

def blankPush (count : Nat) : Frame :=
  ⟨16,ctJson,(envelope ⟨.empty,.empty,.empty,.empty,.empty,.empty,.empty,.empty⟩
    (piecesOf bodyKey ordinary_bodyKey) ordinary_name (.emptyObject (blanks count))).text⟩

theorem blankPush_length (count : Nat) : (blankPush count).payload.length = count + 23 := by
  have nameBytes : (strAsBytes "E").length = 1 := by decide
  have eventBytes : eventKey.length = 5 := rfl
  have bodyBytes : bodyKey.length = 4 := rfl
  simp only [blankPush,envelope,Doc.text,Members.text,memberText,enclosed,stringText,
    content_piecesOf,blanks,Gap.empty,List.length_cons,List.length_append,
    List.length_replicate,List.length_nil,nameBytes,eventBytes,bodyBytes]
  omega

/-- The body of the push. -/
def blankBody (count : Nat) : List UInt8 := (Doc.emptyObject (blanks count)).text

theorem blankBody_length (count : Nat) : (blankBody count).length = count + 2 := by
  simp only [blankBody,Doc.text,enclosed,blanks,List.length_cons,List.length_append,
    List.length_replicate,List.length_nil]

theorem tcpPushRequest_blankPush (libraries : JsonLibraries) (debugChar : Char → String)
    (count : Nat) :
    tcpPushRequest libraries debugChar (blankPush count).payload =
      .tcpPush "E" (blankBody count) ctJson := by
  have isObject : (Doc.emptyObject (blanks count)).isObject = true := rfl
  unfold tcpPushRequest blankPush
  rw [parseJsonEnvelope_envelope libraries _ ordinary_name isObject]
  rfl

theorem blankPush_fits (short : count + 23 ≤ 4194304) : (blankPush count).Fits 4194304 := by
  have payload := blankPush_length count
  have limit : (4194304 : UInt32).toNat = 4194304 := by decide
  unfold Frame.Fits headerAfterLenBytes u32Max
  omega

theorem blankPush_stalls {config : WalConfig} (long : config.bufBytes < count + 31) (start : Nat)
    (actions : List RingSystem.Action) (schedule : Nat → Turn) :
    ¬ (ringAfter config start actions).AppendReturns
        (encodePushPayload 0 ctJson 0 0 "E" (blankBody count)) schedule := by
  apply RingSystem.not_appendReturns
  have nameBytes : (strAsBytes "E").length = 1 := by decide
  have record := length_encodePushPayload 0 ctJson 0 0 "E" (blankBody count)
  have bodyBytes := blankBody_length count
  rw [ringAfter_capacity]
  omega

/-- A frame of exactly 4 MiB is read as a push whose record is longer than a buffer of
4 MiB, and its append never returns, whatever the threads do. -/
theorem largestFrame_stalls :
    (WalConfig.resolve ⟨none,some 4,none⟩).bufBytes = 4194304 ∧
      decodeFrame (blankPush 4194281).bytes 4194304 = (.ok (some (blankPush 4194281)),[]) ∧
      (∀ (libraries : JsonLibraries) (debugChar : Char → String),
        tcpPushRequest libraries debugChar (blankPush 4194281).payload =
          .tcpPush "E" (blankBody 4194281) ctJson) ∧
      ∀ (start : Nat) (actions : List RingSystem.Action) (schedule : Nat → Turn),
        ¬ PushIsLogged (.resolve ⟨none,some 4,none⟩)
            (ringAfter (.resolve ⟨none,some 4,none⟩) start actions)
            (encodePushPayload 0 ctJson 0 0 "E" (blankBody 4194281)) schedule ∧
          ¬ (ringAfter (.resolve ⟨none,some 4,none⟩) start actions).AppendReturns
            (encodePushPayload 0 ctJson 0 0 "E" (blankBody 4194281)) schedule := by
  have capacity : (WalConfig.resolve ⟨none,some 4,none⟩).bufBytes = 4194304 := by decide
  have short : 4194281 + 23 ≤ 4194304 := by decide
  have whole := (blankPush_fits short).whole []
  rw [List.append_nil] at whole
  refine ⟨capacity,whole,?_,?_⟩
  · intro libraries debugChar
    exact tcpPushRequest_blankPush libraries debugChar 4194281
  · intro start actions schedule
    have long : (WalConfig.resolve ⟨none,some 4,none⟩).bufBytes < 4194281 + 31 := by
      rw [capacity]
      decide
    have stalls := blankPush_stalls long start actions schedule
    exact ⟨fun logged => stalls logged.2,stalls⟩

end Beava.Server
