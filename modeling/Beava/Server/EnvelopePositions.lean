/-
The scanner of JSON envelopes, position by position.

The scanner keeps a position in the payload and counts open brackets in an `i32`.
Reads are made inside the payload, slices are checked, and the count may overflow;
the dev profile checks that and the release profile wraps around.
-/

import Beava.Lib.Checked
import Beava.Server.Transports

namespace Beava.Server

open Beava.Core Beava.Wal JsonText Checked

/-- Why there is no envelope: the scanner panics, or it says what is wrong. -/
inductive EnvelopeFailure where
  | fault (fault : Fault)
  | depthOverflow
  | error (error : JsonEnvelopeError)

section Scanning

variable (payload : List UInt8)

def skipWhileAt (inClass : UInt8 → Bool) (p : Nat) : Nat :=
  if inside : p < payload.length then
    if inClass payload[p] then skipWhileAt inClass (p + 1) else p
  else p
termination_by payload.length - p

/-- `skip_ws`. -/
def skipWsAt (p : Nat) : Nat := skipWhileAt payload isSpace p

/-- `scan_string_end`: the position of the closing quote. -/
def scanStringEndAt (p : Nat) : Except EnvelopeFailure Nat :=
  if inside : p < payload.length then
    if payload[p] = quote then .ok p
    else if payload[p] = backslash then
      if payload.length ≤ p + 1 then .error (.error (.decode "trailing backslash in string"))
      else scanStringEndAt (p + 2)
    else scanStringEndAt (p + 1)
  else .error (.error (.decode "unterminated string"))
termination_by payload.length - p

/-- A sum of two `i32`. -/
def addI32 (overflowChecks : Bool) (left right : Int) : Except EnvelopeFailure Int :=
  if -2 ^ 31 ≤ left + right ∧ left + right < 2 ^ 31 then .ok (left + right)
  else if overflowChecks then .error .depthOverflow
  else .ok ((left + right + 2 ^ 31) % 2 ^ 32 - 2 ^ 31)

/-- `scan_balanced`: the position behind the closing bracket. -/
def scanBalancedAt (overflowChecks : Bool) (opening closing : UInt8) (p : Nat) (depth : Int)
    (inStr : Bool) : Except EnvelopeFailure Nat :=
  if inside : p < payload.length then
    let b := payload[p]
    if inStr then
      if b = quote then scanBalancedAt overflowChecks opening closing (p + 1) depth false
      else if b = backslash then
        if payload.length ≤ p + 1 then .error (.error (.decode "trailing backslash in container"))
        else scanBalancedAt overflowChecks opening closing (p + 2) depth true
      else scanBalancedAt overflowChecks opening closing (p + 1) depth true
    else if b = quote then scanBalancedAt overflowChecks opening closing (p + 1) depth true
    else if b = opening then do
      let depth ← addI32 overflowChecks depth 1
      scanBalancedAt overflowChecks opening closing (p + 1) depth false
    else if b = closing then do
      let depth ← addI32 overflowChecks depth (-1)
      if depth = 0 then return p + 1
      else scanBalancedAt overflowChecks opening closing (p + 1) depth false
    else scanBalancedAt overflowChecks opening closing (p + 1) depth false
  else .error (.error (.decode "unterminated container"))
termination_by payload.length - p

/-- `scan_value_end`: the position behind the value. -/
def scanValueEndAt (overflowChecks : Bool) (start : Nat) : Except EnvelopeFailure Nat :=
  match payload[start]? with
  | none => .error (.error (.decode "value start past end"))
  | some byte =>
      if byte = Bracket.brace.opening then
        scanBalancedAt payload overflowChecks Bracket.brace.opening Bracket.brace.closing start 0
          false
      else if byte = Bracket.square.opening then
        scanBalancedAt payload overflowChecks Bracket.square.opening Bracket.square.closing start 0
          false
      else if byte = quote then do
        let stop ← scanStringEndAt payload (start + 1)
        return stop + 1
      else if byte = 0x74 || byte = 0x66 || byte = 0x6E then
        .ok (skipWhileAt payload isAlphabetic start)
      else if byte = 0x2D || isDigit byte then .ok (skipWhileAt payload isNumeric start)
      else .error (.error (.unexpectedStart byte))

def sliceAt (start stop : Nat) : Except EnvelopeFailure (List UInt8) :=
  (slice payload start stop).mapError .fault

end Scanning

inductive RoundAt where
  | done (parts : EnvelopeParts)
  | more (parts : EnvelopeParts) (p : Nat)

section Envelope

variable (libraries : JsonLibraries) (overflowChecks : Bool) (payload : List UInt8)

def scanMemberAt (key : List UInt8) (parts : EnvelopeParts) (p : Nat) :
    Except EnvelopeFailure (EnvelopeParts × Nat) :=
  if key = eventKey then
    if payload[p]? ≠ some quote then .error (.error (.decode "event must be a string"))
    else do
      let stop ← scanStringEndAt payload (p + 1)
      let fragment ← sliceAt payload (p + 1) stop
      let eventName ← (decodeJsonStringFragment libraries fragment).mapError .error
      return ({ parts with eventName := some eventName },stop + 1)
  else do
    let stop ← scanValueEndAt payload overflowChecks p
    if key = bodyKey then
      let body ← sliceAt payload p stop
      return ({ parts with bodySlice := some body },stop)
    else return (parts,stop)

def scanSeparatorAt (parts : EnvelopeParts) (p : Nat) : Except EnvelopeFailure RoundAt :=
  let p := skipWsAt payload p
  match payload[p]? with
  | none => .error (.error (.decode "truncated envelope"))
  | some byte =>
      if byte = comma then .ok (.more parts (p + 1))
      else if byte = Bracket.brace.closing then .ok (.done parts)
      else .error (.error (.unexpectedSeparator p byte))

def envelopeRoundAt (parts : EnvelopeParts) (p : Nat) : Except EnvelopeFailure RoundAt :=
  let p := skipWsAt payload p
  match payload[p]? with
  | none => .error (.error (.decode "truncated envelope"))
  | some byte =>
      if byte = Bracket.brace.closing then .ok (.done parts)
      else if byte ≠ quote then .error (.error (.decode "expected string key"))
      else do
        let keyEnd ← scanStringEndAt payload (p + 1)
        let key ← sliceAt payload (p + 1) keyEnd
        let p := skipWsAt payload (keyEnd + 1)
        if payload[p]? ≠ some colon then .error (.error (.decode "expected ':'"))
        else
          let (parts,p) ← scanMemberAt libraries overflowChecks payload key parts
            (skipWsAt payload (p + 1))
          scanSeparatorAt payload parts p

def envelopeRoundsAt : Nat → EnvelopeParts → Nat → Except EnvelopeFailure EnvelopeParts
  | 0, _, _ => .error (.fault .outOfFuel)
  | rounds + 1, parts, p => do
      match ← envelopeRoundAt libraries overflowChecks payload parts p with
      | .done parts => return parts
      | .more parts p => envelopeRoundsAt rounds parts p

/-- `parse_json_envelope`: the event name and the bytes of the body. -/
def parseJsonEnvelopeAt : Except EnvelopeFailure (String × List UInt8) :=
  let p := skipWsAt payload 0
  if payload[p]? ≠ some Bracket.brace.opening then .error (.error (.decode "expected '\x7b'"))
  else do
    let parts ← envelopeRoundsAt libraries overflowChecks payload (payload.length + 1)
      ⟨none,none⟩ (p + 1)
    match parts.eventName, parts.bodySlice with
    | none, _ => .error (.error (.missingField "event"))
    | some _, none => .error (.error (.missingField "body"))
    | some eventName, some body => return (eventName,body)

end Envelope

/-- There is no fault, and what is returned has a property. -/
def Faultless {α : Type} (holds : α → Prop) (result : Except EnvelopeFailure α) : Prop :=
  (∀ fault, result ≠ .error (.fault fault)) ∧ ∀ value, result = .ok value → holds value

section Faults

variable {α β : Type} {holds : α → Prop} {others : β → Prop}

theorem Faultless.ok {value : α} (isHeld : holds value) : Faultless holds (.ok value) := by
  constructor
  · intro fault impossible
    cases impossible
  · intro same isSame
    cases isSame
    exact isHeld

theorem Faultless.error {error : JsonEnvelopeError} :
    Faultless holds (.error (.error error)) := by
  constructor
  · intro fault impossible
    cases impossible
  · intro value impossible
    cases impossible

theorem Faultless.bind {first : Except EnvelopeFailure α} {next : α → Except EnvelopeFailure β}
    (faultless : Faultless holds first)
    (further : ∀ value, holds value → Faultless others (next value)) :
    Faultless others (first >>= next) := by
  cases first with
  | ok value => exact further value (faultless.2 value rfl)
  | error failure =>
      constructor
      · intro fault isFault
        cases isFault
        exact faultless.1 fault rfl
      · intro value impossible
        cases impossible

end Faults

section Progress

variable {payload : List UInt8} {overflowChecks : Bool}

theorem skipWhileAt_progress (inClass : UInt8 → Bool) {p : Nat} (inside : p ≤ payload.length) :
    p ≤ skipWhileAt payload inClass p ∧ skipWhileAt payload inClass p ≤ payload.length := by
  fun_induction skipWhileAt payload inClass p with
  | case1 p isThere isIn ih =>
      have further := ih isThere
      omega
  | case2 p isThere notIn => exact ⟨le_rfl,inside⟩
  | case3 p notThere => exact ⟨le_rfl,inside⟩

theorem scanStringEndAt_faultless (p : Nat) :
    Faultless (fun stop => p ≤ stop ∧ stop < payload.length) (scanStringEndAt payload p) := by
  fun_induction scanStringEndAt payload p with
  | case1 p inside isQuote => exact .ok ⟨le_rfl,inside⟩
  | case2 p inside notQuote isBackslash trailing => exact .error
  | case3 p inside notQuote isBackslash notTrailing ih =>
      refine ⟨ih.1,?_⟩
      intro stop isStop
      have further := ih.2 stop isStop
      omega
  | case4 p inside notQuote notBackslash ih =>
      refine ⟨ih.1,?_⟩
      intro stop isStop
      have further := ih.2 stop isStop
      omega
  | case5 p notInside => exact .error

theorem addI32_faultless (left right : Int) :
    Faultless (fun _ => True) (addI32 overflowChecks left right) := by
  unfold addI32
  split
  · exact .ok trivial
  · split
    · constructor
      · intro fault impossible
        cases impossible
      · intro value impossible
        cases impossible
    · exact .ok trivial

theorem Faultless.further {first more : Nat} {result : Except EnvelopeFailure Nat}
    (faultless : Faultless (fun stop => more < stop ∧ stop ≤ payload.length) result)
    (before : first ≤ more) :
    Faultless (fun stop => first < stop ∧ stop ≤ payload.length) result := by
  refine ⟨faultless.1,?_⟩
  intro stop isStop
  have further := faultless.2 stop isStop
  omega

theorem scanBalancedAt_faultless (opening closing : UInt8) (p : Nat) (depth : Int)
    (inStr : Bool) :
    Faultless (fun stop => p < stop ∧ stop ≤ payload.length)
      (scanBalancedAt payload overflowChecks opening closing p depth inStr) := by
  fun_induction scanBalancedAt payload overflowChecks opening closing p depth inStr with
  | case1 p depth inside b isQuote ih => exact ih.further (Nat.le_succ p)
  | case2 p depth inside b notQuote isBackslash trailing => exact .error
  | case3 p depth inside b notQuote isBackslash notTrailing ih =>
      exact ih.further (Nat.le_add_right p 2)
  | case4 p depth inside b notQuote notBackslash ih => exact ih.further (Nat.le_succ p)
  | case5 p depth inStr inside b notInStr isQuote ih => exact ih.further (Nat.le_succ p)
  | case6 p depth inStr inside b notInStr notQuote isOpening ih =>
      apply Faultless.bind (addI32_faultless depth 1)
      intro deeper _
      exact (ih deeper).further (Nat.le_succ p)
  | case7 p depth inStr inside b notInStr notQuote notOpening isClosing ih =>
      apply Faultless.bind (addI32_faultless depth (-1))
      intro outer _
      split
      · exact .ok ⟨Nat.lt_succ_self p,inside⟩
      · exact (ih outer).further (Nat.le_succ p)
  | case8 p depth inStr inside b notInStr notQuote notOpening notClosing ih =>
      exact ih.further (Nat.le_succ p)
  | case9 p depth inStr notInside => exact .error

theorem inside_of_getElem? {p : Nat} {byte : UInt8} (isByte : payload[p]? = some byte) :
    p < payload.length :=
  (List.getElem?_eq_some_iff.mp isByte).1

theorem scanValueEndAt_faultless (start : Nat) :
    Faultless (fun stop => start ≤ stop ∧ stop ≤ payload.length)
      (scanValueEndAt payload overflowChecks start) := by
  have balanced : ∀ opening closing, Faultless (fun stop => start ≤ stop ∧ stop ≤ payload.length)
      (scanBalancedAt payload overflowChecks opening closing start 0 false) := by
    intro opening closing
    have faultless :=
      @scanBalancedAt_faultless payload overflowChecks opening closing start 0 false
    refine ⟨faultless.1,?_⟩
    intro stop isStop
    have further := faultless.2 stop isStop
    omega
  unfold scanValueEndAt
  split
  · exact .error
  · rename_i byte isByte
    have inside := Nat.le_of_lt (inside_of_getElem? isByte)
    split
    · exact balanced _ _
    · split
      · exact balanced _ _
      · split
        · apply Faultless.bind (scanStringEndAt_faultless (start + 1))
          rintro stop ⟨behind,isThere⟩
          exact .ok (by omega)
        · split
          · exact .ok (skipWhileAt_progress isAlphabetic inside)
          · split
            · exact .ok (skipWhileAt_progress isNumeric inside)
            · exact .error

theorem sliceAt_eq {start stop : Nat} (ordered : start ≤ stop) (inside : stop ≤ payload.length) :
    sliceAt payload start stop = .ok (window payload start (stop - start)) := by
  rw [sliceAt,slice,if_pos ⟨ordered,inside⟩]
  rfl

end Progress

def EnvelopeParts.Inside (payload : List UInt8) (parts : EnvelopeParts) : Prop :=
  ∀ body, parts.bodySlice = some body → body <:+: payload

section Loop

variable {libraries : JsonLibraries} {overflowChecks : Bool} {payload : List UInt8}
  {parts : EnvelopeParts}
variable {p : Nat}

theorem scanMemberAt_faultless (key : List UInt8) (known : parts.Inside payload) :
    Faultless (fun found => found.1.Inside payload ∧ p ≤ found.2 ∧ found.2 ≤ payload.length)
      (scanMemberAt libraries overflowChecks payload key parts p) := by
  unfold scanMemberAt
  split
  · split
    · exact .error
    · apply Faultless.bind (scanStringEndAt_faultless (p + 1))
      rintro stop ⟨behind,isThere⟩
      rw [sliceAt_eq behind (Nat.le_of_lt isThere)]
      simp only [bind,Except.bind]
      cases decodeJsonStringFragment libraries (window payload (p + 1) (stop - (p + 1))) with
      | error error => exact .error
      | ok eventName => exact .ok ⟨known,by omega⟩
  · apply Faultless.bind (scanValueEndAt_faultless p)
    rintro stop ⟨behind,isThere⟩
    split
    · rw [sliceAt_eq behind isThere]
      refine .ok ⟨?_,behind,isThere⟩
      rintro body ⟨⟩
      exact window_isInfix payload p (stop - p)
    · exact .ok ⟨known,behind,isThere⟩

def RoundAt.Further (payload : List UInt8) (p : Nat) : RoundAt → Prop
  | .done parts => parts.Inside payload
  | .more parts next => parts.Inside payload ∧ p < next ∧ next ≤ payload.length

theorem scanSeparatorAt_faultless (known : parts.Inside payload) (inside : p ≤ payload.length) :
    Faultless (RoundAt.Further payload p) (scanSeparatorAt payload parts p) := by
  have further := skipWhileAt_progress isSpace inside
  unfold scanSeparatorAt
  dsimp only
  split
  · exact .error
  · rename_i byte isByte
    have isThere := inside_of_getElem? isByte
    split
    · exact .ok ⟨known,Nat.lt_succ_of_le further.1,isThere⟩
    · split
      · exact .ok known
      · exact .error

theorem envelopeRoundAt_faultless (known : parts.Inside payload) (inside : p ≤ payload.length) :
    Faultless (RoundAt.Further payload p)
      (envelopeRoundAt libraries overflowChecks payload parts p) := by
  have toKey := skipWhileAt_progress isSpace inside
  unfold envelopeRoundAt
  dsimp only
  split
  · exact .error
  · split
    · exact .ok known
    · split
      · exact .error
      · apply Faultless.bind (scanStringEndAt_faultless (skipWsAt payload p + 1))
        rintro keyEnd ⟨behindKey,keyIsThere⟩
        rw [sliceAt_eq behindKey (Nat.le_of_lt keyIsThere)]
        simp only [bind,Except.bind]
        have toColon := @skipWhileAt_progress payload isSpace (keyEnd + 1) keyIsThere
        split
        · exact .error
        · rename_i isColon
          have colonIsThere := inside_of_getElem? (not_not.mp isColon)
          have toValue := @skipWhileAt_progress payload isSpace
            (skipWsAt payload (keyEnd + 1) + 1) colonIsThere
          apply Faultless.bind (scanMemberAt_faultless _ known)
          rintro found ⟨foundInside,behind,isThere⟩
          have separated := scanSeparatorAt_faultless foundInside isThere
          refine ⟨separated.1,?_⟩
          intro round isRound
          have far := separated.2 round isRound
          cases round with
          | done parts => exact far
          | more parts next =>
              obtain ⟨partsInside,nextFurther,nextIsThere⟩ := far
              refine ⟨partsInside,?_,nextIsThere⟩
              unfold skipWsAt at *
              omega

theorem envelopeRoundsAt_faultless {rounds : Nat} (known : parts.Inside payload)
    (inside : p ≤ payload.length) (enough : payload.length < rounds + p) :
    Faultless (EnvelopeParts.Inside payload)
      (envelopeRoundsAt libraries overflowChecks payload rounds parts p) := by
  induction rounds generalizing parts p with
  | zero => omega
  | succ rounds ih =>
      rw [envelopeRoundsAt]
      apply Faultless.bind (envelopeRoundAt_faultless known inside)
      intro round further
      cases round with
      | done parts => exact .ok further
      | more parts next => exact ih further.1 further.2.2 (by have := further.2.1; omega)

theorem parseJsonEnvelopeAt_faultless (libraries : JsonLibraries) (overflowChecks : Bool)
    (payload : List UInt8) :
    Faultless (fun found => found.2 <:+: payload)
      (parseJsonEnvelopeAt libraries overflowChecks payload) := by
  unfold parseJsonEnvelopeAt
  dsimp only
  split
  · exact .error
  · rename_i isBrace
    have isThere := inside_of_getElem? (not_not.mp isBrace)
    have noneInside : EnvelopeParts.Inside payload ⟨none,none⟩ := by
      rintro body ⟨⟩
    apply Faultless.bind (envelopeRoundsAt_faultless noneInside isThere (by omega))
    intro parts inside
    split
    · exact .error
    · exact .error
    · rename_i eventName body isEvent isBody
      exact .ok (inside body isBody)

end Loop

end Beava.Server
