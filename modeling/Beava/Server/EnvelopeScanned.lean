/-
What the scanner of JSON envelopes returns.

From any object with an event name and a body, each under its key once, it returns
the name and the bytes of the body; from no payload does it read outside.
-/

import Beava.Server.EnvelopeObjects

namespace Beava.Server

open Beava.Core Beava.Wal JsonText Checked

section Rounds

variable {libraries : JsonLibraries} {overflowChecks : Bool} {name : String}
  {payload rest : List UInt8}

theorem envelopeRoundsAt_members : (members : Members) → (parts : EnvelopeParts) → (p rounds : Nat) →
    (∀ member ∈ members.list, MemberReads libraries name member) →
    payload.drop p = members.text ++ Bracket.brace.closing :: rest →
    members.list.length ≤ rounds → members.text.length < 2 ^ 32 →
    envelopeRoundsAt libraries overflowChecks payload rounds parts p =
      .ok (members.list.foldl (memberStep name) parts)
  | .last before key afterKey beforeValue value after, parts, p, rounds => by
      intro reads isHere enough fits
      obtain ⟨rounds,rfl⟩ : ∃ fewer, rounds = fewer + 1 := by
        rw [Members.list,List.length_singleton] at enough
        exact ⟨rounds - 1,by omega⟩
      have valueFits : value.text.length < 2 ^ 32 := by
        rw [Members.text,memberText] at fits
        simp only [List.length_append] at fits
        omega
      have round := @envelopeRoundAt_member payload p rest libraries overflowChecks name parts before
        afterKey beforeValue after key value Bracket.brace.closing (.inr rfl)
        (reads _ List.mem_cons_self) isHere valueFits
      rw [if_neg (by decide)] at round
      rw [envelopeRoundsAt,round]
      rfl
  | .more before key afterKey beforeValue value after others, parts, p, rounds => by
      intro reads isHere enough fits
      obtain ⟨rounds,rfl⟩ : ∃ fewer, rounds = fewer + 1 := by
        rw [Members.list,List.length_cons] at enough
        exact ⟨rounds - 1,by omega⟩
      have lengths : value.text.length + others.text.length < 2 ^ 32 := by
        rw [Members.text,memberText] at fits
        simp only [List.length_append] at fits
        omega
      have memberHere : payload.drop p = memberText before key afterKey beforeValue value.text after ++
          comma :: (others.text ++ Bracket.brace.closing :: rest) := by
        rw [isHere,Members.text]
        simp only [List.append_assoc,List.cons_append,List.nil_append]
      have round := @envelopeRoundAt_member payload p
        (others.text ++ Bracket.brace.closing :: rest) libraries overflowChecks name parts before
        afterKey beforeValue after key value comma (.inl rfl) (reads _ List.mem_cons_self) memberHere
        (by omega)
      obtain ⟨-,-,othersHere⟩ := byte_here (drop_here memberHere)
      have left := envelopeRoundsAt_members others (memberStep name parts (content key,value)) _
        rounds (fun member isIn => reads member (List.mem_cons_of_mem _ isIn)) othersHere
        (by rw [Members.list,List.length_cons] at enough; omega) (by omega)
      rw [if_pos rfl] at round
      rw [envelopeRoundsAt,round]
      exact left

theorem length_list_le (members : Members) : members.list.length ≤ members.text.length := by
  cases members with
  | last before key afterKey beforeValue value after =>
      rw [Members.list,List.length_singleton,Members.text,memberText]
      simp only [List.length_append,List.length_singleton]
      omega
  | more before key afterKey beforeValue value after others =>
      have fewer := length_list_le others
      rw [Members.list,List.length_cons,Members.text]
      simp only [List.length_append,List.length_singleton]
      omega

end Rounds

section Found

variable {name : String} {parts : EnvelopeParts}

theorem foldl_eventName (members : List (List UInt8 × Doc)) :
    (members.foldl (memberStep name) parts).eventName =
      if eventKey ∈ members.map Prod.fst then some name else parts.eventName := by
  induction members generalizing parts with
  | nil => rfl
  | cons member rest ih =>
      rw [List.foldl_cons,ih,List.map_cons]
      by_cases isEvent : member.1 = eventKey
      · rw [memberStep,if_pos isEvent,isEvent,if_pos List.mem_cons_self,ite_self]
      · have same : eventKey ∈ member.1 :: rest.map Prod.fst ↔ eventKey ∈ rest.map Prod.fst := by
          rw [List.mem_cons]
          exact or_iff_right (Ne.symm isEvent)
        have kept : (memberStep name parts member).eventName = parts.eventName := by
          rw [memberStep,if_neg isEvent]
          split
          · rfl
          · rfl
        rw [kept,if_congr same rfl rfl]

theorem foldl_bodySlice {body : Doc} (members : List (List UInt8 × Doc))
    (isBody : ∀ member ∈ members, member.1 = bodyKey → member.2 = body) :
    (members.foldl (memberStep name) parts).bodySlice =
      if bodyKey ∈ members.map Prod.fst then some body.text else parts.bodySlice := by
  induction members generalizing parts with
  | nil => rfl
  | cons member rest ih =>
      rw [List.foldl_cons,ih fun other isIn => isBody other (List.mem_cons_of_mem _ isIn),
        List.map_cons]
      by_cases isKey : member.1 = bodyKey
      · have isText := isBody member List.mem_cons_self isKey
        have notEvent : ¬ bodyKey = eventKey := by decide
        rw [memberStep,isKey,if_neg notEvent,if_pos rfl,if_pos List.mem_cons_self,isText,
          ite_self]
      · have same : bodyKey ∈ member.1 :: rest.map Prod.fst ↔ bodyKey ∈ rest.map Prod.fst := by
          rw [List.mem_cons]
          exact or_iff_right (Ne.symm isKey)
        have kept : (memberStep name parts member).bodySlice = parts.bodySlice := by
          rw [memberStep,if_neg isKey]
          split
          · rfl
          · rfl
        rw [kept,if_congr same rfl rfl]

end Found

theorem value_of_once {members : List (List UInt8 × Doc)} {key : List UInt8} {value : Doc}
    (once : (members.map Prod.fst).count key = 1) (isIn : (key,value) ∈ members) :
    ∀ member ∈ members, member.1 = key → member.2 = value := by
  induction members with
  | nil => cases isIn
  | cons first rest ih =>
      rw [List.map_cons] at once
      by_cases isFirst : first.1 = key
      · rw [isFirst,List.count_cons_self] at once
        have noMore : key ∉ rest.map Prod.fst := List.count_eq_zero.mp (by omega)
        have same : ∀ member ∈ first :: rest, member.1 = key → member = first := by
          intro member isMember isKey
          rcases List.mem_cons.mp isMember with isSame | isLater
          · exact isSame
          · exact absurd (List.mem_map.mpr ⟨member,isLater,isKey⟩) noMore
        intro member isMember isKey
        rw [same member isMember isKey,← same (key,value) isIn rfl]
      · rw [List.count_cons_of_ne isFirst] at once
        have later : (key,value) ∈ rest := by
          rcases List.mem_cons.mp isIn with isSame | isLater
          · exact absurd (by rw [← isSame]) isFirst
          · exact isLater
        intro member isMember isKey
        rcases List.mem_cons.mp isMember with isSame | isLater
        · exact absurd (isSame ▸ isKey) isFirst
        · exact ih once later member isLater isKey

/-- An object with an event and a body; their keys are written without escapes. -/
structure JsonEnvelope where
  before : Gap
  members : Members
  eventPieces : List Piece
  eventItems : List StringItem
  body : Doc
  isWritten : content eventPieces = writtenBytes eventItems
  areValues : ∀ member ∈ members.list, member.2.IsValue
  hasEvent : (eventKey,.string eventPieces) ∈ members.list
  hasBody : (bodyKey,body) ∈ members.list
  eventOnce : (members.list.map Prod.fst).count eventKey = 1
  bodyOnce : (members.list.map Prod.fst).count bodyKey = 1

namespace JsonEnvelope

variable (envelope : JsonEnvelope)
variable {libraries : JsonLibraries}

def bytes : List UInt8 := envelope.before.bytes ++ (Doc.object envelope.members).text

def eventName : String := meantText envelope.eventItems

def Decoded (libraries : JsonLibraries) : Prop :=
  backslash ∈ writtenBytes envelope.eventItems →
    libraries.stringFromSlice (quote :: writtenBytes envelope.eventItems ++ [quote]) =
      .ok envelope.eventName

theorem reads (decoded : envelope.Decoded libraries) :
    ∀ member ∈ envelope.members.list, MemberReads libraries envelope.eventName member := by
  intro member isMember
  refine ⟨envelope.areValues member isMember,?_⟩
  intro isEvent
  refine ⟨envelope.eventPieces,
    value_of_once envelope.eventOnce envelope.hasEvent member isMember isEvent,?_⟩
  rw [envelope.isWritten]
  exact decodeJsonStringFragment_written decoded

theorem parse (decoded : envelope.Decoded libraries) (rest : List UInt8)
    (fits : envelope.bytes.length < 2 ^ 32) (overflowChecks : Bool) :
    parseJsonEnvelopeAt libraries overflowChecks (envelope.bytes ++ rest) =
      .ok (envelope.eventName,envelope.body.text) := by
  have whole : (envelope.bytes ++ rest).drop 0 = envelope.before.bytes ++
      Bracket.brace.opening :: (envelope.members.text ++ Bracket.brace.closing :: rest) := by
    rw [List.drop_zero,bytes,Doc.text,enclosed]
    simp only [List.append_assoc,List.cons_append,List.nil_append]
  have lengths : envelope.bytes.length =
      envelope.before.bytes.length + envelope.members.text.length + 2 := by
    rw [bytes,Doc.text,enclosed]
    simp only [List.length_append,List.length_cons,List.length_nil]
    omega
  have toBrace := skipWsAt_gap envelope.before whole (by decide)
  have braceHere := drop_here whole
  obtain ⟨-,-,membersHere⟩ := byte_here braceHere
  have isBrace : ¬ (envelope.bytes ++ rest)[0 + envelope.before.bytes.length]? ≠
      some Bracket.brace.opening := not_not.mpr (getElem?_here braceHere)
  have enough : envelope.members.list.length ≤ (envelope.bytes ++ rest).length + 1 := by
    have fewer := length_list_le envelope.members
    rw [List.length_append]
    omega
  have found := @envelopeRoundsAt_members libraries overflowChecks envelope.eventName
    (envelope.bytes ++ rest) rest envelope.members ⟨none,none⟩ _ _ (envelope.reads decoded)
    membersHere enough (by omega)
  have isEvent := @foldl_eventName envelope.eventName ⟨none,none⟩ envelope.members.list
  have isBody := @foldl_bodySlice envelope.eventName ⟨none,none⟩ envelope.body
    envelope.members.list (value_of_once envelope.bodyOnce envelope.hasBody)
  rw [if_pos (List.mem_map.mpr ⟨_,envelope.hasEvent,rfl⟩)] at isEvent
  rw [if_pos (List.mem_map.mpr ⟨_,envelope.hasBody,rfl⟩)] at isBody
  simp only [parseJsonEnvelopeAt,toBrace,if_neg isBrace,found,bind,Except.bind,isEvent,
    isBody]
  rfl

end JsonEnvelope

/-- The scanner finds the name and the bytes of the body in any envelope that fits a frame; on
no payload does it read outside or go on for ever, and a body that it returns is in the payload. -/
theorem json_envelopes_scanned :
    (∀ (libraries : JsonLibraries) (envelope : JsonEnvelope) (rest : List UInt8),
      envelope.Decoded libraries → envelope.bytes.length < 2 ^ 32 →
      ∀ overflowChecks, parseJsonEnvelopeAt libraries overflowChecks (envelope.bytes ++ rest) =
        .ok (envelope.eventName,envelope.body.text)) ∧
    ∀ (libraries : JsonLibraries) (overflowChecks : Bool) (payload : List UInt8),
      (∀ fault, parseJsonEnvelopeAt libraries overflowChecks payload ≠ .error (.fault fault)) ∧
        ∀ found, parseJsonEnvelopeAt libraries overflowChecks payload = .ok found →
          found.2 <:+: payload :=
  ⟨fun _ envelope rest decoded fits => envelope.parse decoded rest fits,
    parseJsonEnvelopeAt_faultless⟩

theorem plain_of_any {bytes : List UInt8} (noneStructural : bytes.any isStructural = false) :
    ∀ byte ∈ bytes, isStructural byte = false := by
  intro byte member
  exact Bool.eq_false_iff.mpr (List.any_eq_false.mp noneStructural byte member)

def oneToken : JsonText.Token := ⟨[0x31],plain_of_any rfl⟩

def nullToken : JsonText.Token := ⟨nullWord,plain_of_any rfl⟩

/-- `[1,"]\x7d"]`. -/
def sampleList : Doc :=
  .array (.more .empty (.token oneToken) .empty
    (.last .empty (.string [.plain 0x5D (by decide) (by decide),.plain 0x7D (by decide) (by decide)])
      .empty))

/-- `"\u0045"`. -/
def escapedName : List Piece :=
  [.escaped 0x75,.plain 0x30 (by decide) (by decide),.plain 0x30 (by decide) (by decide),
    .plain 0x34 (by decide) (by decide),.plain 0x35 (by decide) (by decide)]

def sampleMembers : Members :=
  .more .empty (piecesOf bodyKey ordinary_bodyKey) .empty .empty sampleList .empty
    (.more .empty [] .empty .empty (.token nullToken) .empty
      (.last .empty (piecesOf eventKey ordinary_eventKey) .empty .empty (.string escapedName)
        .empty))

theorem sampleMembers_list :
    sampleMembers.list = [(bodyKey,sampleList),([],.token nullToken),
      (eventKey,.string escapedName)] := by
  simp only [sampleMembers,Members.list,content_piecesOf]
  rfl

def sampleEnvelope : JsonEnvelope where
  before := .empty
  members := sampleMembers
  eventPieces := escapedName
  eventItems := [.codeUnit ⟨⟨0,false⟩,⟨0,false⟩,⟨4,false⟩,⟨5,false⟩⟩ (.inl (by decide))]
  body := sampleList
  isWritten := by decide
  areValues := by
    rw [sampleMembers_list]
    intro member isMember
    rcases List.mem_cons.mp isMember with rfl | isLater
    · trivial
    · rcases List.mem_cons.mp isLater with rfl | isLast
      · exact .null
      · rw [List.mem_singleton.mp isLast]
        trivial
  hasEvent := by
    rw [sampleMembers_list]
    exact List.mem_cons_of_mem _ (List.mem_cons_of_mem _ List.mem_cons_self)
  hasBody := by
    rw [sampleMembers_list]
    exact List.mem_cons_self
  eventOnce := by
    rw [sampleMembers_list]
    decide
  bodyOnce := by
    rw [sampleMembers_list]
    decide

def oneString (bytes : List UInt8) (text : String) : JsonLibraries where
  fromSlice _ := none
  stringFromSlice slice := if slice = bytes then .ok text else .error "invalid escape"
  toVec _ := []
  readers := { json := fun _ => none, msgpack := fun _ => none }

/-- The name is decoded and the body is the list, with the brackets in its string. -/
theorem json_envelopes_scanned_sample :
    parseJsonEnvelopeAt
        (oneString (quote :: writtenBytes sampleEnvelope.eventItems ++ [quote]) "E") true
        (sampleEnvelope.bytes ++ [0x20]) =
      .ok ("E",[0x5B,0x31,0x2C,0x22,0x5D,0x7D,0x22,0x5D]) := by
  have isName : sampleEnvelope.eventName = "E" := by decide
  have small : sampleEnvelope.bytes.length < 2 ^ 32 := by decide
  have decoded : sampleEnvelope.Decoded
      (oneString (quote :: writtenBytes sampleEnvelope.eventItems ++ [quote]) "E") := by
    intro escaped
    rw [isName]
    dsimp only [oneString]
    exact if_pos rfl
  have found := json_envelopes_scanned.1 _ sampleEnvelope [0x20] decoded small true
  rw [isName] at found
  exact found

end Beava.Server
