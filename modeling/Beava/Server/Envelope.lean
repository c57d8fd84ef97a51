/-
The scanner finds the parts of an envelope.

A string is scanned up to the quote that ends it, and a text that is balanced is
passed without a change of the depth.  From an envelope with the name of an event
and an object the scanner takes the name and the text of the object.
-/

import Beava.Server.Transports

namespace Beava.Server

open Beava.Core Beava.Wal JsonText

variable {byte : UInt8}

theorem scanStringEnd_quote (rest : List UInt8) :
    scanStringEnd (quote :: rest) = .ok ([],rest) := by
  cases rest with
  | nil | cons => rw [scanStringEnd,if_pos rfl]

theorem scanStringEnd_plain (notQuote : byte ≠ quote) (notBackslash : byte ≠ backslash)
    (rest : List UInt8) :
    scanStringEnd (byte :: rest) =
      (scanStringEnd rest).map fun scanned => (byte :: scanned.1,scanned.2) := by
  cases rest with
  | nil =>
      simp only [scanStringEnd,if_neg notQuote,if_neg notBackslash]
      rfl
  | cons next rest => rw [scanStringEnd,if_neg notQuote,if_neg notBackslash]

theorem scanStringEnd_escaped (byte : UInt8) (rest : List UInt8) :
    scanStringEnd (backslash :: byte :: rest) =
      (scanStringEnd rest).map fun scanned => (backslash :: byte :: scanned.1,scanned.2) := by
  rw [scanStringEnd,if_neg (by decide),if_pos rfl]

theorem scanStringEnd_content (pieces : List Piece) (rest : List UInt8) :
    scanStringEnd (content pieces ++ quote :: rest) = .ok (content pieces,rest) := by
  induction pieces with
  | nil => exact scanStringEnd_quote rest
  | cons piece pieces ih =>
      cases piece with
      | plain byte notQuote notBackslash =>
          show scanStringEnd (byte :: (content pieces ++ quote :: rest)) = _
          rw [scanStringEnd_plain notQuote notBackslash,ih]
          rfl
      | escaped byte =>
          show scanStringEnd (backslash :: byte :: (content pieces ++ quote :: rest)) = _
          rw [scanStringEnd_escaped,ih]
          rfl

section Containers

variable {bracket : Bracket} {depth : Int}

theorem scanBalanced_inString (opening closing : UInt8) (depth : Int) (pieces : List Piece)
    (rest : List UInt8) :
    scanBalanced opening closing depth true (content pieces ++ quote :: rest) =
      scanBalanced opening closing depth false rest := by
  induction pieces with
  | nil =>
      show scanBalanced opening closing depth true (quote :: rest) = _
      cases rest with
      | nil =>
          have notBackslash : quote ≠ backslash := by decide
          simp only [scanBalanced,if_neg notBackslash]
      | cons next rest => rw [scanBalanced,if_pos rfl]
  | cons piece pieces ih =>
      cases piece with
      | plain byte notQuote notBackslash =>
          show scanBalanced opening closing depth true (byte :: (content pieces ++ quote :: rest)) = _
          rw [← ih]
          cases remaining : content pieces ++ quote :: rest with
          | nil => simp only [scanBalanced,if_neg notBackslash]
          | cons next after => rw [scanBalanced,if_neg notQuote,if_neg notBackslash]
      | escaped byte =>
          show scanBalanced opening closing depth true
            (backslash :: byte :: (content pieces ++ quote :: rest)) = _
          rw [scanBalanced,if_neg (by decide),if_pos rfl]
          exact ih

theorem scanBalanced_string (opening closing : UInt8) (depth : Int) (pieces : List Piece)
    (rest : List UInt8) :
    scanBalanced opening closing depth false (stringText pieces ++ rest) =
      scanBalanced opening closing depth false rest := by
  have text : stringText pieces ++ rest = quote :: (content pieces ++ quote :: rest) := by
    rw [stringText,List.append_assoc]
    rfl
  rw [text,scanBalanced,if_pos rfl,scanBalanced_inString]

theorem scanBalanced_opening (rest : List UInt8) :
    scanBalanced bracket.opening bracket.closing depth false (bracket.opening :: rest) =
      scanBalanced bracket.opening bracket.closing (depth + 1) false rest := by
  have notQuote : bracket.opening ≠ quote := by cases bracket <;> decide
  rw [scanBalanced,if_neg notQuote,if_pos rfl]

theorem scanBalanced_closing (rest : List UInt8) :
    scanBalanced bracket.opening bracket.closing depth false (bracket.closing :: rest) =
      if depth - 1 = 0 then .ok rest
      else scanBalanced bracket.opening bracket.closing (depth - 1) false rest := by
  have notQuote : bracket.closing ≠ quote := by cases bracket <;> decide
  have notOpening : bracket.closing ≠ bracket.opening := by cases bracket <;> decide
  rw [scanBalanced,if_neg notQuote,if_neg notOpening,if_pos rfl]

theorem scanBalanced_balanced {text : List UInt8} (balanced : Balanced bracket text)
    (inside : 0 < depth) (rest : List UInt8) :
    scanBalanced bracket.opening bracket.closing depth false (text ++ rest) =
      scanBalanced bracket.opening bracket.closing depth false rest := by
  induction balanced generalizing depth rest with
  | empty => rfl
  | byte notQuote notOpening notClosing =>
      rw [List.singleton_append,scanBalanced,if_neg notQuote,if_neg notOpening,
        if_neg notClosing]
  | string pieces => exact scanBalanced_string _ _ depth pieces rest
  | @nest inner _ ih =>
      have text : enclosed bracket inner ++ rest =
          bracket.opening :: (inner ++ bracket.closing :: rest) := by
        rw [enclosed,List.append_assoc]
        rfl
      have notZero : depth + 1 - 1 ≠ 0 := by omega
      rw [text,scanBalanced_opening,ih (by omega),scanBalanced_closing,if_neg notZero,
        Int.add_sub_cancel]
  | append _ _ ihFirst ihSecond => rw [List.append_assoc,ihFirst inside,ihSecond inside]

theorem scanValueEnd_object {doc : Doc} (isObject : doc.isObject = true) (rest : List UInt8) :
    scanValueEnd (doc.text ++ rest) = .ok rest := by
  obtain ⟨inner,text,balanced⟩ := Doc.text_of_isObject isObject
  have bytes : doc.text ++ rest =
      Bracket.brace.opening :: (inner ++ Bracket.brace.closing :: rest) := by
    rw [text,enclosed,List.append_assoc]
    rfl
  rw [bytes,scanValueEnd,if_pos rfl,scanBalanced_opening,
    scanBalanced_balanced balanced (by decide),scanBalanced_closing,if_pos (by decide)]

end Containers

theorem sliceTo_append (text rest : List UInt8) : sliceTo (text ++ rest) rest = text := by
  rw [sliceTo,List.length_append,Nat.add_sub_cancel,List.take_left]

theorem skipWs_gap (gap : Gap) (notSpace : isSpace byte = false) (rest : List UInt8) :
    skipWs (gap.bytes ++ byte :: rest) = byte :: rest := by
  rw [skipWs,List.dropWhile_append_of_pos gap.spaces,List.dropWhile_cons_of_neg]
  rw [notSpace]
  exact Bool.false_ne_true

/-- Bytes that mean themselves in a string. -/
def Ordinary (bytes : List UInt8) : Prop := ∀ byte ∈ bytes, byte ≠ quote ∧ byte ≠ backslash

/-- A string without escapes. -/
def piecesOf (bytes : List UInt8) (ordinary : Ordinary bytes) : List Piece :=
  bytes.attach.map fun byte =>
    .plain byte.1 (ordinary byte.1 byte.2).1 (ordinary byte.1 byte.2).2

theorem content_piecesOf (bytes : List UInt8) (ordinary : Ordinary bytes) :
    content (piecesOf bytes ordinary) = bytes := by
  rw [content,piecesOf,List.flatMap_map]
  have each : (bytes.attach.flatMap fun byte : { byte // byte ∈ bytes } => [byte.1]) = bytes := by
    rw [← List.map_eq_flatMap]
    exact List.attach_map_subtype_val bytes
  exact each

theorem ordinary_eventKey : Ordinary eventKey := by
  intro byte member
  simp only [eventKey,List.mem_cons,List.not_mem_nil,or_false] at member
  rcases member with rfl | rfl | rfl | rfl | rfl
  all_goals decide

theorem ordinary_bodyKey : Ordinary bodyKey := by
  intro byte member
  simp only [bodyKey,List.mem_cons,List.not_mem_nil,or_false] at member
  rcases member with rfl | rfl | rfl | rfl
  all_goals decide

/-- The blanks of an envelope. -/
structure EnvelopeGaps where
  beforeEvent : Gap
  afterEvent : Gap
  beforeName : Gap
  afterName : Gap
  beforeKey : Gap
  afterKey : Gap
  beforeData : Gap
  afterData : Gap

def envelope (gaps : EnvelopeGaps) (key : List Piece) {name : List UInt8}
    (ordinaryName : Ordinary name) (data : Doc) : Doc :=
  .object (.more gaps.beforeEvent (piecesOf eventKey ordinary_eventKey) gaps.afterEvent
    gaps.beforeName (.string (piecesOf name ordinaryName)) gaps.afterName
    (.last gaps.beforeKey key gaps.afterKey gaps.beforeData data gaps.afterData))

section Rounds

variable (libraries : JsonLibraries) {length : Nat} {parts : EnvelopeParts}

def memberLead (before : Gap) (key : List Piece) (afterKey beforeValue : Gap)
    (value : List UInt8) : List UInt8 :=
  before.bytes ++ quote :: (content key ++ quote :: (afterKey.bytes ++ colon ::
    (beforeValue.bytes ++ value)))

theorem envelopeRound_member (before : Gap) (key : List Piece) (afterKey beforeValue : Gap)
    {first : UInt8} (notSpace : isSpace first = false) (value : List UInt8) :
    envelopeRound libraries length parts (memberLead before key afterKey beforeValue
        (first :: value)) =
      (scanMember libraries (content key) parts (first :: value)).bind fun found =>
        scanSeparator length found.1 found.2 := by
  have notBrace : quote ≠ Bracket.brace.closing := by decide
  have quoteNotSpace : isSpace quote = false := by decide
  have colonNotSpace : isSpace colon = false := by decide
  rw [envelopeRound,memberLead,skipWs_gap before quoteNotSpace]
  simp only [if_neg notBrace,ne_eq,not_true_eq_false,if_false,scanStringEnd_content,
    skipWs_gap afterKey colonNotSpace,skipWs_gap beforeValue notSpace]
  cases scanMember libraries (content key) parts (first :: value) with
  | error error => rfl
  | ok found => rfl

theorem scanSeparator_comma (gap : Gap) (rest : List UInt8) :
    scanSeparator length parts (gap.bytes ++ comma :: rest) = .ok (.more parts rest) := by
  rw [scanSeparator,skipWs_gap gap (by decide)]
  exact if_pos rfl

theorem scanSeparator_closing (gap : Gap) (rest : List UInt8) :
    scanSeparator length parts (gap.bytes ++ Bracket.brace.closing :: rest) =
      .ok (.done parts) := by
  rw [scanSeparator,skipWs_gap gap (by decide)]
  dsimp only
  rw [if_neg (by decide),if_pos rfl]

theorem scanMember_event {name : String} (ordinary : Ordinary (strAsBytes name))
    (rest : List UInt8) :
    scanMember libraries eventKey parts (quote :: (strAsBytes name ++ quote :: rest)) =
      .ok ({ parts with eventName := some name },rest) := by
  have scanned := scanStringEnd_content (piecesOf (strAsBytes name) ordinary) rest
  rw [content_piecesOf] at scanned
  have plain : backslash ∉ strAsBytes name := fun member => (ordinary _ member).2 rfl
  have decoded : decodeJsonStringFragment libraries (strAsBytes name) = .ok name := by
    rw [decodeJsonStringFragment,strFromUtf8_strAsBytes]
    exact if_pos plain
  rw [scanMember,if_pos rfl]
  simp only [if_true,scanned,decoded]

theorem scanMember_body {data : Doc} (isObject : data.isObject = true) (rest : List UInt8) :
    scanMember libraries bodyKey parts (data.text ++ rest) =
      .ok ({ parts with bodySlice := some data.text },rest) := by
  unfold scanMember
  rw [if_neg (by decide),scanValueEnd_object isObject]
  simp only [if_true,sliceTo_append]

end Rounds

theorem parseJsonEnvelope_envelope (libraries : JsonLibraries) (gaps : EnvelopeGaps)
    {name : String} (ordinaryName : Ordinary (strAsBytes name)) {data : Doc}
    (isObject : data.isObject = true) :
    parseJsonEnvelope libraries
        (envelope gaps (piecesOf bodyKey ordinary_bodyKey) ordinaryName data).text =
      .ok (name,data.text) := by
  obtain ⟨inner,dataText,_⟩ := Doc.text_of_isObject isObject
  have starts : data.text = Bracket.brace.opening :: (inner ++ [Bracket.brace.closing]) := dataText
  let afterData := gaps.afterData.bytes ++ [Bracket.brace.closing]
  let second := memberLead gaps.beforeKey (piecesOf bodyKey ordinary_bodyKey) gaps.afterKey
    gaps.beforeData (data.text ++ afterData)
  let first := memberLead gaps.beforeEvent (piecesOf eventKey ordinary_eventKey) gaps.afterEvent
    gaps.beforeName (quote :: (strAsBytes name ++ quote :: (gaps.afterName.bytes ++ comma ::
      second)))
  have payload : (envelope gaps (piecesOf bodyKey ordinary_bodyKey) ordinaryName data).text =
      Bracket.brace.opening :: first := by
    simp only [envelope,Doc.text,Members.text,enclosed,memberText,stringText,
      content_piecesOf,first,second,afterData,memberLead,List.append_assoc,List.cons_append,
      List.nil_append]
  have firstRound : ∀ length, envelopeRound libraries length ⟨none,none⟩ first =
      .ok (.more ⟨some name,none⟩ second) := by
    intro length
    rw [envelopeRound_member libraries _ _ _ _ (by decide),content_piecesOf,
      scanMember_event libraries ordinaryName]
    exact scanSeparator_comma _ _
  have secondRound : ∀ length, envelopeRound libraries length ⟨some name,none⟩ second =
      .ok (.done ⟨some name,some data.text⟩) := by
    intro length
    have value : data.text ++ afterData =
        Bracket.brace.opening :: (inner ++ [Bracket.brace.closing] ++ afterData) := by
      rw [starts]
      rfl
    have scanned := @scanMember_body libraries ⟨some name,none⟩ data isObject afterData
    rw [value] at scanned
    show envelopeRound libraries length _ (memberLead _ _ _ _ (data.text ++ afterData)) = _
    rw [value,envelopeRound_member libraries _ _ _ _ (by decide),content_piecesOf,scanned]
    exact scanSeparator_closing _ _
  have enough : ∃ rounds, first.length = rounds + 1 := by
    refine ⟨first.length - 1,?_⟩
    have some : 0 < first.length := by
      simp only [first,memberLead,List.length_append,List.length_cons]
      omega
    omega
  obtain ⟨rounds,enough⟩ := enough
  rw [payload,parseJsonEnvelope,skipWs,List.dropWhile_cons_of_neg (by decide)]
  simp only [ne_eq,not_true_eq_false,if_false,enough,envelopeRounds,firstRound,secondRound]

end Beava.Server
