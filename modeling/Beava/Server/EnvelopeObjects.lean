/-
The scanner finds the parts of any envelope.

The members of an object may come in any order and there may be others.  Strings,
scalars and containers are passed as they are written; the depth of a container
stays below half of its length, so that the count of open brackets does not
overflow in a payload with less than 2^32 bytes, as a frame has.
-/

import Beava.Lib.JsonStrings
import Beava.Server.Envelope
import Beava.Server.EnvelopePositions

namespace Beava.Server

open Beava.Core Beava.Wal JsonText Checked

section Here

variable {payload : List UInt8} {p : Nat} {byte : UInt8} {front rest : List UInt8}

theorem byte_here (isHere : payload.drop p = byte :: rest) :
    ∃ inside : p < payload.length, payload[p] = byte ∧ payload.drop (p + 1) = rest := by
  have length := congrArg List.length isHere
  rw [List.length_drop,List.length_cons] at length
  have inside : p < payload.length := by omega
  rw [List.drop_eq_getElem_cons inside] at isHere
  obtain ⟨isByte,isRest⟩ := List.cons.inj isHere
  exact ⟨inside,isByte,isRest⟩

theorem getElem?_here (isHere : payload.drop p = byte :: rest) : payload[p]? = some byte := by
  obtain ⟨inside,isByte,-⟩ := byte_here isHere
  rw [List.getElem?_eq_getElem inside,isByte]

theorem drop_here (isHere : payload.drop p = front ++ rest) :
    payload.drop (p + front.length) = rest := by
  rw [← List.drop_drop,isHere,List.drop_left]

theorem sliceAt_here (isHere : payload.drop p = front ++ rest) (inside : p ≤ payload.length) :
    sliceAt payload p (p + front.length) = .ok front := by
  have length := congrArg List.length isHere
  rw [List.length_drop,List.length_append] at length
  rw [sliceAt_eq (Nat.le_add_right _ _) (by omega),Nat.add_sub_cancel_left,window,isHere,
    List.take_left]

theorem skipWhileAt_here {inClass : UInt8 → Bool} (isHere : payload.drop p = front ++ rest)
    (areIn : ∀ byte ∈ front, inClass byte = true)
    (stops : ∀ byte, rest.head? = some byte → inClass byte = false) :
    skipWhileAt payload inClass p = p + front.length := by
  induction front generalizing p with
  | nil =>
      cases rest with
      | nil =>
          have none : ¬ p < payload.length := by
            rw [List.nil_append,List.drop_eq_nil_iff] at isHere
            omega
          rw [skipWhileAt,dif_neg none]
          rfl
      | cons byte rest =>
          obtain ⟨inside,isByte,-⟩ := byte_here isHere
          rw [skipWhileAt,dif_pos inside,isByte,stops byte rfl,if_neg Bool.false_ne_true]
          rfl
  | cons first front ih =>
      obtain ⟨inside,isByte,behind⟩ := byte_here isHere
      have isIn := areIn first List.mem_cons_self
      rw [skipWhileAt,dif_pos inside,isByte,if_pos isIn,
        ih behind fun other member => areIn other (List.mem_cons_of_mem _ member),
        List.length_cons]
      omega

theorem skipWsAt_gap (gap : Gap) (isHere : payload.drop p = gap.bytes ++ byte :: rest)
    (notSpace : isSpace byte = false) : skipWsAt payload p = p + gap.bytes.length := by
  apply skipWhileAt_here isHere gap.spaces
  rintro other ⟨⟩
  exact notSpace

theorem length_content_cons (piece : Piece) (pieces : List Piece) :
    (content (piece :: pieces)).length = piece.bytes.length + (content pieces).length := by
  rw [content,List.flatMap_cons,List.length_append]
  rfl

theorem scanStringEndAt_content (pieces : List Piece)
    (isHere : payload.drop p = content pieces ++ quote :: rest) :
    scanStringEndAt payload p = .ok (p + (content pieces).length) := by
  induction pieces generalizing p with
  | nil =>
      obtain ⟨inside,isByte,-⟩ := byte_here isHere
      rw [scanStringEndAt,dif_pos inside,if_pos isByte]
      rfl
  | cons piece pieces ih =>
      cases piece with
      | plain byte notQuote notBackslash =>
          obtain ⟨inside,isByte,behind⟩ := byte_here isHere
          have length := length_content_cons (.plain byte notQuote notBackslash) pieces
          rw [scanStringEndAt,dif_pos inside,isByte,if_neg notQuote,if_neg notBackslash,
            ih behind,length,← Nat.add_assoc]
          rfl
      | escaped byte =>
          obtain ⟨inside,isByte,escapeHere⟩ := byte_here isHere
          obtain ⟨escapeInside,-,behind⟩ := byte_here escapeHere
          have length := length_content_cons (.escaped byte) pieces
          rw [scanStringEndAt,dif_pos inside,isByte,if_neg (by decide),if_pos rfl,
            if_neg (Nat.not_le.mpr escapeInside),ih behind,length,← Nat.add_assoc]
          rfl

section Containers

variable {overflowChecks : Bool} {bracket : Bracket} {depth : Int}

theorem scanBalancedAt_inString (opening closing : UInt8) (pieces : List Piece)
    (isHere : payload.drop p = content pieces ++ quote :: rest) :
    scanBalancedAt payload overflowChecks opening closing p depth true =
      scanBalancedAt payload overflowChecks opening closing (p + (content pieces).length + 1) depth
        false := by
  induction pieces generalizing p with
  | nil =>
      obtain ⟨inside,isByte,-⟩ := byte_here isHere
      rw [scanBalancedAt,dif_pos inside]
      dsimp only
      rw [if_pos rfl,if_pos isByte]
      rfl
  | cons piece pieces ih =>
      cases piece with
      | plain byte notQuote notBackslash =>
          obtain ⟨inside,isByte,behind⟩ := byte_here isHere
          have length := length_content_cons (.plain byte notQuote notBackslash) pieces
          rw [scanBalancedAt,dif_pos inside]
          dsimp only
          rw [if_pos rfl,isByte,if_neg notQuote,if_neg notBackslash,ih behind,length,← Nat.add_assoc]
          rfl
      | escaped byte =>
          obtain ⟨inside,isByte,escapeHere⟩ := byte_here isHere
          obtain ⟨escapeInside,-,behind⟩ := byte_here escapeHere
          have length := length_content_cons (.escaped byte) pieces
          rw [scanBalancedAt,dif_pos inside]
          dsimp only
          rw [if_pos rfl,isByte,if_neg (by decide),if_pos rfl,
            if_neg (Nat.not_le.mpr escapeInside),ih behind,length,← Nat.add_assoc]
          rfl

theorem addI32_eq {left right : Int} (fits : -2 ^ 31 ≤ left + right ∧ left + right < 2 ^ 31) :
    addI32 overflowChecks left right = .ok (left + right) :=
  if_pos fits

theorem opening_ne_quote (bracket : Bracket) : bracket.opening ≠ quote := by
  cases bracket with
  | brace => decide
  | square => decide

theorem closing_ne_quote (bracket : Bracket) : bracket.closing ≠ quote := by
  cases bracket with
  | brace => decide
  | square => decide

theorem closing_ne_opening (bracket : Bracket) : bracket.closing ≠ bracket.opening := by
  cases bracket with
  | brace => decide
  | square => decide

theorem scanBalancedAt_opening (isHere : payload.drop p = bracket.opening :: rest)
    (outside : 0 ≤ depth) (fits : depth + 1 < 2 ^ 31) :
    scanBalancedAt payload overflowChecks bracket.opening bracket.closing p depth false =
      scanBalancedAt payload overflowChecks bracket.opening bracket.closing (p + 1) (depth + 1)
        false := by
  obtain ⟨inside,isByte,-⟩ := byte_here isHere
  rw [scanBalancedAt,dif_pos inside]
  dsimp only
  rw [if_neg Bool.false_ne_true,isByte,if_neg (opening_ne_quote bracket),if_pos rfl,
    addI32_eq ⟨by omega,fits⟩]
  rfl

theorem scanBalancedAt_closing (isHere : payload.drop p = bracket.closing :: rest)
    (outside : 0 < depth) (fits : depth < 2 ^ 31) :
    scanBalancedAt payload overflowChecks bracket.opening bracket.closing p depth false =
      if depth - 1 = 0 then .ok (p + 1)
      else scanBalancedAt payload overflowChecks bracket.opening bracket.closing (p + 1)
        (depth - 1) false := by
  obtain ⟨inside,isByte,-⟩ := byte_here isHere
  rw [scanBalancedAt,dif_pos inside]
  dsimp only
  rw [if_neg Bool.false_ne_true,isByte,if_neg (closing_ne_quote bracket),
    if_neg (closing_ne_opening bracket),if_pos rfl,addI32_eq ⟨by omega,by omega⟩]
  rfl

theorem scanBalancedAt_balanced {text : List UInt8} (balanced : Balanced bracket text)
    (isHere : payload.drop p = text ++ rest) (outside : 0 < depth)
    (fits : 2 * depth + text.length < 2 ^ 32) :
    scanBalancedAt payload overflowChecks bracket.opening bracket.closing p depth false =
      scanBalancedAt payload overflowChecks bracket.opening bracket.closing (p + text.length) depth
        false := by
  induction balanced generalizing p depth rest with
  | empty => rfl
  | byte notQuote notOpening notClosing =>
      obtain ⟨inside,isByte,-⟩ := byte_here isHere
      rw [scanBalancedAt,dif_pos inside]
      dsimp only
      rw [if_neg Bool.false_ne_true,isByte,if_neg notQuote,if_neg notOpening,
        if_neg notClosing]
      rfl
  | string pieces =>
      have text : stringText pieces ++ rest = quote :: (content pieces ++ quote :: rest) := by
        rw [stringText,List.append_assoc]
        rfl
      rw [text] at isHere
      obtain ⟨inside,isByte,behind⟩ := byte_here isHere
      have length : (stringText pieces).length = 1 + (content pieces).length + 1 := by
        rw [stringText,List.length_append,List.length_cons,List.length_singleton]
        omega
      rw [scanBalancedAt,dif_pos inside]
      dsimp only
      rw [if_neg Bool.false_ne_true,if_pos isByte,scanBalancedAt_inString _ _ pieces behind,
        length]
      congr 1
      omega
  | @nest inner _ ih =>
      have text : enclosed bracket inner ++ rest =
          bracket.opening :: (inner ++ bracket.closing :: rest) := by
        rw [enclosed,List.append_assoc]
        rfl
      have length : (enclosed bracket inner).length = inner.length + 2 := by
        rw [enclosed,List.length_append,List.length_cons,List.length_singleton]
      rw [text] at isHere
      rw [length] at fits ⊢
      obtain ⟨-,-,innerHere⟩ := byte_here isHere
      have closingHere := drop_here innerHere
      have notZero : depth + 1 - 1 ≠ 0 := by omega
      rw [scanBalancedAt_opening isHere (by omega) (by omega),
        ih innerHere (by omega) (by omega),scanBalancedAt_closing closingHere (by omega) (by omega),
        if_neg notZero,Int.add_sub_cancel]
      congr 1
      omega
  | @append first second _ _ ihFirst ihSecond =>
      rw [List.append_assoc] at isHere
      rw [List.length_append] at fits ⊢
      rw [ihFirst isHere outside (by omega),ihSecond (drop_here isHere) outside (by omega),
        Nat.add_assoc]

theorem scanBalancedAt_enclosed {inner : List UInt8} (balanced : Balanced bracket inner)
    (isHere : payload.drop p = enclosed bracket inner ++ rest)
    (fits : (enclosed bracket inner).length < 2 ^ 32) :
    scanBalancedAt payload overflowChecks bracket.opening bracket.closing p 0 false =
      .ok (p + (enclosed bracket inner).length) := by
  have text : enclosed bracket inner ++ rest =
      bracket.opening :: (inner ++ bracket.closing :: rest) := by
    rw [enclosed,List.append_assoc]
    rfl
  have length : (enclosed bracket inner).length = inner.length + 2 := by
    rw [enclosed,List.length_append,List.length_cons,List.length_singleton]
  rw [text] at isHere
  rw [length] at fits ⊢
  obtain ⟨-,-,innerHere⟩ := byte_here isHere
  have closingHere := drop_here innerHere
  rw [scanBalancedAt_opening isHere le_rfl (by decide),
    scanBalancedAt_balanced balanced innerHere (by decide) (by omega),
    scanBalancedAt_closing closingHere (by decide) (by decide),if_pos (by decide)]
  congr 1
  omega

end Containers

/-- What follows a value ends a word and a number. -/
def Ends (tail : List UInt8) : Prop :=
  ∀ byte, tail.head? = some byte → isAlphabetic byte = false ∧ isNumeric byte = false

theorem isNumeric_decimal {byte : UInt8} (decimal : isDecimal byte = true) :
    isNumeric byte = true := by
  have digit : isDigit byte = true := decimal
  rw [isNumeric,digit]
  rfl

theorem isNumeric_digits (digits : Digits) : ∀ byte ∈ digits.bytes, isNumeric byte = true :=
  fun byte member => isNumeric_decimal (digits.decimal byte member)

theorem isNumeric_sign {negative : Bool} :
    ∀ byte ∈ Number.signBytes negative, isNumeric byte = true := by
  apply List.all_eq_true.mp
  cases negative with
  | true => rfl
  | false => rfl

theorem isNumeric_fraction (fraction : Option Digits) :
    ∀ byte ∈ Number.fractionBytes fraction, isNumeric byte = true := by
  intro byte member
  cases fraction with
  | none => cases member
  | some digits =>
      rcases List.mem_cons.mp member with rfl | inDigits
      · rfl
      · exact isNumeric_digits digits byte inDigits

theorem isNumeric_exponentSign (sign : Option Bool) :
    ∀ byte ∈ Number.exponentSign sign, isNumeric byte = true := by
  apply List.all_eq_true.mp
  cases sign with
  | none => rfl
  | some negative =>
      cases negative with
      | true => rfl
      | false => rfl

theorem isNumeric_exponent (exponent : Option (Bool × Option Bool × Digits)) :
    ∀ byte ∈ Number.exponentBytes exponent, isNumeric byte = true := by
  intro byte member
  cases exponent with
  | none => cases member
  | some parts =>
      obtain ⟨upper,sign,digits⟩ := parts
      rw [Number.exponentBytes] at member
      rcases List.mem_cons.mp member with rfl | behind
      · cases upper with
        | true => decide
        | false => decide
      · rcases List.mem_append.mp behind with inSign | inDigits
        · exact isNumeric_exponentSign sign byte inSign
        · exact isNumeric_digits digits byte inDigits

theorem isNumeric_number (number : Number) : ∀ byte ∈ number.bytes, isNumeric byte = true := by
  intro byte member
  rw [Number.bytes] at member
  rcases List.mem_append.mp member with inFront | inExponent
  · rcases List.mem_append.mp inFront with inWhole | inFraction
    · rcases List.mem_append.mp inWhole with inSign | inDigits
      · exact isNumeric_sign byte inSign
      · exact isNumeric_digits number.whole byte inDigits
    · exact isNumeric_fraction number.fraction byte inFraction
  · exact isNumeric_exponent number.exponent byte inExponent

theorem number_starts (number : Number) :
    ∃ first others, number.bytes = first :: others ∧ (first = 0x2D ∨ isDigit first = true) := by
  obtain ⟨negative,whole,-,fraction,exponent⟩ := number
  cases negative with
  | true => exact ⟨0x2D,_,rfl,.inl rfl⟩
  | false =>
      cases isWhole : whole.bytes with
      | nil => exact absurd isWhole whole.some
      | cons first others =>
          have decimal := whole.decimal first (by rw [isWhole]; exact List.mem_cons_self)
          refine ⟨first,others ++ Number.fractionBytes fraction ++ Number.exponentBytes exponent,
            ?_,.inr decimal⟩
          simp only [Number.bytes,Number.signBytes,isWhole,Bool.false_eq_true,if_false,
            List.nil_append,List.cons_append]

section Values

variable {overflowChecks : Bool}
variable {first : UInt8}

theorem scanValueEndAt_word {word : List UInt8} {others : List UInt8}
    (isWord : word = first :: others) (starts : first = 0x74 ∨ first = 0x66 ∨ first = 0x6E)
    (areLetters : ∀ byte ∈ word, isAlphabetic byte = true) (isHere : payload.drop p = word ++ rest)
    (ends : Ends rest) : scanValueEndAt payload overflowChecks p = .ok (p + word.length) := by
  have passed := skipWhileAt_here isHere areLetters fun byte isHead => (ends byte isHead).1
  rw [isWord] at isHere
  rw [scanValueEndAt,getElem?_here isHere,passed]
  rcases starts with rfl | rfl | rfl
  · rfl
  · rfl
  · rfl

theorem first_of_number (starts : first = 0x2D ∨ isDigit first = true) :
    first ≠ Bracket.brace.opening ∧ first ≠ Bracket.square.opening ∧ first ≠ quote ∧
      (decide (first = 0x74) || decide (first = 0x66) || decide (first = 0x6E)) = false ∧
      (decide (first = 0x2D) || isDigit first) = true := by
  rcases starts with rfl | digit
  · decide
  · have range : 0x30 ≤ first ∧ first ≤ 0x39 := by
      rw [isDigit,Bool.and_eq_true,decide_eq_true_iff,decide_eq_true_iff] at digit
      exact digit
    have below : ∀ {other : UInt8}, 0x39 < other → first ≠ other := by
      rintro other above rfl
      exact absurd range.2 (UInt8.not_le.mpr above)
    have notQuote : first ≠ quote := by
      rintro rfl
      exact absurd range.1 (by decide)
    refine ⟨below (by decide),below (by decide),notQuote,?_,?_⟩
    · rw [decide_eq_false (below (by decide)),decide_eq_false (below (by decide)),
        decide_eq_false (below (by decide))]
      rfl
    · rw [digit,Bool.or_true]

theorem scanValueEndAt_number (number : Number) (isHere : payload.drop p = number.bytes ++ rest)
    (ends : Ends rest) :
    scanValueEndAt payload overflowChecks p = .ok (p + number.bytes.length) := by
  have passed := skipWhileAt_here isHere (isNumeric_number number)
    fun byte isHead => (ends byte isHead).2
  obtain ⟨first,others,isBytes,starts⟩ := number_starts number
  obtain ⟨notBrace,notSquare,notQuote,notWord,isFirst⟩ := first_of_number starts
  have firstHere : payload.drop p = first :: (others ++ rest) := by
    rw [isHere,isBytes,List.cons_append]
  rw [scanValueEndAt,getElem?_here firstHere]
  simp only [if_neg notBrace,if_neg notSquare,if_neg notQuote,notWord,isFirst,passed,
    Bool.false_eq_true,if_false,if_true]

theorem scanValueEndAt_scalar {bytes : List UInt8} (scalar : IsScalar bytes)
    (isHere : payload.drop p = bytes ++ rest) (ends : Ends rest) :
    scanValueEndAt payload overflowChecks p = .ok (p + bytes.length) := by
  cases scalar with
  | true => exact scanValueEndAt_word rfl (.inl rfl) (List.all_eq_true.mp rfl) isHere ends
  | false => exact scanValueEndAt_word rfl (.inr (.inl rfl)) (List.all_eq_true.mp rfl) isHere ends
  | null => exact scanValueEndAt_word rfl (.inr (.inr rfl)) (List.all_eq_true.mp rfl) isHere ends
  | number number => exact scanValueEndAt_number number isHere ends

theorem scanValueEndAt_string (pieces : List Piece)
    (isHere : payload.drop p = stringText pieces ++ rest) :
    scanValueEndAt payload overflowChecks p = .ok (p + (stringText pieces).length) := by
  have text : stringText pieces ++ rest = quote :: (content pieces ++ quote :: rest) := by
    rw [stringText,List.append_assoc]
    rfl
  rw [text] at isHere
  obtain ⟨-,-,behind⟩ := byte_here isHere
  have length : (stringText pieces).length = 1 + (content pieces).length + 1 := by
    rw [stringText,List.length_append,List.length_cons,List.length_singleton]
    omega
  have notBrace : quote ≠ Bracket.brace.opening := by decide
  have notSquare : quote ≠ Bracket.square.opening := by decide
  rw [scanValueEndAt,getElem?_here isHere]
  simp only [if_neg notBrace,if_neg notSquare,if_true,scanStringEndAt_content pieces behind,
    bind,Except.bind]
  rw [length,← Nat.add_assoc,← Nat.add_assoc]
  rfl

theorem scanValueEndAt_container {bracket : Bracket} {inner : List UInt8}
    (balanced : Balanced bracket inner) (isHere : payload.drop p = enclosed bracket inner ++ rest)
    (fits : (enclosed bracket inner).length < 2 ^ 32) :
    scanValueEndAt payload overflowChecks p = .ok (p + (enclosed bracket inner).length) := by
  have found := @scanBalancedAt_enclosed payload p rest overflowChecks bracket inner balanced isHere
    fits
  have text : enclosed bracket inner ++ rest =
      bracket.opening :: (inner ++ [bracket.closing] ++ rest) := rfl
  rw [text] at isHere
  rw [scanValueEndAt,getElem?_here isHere]
  cases bracket with
  | brace => exact found
  | square => exact found

theorem scanValueEndAt_value {value : Doc} (isValue : value.IsValue)
    (isHere : payload.drop p = value.text ++ rest) (ends : Ends rest)
    (fits : value.text.length < 2 ^ 32) :
    scanValueEndAt payload overflowChecks p = .ok (p + value.text.length) := by
  cases value with
  | token token => exact scanValueEndAt_scalar isValue isHere ends
  | string pieces => exact scanValueEndAt_string pieces isHere
  | emptyArray inside => exact scanValueEndAt_container (.gap inside) isHere fits
  | array items => exact scanValueEndAt_container (items.balanced .square) isHere fits
  | emptyObject inside => exact scanValueEndAt_container (.gap inside) isHere fits
  | object members => exact scanValueEndAt_container (members.balanced .brace) isHere fits

end Values

theorem decodeJsonStringFragment_written {libraries : JsonLibraries} {items : List StringItem}
    (reads : backslash ∈ writtenBytes items →
      libraries.stringFromSlice (quote :: writtenBytes items ++ [quote]) = .ok (meantText items)) :
    decodeJsonStringFragment libraries (writtenBytes items) = .ok (meantText items) := by
  have isText : writtenBytes items = strAsBytes (String.ofList (writtenText items)) := by
    rw [strAsBytes_eq,String.toList_ofList]
    rfl
  have decoded : strFromUtf8 (writtenBytes items) = some (String.ofList (writtenText items)) := by
    rw [isText,strFromUtf8_strAsBytes]
  rw [decodeJsonStringFragment,decoded]
  dsimp only
  split
  · rename_i noBackslash
    have plain : '\\' ∉ writtenText items := by
      intro member
      exact noBackslash (List.mem_flatMap.mpr ⟨'\\',member,by decide⟩)
    rw [meantText,writtenText_plain plain]
  · rename_i escaped
    rw [reads (not_not.mp escaped)]

/-- A member whose value is found; under the key of the event it says the name. -/
def MemberReads (libraries : JsonLibraries) (name : String) (member : List UInt8 × Doc) : Prop :=
  member.2.IsValue ∧ (member.1 = eventKey → ∃ pieces, member.2 = .string pieces ∧
    decodeJsonStringFragment libraries (content pieces) = .ok name)

def memberStep (name : String) (parts : EnvelopeParts) (member : List UInt8 × Doc) :
    EnvelopeParts :=
  if member.1 = eventKey then { parts with eventName := some name }
  else if member.1 = bodyKey then { parts with bodySlice := some member.2.text }
  else parts

section Members

variable {libraries : JsonLibraries} {overflowChecks : Bool} {name : String}
  {parts : EnvelopeParts}
variable {separator : UInt8}

theorem scanMemberAt_reads {key : List UInt8} {value : Doc}
    (reads : MemberReads libraries name (key,value)) (inside : p ≤ payload.length)
    (isHere : payload.drop p = value.text ++ rest) (ends : Ends rest)
    (fits : value.text.length < 2 ^ 32) :
    scanMemberAt libraries overflowChecks payload key parts p =
      .ok (memberStep name parts (key,value),p + value.text.length) := by
  obtain ⟨isValue,saysName⟩ := reads
  by_cases isEvent : key = eventKey
  · obtain ⟨pieces,isString,decoded⟩ := saysName isEvent
    dsimp only at isString
    rw [isString] at isHere ⊢
    have text : (Doc.string pieces).text ++ rest = quote :: (content pieces ++ quote :: rest) := by
      rw [Doc.text,stringText,List.append_assoc]
      rfl
    have length : (Doc.string pieces).text.length = 1 + (content pieces).length + 1 := by
      rw [Doc.text,stringText,List.length_append,List.length_cons,List.length_singleton]
      omega
    rw [text] at isHere
    obtain ⟨before,-,behind⟩ := byte_here isHere
    have isQuote : ¬ payload[p]? ≠ some quote := not_not.mpr (getElem?_here isHere)
    rw [scanMemberAt,if_pos isEvent,if_neg isQuote]
    simp only [scanStringEndAt_content pieces behind,sliceAt_here behind before,decoded,bind,
      Except.bind,Except.mapError,memberStep,if_pos isEvent]
    rw [length,← Nat.add_assoc,← Nat.add_assoc]
    rfl
  · have ended := @scanValueEndAt_value payload p rest overflowChecks value isValue isHere ends fits
    rw [scanMemberAt,if_neg isEvent,ended]
    simp only [bind,Except.bind,memberStep,if_neg isEvent]
    split
    · rw [sliceAt_here isHere inside]
      rfl
    · rfl

theorem value_starts {value : Doc} (isValue : value.IsValue) :
    ∃ first others, value.text = first :: others ∧ isSpace first = false := by
  cases value with
  | token token =>
      obtain ⟨bytes,plain⟩ := token
      have scalar : IsScalar bytes := isValue
      rw [Doc.text]
      dsimp only
      cases scalar with
      | true => exact ⟨_,_,rfl,by decide⟩
      | false => exact ⟨_,_,rfl,by decide⟩
      | null => exact ⟨_,_,rfl,by decide⟩
      | number number =>
          obtain ⟨first,others,isBytes,starts⟩ := number_starts number
          refine ⟨first,others,isBytes,?_⟩
          rcases starts with rfl | digit
          · decide
          · rw [isDigit,Bool.and_eq_true,decide_eq_true_iff,decide_eq_true_iff] at digit
            have notSpace : ∀ {other : UInt8}, other < 0x30 → first ≠ other := by
              rintro other below rfl
              exact absurd digit.1 (UInt8.not_le.mpr below)
            simp only [isSpace,Bool.or_eq_false_iff,decide_eq_false_iff_not]
            exact ⟨⟨⟨notSpace (by decide),notSpace (by decide)⟩,notSpace (by decide)⟩,
              notSpace (by decide)⟩
  | string | emptyArray | array | emptyObject | object => exact ⟨_,_,rfl,by decide⟩

theorem ends_gap (gap : Gap) (isSeparator : separator = comma ∨ separator = Bracket.brace.closing) :
    Ends (gap.bytes ++ separator :: rest) := by
  intro byte isHead
  cases isGap : gap.bytes with
  | nil =>
      rw [isGap] at isHead
      cases isHead
      rcases isSeparator with rfl | rfl
      · decide
      · decide
  | cons first others =>
      have space := gap.spaces first (by rw [isGap]; exact List.mem_cons_self)
      rw [isGap] at isHead
      cases isHead
      simp only [isSpace,Bool.or_eq_true,decide_eq_true_eq] at space
      rcases space with ((rfl | rfl) | rfl) | rfl
      · decide
      · decide
      · decide
      · decide

theorem separator_notSpace (isSeparator : separator = comma ∨ separator = Bracket.brace.closing) :
    isSpace separator = false := by
  rcases isSeparator with rfl | rfl
  · decide
  · decide

theorem envelopeRoundAt_member {before afterKey beforeValue after : Gap} {key : List Piece}
    {value : Doc} {separator : UInt8}
    (isSeparator : separator = comma ∨ separator = Bracket.brace.closing)
    (reads : MemberReads libraries name (content key,value))
    (isHere : payload.drop p = memberText before key afterKey beforeValue value.text after ++
      separator :: rest) (fits : value.text.length < 2 ^ 32) :
    envelopeRoundAt libraries overflowChecks payload parts p =
      if separator = comma then
        .ok (.more (memberStep name parts (content key,value))
          (p + (memberText before key afterKey beforeValue value.text after).length + 1))
      else .ok (.done (memberStep name parts (content key,value))) := by
  have whole : memberText before key afterKey beforeValue value.text after ++ separator :: rest =
      before.bytes ++ quote :: (content key ++ quote :: (afterKey.bytes ++ colon ::
        (beforeValue.bytes ++ (value.text ++ (after.bytes ++ separator :: rest))))) := by
    simp only [memberText,stringText,List.append_assoc,List.cons_append,List.nil_append]
  have length : (memberText before key afterKey beforeValue value.text after).length =
      before.bytes.length + 1 + (content key).length + 1 + afterKey.bytes.length + 1 +
        beforeValue.bytes.length + value.text.length + after.bytes.length := by
    simp only [memberText,stringText,List.length_append,List.length_cons,List.length_nil]
    omega
  rw [whole] at isHere
  obtain ⟨first,others,isText,notSpace⟩ := value_starts reads.1
  have toQuote := skipWsAt_gap before isHere (by decide)
  have quoteHere := drop_here isHere
  obtain ⟨quoteInside,-,keyHere⟩ := byte_here quoteHere
  have keyEnd := scanStringEndAt_content key keyHere
  have endHere := drop_here keyHere
  obtain ⟨-,-,behindKey⟩ := byte_here endHere
  have toColon := skipWsAt_gap afterKey behindKey (by decide)
  have colonHere := drop_here behindKey
  obtain ⟨colonInside,-,behindColon⟩ := byte_here colonHere
  have gapHere := behindColon
  rw [isText] at gapHere
  have toValue := skipWsAt_gap beforeValue gapHere notSpace
  have valueHere := drop_here behindColon
  have valueInside := (byte_here (drop_here gapHere)).1
  have member := @scanMemberAt_reads payload _ (after.bytes ++ separator :: rest) libraries
    overflowChecks name parts (content key) value reads (Nat.le_of_lt valueInside) valueHere
    (ends_gap after isSeparator) fits
  have toSeparator := skipWsAt_gap after (drop_here valueHere) (separator_notSpace isSeparator)
  have separatorHere := getElem?_here (drop_here (drop_here valueHere))
  have notBrace : quote ≠ Bracket.brace.closing := by decide
  have isColon : ¬ payload[p + before.bytes.length + 1 + (content key).length + 1 +
      afterKey.bytes.length]? ≠ some colon := not_not.mpr (getElem?_here colonHere)
  unfold envelopeRoundAt
  simp only [toQuote,getElem?_here quoteHere,if_neg notBrace,ne_eq,not_true_eq_false,if_false,
    keyEnd,sliceAt_here keyHere quoteInside,toColon,if_neg isColon,toValue,member,bind,
    Except.bind]
  rw [scanSeparatorAt]
  simp only [toSeparator,separatorHere]
  rcases isSeparator with rfl | rfl
  · rw [if_pos rfl,if_pos rfl,length]
    congr 2
    omega
  · rw [if_neg (by decide),if_pos rfl,if_neg (by decide)]

end Members

end Here

end Beava.Server
