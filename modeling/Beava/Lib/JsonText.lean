/-
JSON texts, with all their bytes.

A document is what a text spells: where the blanks are, how the strings are escaped
and how the numbers are written is a part of it, and a key may come more than once.
A text is balanced for a pair of brackets when every bracket of the pair that is not
in a string is closed in it.
-/

import Mathlib.Data.List.Basic

namespace JsonText

def quote : UInt8 := 0x22

def backslash : UInt8 := 0x5C

def comma : UInt8 := 0x2C

def colon : UInt8 := 0x3A

def isSpace (byte : UInt8) : Bool :=
  byte = 0x20 || byte = 0x09 || byte = 0x0A || byte = 0x0D

/-- The pairs that enclose a value. -/
inductive Bracket where
  | brace
  | square
  deriving DecidableEq

namespace Bracket

def opening : Bracket → UInt8
  | brace => 0x7B
  | square => 0x5B

def closing : Bracket → UInt8
  | brace => 0x7D
  | square => 0x5D

end Bracket

/-- Bytes that mean something outside a string. -/
def isStructural (byte : UInt8) : Bool :=
  byte = quote || byte = Bracket.brace.opening || byte = Bracket.brace.closing ||
    byte = Bracket.square.opening || byte = Bracket.square.closing

/-! ### Documents -/

/-- Blanks between two tokens. -/
structure Gap where
  bytes : List UInt8
  spaces : ∀ byte ∈ bytes, isSpace byte = true

namespace Gap

def empty : Gap := ⟨[],fun _ member => (List.not_mem_nil member).elim⟩

end Gap

/-- A number or a word, as it is written. -/
structure Token where
  bytes : List UInt8
  plain : ∀ byte ∈ bytes, isStructural byte = false

/-- One step inside a string. -/
inductive Piece where
  | plain (byte : UInt8) (notQuote : byte ≠ quote) (notBackslash : byte ≠ backslash)
  | escaped (byte : UInt8)

namespace Piece

def bytes : Piece → List UInt8
  | plain byte _ _ => [byte]
  | escaped byte => [backslash,byte]

end Piece

/-- What is between the quotes. -/
def content (pieces : List Piece) : List UInt8 := pieces.flatMap Piece.bytes

def stringText (pieces : List Piece) : List UInt8 := quote :: content pieces ++ [quote]

mutual

inductive Doc where
  | token (token : Token)
  | string (pieces : List Piece)
  | emptyArray (inside : Gap)
  | array (items : Items)
  | emptyObject (inside : Gap)
  | object (members : Members)

inductive Items where
  | last (before : Gap) (item : Doc) (after : Gap)
  | more (before : Gap) (item : Doc) (after : Gap) (rest : Items)

inductive Members where
  | last (before : Gap) (key : List Piece) (afterKey beforeValue : Gap) (value : Doc) (after : Gap)
  | more (before : Gap) (key : List Piece) (afterKey beforeValue : Gap) (value : Doc) (after : Gap)
      (rest : Members)

end

def enclosed (bracket : Bracket) (inside : List UInt8) : List UInt8 :=
  bracket.opening :: inside ++ [bracket.closing]

def memberText (before : Gap) (key : List Piece) (afterKey beforeValue : Gap) (value : List UInt8)
    (after : Gap) : List UInt8 :=
  before.bytes ++ stringText key ++ afterKey.bytes ++ [colon] ++ beforeValue.bytes ++ value ++
    after.bytes

mutual

def Doc.text : Doc → List UInt8
  | .token token => token.bytes
  | .string pieces => stringText pieces
  | .emptyArray inside => enclosed .square inside.bytes
  | .array items => enclosed .square items.text
  | .emptyObject inside => enclosed .brace inside.bytes
  | .object members => enclosed .brace members.text

def Items.text : Items → List UInt8
  | .last before item after => before.bytes ++ item.text ++ after.bytes
  | .more before item after rest =>
      before.bytes ++ item.text ++ after.bytes ++ [comma] ++ rest.text

def Members.text : Members → List UInt8
  | .last before key afterKey beforeValue value after =>
      memberText before key afterKey beforeValue value.text after
  | .more before key afterKey beforeValue value after rest =>
      memberText before key afterKey beforeValue value.text after ++ [comma] ++ rest.text

end

/-- The keys, as they are written, with their values. -/
def Members.list : Members → List (List UInt8 × Doc)
  | .last _ key _ _ value _ => [(content key,value)]
  | .more _ key _ _ value _ rest => (content key,value) :: rest.list

/-- The text of an object starts with a brace. -/
def Doc.isObject : Doc → Bool
  | .emptyObject _ => true
  | .object _ => true
  | _ => false

/-! ### Balance -/

/-- Every bracket of the pair outside a string is closed. -/
inductive Balanced (bracket : Bracket) : List UInt8 → Prop where
  | empty : Balanced bracket []
  | byte {byte : UInt8} (notQuote : byte ≠ quote) (notOpening : byte ≠ bracket.opening)
      (notClosing : byte ≠ bracket.closing) : Balanced bracket [byte]
  | string (pieces : List Piece) : Balanced bracket (stringText pieces)
  | nest {inside : List UInt8} (balanced : Balanced bracket inside) :
      Balanced bracket (enclosed bracket inside)
  | append {first second : List UInt8} (firstBalanced : Balanced bracket first)
      (secondBalanced : Balanced bracket second) : Balanced bracket (first ++ second)

variable {bracket : Bracket}

theorem Balanced.of_bytes {bytes : List UInt8}
    (plain : ∀ byte ∈ bytes, byte ≠ quote ∧ byte ≠ bracket.opening ∧ byte ≠ bracket.closing) :
    Balanced bracket bytes := by
  induction bytes with
  | nil => exact .empty
  | cons byte bytes ih =>
      obtain ⟨notQuote,notOpening,notClosing⟩ := plain byte List.mem_cons_self
      have rest := ih fun other member => plain other (List.mem_cons_of_mem _ member)
      exact (Balanced.byte notQuote notOpening notClosing).append rest

theorem Balanced.token (token : Token) : Balanced bracket token.bytes := by
  apply Balanced.of_bytes
  intro byte member
  have plain := token.plain byte member
  simp only [isStructural,Bool.or_eq_false_iff,decide_eq_false_iff_not] at plain
  obtain ⟨⟨⟨⟨notQuote,notBrace⟩,notBraceEnd⟩,notSquare⟩,notSquareEnd⟩ := plain
  cases bracket with
  | brace => exact ⟨notQuote,notBrace,notBraceEnd⟩
  | square => exact ⟨notQuote,notSquare,notSquareEnd⟩

theorem Balanced.gap (gap : Gap) : Balanced bracket gap.bytes := by
  apply Balanced.of_bytes
  intro byte member
  have space := gap.spaces byte member
  simp only [isSpace,Bool.or_eq_true,decide_eq_true_eq] at space
  rcases space with ((rfl | rfl) | rfl) | rfl
  all_goals cases bracket <;> decide

theorem Balanced.comma : Balanced bracket [JsonText.comma] := by
  cases bracket with
  | brace | square => exact .byte (by decide) (by decide) (by decide)

theorem Balanced.colon : Balanced bracket [JsonText.colon] := by
  cases bracket with
  | brace | square => exact .byte (by decide) (by decide) (by decide)

theorem Balanced.enclosed (other : Bracket) {inside : List UInt8}
    (balanced : Balanced bracket inside) : Balanced bracket (enclosed other inside) := by
  by_cases same : bracket = other
  · subst same
    exact .nest balanced
  · have opening : Balanced bracket [other.opening] := by
      cases bracket <;> cases other
      · exact absurd rfl same
      · exact .byte (by decide) (by decide) (by decide)
      · exact .byte (by decide) (by decide) (by decide)
      · exact absurd rfl same
    have closing : Balanced bracket [other.closing] := by
      cases bracket <;> cases other
      · exact absurd rfl same
      · exact .byte (by decide) (by decide) (by decide)
      · exact .byte (by decide) (by decide) (by decide)
      · exact absurd rfl same
    exact (opening.append balanced).append closing

theorem Balanced.member {value : List UInt8} (balanced : Balanced bracket value) (before : Gap)
    (key : List Piece) (afterKey beforeValue after : Gap) :
    Balanced bracket (memberText before key afterKey beforeValue value after) :=
  ((((((Balanced.gap before).append (.string key)).append (.gap afterKey)).append .colon).append
    (.gap beforeValue)).append balanced).append (.gap after)

mutual

theorem Doc.balanced (bracket : Bracket) : (doc : Doc) → Balanced bracket doc.text
  | .token token => .token token
  | .string pieces => .string pieces
  | .emptyArray inside => (Balanced.gap inside).enclosed .square
  | .array items => (items.balanced bracket).enclosed .square
  | .emptyObject inside => (Balanced.gap inside).enclosed .brace
  | .object members => (members.balanced bracket).enclosed .brace

theorem Items.balanced (bracket : Bracket) : (items : Items) → Balanced bracket items.text
  | .last before item after =>
      ((Balanced.gap before).append (item.balanced bracket)).append (.gap after)
  | .more before item after rest =>
      ((((Balanced.gap before).append (item.balanced bracket)).append (.gap after)).append
        .comma).append (rest.balanced bracket)

theorem Members.balanced (bracket : Bracket) : (members : Members) → Balanced bracket members.text
  | .last before key afterKey beforeValue value after =>
      (value.balanced bracket).member before key afterKey beforeValue after
  | .more before key afterKey beforeValue value after rest =>
      (((value.balanced bracket).member before key afterKey beforeValue after).append
        .comma).append (rest.balanced bracket)

end

theorem Doc.text_of_isObject {doc : Doc} (isObject : doc.isObject = true) :
    ∃ inside, doc.text = JsonText.enclosed .brace inside ∧ Balanced .brace inside := by
  cases doc with
  | emptyObject inside => exact ⟨inside.bytes,rfl,.gap inside⟩
  | object members => exact ⟨members.text,rfl,members.balanced .brace⟩
  | _ => cases isObject

end JsonText
