/-
JSON strings and their meaning.

A character of a string may be written as it is, with a short escape or with one
or two units of UTF-16.  What is written and what it means are two lists of
characters.  A number has a sign, digits, a fraction and an exponent.
-/

import Beava.Lib.JsonText

namespace JsonText

/-! ### Strings -/

/-- A digit of an escape, in either case. -/
structure HexDigit where
  value : Fin 16
  upper : Bool

namespace HexDigit

def char (digit : HexDigit) : Char :=
  if digit.upper then (Nat.digitChar digit.value).toUpper else Nat.digitChar digit.value

end HexDigit

/-- Four digits of an escape. -/
structure HexUnit where
  first : HexDigit
  second : HexDigit
  third : HexDigit
  fourth : HexDigit

namespace HexUnit

def value (unit : HexUnit) : Nat :=
  ((unit.first.value * 16 + unit.second.value) * 16 + unit.third.value) * 16 + unit.fourth.value

def chars (unit : HexUnit) : List Char :=
  ['\\','u',unit.first.char,unit.second.char,unit.third.char,unit.fourth.char]

end HexUnit

/-- The escapes of one letter. -/
inductive ShortEscape where
  | quotation
  | reverseSolidus
  | solidus
  | backspace
  | formFeed
  | lineFeed
  | carriageReturn
  | tab

namespace ShortEscape

def letter : ShortEscape → Char
  | quotation => '"'
  | reverseSolidus => '\\'
  | solidus => '/'
  | backspace => 'b'
  | formFeed => 'f'
  | lineFeed => 'n'
  | carriageReturn => 'r'
  | tab => 't'

def char : ShortEscape → Char
  | quotation => '"'
  | reverseSolidus => '\\'
  | solidus => '/'
  | backspace => Char.ofNat 0x08
  | formFeed => Char.ofNat 0x0C
  | lineFeed => Char.ofNat 0x0A
  | carriageReturn => Char.ofNat 0x0D
  | tab => Char.ofNat 0x09

end ShortEscape

inductive StringItem where
  | plain (ch : Char) (notQuote : ch ≠ '"') (notBackslash : ch ≠ '\\') (notControl : 0x20 ≤ ch.val)
  | short (escape : ShortEscape)
  | codeUnit (digits : HexUnit) (notSurrogate : digits.value < 0xD800 ∨ 0xE000 ≤ digits.value)
  | pair (high low : HexUnit) (isHigh : 0xD800 ≤ high.value ∧ high.value < 0xDC00)
      (isLow : 0xDC00 ≤ low.value ∧ low.value < 0xE000)

namespace StringItem

def written : StringItem → List Char
  | plain ch _ _ _ => [ch]
  | short escape => ['\\',escape.letter]
  | codeUnit digits _ => digits.chars
  | pair high low _ _ => high.chars ++ low.chars

def meaning : StringItem → Char
  | plain ch _ _ _ => ch
  | short escape => escape.char
  | codeUnit digits _ => Char.ofNat digits.value
  | pair high low _ _ =>
      Char.ofNat (0x10000 + (high.value - 0xD800) * 0x400 + (low.value - 0xDC00))

end StringItem

def writtenText (items : List StringItem) : List Char := items.flatMap StringItem.written

def writtenBytes (items : List StringItem) : List UInt8 :=
  (writtenText items).flatMap String.utf8EncodeChar

def meantText (items : List StringItem) : String := String.ofList (items.map StringItem.meaning)

theorem writtenText_plain {items : List StringItem} (plain : '\\' ∉ writtenText items) :
    writtenText items = items.map StringItem.meaning := by
  induction items with
  | nil => rfl
  | cons item rest ih =>
      rw [writtenText,List.flatMap_cons,List.mem_append,not_or] at plain
      have restPlain := ih plain.2
      rw [writtenText] at restPlain ⊢
      rw [List.flatMap_cons,restPlain,List.map_cons]
      cases item with
      | plain ch notQuote notBackslash notControl => rfl
      | short escape => exact absurd List.mem_cons_self plain.1
      | codeUnit digits _ => exact absurd List.mem_cons_self plain.1
      | pair high low isHigh isLow => exact absurd List.mem_cons_self plain.1

/-! ### Numbers and words -/

def isDecimal (byte : UInt8) : Bool := 0x30 ≤ byte && byte ≤ 0x39

/-- Digits, at least one. -/
structure Digits where
  bytes : List UInt8
  some : bytes ≠ []
  decimal : ∀ byte ∈ bytes, isDecimal byte = true

/-- A number, as it is written. -/
structure Number where
  negative : Bool
  whole : Digits
  noLeadingZero : whole.bytes.head? = some 0x30 → whole.bytes.length = 1
  fraction : Option Digits
  exponent : Option (Bool × Option Bool × Digits)

namespace Number

def signBytes (negative : Bool) : List UInt8 := if negative then [0x2D] else []

def fractionBytes : Option Digits → List UInt8
  | none => []
  | some digits => 0x2E :: digits.bytes

def exponentSign : Option Bool → List UInt8
  | none => []
  | some negative => if negative then [0x2D] else [0x2B]

def exponentBytes : Option (Bool × Option Bool × Digits) → List UInt8
  | none => []
  | some (upper,sign,digits) =>
      (if upper then 0x45 else 0x65) :: (exponentSign sign ++ digits.bytes)

def bytes (number : Number) : List UInt8 :=
  signBytes number.negative ++ number.whole.bytes ++ fractionBytes number.fraction ++
    exponentBytes number.exponent

end Number

def trueWord : List UInt8 := [0x74,0x72,0x75,0x65]

def falseWord : List UInt8 := [0x66,0x61,0x6C,0x73,0x65]

def nullWord : List UInt8 := [0x6E,0x75,0x6C,0x6C]

/-- A token that is a value. -/
inductive IsScalar : List UInt8 → Prop where
  | true : IsScalar trueWord
  | false : IsScalar falseWord
  | null : IsScalar nullWord
  | number (number : Number) : IsScalar number.bytes

/-- A document whose token, when it is one, is a value. -/
def Doc.IsValue : Doc → Prop
  | .token scalar => IsScalar scalar.bytes
  | _ => True

end JsonText
