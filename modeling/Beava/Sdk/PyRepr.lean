/-
The `repr` of the SDK's language.

Strings are sequences of code points, of which surrogates are no characters.  Which
characters are printable, and which are the shortest digits of a float that are
read as this float, are parameters; the texts are made from them as the reference
implementation of the language does.
-/

import Beava.Core.Parser
import Beava.Core.Spelling

namespace Beava.Sdk

open Beava.Core

/-- A code point of a `str`. -/
inductive CodePoint where
  | scalar (ch : Char)
  | surrogate (offset : Fin 2048)
  deriving DecidableEq, Repr

abbrev PyStr := List CodePoint

def hexDigits : Nat → Nat → List Char
  | 0, _ => []
  | count + 1, code => hexDigits count (code / 16) ++ [(code % 16).digitChar]

def escapeCode (code : Nat) : List Char :=
  if code ≤ 0xff then '\\' :: 'x' :: hexDigits 2 code
  else if code ≤ 0xffff then '\\' :: 'u' :: hexDigits 4 code
  else '\\' :: 'U' :: hexDigits 8 code

/-- The digits of a number and the place of its decimal point: so many of them, or
of the zeros behind or in front of them, are before the point. -/
structure Decimal where
  digits : List Char
  areDigits : Digits digits
  point : Int

namespace Decimal

def usesExponent (decimal : Decimal) : Bool :=
  decimal.point ≤ -4 || 16 < decimal.point

def exponentText (exponent : Int) : List Char :=
  let digits := Nat.toDigits 10 exponent.natAbs
  (if exponent < 0 then '-' else '+') :: (if digits.length < 2 then '0' :: digits else digits)

/-- The digits behind the first one, with the decimal point. -/
def fractionText : List Char → List Char
  | [] => []
  | digits => '.' :: digits

def text (decimal : Decimal) : List Char :=
  if decimal.usesExponent then
    decimal.digits.take 1 ++ fractionText (decimal.digits.drop 1) ++
      'e' :: exponentText (decimal.point - 1)
  else if decimal.point ≤ 0 then
    '0' :: '.' :: (List.replicate (-decimal.point).toNat '0' ++ decimal.digits)
  else if decimal.digits.length ≤ decimal.point.toNat then
    decimal.digits ++
      List.replicate (decimal.point.toNat - decimal.digits.length) '0' ++ ['.','0']
  else decimal.digits.take decimal.point.toNat ++ '.' :: decimal.digits.drop decimal.point.toNat

end Decimal

/-- What `repr` is made from. -/
structure Python where
  isPrintable : Char → Bool
  shortest : F64 → Decimal

section Repr

variable (python : Python)

def reprPoint (quote : Char) : CodePoint → List Char
  | .surrogate offset => escapeCode (0xd800 + offset.val)
  | .scalar ch =>
      if ch = quote || ch = '\\' then ['\\',ch]
      else if ch = '\t' then ['\\','t']
      else if ch = '\n' then ['\\','n']
      else if ch = '\r' then ['\\','r']
      else if ch < ' ' || ch = '\x7f' then escapeCode ch.toNat
      else if ch < '\x7f' then [ch]
      else if python.isPrintable ch then [ch]
      else escapeCode ch.toNat

/-- Double quotes are taken for a text that has single quotes alone. -/
def reprQuote (text : PyStr) : Char :=
  if .scalar '\'' ∈ text ∧ .scalar '\"' ∉ text then '\"' else '\''

def reprStr (text : PyStr) : String :=
  let quote := reprQuote text
  String.ofList (quote :: (text.flatMap (reprPoint python quote) ++ [quote]))

def signText (negative : Bool) : List Char :=
  if negative then ['-'] else []

def reprInt (number : Int) : String :=
  String.ofList (signText (decide (number < 0)) ++ Nat.toDigits 10 number.natAbs)

def isNegative (number : F64) : Bool :=
  0x8000000000000000 ≤ number.bits

def magnitude (number : F64) : F64 :=
  ⟨number.bits &&& 0x7FFFFFFFFFFFFFFF⟩

def isFinite (number : F64) : Bool :=
  (magnitude number).bits < 0x7FF0000000000000

def reprFloat (number : F64) : String :=
  if number.isNaN then "nan"
  else
    String.ofList (signText (isNegative number) ++
      if isFinite number then (python.shortest (magnitude number)).text else ['i','n','f'])

end Repr

end Beava.Sdk
