/-
Equality of values and the texts values are compared by.

The code compares values with an equality of its own: numbers in the binary
format compare as numbers, so that a NaN is not equal to itself and the two zeros
are equal, and values of different kinds are never equal.  The key of a duplicate
is not the value but a text of it.
-/

import Beava.Core.Expr

namespace Beava.Core

/-- `==` on numbers. -/
def F64.partialEq (first second : F64) : Bool :=
  first.partialCmp second = some .eq

def JsonNumber.partialEq : JsonNumber → JsonNumber → Bool
  | .posInt first, .posInt second => first = second
  | .negInt first, .negInt second => first = second
  | .float first, .float second => first.partialEq second
  | _, _ => false

mutual

def Json.partialEq : Json → Json → Bool
  | .null, .null => true
  | .bool first, .bool second => first = second
  | .number first, .number second => first.partialEq second
  | .string first, .string second => first = second
  | .array first, .array second => Json.partialEqItems first second
  | .object first, .object second => Json.partialEqMembers first second
  | _, _ => false

def Json.partialEqItems : List Json → List Json → Bool
  | [], [] => true
  | first :: rest, second :: others => Json.partialEq first second && Json.partialEqItems rest others
  | _, _ => false

def Json.partialEqMembers : List (String × Json) → List (String × Json) → Bool
  | [], [] => true
  | (key,first) :: rest, (other,second) :: others =>
      key = other && Json.partialEq first second && Json.partialEqMembers rest others
  | _, _ => false

end

namespace Value

mutual

/-- `PartialEq for Value`. -/
def partialEq : Value → Value → Bool
  | .null, .null => true
  | .f64 first, .f64 second => first.partialEq second
  | .str first, .str second => first = second
  | .i64 first, .i64 second => first = second
  | .bool first, .bool second => first = second
  | .bytes first, .bytes second => first = second
  | .datetime first, .datetime second => first = second
  | .json first, .json second => first.partialEq second
  | .list first, .list second => partialEqItems first second
  | .map first, .map second => partialEqEntries first second
  | _, _ => false

def partialEqItems : List Value → List Value → Bool
  | [], [] => true
  | first :: rest, second :: others => partialEq first second && partialEqItems rest others
  | _, _ => false

def partialEqEntries : List (String × Value) → List (String × Value) → Bool
  | [], [] => true
  | (key,first) :: rest, (other,second) :: others =>
      key = other && partialEq first second && partialEqEntries rest others
  | _, _ => false

end

end Value

structure JsonTexts where
  display : Json → String
  debug : Json → String

section Texts

variable {Expr : Type} (env : Env Expr) (texts : JsonTexts)

def debugSeq (items : List String) : String :=
  "[" ++ ", ".intercalate items ++ "]"

def debugMap (entries : List String) : String :=
  "\x7b" ++ ", ".intercalate entries ++ "\x7d"

def debugBytes (data : List UInt8) : String :=
  debugSeq (data.map fun byte => toString byte.toNat)

namespace Value

mutual

/-- The `{:?}` of a value. -/
def debug : Value → String
  | .null => "Null"
  | .str text => "Str(" ++ env.debugStr text ++ ")"
  | .i64 number => "I64(" ++ toString number ++ ")"
  | .f64 number => "F64(" ++ env.debugF64 number ++ ")"
  | .bool flag => "Bool(" ++ toString flag ++ ")"
  | .bytes data => "Bytes(" ++ debugBytes data ++ ")"
  | .datetime millis => "Datetime(" ++ toString millis ++ ")"
  | .json content => "Json(" ++ texts.debug content ++ ")"
  | .list items => "List(" ++ debugSeq (debugItems items) ++ ")"
  | .map entries => "Map(" ++ debugMap (debugEntries entries) ++ ")"

def debugItems : List Value → List String
  | [] => []
  | item :: rest => debug item :: debugItems rest

def debugEntries : List (String × Value) → List String
  | [] => []
  | (key,value) :: rest => (env.debugStr key ++ ": " ++ debug value) :: debugEntries rest

end

/-- The text `extract_dedupe_str_from_row` makes of a value. -/
def dedupeText : Value → String
  | .str text => text
  | .i64 number => toString number
  | .f64 number => env.displayF64 number
  | .bool flag => toString flag
  | .null => "null"
  | .bytes data => debugBytes data
  | .datetime millis => toString millis
  | .json content => texts.display content
  | .list items => debugSeq (debugItems env texts items)
  | .map entries => debugMap (debugEntries env texts entries)

end Value

def extractDedupeStrFromRow (row : Row) (key : String) : Option String :=
  (row.get key).map (Value.dedupeText env texts)

/-- The texts tell two values apart exactly when the values are not equal. -/
def TextFaithful (first second : Value) : Prop :=
  first.dedupeText env texts = second.dedupeText env texts ↔ first.partialEq second = true

end Texts

end Beava.Core
