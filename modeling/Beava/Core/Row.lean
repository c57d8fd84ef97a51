/-
Values, rows and schemas.

A row is the list of its fields in insertion order, and a field is found by a
scan from the front.  Maps of the source whose order matters are ordered by the
bytes of the key, which is how strings compare here too.
-/

import Std.Data.ExtTreeMap
import Mathlib.Algebra.Order.Ring.Int
import Mathlib.Data.List.Basic

namespace Beava.Core

abbrev StrMap (α : Type) := Std.ExtTreeMap String α

/-! ### Numbers and JSON -/

structure F64 where
  bits : UInt64
  deriving DecidableEq, Repr

namespace F64

def isNaN (number : F64) : Bool :=
  0x7FF0000000000000 < (number.bits &&& 0x7FFFFFFFFFFFFFFF)

/-- `0.0 < number && number < 1.0`: for numbers without the sign bit, the order
is the order of the bits. -/
def betweenZeroAndOne (number : F64) : Bool :=
  0 < number.bits && number.bits < 0x3FF0000000000000

end F64

/-- `serde_json::Number`. -/
inductive JsonNumber where
  | posInt (value : UInt64)
  | negInt (value : Int64)
  | float (value : F64)
  deriving DecidableEq, Repr

inductive Json where
  | null
  | bool (value : Bool)
  | number (value : JsonNumber)
  | string (value : String)
  | array (items : List Json)
  | object (members : List (String × Json))

namespace Json

/-- `Value::get` with a string index. -/
def get (key : String) : Json → Option Json
  | .object members => members.lookup key
  | _ => none

def asStr : Json → Option String
  | .string value => some value
  | _ => none

def asArray : Json → Option (List Json)
  | .array items => some items
  | _ => none

def asU64 : Json → Option UInt64
  | .number (.posInt value) => some value
  | _ => none

def asI64 : Json → Option Int64
  | .number (.posInt value) =>
      if value ≤ 0x7FFFFFFFFFFFFFFF then some value.toInt64 else none
  | .number (.negInt value) => some value
  | _ => none

/-- `as_f64`; `ofInt` is the conversion of an integer to the nearest number. -/
def asF64 (ofInt : Int → F64) : Json → Option F64
  | .number (.posInt value) => some (ofInt value.toNat)
  | .number (.negInt value) => some (ofInt value.toInt)
  | .number (.float value) => some value
  | _ => none

def getStr (key : String) (params : Json) : Option String :=
  (params.get key).bind asStr

end Json

namespace Json

mutual

def same : Json → Json → Bool
  | .null, .null => true
  | .bool first, .bool second => first == second
  | .number first, .number second => first == second
  | .string first, .string second => first == second
  | .array first, .array second => sameItems first second
  | .object first, .object second => sameMembers first second
  | _, _ => false

def sameItems : List Json → List Json → Bool
  | [], [] => true
  | first :: rest, second :: others => same first second && sameItems rest others
  | _, _ => false

def sameMembers : List (String × Json) → List (String × Json) → Bool
  | [], [] => true
  | (key,first) :: rest, (other,second) :: others =>
      key == other && same first second && sameMembers rest others
  | _, _ => false

end

mutual

theorem same_iff : ∀ first second : Json, same first second = true ↔ first = second
  | .null, second => by cases second <;> simp [same]
  | .bool value, second => by cases second <;> simp [same]
  | .number value, second => by cases second <;> simp [same]
  | .string value, second => by cases second <;> simp [same]
  | .array first, second => by
      cases second with
      | array second => simp [same,sameItems_iff first second]
      | _ => simp [same]
  | .object first, second => by
      cases second with
      | object second => simp [same,sameMembers_iff first second]
      | _ => simp [same]

theorem sameItems_iff : ∀ first second : List Json, sameItems first second = true ↔ first = second
  | [], second => by cases second <;> simp [sameItems]
  | first :: rest, [] => by simp [sameItems]
  | first :: rest, second :: others => by
      simp [sameItems,same_iff first second,sameItems_iff rest others]

theorem sameMembers_iff : ∀ first second : List (String × Json),
    sameMembers first second = true ↔ first = second
  | [], second => by cases second <;> simp [sameMembers]
  | first :: rest, [] => by simp [sameMembers]
  | (key,first) :: rest, (other,second) :: others => by
      simp [sameMembers,same_iff first second,sameMembers_iff rest others]

end

instance : DecidableEq Json := fun first second => decidable_of_iff _ (same_iff first second)

end Json

inductive Value where
  | null
  | str (text : String)
  | i64 (number : Int64)
  | f64 (number : F64)
  | bool (flag : Bool)
  | bytes (data : List UInt8)
  | datetime (millis : Int64)
  | json (content : Json)
  | list (items : List Value)
  | map (entries : List (String × Value))

namespace Value

def isNull : Value → Bool
  | .null => true
  | _ => false

/-- Whether the value is `Value::Bool(true)`. -/
def isTrue : Value → Bool
  | .bool true => true
  | _ => false

end Value

/-! ### Equality of values -/

namespace Value

mutual

def same : Value → Value → Bool
  | .null, .null => true
  | .str first, .str second => first == second
  | .i64 first, .i64 second => first == second
  | .f64 first, .f64 second => first == second
  | .bool first, .bool second => first == second
  | .bytes first, .bytes second => first == second
  | .datetime first, .datetime second => first == second
  | .json first, .json second => first == second
  | .list first, .list second => sameItems first second
  | .map first, .map second => sameEntries first second
  | _, _ => false

def sameItems : List Value → List Value → Bool
  | [], [] => true
  | first :: rest, second :: others => same first second && sameItems rest others
  | _, _ => false

def sameEntries : List (String × Value) → List (String × Value) → Bool
  | [], [] => true
  | (key,first) :: rest, (other,second) :: others =>
      key == other && same first second && sameEntries rest others
  | _, _ => false

end

mutual

theorem same_iff : ∀ first second : Value, same first second = true ↔ first = second
  | .list first, second => by
      cases second with
      | list second => simp [same,sameItems_iff first second]
      | _ => simp [same]
  | .map first, second => by
      cases second with
      | map second => simp [same,sameEntries_iff first second]
      | _ => simp [same]
  | .null, second => by cases second <;> simp [same]
  | .str value, second => by cases second <;> simp [same]
  | .i64 value, second => by cases second <;> simp [same]
  | .f64 value, second => by cases second <;> simp [same]
  | .bool value, second => by cases second <;> simp [same]
  | .bytes value, second => by cases second <;> simp [same]
  | .datetime value, second => by cases second <;> simp [same]
  | .json value, second => by cases second <;> simp [same]

theorem sameItems_iff : ∀ first second : List Value, sameItems first second = true ↔ first = second
  | [], second => by cases second <;> simp [sameItems]
  | first :: rest, [] => by simp [sameItems]
  | first :: rest, second :: others => by
      simp [sameItems,same_iff first second,sameItems_iff rest others]

theorem sameEntries_iff : ∀ first second : List (String × Value),
    sameEntries first second = true ↔ first = second
  | [], second => by cases second <;> simp [sameEntries]
  | first :: rest, [] => by simp [sameEntries]
  | (key,first) :: rest, (other,second) :: others => by
      simp [sameEntries,same_iff first second,sameEntries_iff rest others]

end

instance : DecidableEq Value := fun first second => decidable_of_iff _ (same_iff first second)

end Value

/-- `Row`: the fields in insertion order. -/
structure Row where
  fields : List (String × Value)
  deriving DecidableEq

namespace Row

def new : Row := ⟨[]⟩

def get (row : Row) (field : String) : Option Value :=
  row.fields.lookup field

/-- The first occurrence of `field` gets the new value. -/
def replaceFirst (field : String) (value : Value) :
    List (String × Value) → List (String × Value)
  | [] => []
  | (name,old) :: rest =>
      if name = field then (name,value) :: rest
      else (name,old) :: replaceFirst field value rest

def withField (row : Row) (field : String) (value : Value) : Row :=
  if (row.get field).isSome then ⟨replaceFirst field value row.fields⟩
  else ⟨row.fields ++ [(field,value)]⟩

/-- The first occurrence of `field` is removed. -/
def withoutField (row : Row) (field : String) : Row :=
  ⟨row.fields.eraseP fun entry => entry.1 = field⟩

end Row

inductive FieldType where
  | str
  | f64
  | i64
  | bool
  | bytes
  | datetime
  | json
  deriving DecidableEq, Repr

namespace FieldType

/-- The variant's name as `{:?}` prints it. -/
def debug : FieldType → String
  | .str => "Str"
  | .f64 => "F64"
  | .i64 => "I64"
  | .bool => "Bool"
  | .bytes => "Bytes"
  | .datetime => "Datetime"
  | .json => "Json"

/-- `format!("{:?}", ty).to_lowercase()`. -/
def debugLower : FieldType → String
  | .str => "str"
  | .f64 => "f64"
  | .i64 => "i64"
  | .bool => "bool"
  | .bytes => "bytes"
  | .datetime => "datetime"
  | .json => "json"

end FieldType

/-- `EventSchema`, `TableSchema`, `DerivedSchema` and the propagator's `Schema`,
which have the same fields. -/
structure Schema where
  fields : StrMap FieldType
  optionalFields : List String
  deriving DecidableEq

namespace Schema

def new : Schema := ⟨∅,[]⟩

end Schema

inductive DescriptorNameError where
  | empty
  | badPattern (name : String)
  | reservedPrefix (name : String)
  | tooLong (len : Nat)
  deriving DecidableEq, Repr

def maxNameLen : Nat := 128

def isAsciiAlphabetic (ch : Char) : Bool :=
  ('a' ≤ ch && ch ≤ 'z') || ('A' ≤ ch && ch ≤ 'Z')

def isAsciiDigit (ch : Char) : Bool :=
  '0' ≤ ch && ch ≤ '9'

/-- `validate_descriptor_name`; `none` is success. -/
def validateDescriptorName (name : String) : Option DescriptorNameError :=
  match name.toList with
  | [] => some .empty
  | first :: rest =>
      if maxNameLen < name.utf8ByteSize then some (.tooLong name.utf8ByteSize)
      else if "_beava_".toList.isPrefixOf (first :: rest) then some (.reservedPrefix name)
      else if !isAsciiAlphabetic first && first ≠ '_' then some (.badPattern name)
      else if rest.all fun ch => isAsciiAlphabetic ch || isAsciiDigit ch || ch = '_' then none
      else some (.badPattern name)

end Beava.Core
