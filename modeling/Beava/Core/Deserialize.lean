/-
Rows as they are read from the body of a push.

The libraries that read JSON and MessagePack present a body to the same visitors:
scalars, sequences, and maps as their pairs in the order of the text.  Which
texts they accept is a parameter.
-/

import Beava.Core.Row

namespace Beava.Core

inductive Data where
  | unit
  | bool (flag : Bool)
  | i64 (number : Int64)
  | u64 (number : UInt64)
  | i128 (number : Int)
  | u128 (number : Nat)
  | f64 (number : F64)
  | str (text : String)
  | bytes (data : List UInt8)
  | seq (items : List Data)
  | map (entries : List (String × Data))

section Visitors

variable (f64OfInt : Int → F64)

/-- An integer is an `I64` when it fits. -/
def integerValue (number : Int) : Value :=
  if -0x8000000000000000 ≤ number && number ≤ 0x7FFFFFFFFFFFFFFF then .i64 (Int64.ofInt number)
  else .f64 (f64OfInt number)

mutual

def visitValue : Data → Value
  | .unit => .null
  | .bool flag => .bool flag
  | .i64 number => .i64 number
  | .u64 number => integerValue f64OfInt number.toNat
  | .i128 number => integerValue f64OfInt number
  | .u128 number => integerValue f64OfInt number
  | .f64 number => .f64 number
  | .str text => .str text
  | .bytes data => .bytes data
  | .seq items => .list (visitItems items)
  | .map entries =>
      -- A map below the top goes through a `BTreeMap`.
      .map (Std.ExtTreeMap.ofList (visitEntries entries) : StrMap Value).toList

def visitItems : List Data → List Value
  | [] => []
  | item :: rest => visitValue item :: visitItems rest

def visitEntries : List (String × Data) → List (String × Value)
  | [] => []
  | (key,content) :: rest => (key,visitValue content) :: visitEntries rest

end

/-- `RowVisitor::visit_map`: every pair is pushed. -/
def visitMap (members : List (String × Data)) : Row := ⟨visitEntries f64OfInt members⟩

theorem visitEntries_eq (members : List (String × Data)) :
    visitEntries f64OfInt members =
      members.map fun member => (member.1,visitValue f64OfInt member.2) := by
  induction members with
  | nil => rfl
  | cons member rest ih =>
      rw [visitEntries,ih]
      rfl

@[simp] theorem visitMap_names (members : List (String × Data)) :
    (visitMap f64OfInt members).fields.map Prod.fst = members.map Prod.fst := by
  rw [visitMap,visitEntries_eq,List.map_map]
  rfl

end Visitors

def ctJson : UInt8 := 0x01

def ctMsgpack : UInt8 := 0x02

structure BodyReaders where
  json : List UInt8 → Option (List (String × Data))
  msgpack : List UInt8 → Option (List (String × Data))

/-- The reader `dispatch_push_sync` takes for a format. -/
def BodyReaders.read (readers : BodyReaders) (bodyFormat : UInt8) (body : List UInt8) :
    Option (List (String × Data)) :=
  if bodyFormat = ctMsgpack then readers.msgpack body else readers.json body

def BodyReaders.row (readers : BodyReaders) (f64OfInt : Int → F64) (bodyFormat : UInt8)
    (body : List UInt8) : Option Row :=
  (readers.read bodyFormat body).map (visitMap f64OfInt)

def BodyReaders.KeysOnce (readers : BodyReaders) (bodyFormat : UInt8) (body : List UInt8) : Prop :=
  ∀ members, readers.read bodyFormat body = some members → (members.map Prod.fst).Nodup

end Beava.Core
