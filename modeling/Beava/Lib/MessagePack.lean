/-
MessagePack values and their encodings.

The format is a prefix notation: a value is a header and the values that it holds.
The header says how many they are; it also has the bytes of a text, of binary data
and of a number.  A length may be written with any width that has room for it, and
so may a whole number.
-/

import Beava.Lib.BigEndian
import Mathlib.Algebra.Order.Ring.Int

namespace MessagePack

inductive Value where
  | nil
  | bool (value : Bool)
  | int (value : Int)
  | float32 (bits : UInt32)
  | float64 (bits : UInt64)
  | str (text : List UInt8)
  | bin (data : List UInt8)
  | ext (kind : UInt8) (data : List UInt8)
  | array (items : List Value)
  | map (entries : List (Value × Value))

/-- The values behind a header. -/
def Value.held : Value → List Value
  | .array items => items
  | .map entries => entries.flatMap fun entry => [entry.1,entry.2]
  | _ => []

theorem length_held_map (entries : List (Value × Value)) :
    (Value.map entries).held.length = 2 * entries.length := by
  induction entries with
  | nil => rfl
  | cons entry rest ih =>
      rw [Value.held] at ih ⊢
      rw [List.flatMap_cons,List.length_append,ih,List.length_cons]
      simp only [List.length_cons,List.length_nil]
      omega

/-- There is a chain of so many values, each held by the one before it. -/
inductive Value.Nested : Nat → Value → Prop where
  | value (value : Value) : Value.Nested 1 value
  | held {depth : Nat} {value inner : Value} (isHeld : inner ∈ value.held)
      (nested : Value.Nested depth inner) : Value.Nested (depth + 1) value

variable {value : Value}

theorem Value.nested_succ_iff {depth : Nat} :
    value.Nested (depth + 2) ↔ ∃ inner ∈ value.held, inner.Nested (depth + 1) := by
  constructor
  · intro nested
    cases nested with
    | held isHeld nested => exact ⟨_,isHeld,nested⟩
  · rintro ⟨inner,isHeld,nested⟩
    exact .held isHeld nested

/-- The marker of a family, and a number of `2 ^ exponent` bytes. -/
def numbered (first exponent value : Nat) : List UInt8 :=
  UInt8.ofNat (first + exponent) :: BigEndian.encode (2 ^ exponent) value

inductive Header : Value → List UInt8 → Prop where
  | nil : Header .nil [0xC0]
  | false : Header (.bool false) [0xC2]
  | true : Header (.bool true) [0xC3]
  | fixPos {value : Nat} (fits : value < 0x80) : Header (.int value) [UInt8.ofNat value]
  | fixNeg {value : Nat} (fits : value < 0x20) :
      Header (.int (value - 0x20 : Int)) [UInt8.ofNat (0xE0 + value)]
  | uint {exponent value : Nat} (isWidth : exponent < 4) (fits : value < 256 ^ 2 ^ exponent) :
      Header (.int value) (numbered 0xCC exponent value)
  | int {exponent : Nat} {value : Int} (isWidth : exponent < 4)
      (fits : -(256 ^ 2 ^ exponent) ≤ 2 * value ∧ 2 * value < 256 ^ 2 ^ exponent) :
      Header (.int value) (numbered 0xD0 exponent (value % 256 ^ 2 ^ exponent).toNat)
  | float32 (bits : UInt32) : Header (.float32 bits) (0xCA :: BigEndian.encode 4 bits.toNat)
  | float64 (bits : UInt64) : Header (.float64 bits) (0xCB :: BigEndian.encode 8 bits.toNat)
  | fixStr {text : List UInt8} (fits : text.length < 0x20) :
      Header (.str text) (UInt8.ofNat (0xA0 + text.length) :: text)
  | str {exponent : Nat} {text : List UInt8} (isWidth : exponent < 3)
      (fits : text.length < 256 ^ 2 ^ exponent) :
      Header (.str text) (numbered 0xD9 exponent text.length ++ text)
  | bin {exponent : Nat} {data : List UInt8} (isWidth : exponent < 3)
      (fits : data.length < 256 ^ 2 ^ exponent) :
      Header (.bin data) (numbered 0xC4 exponent data.length ++ data)
  | fixExt {exponent : Nat} {kind : UInt8} {data : List UInt8} (isWidth : exponent < 5)
      (isLength : data.length = 2 ^ exponent) :
      Header (.ext kind data) (UInt8.ofNat (0xD4 + exponent) :: kind :: data)
  | ext {exponent : Nat} {kind : UInt8} {data : List UInt8} (isWidth : exponent < 3)
      (fits : data.length < 256 ^ 2 ^ exponent) :
      Header (.ext kind data) (numbered 0xC7 exponent data.length ++ kind :: data)
  | fixArray {items : List Value} (fits : items.length < 0x10) :
      Header (.array items) [UInt8.ofNat (0x90 + items.length)]
  | array16 {items : List Value} (fits : items.length < 256 ^ 2) :
      Header (.array items) (0xDC :: BigEndian.encode 2 items.length)
  | array32 {items : List Value} (fits : items.length < 256 ^ 4) :
      Header (.array items) (0xDD :: BigEndian.encode 4 items.length)
  | fixMap {entries : List (Value × Value)} (fits : entries.length < 0x10) :
      Header (.map entries) [UInt8.ofNat (0x80 + entries.length)]
  | map16 {entries : List (Value × Value)} (fits : entries.length < 256 ^ 2) :
      Header (.map entries) (0xDE :: BigEndian.encode 2 entries.length)
  | map32 {entries : List (Value × Value)} (fits : entries.length < 256 ^ 4) :
      Header (.map entries) (0xDF :: BigEndian.encode 4 entries.length)

inductive EncodesAll : List Value → List UInt8 → Prop where
  | none : EncodesAll [] []
  | value {value : Value} {header inside behind : List UInt8} {rest : List Value}
      (isHeader : Header value header) (holds : EncodesAll value.held inside)
      (follow : EncodesAll rest behind) :
      EncodesAll (value :: rest) (header ++ (inside ++ behind))

def Encodes (value : Value) (encoding : List UInt8) : Prop := EncodesAll [value] encoding

theorem EncodesAll.append {values others : List Value} {encoding behind : List UInt8}
    (encodes : EncodesAll values encoding) (follow : EncodesAll others behind) :
    EncodesAll (values ++ others) (encoding ++ behind) := by
  induction encodes with
  | none => exact follow
  | value isHeader holds _ _ ih =>
      rw [List.append_assoc,List.append_assoc]
      exact .value isHeader holds ih

theorem Encodes.cons {others : List Value} {encoding behind : List UInt8}
    (encodes : Encodes value encoding) (follow : EncodesAll others behind) :
    EncodesAll (value :: others) (encoding ++ behind) :=
  EncodesAll.append encodes follow

theorem Header.ne_nil {header : List UInt8} (isHeader : Header value header) : header ≠ [] := by
  cases isHeader with
  | str | bin | ext => exact List.append_ne_nil_of_left_ne_nil (List.cons_ne_nil _ _) _
  | _ => exact List.cons_ne_nil _ _

theorem Encodes.header {encoding : List UInt8} (encodes : Encodes value encoding)
    (none : value.held = []) : Header value encoding := by
  cases encodes with
  | value isHeader holds follow =>
      rw [none] at holds
      cases holds
      cases follow
      rw [List.append_nil,List.append_nil]
      exact isHeader

end MessagePack
