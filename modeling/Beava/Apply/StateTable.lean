/-
Entity keys and the state table of one aggregation.

A table keeps the operator states of an entity in one of three maps, chosen by
the shape of the entity's key, and the time the entity was last seen in one of
three more.  Both triples are a `ShapeMap`.
-/

import Beava.Core.Aggregation

namespace Beava.Apply

open Beava.Core

variable {Expr Op : Type} (env : Env Expr)

abbrev CompoundKey := List (String × String)

/-- `EntityKeyShape`, without the cached hash of a string, which takes no part
in equality. -/
inductive EntityKeyShape where
  | singleU64 (key : UInt64)
  | singleStr (key : String)
  | multi (key : CompoundKey)
  deriving DecidableEq, Repr

inductive VariantTag where
  | i64
  | f64
  | bool
  | datetime
  deriving DecidableEq, Repr

def VariantTag.code : VariantTag → UInt64
  | .i64 => 1
  | .f64 => 2
  | .bool => 3
  | .datetime => 4

def tagU64 (tag : VariantTag) (payload : UInt64) : UInt64 :=
  (tag.code <<< 60) ||| (payload &&& 0x0FFFFFFFFFFFFFFF)

def singleShape : Value → Option EntityKeyShape
  | .str text => some (.singleStr text)
  | .i64 number => some (.singleU64 (tagU64 .i64 number.toUInt64))
  | .f64 number => if number.isNaN then none else some (.singleU64 (tagU64 .f64 number.bits))
  | .bool flag => some (.singleU64 (tagU64 .bool (if flag then 1 else 0)))
  | .datetime millis => some (.singleU64 (tagU64 .datetime millis.toUInt64))
  | _ => none

def canonicalText : Value → Option String
  | .str text => some text
  | .i64 number => some (toString number)
  | .f64 number => if number.isNaN then none else some (env.debugF64 number)
  | .bool flag => some (toString flag)
  | .datetime millis => some (toString millis)
  | _ => none

def compoundPairs (row : Row) : List String → Option CompoundKey
  | [] => some []
  | key :: rest =>
      match (row.get key).bind (canonicalText env), compoundPairs row rest with
      | some text, some pairs => some ((key,text) :: pairs)
      | _, _ => none

/-- `EntityKeyShape::from_row`; `none` drops the event for the aggregation. -/
def EntityKeyShape.fromRow (groupKeys : List String) (row : Row) : Option EntityKeyShape :=
  match groupKeys with
  | [key] => (row.get key).bind singleShape
  | keys => (compoundPairs env row keys).map .multi

abbrev compareCompound (first second : CompoundKey) : Ordering :=
  (@List.instOrd (String × String) lexOrd).compare first second

instance : Std.TransCmp compareCompound :=
  letI : Ord (String × String) := lexOrd
  inferInstanceAs (Std.TransOrd (List (String × String)))

instance : Std.LawfulEqCmp compareCompound :=
  letI : Ord (String × String) := lexOrd
  inferInstanceAs (Std.LawfulEqOrd (List (String × String)))

structure ShapeMap (α : Type) where
  singleU64 : Std.ExtTreeMap UInt64 α
  singleStr : StrMap α
  multi : Std.ExtTreeMap CompoundKey α compareCompound

namespace ShapeMap

variable {α : Type}

def empty : ShapeMap α := ⟨∅,∅,∅⟩

def get (map : ShapeMap α) : EntityKeyShape → Option α
  | .singleU64 key => map.singleU64[key]?
  | .singleStr key => map.singleStr[key]?
  | .multi key => map.multi[key]?

def insert (map : ShapeMap α) (shape : EntityKeyShape) (value : α) : ShapeMap α :=
  match shape with
  | .singleU64 key => { map with singleU64 := map.singleU64.insert key value }
  | .singleStr key => { map with singleStr := map.singleStr.insert key value }
  | .multi key => { map with multi := map.multi.insert key value }

def erase (map : ShapeMap α) (shape : EntityKeyShape) : ShapeMap α :=
  match shape with
  | .singleU64 key => { map with singleU64 := map.singleU64.erase key }
  | .singleStr key => { map with singleStr := map.singleStr.erase key }
  | .multi key => { map with multi := map.multi.erase key }

@[simp] theorem get_empty (shape : EntityKeyShape) : (empty : ShapeMap α).get shape = none := by
  cases shape <;> simp [empty,get]

theorem get_insert (map : ShapeMap α) (shape other : EntityKeyShape) (value : α) :
    (map.insert shape value).get other = if shape = other then some value else map.get other := by
  cases shape <;> cases other <;> simp [insert,get,Std.ExtTreeMap.getElem?_insert]

theorem get_erase (map : ShapeMap α) (shape other : EntityKeyShape) :
    (map.erase shape).get other = if shape = other then none else map.get other := by
  cases shape <;> cases other <;> simp [erase,get,Std.ExtTreeMap.getElem?_erase]

theorem ext_get {first second : ShapeMap α} (same : ∀ shape, first.get shape = second.get shape) :
    first = second := by
  have u64Same : first.singleU64 = second.singleU64 :=
    Std.ExtTreeMap.ext_getElem? fun key => same (.singleU64 key)
  have strSame : first.singleStr = second.singleStr :=
    Std.ExtTreeMap.ext_getElem? fun key => same (.singleStr key)
  have multiSame : first.multi = second.multi :=
    Std.ExtTreeMap.ext_getElem? fun key => same (.multi key)
  cases first
  cases second
  simp_all

end ShapeMap

/-- What an operator is given for one event: the value of its field, the values
of its coordinates, the time and whether its predicate holds. -/
structure OpInput where
  value : Option Value
  lat : Option Value
  lon : Option Value
  nowMs : Int64
  whereMatched : Bool

structure Operators (Expr Op : Type) where
  new : AggOpDescriptor Expr → Op
  update : AggOpDescriptor Expr → Op → OpInput → Op

structure AggStateTable (Op : Type) where
  rows : ShapeMap (List Op)
  groupKeys : List String
  lastSeen : ShapeMap Nat

namespace AggStateTable

def new : AggStateTable Op := ⟨.empty,[],.empty⟩

def initRow (ops : Operators Expr Op) (agg : AggregationDescriptor Expr) : List Op :=
  agg.features.map fun feature => ops.new (declared feature.descriptor)

/-- `get_or_init_by_shape`: the row of the entity and the table that has it. -/
def getOrInitByShape (ops : Operators Expr Op) (table : AggStateTable Op)
    (shape : EntityKeyShape) (agg : AggregationDescriptor Expr) : List Op × AggStateTable Op :=
  let groupKeys := if table.groupKeys.isEmpty then agg.groupKeys else table.groupKeys
  match table.rows.get shape with
  | some row => (row,{ table with groupKeys := groupKeys })
  | none =>
      (initRow ops agg,
       { table with groupKeys := groupKeys, rows := table.rows.insert shape (initRow ops agg) })

/-- `evict_entity_by_shape_if_cold`. -/
def evictIfCold (table : AggStateTable Op) (shape : EntityKeyShape) (nowMs coldAfterMs : Nat) :
    AggStateTable Op :=
  match table.lastSeen.get shape with
  | none => table
  | some lastSeen =>
      if nowMs - lastSeen ≤ coldAfterMs then table
      else
        { table with
          rows := table.rows.erase shape
          lastSeen := table.lastSeen.erase shape }

/-- `record_last_seen_by_shape`. -/
def recordLastSeen (table : AggStateTable Op) (shape : EntityKeyShape) (nowMs : Nat) :
    AggStateTable Op :=
  { table with lastSeen := table.lastSeen.insert shape nowMs }

end AggStateTable

/-- `StateTables`: one table per aggregation id. -/
abbrev StateTables (Op : Type) := List (AggStateTable Op)

namespace StateTables

def tableAt (tables : StateTables Op) (aggId : Nat) : AggStateTable Op :=
  tables.getD aggId AggStateTable.new

/-- `ensure_capacity_for`. -/
def ensureCapacityFor (tables : StateTables Op) (minLen : Nat) : StateTables Op :=
  tables ++ List.replicate (minLen - tables.length) AggStateTable.new

/-- The table of an id is replaced; the vector grows when it is too short. -/
def setTable (tables : StateTables Op) (aggId : Nat) (table : AggStateTable Op) :
    StateTables Op :=
  (ensureCapacityFor tables (aggId + 1)).set aggId table

theorem tableAt_ensureCapacityFor (tables : StateTables Op) (minLen aggId : Nat) :
    tableAt (ensureCapacityFor tables minLen) aggId = tableAt tables aggId := by
  simp only [tableAt,ensureCapacityFor,List.getD_eq_getElem?_getD,List.getElem?_append]
  split
  · rfl
  · rename_i beyond
    rw [List.getElem?_eq_none (Nat.le_of_not_lt beyond),List.getElem?_replicate]
    split <;> rfl

theorem tableAt_setTable (tables : StateTables Op) (aggId other : Nat)
    (table : AggStateTable Op) :
    tableAt (setTable tables aggId table) other =
      if aggId = other then table else tableAt tables other := by
  have longEnough : aggId < (ensureCapacityFor tables (aggId + 1)).length := by
    simp only [ensureCapacityFor,List.length_append,List.length_replicate]
    omega
  split
  · rename_i same
    subst same
    simp only [setTable,tableAt,List.getD_eq_getElem?_getD,List.getElem?_set_self longEnough,
      Option.getD_some]
  · rename_i different
    rw [← tableAt_ensureCapacityFor tables (aggId + 1) other]
    simp only [setTable,tableAt,List.getD_eq_getElem?_getD,List.getElem?_set_ne different]

end StateTables

end Beava.Apply
