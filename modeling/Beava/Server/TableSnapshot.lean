/-
State tables in a snapshot.

A snapshot writes every entity under a key with typed values: the payload of a
tagged word under the variant its tag names, a string as a string, a compound key
as its strings.  Loading puts each key back by its variant, but a string under a
single column is first read as a value of the column's declared type, for
snapshots that wrote everything as strings.  The pushed value of a column need not
have the declared type, so a string that reads as such a value comes back as
another entity.
-/

import Beava.Core.Expr
import Beava.Server.Lookup

namespace Beava.Server

open Beava.Core Beava.Apply Beava.Registry

variable {shape : EntityKeyShape} {Expr : Type} {env : Env Expr} {row : Row} {keys : List String}

/-! ### Keys in a snapshot -/

/-- `EntityKey`. -/
abbrev EntityKey := List (String × Value)

def payloadOf (key : UInt64) : UInt64 := key &&& 0x0FFFFFFFFFFFFFFF

def expandU64 (key : UInt64) : Value :=
  let tag := key >>> 60
  let payload := payloadOf key
  if tag = 1 then .i64 payload.toInt64
  else if tag = 2 then .f64 ⟨payload ||| ((2 : UInt64) <<< 60)⟩
  else if tag = 3 then .bool (payload ≠ 0)
  else if tag = 4 then .datetime payload.toInt64
  else .str "unknown"

/-- The key of an entity; a single column has the name the table was made with. -/
def entityKeyOf (keyName : String) : EntityKeyShape → EntityKey
  | .singleU64 key => [(keyName,expandU64 key)]
  | .singleStr key => [(keyName,.str key)]
  | .multi key => key.map fun column => (column.1,.str column.2)

/-- An integer that is ordered as `f64::total_cmp` orders the number. -/
def totalOrderKey (number : F64) : Int :=
  if 0x8000000000000000 ≤ number.bits then
    -((number.bits &&& 0x7FFFFFFFFFFFFFFF).toNat : Int) - 1
  else (number.bits.toNat : Int)

def valueRank : Value → Nat
  | .str _ => 0
  | .i64 _ => 1
  | .f64 _ => 2
  | .bool _ => 3
  | .datetime _ => 4
  | _ => 255

def cmpEntityValue (first second : Value) : Ordering :=
  (compare (valueRank first) (valueRank second)).then
    (match first,second with
     | .str first,.str second => compare first second
     | .i64 first,.i64 second => compare first.toInt second.toInt
     | .f64 first,.f64 second => compare (totalOrderKey first) (totalOrderKey second)
     | .bool first,.bool second => compare first second
     | .datetime first,.datetime second => compare first.toInt second.toInt
     | _,_ => .eq)

def cmpEntityKey : EntityKey → EntityKey → Ordering
  | (name,value) :: rest, (other,second) :: others =>
      ((compare name other).then (cmpEntityValue value second)).then (cmpEntityKey rest others)
  | first, second => compare first.length second.length

section Tables

variable {Expr Op : Type} (env : Env Expr)

namespace ShapeEntries

def toList (rows : ShapeMap (List Op)) : List (EntityKeyShape × List Op) :=
  rows.singleU64.toList.map (fun entry => (.singleU64 entry.1,entry.2)) ++
    (rows.singleStr.toList.map (fun entry => (.singleStr entry.1,entry.2)) ++
      rows.multi.toList.map fun entry => (.multi entry.1,entry.2))

theorem mem_toList {rows : ShapeMap (List Op)} {shape : EntityKeyShape} {states : List Op} :
    (shape,states) ∈ toList rows ↔ rows.get shape = some states := by
  simp only [toList,List.mem_append,List.mem_map,Prod.mk.injEq]
  cases shape <;> simp [ShapeMap.get,Std.ExtTreeMap.mem_toList_iff_getElem?_eq_some]

end ShapeEntries

/-- `iter_sorted`. -/
def iterSorted (table : AggStateTable Op) : List (EntityKey × List Op) :=
  let keyName := table.groupKeys.headD ""
  ((ShapeEntries.toList table.rows).map fun entry =>
    (entityKeyOf keyName entry.1,entry.2)).insertionSort
      fun first second => cmpEntityKey first.1 second.1 ≠ .gt

def parseBool (text : String) : Option Bool :=
  if text = "true" then some true else if text = "false" then some false else none

def readAs (types : Option (List FieldType)) (text : String) : Option Value :=
  match types.bind List.head? with
  | some .i64 => (parseI64 text).map .i64
  | some .f64 => (env.parseF64 text).map .f64
  | some .bool => (parseBool text).map .bool
  | some .datetime => (parseI64 text).map .datetime
  | _ => none

def restoredValue (types : Option (List FieldType)) : Value → Value
  | .str text => (readAs env types text).getD (.str text)
  | value => value

def compoundOf (key : EntityKey) : Option CompoundKey :=
  key.mapM fun column =>
    match column.2 with
    | .str text => some (column.1,text)
    | _ => none

/-- The entity a key of a snapshot is put back under. -/
def restoredShape (types : Option (List FieldType)) (key : EntityKey) : Option EntityKeyShape :=
  match key with
  | [(_,value)] =>
      (singleShape (restoredValue env types value)).or ((compoundOf key).map .multi)
  | key => (compoundOf key).map .multi

def insertFromEntityKeyWithTypes (types : Option (List FieldType)) (table : AggStateTable Op)
    (entry : EntityKey × List Op) : AggStateTable Op :=
  { table with
    groupKeys := if table.groupKeys.isEmpty then entry.1.map Prod.fst else table.groupKeys
    rows :=
      match restoredShape env types entry.1 with
      | some shape => table.rows.insert shape entry.2
      | none => table.rows }

/-- The types of the group keys in `load_snapshot_if_any`: those of the columns of
the source event. -/
def groupKeyTypes (registry : RegistryInner Expr) (agg : AggregationDescriptor Expr) :
    Option (List FieldType) :=
  registry.events[agg.sourceNodeName]?.map fun event =>
    agg.groupKeys.filterMap fun key => event.schema.fields[key]?

def loadTable (types : Option (List FieldType)) (entries : List (EntityKey × List Op)) :
    AggStateTable Op :=
  entries.foldl (insertFromEntityKeyWithTypes env types) AggStateTable.new

end Tables

/-- A word with a tag, or a compound key that is not of one column. -/
def Formed : EntityKeyShape → Prop
  | .singleU64 key => ∃ tag payload, key = tagU64 tag payload ∧ (tag = .bool → payload < 2)
  | .singleStr _ => True
  | .multi key => key.length ≠ 1

theorem formed_of_singleShape {value : Value} (isShape : singleShape value = some shape) :
    Formed shape := by
  cases value with
  | str text =>
      cases isShape
      exact trivial
  | i64 number =>
      cases isShape
      exact ⟨.i64,_,rfl,by intro isBool; cases isBool⟩
  | f64 number =>
      rw [singleShape] at isShape
      split at isShape
      · cases isShape
      · cases isShape
        exact ⟨.f64,_,rfl,by intro isBool; cases isBool⟩
  | bool flag =>
      cases isShape
      refine ⟨.bool,_,rfl,fun _ => ?_⟩
      cases flag <;> decide
  | datetime millis =>
      cases isShape
      exact ⟨.datetime,_,rfl,by intro isBool; cases isBool⟩
  | _ => cases isShape

theorem length_compoundPairs {pairs : CompoundKey}
    (found : compoundPairs env row keys = some pairs) : pairs.length = keys.length := by
  induction keys generalizing pairs with
  | nil =>
      cases found
      rfl
  | cons key rest ih =>
      rw [compoundPairs] at found
      split at found
      · rename_i restPairs _ restEq
        cases found
        exact congrArg (· + 1) (ih restEq)
      · cases found

theorem formed_of_fromRow (isShape : EntityKeyShape.fromRow env keys row = some shape) :
    Formed shape := by
  unfold EntityKeyShape.fromRow at isShape
  split at isShape
  · obtain ⟨value,-,single⟩ := Option.bind_eq_some_iff.mp isShape
    exact formed_of_singleShape single
  · rename_i several
    obtain ⟨pairs,found,rfl⟩ := Option.map_eq_some_iff.mp isShape
    intro one
    rw [length_compoundPairs found,List.length_eq_one_iff] at one
    obtain ⟨key,rfl⟩ := one
    exact several key rfl

theorem tagU64_shift (tag : VariantTag) (payload : UInt64) :
    tagU64 tag payload >>> 60 = tag.code := by
  have below : payload.toNat % 2 ^ 60 < 2 ^ 60 := Nat.mod_lt _ (by decide)
  rw [← UInt64.toNat_inj,UInt64.toNat_shiftRight,toNat_tagU64]
  show (tag.code.toNat * 2 ^ 60 + payload.toNat % 2 ^ 60) >>> 60 = tag.code.toNat
  rw [Nat.shiftRight_eq_div_pow]
  omega

theorem toNat_payloadOf (key : UInt64) : (payloadOf key).toNat = key.toNat % 2 ^ 60 := by
  rw [payloadOf,UInt64.toNat_and]
  exact Nat.and_two_pow_sub_one_eq_mod key.toNat 60

theorem tagU64_payloadOf (tag : VariantTag) (payload : UInt64) :
    tagU64 tag (payloadOf (tagU64 tag payload)) = tagU64 tag payload := by
  rw [tagU64_eq_iff,toNat_payloadOf,toNat_tagU64]
  refine ⟨rfl,?_⟩
  omega

theorem payloadOf_or_tag (payload : UInt64) :
    payloadOf (tagU64 .f64 payload) ||| ((2 : UInt64) <<< 60) = tagU64 .f64 payload := by
  have again := tagU64_payloadOf .f64 payload
  have idem : payloadOf (payloadOf (tagU64 .f64 payload)) = payloadOf (tagU64 .f64 payload) := by
    rw [← UInt64.toNat_inj,toNat_payloadOf,toNat_payloadOf]
    omega
  rw [tagU64,UInt64.or_comm] at again
  change payloadOf (payloadOf (tagU64 .f64 payload)) ||| ((2 : UInt64) <<< 60) = _ at again
  rwa [idem] at again

theorem tagU64_f64_not_nan (payload : UInt64) : F64.isNaN ⟨tagU64 .f64 payload⟩ = false := by
  have small : (tagU64 .f64 payload).toNat < 3 * 2 ^ 60 := by
    have below : payload.toNat % 2 ^ 60 < 2 ^ 60 := Nat.mod_lt _ (by decide)
    rw [toNat_tagU64]
    show 2 * 2 ^ 60 + payload.toNat % 2 ^ 60 < 3 * 2 ^ 60
    omega
  have masked : (tagU64 .f64 payload &&& 0x7FFFFFFFFFFFFFFF : UInt64).toNat < 3 * 2 ^ 60 := by
    rw [UInt64.toNat_and]
    exact Nat.lt_of_le_of_lt Nat.and_le_left small
  have bound : 3 * 2 ^ 60 ≤ (0x7FF0000000000000 : UInt64).toNat := by decide
  apply decide_eq_false
  rw [UInt64.lt_iff_toNat_lt]
  exact Nat.not_lt.mpr (Nat.le_of_lt (Nat.lt_of_lt_of_le masked bound))

theorem singleShape_expandU64 {tag : VariantTag} {payload : UInt64}
    (flag : tag = .bool → payload < 2) :
    singleShape (expandU64 (tagU64 tag payload)) = some (.singleU64 (tagU64 tag payload)) := by
  have again := tagU64_payloadOf tag payload
  unfold expandU64
  rw [tagU64_shift]
  cases tag with
  | i64 =>
      show some (EntityKeyShape.singleU64 (tagU64 .i64 _)) = _
      rw [UInt64.toUInt64_toInt64,again]
  | datetime =>
      show some (EntityKeyShape.singleU64 (tagU64 .datetime _)) = _
      rw [UInt64.toUInt64_toInt64,again]
  | f64 =>
      show singleShape (.f64 ⟨payloadOf (tagU64 .f64 payload) ||| ((2 : UInt64) <<< 60)⟩) = _
      rw [payloadOf_or_tag,singleShape,tagU64_f64_not_nan]
      have sameBits : tagU64 .f64 (tagU64 .f64 payload) = tagU64 .f64 payload := by
        rw [tagU64_eq_iff,toNat_tagU64]
        exact ⟨rfl,by omega⟩
      simp only [Bool.false_eq_true,if_false,sameBits]
  | bool =>
      have small : payload.toNat < 2 := UInt64.lt_iff_toNat_lt.mp (flag rfl)
      have twoCases : payload = 0 ∨ payload = 1 := by
        rcases Nat.lt_or_ge payload.toNat 1 with zero | one
        · exact .inl (UInt64.toNat_inj.mp (Nat.lt_one_iff.mp zero))
        · exact .inr (UInt64.toNat_inj.mp (Nat.le_antisymm (Nat.le_of_lt_succ small) one))
      rcases twoCases with rfl | rfl <;> rfl

section Restore

variable {Expr Op : Type} {env : Env Expr} {types : Option (List FieldType)} {keyName : String}
variable {shape : EntityKeyShape} {table : AggStateTable Op}
variable {text : String}

theorem restoredShape_single (value : Value)
    (isShape : singleShape (restoredValue env types value) = some shape) :
    restoredShape env types [(keyName,value)] = some shape := by
  rw [restoredShape,isShape,Option.some_or]

theorem compoundOf_strings (key : CompoundKey) :
    compoundOf (key.map fun column => (column.1,Value.str column.2)) = some key := by
  induction key with
  | nil => rfl
  | cons column rest ih =>
      rw [compoundOf,List.map_cons,List.mapM_cons]
      change (do
        let tail ← compoundOf (rest.map fun column : String × String =>
          (column.1,Value.str column.2))
        pure ((column.1,column.2) :: tail)) = _
      rw [ih]
      rfl

theorem restoredShape_entityKeyOf (formed : Formed shape)
    (notRead : ∀ text, shape = .singleStr text → readAs env types text = none) :
    restoredShape env types (entityKeyOf keyName shape) = some shape := by
  cases shape with
  | singleU64 key =>
      obtain ⟨tag,payload,rfl,flag⟩ := formed
      apply restoredShape_single
      have notStr : restoredValue env types (expandU64 (tagU64 tag payload)) =
          expandU64 (tagU64 tag payload) := by
        unfold expandU64
        rw [tagU64_shift]
        cases tag <;> rfl
      rw [notStr]
      exact singleShape_expandU64 flag
  | singleStr text =>
      apply restoredShape_single
      rw [restoredValue,notRead text rfl]
      rfl
  | multi key =>
      have several : ∀ column, (key.map fun column => (column.1,Value.str column.2)) ≠ [column] := by
        intro column single
        have one := congrArg List.length single
        rw [List.length_map] at one
        exact formed one
      show restoredShape env types (key.map fun column => (column.1,Value.str column.2)) = _
      unfold restoredShape
      split
      · rename_i same
        exact absurd same (several _)
      · rw [compoundOf_strings]
        rfl

theorem restoredShape_of_readAs {value : Value} (read : readAs env types text = some value)
    (other : String) : restoredShape env types [(keyName,.str text)] ≠ some (.singleStr other) := by
  have notStr : ∀ string, value ≠ .str string := by
    rintro string rfl
    unfold readAs at read
    split at read <;>
      simp only [Option.map_eq_some_iff,reduceCtorEq,and_false,exists_false] at read
  rw [restoredShape,restoredValue,read,Option.getD_some]
  cases shaped : singleShape value with
  | none => simp
  | some shape =>
      rcases singleShape_cases shaped with ⟨string,isStr,-⟩ | ⟨word,rfl⟩
      · exact absurd isStr (notStr string)
      · simp

theorem eq_of_restoredShape_singleStr (formed : Formed shape)
    (restored : restoredShape env types (entityKeyOf keyName shape) = some (.singleStr text)) :
    shape = .singleStr text ∧ readAs env types text = none := by
  cases shape with
  | singleU64 | multi =>
      rw [restoredShape_entityKeyOf formed nofun] at restored
      cases restored
  | singleStr other =>
      cases read : readAs env types other with
      | none =>
          rw [restoredShape_entityKeyOf formed (fun own same => by cases same; exact read)]
            at restored
          cases restored
          exact ⟨rfl,read⟩
      | some value => exact absurd restored (restoredShape_of_readAs read text)

/-- Every entity of the table could have been made by a push. -/
def TableFormed (table : AggStateTable Op) : Prop :=
  ∀ shape, (table.rows.get shape).isSome = true → Formed shape

/-- No entity under a string has a text that reads as a value of the declared
type. -/
def NoTextReads (env : Env Expr) (types : Option (List FieldType)) (table : AggStateTable Op) :
    Prop :=
  ∀ text, (table.rows.get (.singleStr text)).isSome = true → readAs env types text = none

theorem mem_iterSorted {entry : EntityKey × List Op} :
    entry ∈ iterSorted table ↔
      ∃ shape, table.rows.get shape = some entry.2 ∧
        entityKeyOf (table.groupKeys.headD "") shape = entry.1 := by
  rw [iterSorted,(List.perm_insertionSort _ _).mem_iff,List.mem_map]
  constructor
  · rintro ⟨⟨shape,states⟩,member,rfl⟩
    exact ⟨shape,ShapeEntries.mem_toList.mp member,rfl⟩
  · rintro ⟨shape,held,same⟩
    exact ⟨(shape,entry.2),ShapeEntries.mem_toList.mpr held,Prod.ext same rfl⟩

theorem get_insertFromEntityKey (table : AggStateTable Op) (entry : EntityKey × List Op)
    (shape : EntityKeyShape) :
    (insertFromEntityKeyWithTypes env types table entry).rows.get shape =
      if restoredShape env types entry.1 = some shape then some entry.2
      else table.rows.get shape := by
  unfold insertFromEntityKeyWithTypes
  cases restoredShape env types entry.1 with
  | none => simp
  | some target => simp [ShapeMap.get_insert]

variable {entries : List (EntityKey × List Op)}

theorem load_of_absent (absent : ∀ entry ∈ entries, restoredShape env types entry.1 ≠ some shape)
    (table : AggStateTable Op) :
    (entries.foldl (insertFromEntityKeyWithTypes env types) table).rows.get shape =
      table.rows.get shape := by
  induction entries generalizing table with
  | nil => rfl
  | cons entry rest ih =>
      rw [List.foldl_cons,ih (fun other member => absent other (List.mem_cons_of_mem _ member)),
        get_insertFromEntityKey,if_neg (absent entry List.mem_cons_self)]

theorem load_of_agree
    {states : List Op}
    (agree : ∀ entry ∈ entries, restoredShape env types entry.1 = some shape → entry.2 = states)
    (present : table.rows.get shape = some states ∨
      ∃ entry ∈ entries, restoredShape env types entry.1 = some shape) :
    (entries.foldl (insertFromEntityKeyWithTypes env types) table).rows.get shape =
      some states := by
  induction entries generalizing table with
  | nil =>
      rcases present with held | ⟨entry,member,-⟩
      · exact held
      · cases member
  | cons entry rest ih =>
      rw [List.foldl_cons]
      apply ih fun other member => agree other (List.mem_cons_of_mem _ member)
      rw [get_insertFromEntityKey]
      by_cases here : restoredShape env types entry.1 = some shape
      · rw [if_pos here,agree entry List.mem_cons_self here]
        exact .inl rfl
      · rw [if_neg here]
        rcases present with held | ⟨other,member,restored⟩
        · exact .inl held
        · rcases List.mem_cons.mp member with rfl | inRest
          · exact absurd restored here
          · exact .inr ⟨other,inRest,restored⟩

/-- The table that is loaded is the table that was written exactly when no text
reads as a value of the declared type. -/
theorem load_iterSorted_iff (formed : TableFormed table) :
    (loadTable env types (iterSorted table)).rows = table.rows ↔
      NoTextReads env types table := by
  constructor
  · intro same text present
    by_contra read
    have absent : ∀ entry ∈ iterSorted table,
        restoredShape env types entry.1 ≠ some (.singleStr text) := by
      intro entry member restored
      obtain ⟨shape,held,keyEq⟩ := mem_iterSorted.mp member
      rw [← keyEq] at restored
      have isFormed := formed shape (by rw [held]; rfl)
      exact read (eq_of_restoredShape_singleStr isFormed restored).2
    rw [← same,loadTable,load_of_absent absent] at present
    simp [AggStateTable.new] at present
  · intro notRead
    have restores : ∀ shape states, table.rows.get shape = some states →
        restoredShape env types (entityKeyOf (table.groupKeys.headD "") shape) = some shape := by
      intro shape states held
      have present : (table.rows.get shape).isSome = true := by rw [held]; rfl
      apply restoredShape_entityKeyOf (formed shape present)
      rintro text rfl
      exact notRead text present
    apply ShapeMap.ext_get
    intro shape
    cases held : table.rows.get shape with
    | none =>
        rw [loadTable,load_of_absent]
        · simp [AggStateTable.new]
        · intro entry member restored
          obtain ⟨other,otherHeld,keyEq⟩ := mem_iterSorted.mp member
          rw [← keyEq,restores other _ otherHeld,Option.some_inj] at restored
          rw [restored,held] at otherHeld
          cases otherHeld
    | some states =>
        apply load_of_agree
        · intro entry member restored
          obtain ⟨other,otherHeld,keyEq⟩ := mem_iterSorted.mp member
          rw [← keyEq,restores other _ otherHeld,Option.some_inj] at restored
          rw [restored,held] at otherHeld
          exact (Option.some_inj.mp otherHeld).symm
        · exact .inr ⟨(_,states),mem_iterSorted.mpr ⟨shape,held,rfl⟩,
            restores shape states held⟩

end Restore

/-! ### Runs -/

section Runs

variable {Expr Op : Type} {env : Env Expr} {ops : Operators Expr Op}
variable {shape : EntityKeyShape} {state : LoopState Op}

/-- Every entity of every table could have been made by a push. -/
def AllFormed (tables : StateTables Op) : Prop :=
  ∀ aggId, TableFormed (StateTables.tableAt tables aggId)

theorem updateTable_formed {table : AggStateTable Op} (formed : TableFormed table)
    (agg : AggregationDescriptor Expr) (inputOf : AggOpDescriptor Expr → OpInput)
    (shapeFormed : Formed shape) (nowMs : Int64) (coldAfterMs : Option Nat) :
    TableFormed (updateTable ops agg inputOf shape nowMs coldAfterMs table) := by
  intro other present
  by_cases same : shape = other
  · rw [← same]
    exact shapeFormed
  · rw [(updateTable_rows ops agg inputOf shape nowMs coldAfterMs table).2 other same] at present
    exact formed other present

/-- The tables and the keys that are computed once per cluster. -/
structure LoopFormed (state : LoopState Op) : Prop where
  tables : AllFormed state.tables
  cache : ∀ (cluster : Nat) (shape : EntityKeyShape),
    state.cache[cluster]? = some (some shape) → Formed shape

theorem LoopFormed.clusterShape (formed : LoopFormed state) {agg : AggregationDescriptor Expr}
    {row : Row} (isShape : clusterShape env state.cache agg row = some shape) : Formed shape := by
  unfold Apply.clusterShape at isShape
  split at isShape
  · rename_i cached cachedEq
    exact formed.cache _ shape (cachedEq.trans (congrArg some isShape))
  · exact formed_of_fromRow isShape

theorem LoopFormed.step (formed : LoopFormed state) (registry : RegistryInner Expr) (row : Row)
    (nowMs : Int64) (coldAfterMs : Option Nat) (extracted : ExtractedFields)
    (agg : AggregationDescriptor Expr) :
    LoopFormed (applyToAggregation env ops registry row nowMs coldAfterMs extracted state agg) := by
  unfold applyToAggregation
  cases chainRow env registry agg.nodeName row with
  | none => exact formed
  | some aggRow =>
      have cacheFormed : ∀ (cluster : Nat) (shape : EntityKeyShape),
          (state.cache.insert agg.clusterId (Apply.clusterShape env state.cache agg row))[cluster]? =
            some (some shape) → Formed shape := by
        intro cluster shape found
        rw [KeyMap.lookup_insert] at found
        split at found
        · exact formed.clusterShape (Option.some_inj.mp found)
        · exact formed.cache cluster shape found
      cases isShape : Apply.clusterShape env state.cache agg row with
      | none =>
          rw [isShape] at cacheFormed
          exact ⟨formed.tables,cacheFormed⟩
      | some shape =>
          rw [isShape] at cacheFormed
          refine ⟨fun aggId => ?_,cacheFormed⟩
          rw [StateTables.tableAt_setTable]
          split
          · exact updateTable_formed (formed.tables _) agg _ (formed.clusterShape isShape) nowMs coldAfterMs
          · exact formed.tables aggId

theorem applyEvent_formed {tables : StateTables Op} (formed : AllFormed tables)
    (registry : RegistryInner Expr) (source : String) (row : Row) (nowMs : Int64)
    (coldAfterMs : Option Nat) :
    AllFormed (applyEvent env ops registry source row nowMs coldAfterMs tables) := by
  have folds : ∀ (aggs : List (AggregationDescriptor Expr)) (extracted : ExtractedFields)
      {state : LoopState Op}, LoopFormed state →
      LoopFormed (aggs.foldl
        (applyToAggregation env ops registry row nowMs coldAfterMs extracted) state) := by
    intro aggs extracted
    induction aggs with
    | nil => exact id
    | cons agg rest ih => exact fun held => ih (held.step registry row nowMs coldAfterMs extracted agg)
  exact (folds _ _ ⟨formed,by simp⟩).tables

theorem next_formed {live : Live Expr Op} (formed : AllFormed live.tables) (action : Action) :
    AllFormed (live.next env ops action).tables := by
  cases action with
  | register call append =>
      intro aggId
      rw [Live.next,StateTables.tableAt_ensureCapacityFor]
      exact formed aggId
  | push eventName row nowMs =>
      simp only [Live.next]
      cases pushError live.registry eventName row with
      | some error => exact formed
      | none => exact applyEvent_formed formed _ _ _ _ _

theorem liveAfter_formed (env : Env Expr) (ops : Operators Expr Op) (actions : List Action) :
    AllFormed (liveAfter env ops actions).tables := by
  have runs : ∀ {live : Live Expr Op}, AllFormed live.tables →
      AllFormed (Machine.run (Live.next env ops) live actions).tables := by
    induction actions with
    | nil => exact id
    | cons action rest ih => exact fun formed => ih (next_formed formed action)
  apply runs
  intro aggId shape present
  simp [Live.start,StateTables.tableAt,AggStateTable.new] at present

/-- In every reachable state the table of an aggregation comes back from a snapshot
with the same entities and the same states exactly when no entity is stored under
a string that reads as a value of the declared type of its column. -/
theorem table_roundTrip_iff (env : Env Expr) (ops : Operators Expr Op) (actions : List Action)
    (agg : AggregationDescriptor Expr) :
    (loadTable env (groupKeyTypes (liveAfter env ops actions).registry agg)
        (iterSorted (StateTables.tableAt (liveAfter env ops actions).tables agg.aggId))).rows =
      (StateTables.tableAt (liveAfter env ops actions).tables agg.aggId).rows ↔
    NoTextReads env (groupKeyTypes (liveAfter env ops actions).registry agg)
      (StateTables.tableAt (liveAfter env ops actions).tables agg.aggId) :=
  load_iterSorted_iff (liveAfter_formed env ops actions agg.aggId)

end Runs

/-- An account number that may be left out, and a table by account. -/
def accountNodes : List PayloadNode :=
  [.event
    { name := "Payment"
      schema := ⟨.ofList [("account",FieldType.i64),("x",FieldType.i64)],["account"]⟩
      dedupeKey := none
      dedupeWindowMs := none
      keepEventsForMs := none
      coldAfterMs := none
      registeredAtVersion := 0
      applyFieldNames := [] },
   .derivation
    { name := "Accounts"
      outputKind := .table
      upstreams := ["Payment"]
      ops := [.groupBy ["account"]
        (.ofList [("latest",AggSpec.mk "last" (.object [("field",.string "x")]))])]
      schema := ⟨.ofList [("account",FieldType.i64),("latest",FieldType.i64)],[]⟩
      tablePrimaryKey := some ["account"]
      registeredAtVersion := 0 }]

def accountRun : List Action :=
  [sampleRegister accountNodes false,
    .push "Payment" ⟨[("account",.str "123"),("x",.i64 7)]⟩ 1]

def accountAggregation : AggregationDescriptor Empty :=
  (liveAfter sampleEnv sampleOps accountRun).registry.compiledAggregations["Accounts"]?.get
    (by decide)

def accountTable : AggStateTable (Option Int64) :=
  StateTables.tableAt (liveAfter sampleEnv sampleOps accountRun).tables accountAggregation.aggId

def loadedAccounts : AggStateTable (Option Int64) :=
  loadTable sampleEnv
    (groupKeyTypes (liveAfter sampleEnv sampleOps accountRun).registry accountAggregation)
    (iterSorted accountTable)

/-- A text is pushed where a number is declared: its entity comes back as the
entity of the number. -/
theorem account_text_moves :
    accountTable.rows.get (.singleStr "123") = some [some 7] ∧
      loadedAccounts.rows.get (.singleStr "123") = none ∧
      loadedAccounts.rows.get (.singleU64 (tagU64 .i64 123)) = some [some 7] ∧
      loadedAccounts.rows ≠ accountTable.rows := by
  have held : accountTable.rows.get (.singleStr "123") = some [some 7] := by decide
  have lost : loadedAccounts.rows.get (.singleStr "123") = none := by decide
  refine ⟨held,lost,by decide,fun same => ?_⟩
  rw [same,held] at lost
  cases lost

end Beava.Server
