/-
Which rows meet in one entity.

A key of one column is a tagged word or a string, and a word keeps sixty bits of
the value.  A key of several columns is a list of texts, and the text of a value
does not show its variant.  Both are compressed forms of the values: this module
says exactly which values they do not tell apart.
-/

import Beava.Apply.Reaching
import Std.Data.String.ToInt

namespace Beava.Apply

open Beava.Core Beava.Registry

variable {Expr Op : Type} (env : Env Expr)
variable {keys : List String} {registry : RegistryInner Expr} {agg : AggregationDescriptor Expr}
variable {row : Row} {entity : EntityKeyShape}

theorem toNat_tagU64 (tag : VariantTag) (payload : UInt64) :
    (tagU64 tag payload).toNat = tag.code.toNat * 2 ^ 60 + payload.toNat % 2 ^ 60 := by
  have payloadBits : (payload &&& 0x0FFFFFFFFFFFFFFF).toNat = payload.toNat % 2 ^ 60 := by
    rw [UInt64.toNat_and]
    exact Nat.and_two_pow_sub_one_eq_mod payload.toNat 60
  have tagBits : (tag.code <<< 60).toNat = tag.code.toNat <<< 60 := by
    cases tag <;> rfl
  have below : payload.toNat % 2 ^ 60 < 2 ^ 60 := Nat.mod_lt _ (by decide)
  rw [tagU64,UInt64.toNat_or,payloadBits,tagBits,← Nat.shiftLeft_add_eq_or_of_lt below,
    Nat.shiftLeft_eq]

theorem tagU64_eq_iff {tag other : VariantTag} {payload value : UInt64} :
    tagU64 tag payload = tagU64 other value ↔
      tag = other ∧ payload.toNat % 2 ^ 60 = value.toNat % 2 ^ 60 := by
  have payloadBelow : payload.toNat % 2 ^ 60 < 2 ^ 60 := Nat.mod_lt _ (by decide)
  have valueBelow : value.toNat % 2 ^ 60 < 2 ^ 60 := Nat.mod_lt _ (by decide)
  rw [← UInt64.toNat_inj,toNat_tagU64,toNat_tagU64]
  constructor
  · intro same
    have codes : tag.code.toNat = other.code.toNat := by omega
    refine ⟨?_,by omega⟩
    cases tag <;> cases other <;> simp_all [VariantTag.code]
  · rintro ⟨rfl,same⟩
    rw [same]

theorem lowBits_eq_iff (first second : Int64) :
    first.toUInt64.toNat % 2 ^ 60 = second.toUInt64.toNat % 2 ^ 60 ↔
      first.toInt % 2 ^ 60 = second.toInt % 2 ^ 60 := by
  have residue : ∀ number : Int64,
      ((number.toUInt64.toNat % 2 ^ 60 : Nat) : Int) = number.toInt % 2 ^ 60 := by
    intro number
    have word : number.toInt = (number.toUInt64.toNat : Int).bmod (2 ^ 64) := by
      rw [← Int64.toInt_toBitVec,BitVec.toInt_eq_toNat_bmod]
      rfl
    have small : number.toUInt64.toNat < 2 ^ 64 := UInt64.toNat_lt _
    rw [word,Int.bmod_def]
    split <;> omega
  rw [← residue first,← residue second]
  exact Int.ofNat_inj.symm

/-- The value is a number, a flag, a text or a time. -/
def IsKeyValue : Option Value → Prop
  | some (.i64 _) | some (.bool _) | some (.str _) | some (.datetime _) => True
  | _ => False

instance : DecidablePred IsKeyValue
  | some (.i64 _) | some (.bool _) | some (.str _) | some (.datetime _) => .isTrue trivial
  | none | some .null | some (.f64 _) | some (.bytes _) | some (.json _) | some (.list _)
  | some (.map _) => .isFalse id

/-- Two values of a key of one column that give the same word or string. -/
def SameWord : Value → Value → Prop
  | .str first, .str second => first = second
  | .i64 first, .i64 second => first.toInt % 2 ^ 60 = second.toInt % 2 ^ 60
  | .datetime first, .datetime second => first.toInt % 2 ^ 60 = second.toInt % 2 ^ 60
  | .bool first, .bool second => first = second
  | _, _ => False

/-- Two values of a key of several columns that give the same text. -/
def SameText : Value → Value → Prop
  | .str first, .str second => first = second
  | .bool first, .bool second => first = second
  | .i64 first, .i64 second => first = second
  | .i64 first, .datetime second => first = second
  | .datetime first, .i64 second => first = second
  | .datetime first, .datetime second => first = second
  | .str text, .i64 number => text = toString number
  | .i64 number, .str text => text = toString number
  | .str text, .datetime millis => text = toString millis
  | .datetime millis, .str text => text = toString millis
  | .str text, .bool flag => text = toString flag
  | .bool flag, .str text => text = toString flag
  | _, _ => False

/-- The rows have values under the key that the relation does not tell apart. -/
def MeetAt (same : Value → Value → Prop) (first second : Row) (key : String) : Prop :=
  ∃ value ∈ first.get key, ∃ other ∈ second.get key, same value other

def SameKey (groupKeys : List String) (first second : Row) : Prop :=
  match groupKeys with
  | [key] => MeetAt SameWord first second key
  | keys => ∀ key ∈ keys, MeetAt SameText first second key

theorem singleShape_eq_iff {value other : Value} (keyed : IsKeyValue (some value))
    (otherKeyed : IsKeyValue (some other)) :
    singleShape value = singleShape other ↔ SameWord value other := by
  have words : ∀ (tag : VariantTag) (payload number : UInt64),
      some (EntityKeyShape.singleU64 (tagU64 tag payload)) =
          some (.singleU64 (tagU64 tag number)) ↔
        payload.toNat % 2 ^ 60 = number.toNat % 2 ^ 60 := by
    intro tag payload number
    rw [Option.some_inj,EntityKeyShape.singleU64.injEq,tagU64_eq_iff]
    exact and_iff_right rfl
  cases value with
  | str text => cases other <;> simp [singleShape,SameWord] at otherKeyed ⊢
  | i64 number =>
      cases other with
      | i64 second => exact (words .i64 _ _).trans (lowBits_eq_iff number second)
      | _ => simp [singleShape,SameWord,tagU64_eq_iff,IsKeyValue] at otherKeyed ⊢
  | datetime millis =>
      cases other with
      | datetime second => exact (words .datetime _ _).trans (lowBits_eq_iff millis second)
      | _ => simp [singleShape,SameWord,tagU64_eq_iff,IsKeyValue] at otherKeyed ⊢
  | bool flag =>
      cases other with
      | bool second =>
          refine (words .bool _ _).trans ?_
          cases flag <;> cases second <;> simp [SameWord]
      | _ => simp [singleShape,SameWord,tagU64_eq_iff,IsKeyValue] at otherKeyed ⊢
  | _ => exact keyed.elim

theorem toString_int64_inj {first second : Int64} :
    toString first = toString second ↔ first = second := by
  constructor
  · intro same
    exact Int64.toInt_inj.mp (Int.repr_injective same)
  · rintro rfl
    rfl

theorem mem_toString_int64 {number : Int64} {ch : Char} (member : ch ∈ (toString number).toList) :
    ch = '-' ∨ ch.isDigit = true := by
  have digits : ∀ {value : Nat}, ch ∈ value.repr.toList → ch.isDigit = true := by
    intro value inDigits
    rw [Nat.toList_repr] at inDigits
    exact Nat.isDigit_of_mem_toDigits (by decide) (by decide) inDigits
  have spelled : toString number =
      if 0 ≤ number.toInt then number.toInt.toNat.repr else "-" ++ (-number.toInt).toNat.repr :=
    Int.repr_eq_if
  rw [spelled] at member
  split at member
  · exact .inr (digits member)
  · rw [String.toList_append,List.mem_append] at member
    rcases member with sign | digit
    · exact .inl (by simpa using sign)
    · exact .inr (digits digit)

theorem toString_int64_ne_bool (number : Int64) (flag : Bool) :
    toString number ≠ toString flag := by
  intro same
  have letter : ∃ ch ∈ (toString flag).toList, ch ≠ '-' ∧ ch.isDigit = false := by
    cases flag
    · exact ⟨'f',by decide,by decide,by decide⟩
    · exact ⟨'t',by decide,by decide,by decide⟩
  obtain ⟨ch,inFlag,notSign,notDigit⟩ := letter
  rw [← same] at inFlag
  rcases mem_toString_int64 inFlag with sign | digit
  · exact notSign sign
  · exact absurd digit (by rw [notDigit]; decide)

theorem canonicalText_eq_iff {value other : Value} (keyed : IsKeyValue (some value))
    (otherKeyed : IsKeyValue (some other)) :
    canonicalText env value = canonicalText env other ↔ SameText value other := by
  have flags : ∀ first second : Bool, toString first = toString second ↔ first = second := by
    decide
  cases value <;> cases other <;>
    first
    | exact keyed.elim
    | exact otherKeyed.elim
    | simp [canonicalText,SameText,toString_int64_inj,(toString_int64_ne_bool _ _).symm,
        flags,eq_comm]

theorem IsKeyValue.text {found : Option Value} (keyed : IsKeyValue found) :
    ∃ value text, found = some value ∧ IsKeyValue (some value) ∧
      canonicalText env value = some text := by
  cases found with
  | none => exact keyed.elim
  | some value =>
      cases value <;> first | exact keyed.elim | exact ⟨_,_,rfl,keyed,rfl⟩

theorem compoundPairs_eq_iff {first second : Row}
    (keyed : ∀ key ∈ keys, IsKeyValue (first.get key) ∧ IsKeyValue (second.get key)) :
    (∃ pairs, compoundPairs env first keys = some pairs) ∧
      (∃ pairs, compoundPairs env second keys = some pairs) ∧
      (compoundPairs env first keys = compoundPairs env second keys ↔
        ∀ key ∈ keys, MeetAt SameText first second key) := by
  induction keys with
  | nil => simp [compoundPairs]
  | cons key rest ih =>
      obtain ⟨⟨pairs,pairsEq⟩,⟨others,othersEq⟩,same⟩ :=
        ih fun other member => keyed other (.tail _ member)
      obtain ⟨firstKeyed,secondKeyed⟩ := keyed key (.head _)
      obtain ⟨value,text,valueEq,isKey,textEq⟩ := firstKeyed.text env
      obtain ⟨other,otherText,otherEq,otherIsKey,otherTextEq⟩ := secondKeyed.text env
      have texts := canonicalText_eq_iff env isKey otherIsKey
      rw [textEq,otherTextEq,Option.some_inj] at texts
      rw [pairsEq,othersEq,Option.some_inj] at same
      simp [compoundPairs,valueEq,otherEq,textEq,otherTextEq,pairsEq,othersEq,texts,same,
        MeetAt]

theorem fromRow_of_several (several : ∀ key, keys ≠ [key]) (row : Row) :
    EntityKeyShape.fromRow env keys row = (compoundPairs env row keys).map .multi := by
  unfold EntityKeyShape.fromRow
  split
  · rename_i key
    exact absurd rfl (several key)
  · rfl

theorem fromRow_eq_iff {first second : Row}
    (keyed : ∀ key ∈ keys, IsKeyValue (first.get key) ∧ IsKeyValue (second.get key)) :
    EntityKeyShape.fromRow env keys first = EntityKeyShape.fromRow env keys second ↔
      SameKey keys first second := by
  unfold SameKey
  split
  · rename_i key
    obtain ⟨firstKeyed,secondKeyed⟩ := keyed key (.head _)
    obtain ⟨value,-,valueEq,isKey,-⟩ := firstKeyed.text env
    obtain ⟨other,-,otherEq,otherIsKey,-⟩ := secondKeyed.text env
    simp only [EntityKeyShape.fromRow,MeetAt,valueEq,otherEq,Option.bind_some,
      singleShape_eq_iff isKey otherIsKey,Option.mem_some_iff,exists_eq_left']
  · rename_i several
    obtain ⟨⟨pairs,pairsEq⟩,⟨others,othersEq⟩,same⟩ := compoundPairs_eq_iff env keyed
    rw [← same,fromRow_of_several env several,fromRow_of_several env several,pairsEq,othersEq]
    simp

/-- The entity a pushed row updates in the table of an aggregation; `none` when
the row does not reach the table. -/
def updatedEntity (registry : RegistryInner Expr) (agg : AggregationDescriptor Expr) (row : Row) :
    Option EntityKeyShape :=
  if (chainRow env registry agg.nodeName row).isSome then
    EntityKeyShape.fromRow env agg.groupKeys row
  else none

variable {env}

theorem fromRow_of_updatedEntity (updates : updatedEntity env registry agg row = some entity) :
    EntityKeyShape.fromRow env agg.groupKeys row = some entity := by
  unfold updatedEntity at updates
  split at updates
  · exact updates
  · cases updates

theorem updateTable_rows (ops : Operators Expr Op) (agg : AggregationDescriptor Expr)
    (inputOf : AggOpDescriptor Expr → OpInput) (shape : EntityKeyShape) (nowMs : Int64)
    (coldAfterMs : Option Nat) (table : AggStateTable Op) :
    (∃ states,
        (updateTable ops agg inputOf shape nowMs coldAfterMs table).rows.get shape = some states) ∧
      ∀ other, shape ≠ other →
        (updateTable ops agg inputOf shape nowMs coldAfterMs table).rows.get other =
          table.rows.get other := by
  constructor
  · rw [updateTable_get,if_pos rfl]
    exact ⟨_,rfl⟩
  · intro other different
    rw [updateTable_get,if_neg different]

theorem stepTable_rows (ops : Operators Expr Op)
    (updates : updatedEntity env registry agg row = some entity) (nowMs : Int64)
    (coldAfterMs : Option Nat) (extracted : ExtractedFields) (table : AggStateTable Op) :
    (∃ states,
        (stepTable env ops registry row nowMs coldAfterMs extracted agg table).rows.get entity =
          some states) ∧
      ∀ other, entity ≠ other →
        (stepTable env ops registry row nowMs coldAfterMs extracted agg table).rows.get other =
          table.rows.get other := by
  have shapeEq := fromRow_of_updatedEntity updates
  unfold updatedEntity at updates
  split at updates
  · rename_i kept
    obtain ⟨aggRow,chainEq⟩ := Option.isSome_iff_exists.mp kept
    simp only [stepTable,chainEq,shapeEq]
    exact updateTable_rows ops agg _ entity nowMs coldAfterMs table
  · cases updates

end Beava.Apply
