/-
A `rename` as a substitution of names.

The schema and the row are renamed separately.  The check of a mapping looks for
a new name that a field keeps, not for two fields with the same new name; of such
two fields of a row only one is there afterwards.  When no two fields of the row
have the same new name, the row is renamed all at once.
-/

import Beava.Core.ChainTyping
import Mathlib.Data.List.Nodup
import Mathlib.Data.List.Perm.Subperm

namespace Beava.Core

variable {Expr : Type} {env : Env Expr}
variable {mapping : StrMap String}

namespace Row

variable {row : Row} {field : String}

def names (row : Row) : List String := row.fields.map Prod.fst

theorem mem_names_iff : field ∈ row.names ↔ ∃ value, row.get field = some value := by
  rw [get_eq_head]
  constructor
  · intro member
    obtain ⟨⟨name,value⟩,inFields,rfl⟩ := List.mem_map.mp member
    have isValue : value ∈ row.valuesOf name := mem_valuesOf.mpr inFields
    cases values : row.valuesOf name with
    | nil =>
        rw [values] at isValue
        cases isValue
    | cons first rest => exact ⟨first,rfl⟩
  · rintro ⟨value,isHead⟩
    have isValue := mem_valuesOf.mp (List.mem_of_head? isHead)
    exact List.mem_map.mpr ⟨(field,value),isValue,rfl⟩

theorem get_eq_some_iff (distinct : row.names.Nodup) {value : Value} :
    row.get field = some value ↔ (field,value) ∈ row.fields := by
  rw [get_eq_head,← mem_valuesOf]
  have short := nodup_names_iff.mp distinct field
  cases values : row.valuesOf field with
  | nil => simp
  | cons first rest =>
      have noRest : rest = [] := by
        rw [values,List.length_cons] at short
        exact List.eq_nil_of_length_eq_zero (by omega)
      simp [noRest,eq_comm]

end Row

/-- The name of a field after a `rename`. -/
def newName (mapping : StrMap String) (field : String) : String := mapping.getD field field

theorem newName_of_mem {entry : String × String} (member : entry ∈ mapping.toList) :
    newName mapping entry.1 = entry.2 :=
  getD_eq_iff.mpr (.inl member)

theorem newName_of_notMem {field : String} (absent : field ∉ mapping) :
    newName mapping field = field :=
  getD_eq_iff.mpr (.inr ⟨absent,rfl⟩)

theorem mem_renamedValues {row : Row} {name : String} {value : Value} :
    value ∈ renamedValues mapping row name ↔
      ∃ field ∈ mapping, row.get field = some value ∧ newName mapping field = name := by
  constructor
  · intro isValue
    obtain ⟨entry,member,found⟩ := List.mem_filterMap.mp isValue
    obtain ⟨inMapping,isTarget⟩ := List.mem_filter.mp member
    rw [decide_eq_true_eq] at isTarget
    exact ⟨entry.1,KeyMap.mem_of_mem_toList inMapping,found,
      (newName_of_mem inMapping).trans isTarget⟩
  · rintro ⟨field,isKey,found,rfl⟩
    obtain ⟨target,mapped⟩ := KeyMap.mem_iff_exists.mp isKey
    have inMapping : (field,target) ∈ mapping.toList :=
      Std.ExtTreeMap.mem_toList_iff_getElem?_eq_some.mpr mapped
    refine List.mem_filterMap.mpr ⟨(field,target),List.mem_filter.mpr ⟨inMapping,?_⟩,found⟩
    exact decide_eq_true (newName_of_mem inMapping).symm

/-- No two fields of the row have the same new name. -/
def SeparateNames (mapping : StrMap String) (row : Row) : Prop :=
  ∀ first ∈ row.names, ∀ second ∈ row.names,
    newName mapping first = newName mapping second → first = second

instance (mapping : StrMap String) (row : Row) : Decidable (SeparateNames mapping row) :=
  inferInstanceAs (Decidable (∀ first ∈ row.names, ∀ second ∈ row.names, _))

/-- The row is renamed all at once: a field of the row is found with its value
under its new name, no value is lost, and the names are those that the output
schema lists for the fields of the row. -/
structure RenamedAtOnce (mapping : StrMap String) (output : Schema) (row after : Row) : Prop where
  value : ∀ field ∈ row.names, after.get (newName mapping field) = row.get field
  kept : (after.fields.map Prod.snd).Perm (row.fields.map Prod.snd)
  distinct : after.names.Nodup
  listed : ∀ name, name ∈ after.names ↔
    name ∈ output.fields ∧ ∃ field ∈ row.names, newName mapping field = name

section Accepted

variable {mapping : StrMap String} {schema : Schema} {row : Row}
variable {name : String}

structure RenameAccepted (mapping : StrMap String) (schema : Schema) : Prop where
  source : ∀ entry ∈ mapping.toList, entry.1 ∈ schema.fields
  free : ∀ entry ∈ mapping.toList, entry.2 ∈ schema.fields → entry.2 ∈ mapping

theorem propagateSchema_rename {output : Schema}
    (accepted : propagateSchema env schema [.rename mapping] = .ok output) :
    RenameAccepted mapping schema ∧ output = (applyRenameSchema 0 mapping schema).1 := by
  simp only [propagateSchema,propagateFrom,propagateOp,List.append_nil] at accepted
  split at accepted
  · rename_i noErrors
    have none := List.isEmpty_iff.mp noErrors
    refine ⟨⟨?_,?_⟩,(Except.ok.inj accepted).symm⟩
    · exact fun entry member => (rename_accepted none member).1
    · exact fun entry member => (rename_accepted none member).2
  · cases accepted

theorem mem_renameSchema :
    name ∈ (applyRenameSchema 0 mapping schema).1.fields ↔
      ∃ field ∈ schema.fields, newName mapping field = name := by
  rw [KeyMap.mem_iff_exists,renameSchema_fields]
  constructor
  · rintro ⟨fieldType,isType⟩
    obtain ⟨old,found,mapped⟩ := renamedType_source isType
    exact ⟨old,KeyMap.mem_of_lookup found,mapped⟩
  · rintro ⟨field,isField,mapped⟩
    exact renamedType_isSome isField mapped

theorem count_keys (mapping : StrMap String) (name : String) :
    (mapping.toList.map Prod.fst).count name = if name ∈ mapping then 1 else 0 := by
  have isKey : name ∈ mapping.toList.map Prod.fst ↔ name ∈ mapping := by
    rw [Std.ExtTreeMap.map_fst_toList_eq_keys,Std.ExtTreeMap.mem_keys]
  split
  · rename_i member
    exact List.count_eq_one_of_mem (nodup_keys mapping) (isKey.mpr member)
  · rename_i absent
    exact List.count_eq_zero.mpr fun member => absent (isKey.mp member)

variable (distinct : row.names.Nodup) (ofSchema : ∀ field ∈ row.names, field ∈ schema.fields)
  (accepted : RenameAccepted mapping schema)

include distinct ofSchema accepted

/-- What stands under a name afterwards: the last of the values renamed to it, or
what a field that keeps its name has. -/
theorem renamedRow_values_eq (name : String) :
    (renamedRow mapping row).valuesOf name =
      match (renamedValues mapping row name).getLast? with
      | some value => [value]
      | none => if name ∈ mapping then [] else row.valuesOf name := by
  have short := Row.nodup_names_iff.mp distinct name
  rw [renamedRow_values,count_keys]
  cases isLast : (renamedValues mapping row name).getLast? with
  | none =>
      by_cases isKey : name ∈ mapping
      · simp only [if_pos isKey]
        exact List.drop_eq_nil_of_le short
      · simp only [if_neg isKey,List.drop_zero]
  | some value =>
      simp only [List.cons.injEq,true_and]
      by_cases isKey : name ∈ mapping
      · rw [if_pos isKey,List.drop_eq_nil_of_le short]
        rfl
      · -- A name that something is renamed to and that is not freed is no field.
        obtain ⟨field,isSource,-,isTarget⟩ :=
          mem_renamedValues.mp (List.mem_of_getLast? isLast)
        obtain ⟨target,mapped⟩ := KeyMap.mem_iff_exists.mp isSource
        have inMapping : (field,target) ∈ mapping.toList :=
          Std.ExtTreeMap.mem_toList_iff_getElem?_eq_some.mpr mapped
        have sameName : target = name := (newName_of_mem inMapping).symm.trans isTarget
        have notField : name ∉ row.names := by
          intro isName
          have freed := accepted.free (field,target) inMapping
          rw [sameName] at freed
          exact isKey (freed (ofSchema name isName))
        have noValues : row.valuesOf name = [] := by
          refine List.eq_nil_iff_forall_not_mem.mpr fun value isValue => notField ?_
          exact List.mem_map.mpr ⟨(name,value),Row.mem_valuesOf.mp isValue,rfl⟩
        rw [noValues,List.drop_nil,List.tail_nil]

theorem renamedRow_distinct : (renamedRow mapping row).names.Nodup := by
  refine Row.nodup_names_iff.mpr fun name => ?_
  rw [renamedRow_values_eq distinct ofSchema accepted]
  split
  · exact Nat.le_refl 1
  · split
    · exact Nat.zero_le 1
    · exact Row.nodup_names_iff.mp distinct name

theorem renamedRow_source {value : Value} (found : (renamedRow mapping row).get name = some value) :
    ∃ field, row.get field = some value ∧ newName mapping field = name := by
  rw [Row.get_eq_head,renamedRow_values_eq distinct ofSchema accepted] at found
  cases isLast : (renamedValues mapping row name).getLast? with
  | some last =>
      rw [isLast] at found
      cases found
      obtain ⟨field,-,isValue,isTarget⟩ := mem_renamedValues.mp (List.mem_of_getLast? isLast)
      exact ⟨field,isValue,isTarget⟩
  | none =>
      rw [isLast] at found
      simp only at found
      split at found
      · cases found
      · rename_i notKey
        rw [← Row.get_eq_head] at found
        exact ⟨name,found,newName_of_notMem notKey⟩

theorem renamedRow_target {field : String} {value : Value} (found : row.get field = some value) :
    ∃ last, (renamedRow mapping row).get (newName mapping field) = some last := by
  rw [Row.get_eq_head,renamedRow_values_eq distinct ofSchema accepted]
  cases isLast : (renamedValues mapping row (newName mapping field)).getLast? with
  | some last => exact ⟨last,rfl⟩
  | none =>
      by_cases isKey : field ∈ mapping
      · have isRenamed : value ∈ renamedValues mapping row (newName mapping field) :=
          mem_renamedValues.mpr ⟨field,isKey,found,rfl⟩
        rw [List.getLast?_eq_none_iff.mp isLast] at isRenamed
        cases isRenamed
      · refine ⟨value,?_⟩
        rw [newName_of_notMem isKey]
        simp only [if_neg isKey]
        rw [← Row.get_eq_head]
        exact found

theorem mem_renamedRow_names (name : String) :
    name ∈ (renamedRow mapping row).names ↔
      ∃ field ∈ row.names, newName mapping field = name := by
  rw [Row.mem_names_iff]
  constructor
  · rintro ⟨value,found⟩
    obtain ⟨field,isValue,isTarget⟩ := renamedRow_source distinct ofSchema accepted found
    exact ⟨field,Row.mem_names_iff.mpr ⟨value,isValue⟩,isTarget⟩
  · rintro ⟨field,isField,rfl⟩
    obtain ⟨value,found⟩ := Row.mem_names_iff.mp isField
    exact renamedRow_target distinct ofSchema accepted found

theorem renamedRow_get (separate : SeparateNames mapping row) {field : String}
    (isField : field ∈ row.names) :
    (renamedRow mapping row).get (newName mapping field) = row.get field := by
  obtain ⟨value,found⟩ := Row.mem_names_iff.mp isField
  obtain ⟨last,after⟩ := @renamedRow_target mapping schema row distinct ofSchema accepted _ _ found
  obtain ⟨other,isOther,sameName⟩ := renamedRow_source distinct ofSchema accepted after
  have same : other = field :=
    separate other (Row.mem_names_iff.mpr ⟨last,isOther⟩) field isField sameName
  rw [after,← isOther,same]

theorem renamedRow_perm (separate : SeparateNames mapping row) :
    (renamedRow mapping row).fields.Perm
      (row.fields.map fun entry => (newName mapping entry.1,entry.2)) := by
  have afterDistinct := renamedRow_distinct distinct ofSchema accepted
  have newDistinct : (row.names.map (newName mapping)).Nodup :=
    distinct.map_on fun first isFirst second isSecond => separate first isFirst second isSecond
  have mappedNodup : (row.fields.map fun entry => (newName mapping entry.1,entry.2)).Nodup := by
    apply List.Nodup.of_map Prod.fst
    rw [List.map_map]
    rw [Row.names,List.map_map] at newDistinct
    exact newDistinct
  refine (List.perm_ext_iff_of_nodup (afterDistinct.of_map Prod.fst) mappedNodup).mpr ?_
  rintro ⟨name,value⟩
  rw [← Row.get_eq_some_iff afterDistinct,List.mem_map]
  constructor
  · intro found
    obtain ⟨field,isValue,rfl⟩ := renamedRow_source distinct ofSchema accepted found
    exact ⟨(field,value),(Row.get_eq_some_iff distinct).mp isValue,rfl⟩
  · rintro ⟨⟨field,own⟩,inFields,same⟩
    cases same
    have found := (Row.get_eq_some_iff distinct).mpr inFields
    rw [renamedRow_get distinct ofSchema accepted separate (Row.mem_names_iff.mpr ⟨_,found⟩)]
    exact found

theorem separate_of_length
    (sameLength : (renamedRow mapping row).fields.length = row.fields.length) :
    SeparateNames mapping row := by
  have afterDistinct := renamedRow_distinct distinct ofSchema accepted
  have asNames : (renamedRow mapping row).names.length = (row.names.map (newName mapping)).length := by
    rw [List.length_map,Row.names,Row.names,List.length_map,List.length_map,sameLength]
  have inside : (renamedRow mapping row).names ⊆ row.names.map (newName mapping) := by
    intro name isName
    exact List.mem_map.mpr ((mem_renamedRow_names distinct ofSchema accepted name).mp isName)
  have perm : (renamedRow mapping row).names.Perm (row.names.map (newName mapping)) :=
    (afterDistinct.subperm inside).perm_of_length_le (Nat.le_of_eq asNames.symm)
  have newDistinct := perm.nodup_iff.mp afterDistinct
  exact fun first isFirst second isSecond =>
    List.inj_on_of_nodup_map newDistinct isFirst isSecond

end Accepted

/-- A `rename` whose schema is accepted renames a row of the schema all at once
exactly when no two fields of the row get the same name. -/
theorem rename_at_once_iff (env : Env Expr) (schema : Schema) (mapping : StrMap String)
    (output : Schema) (accepted : propagateSchema env schema [.rename mapping] = .ok output)
    (row : Row) (distinct : row.names.Nodup)
    (ofSchema : ∀ field ∈ row.names, field ∈ schema.fields) :
    (∃ after, (CompiledOp.rename mapping).apply env row = some after ∧
      RenamedAtOnce mapping output row after) ↔ SeparateNames mapping row := by
  obtain ⟨isAccepted,rfl⟩ := propagateSchema_rename accepted
  constructor
  · rintro ⟨after,applied,atOnce⟩
    have isRenamed : renamedRow mapping row = after := Option.some.inj applied
    rw [← isRenamed] at atOnce
    have sameLength := atOnce.kept.length_eq
    rw [List.length_map,List.length_map] at sameLength
    exact separate_of_length distinct ofSchema isAccepted sameLength
  · intro separate
    refine ⟨renamedRow mapping row,rfl,?_⟩
    constructor
    · exact fun field isField => renamedRow_get distinct ofSchema isAccepted separate isField
    · have perm := (renamedRow_perm distinct ofSchema isAccepted separate).map Prod.snd
      rw [List.map_map] at perm
      exact perm
    · exact renamedRow_distinct distinct ofSchema isAccepted
    · intro name
      rw [mem_renamedRow_names distinct ofSchema isAccepted,mem_renameSchema]
      constructor
      · rintro ⟨field,isField,isTarget⟩
        exact ⟨⟨field,ofSchema field isField,isTarget⟩,field,isField,isTarget⟩
      · exact fun both => both.2

theorem exists_of_isOk {ε α : Type} {result : Except ε α} (isOk : result.isOk = true) :
    ∃ value, result = .ok value := by
  cases result with
  | ok value => exact ⟨value,rfl⟩
  | error failure => cases isOk

def twoFields : Schema := ⟨.ofList [("x",FieldType.i64),("y",FieldType.i64)],[]⟩

def twoValues : Row := ⟨[("x",.i64 1),("y",.i64 2)]⟩

theorem twoValues_ofSchema : ∀ field ∈ twoValues.names, field ∈ twoFields.fields := by decide

theorem rename_at_once_swap :
    ∃ output after,
      propagateSchema sampleHost.env twoFields [.rename (.ofList [("x","y"),("y","x")])] =
        .ok output ∧
      (CompiledOp.rename (.ofList [("x","y"),("y","x")])).apply sampleHost.env twoValues =
        some after ∧
      RenamedAtOnce (.ofList [("x","y"),("y","x")]) output twoValues after := by
  have isOk : (propagateSchema sampleHost.env twoFields
      [.rename (.ofList [("x","y"),("y","x")])]).isOk = true := by decide
  obtain ⟨output,accepted⟩ := exists_of_isOk isOk
  have distinct : twoValues.names.Nodup := by decide
  have separate : SeparateNames (.ofList [("x","y"),("y","x")]) twoValues := by decide
  obtain ⟨after,applied,atOnce⟩ :=
    (rename_at_once_iff sampleHost.env twoFields _ output accepted twoValues distinct
      twoValues_ofSchema).mpr separate
  exact ⟨output,after,accepted,applied,atOnce⟩

/-- Two fields with the same new name pass the check, and one value is lost. -/
theorem rename_loses_value :
    ∃ output,
      propagateSchema sampleHost.env twoFields [.rename (.ofList [("x","z"),("y","z")])] =
        .ok output ∧
      ¬ ∃ after,
        (CompiledOp.rename (.ofList [("x","z"),("y","z")])).apply sampleHost.env twoValues =
          some after ∧
        RenamedAtOnce (.ofList [("x","z"),("y","z")]) output twoValues after := by
  have isOk : (propagateSchema sampleHost.env twoFields
      [.rename (.ofList [("x","z"),("y","z")])]).isOk = true := by decide
  obtain ⟨output,accepted⟩ := exists_of_isOk isOk
  refine ⟨output,accepted,?_⟩
  rintro ⟨after,applied,atOnce⟩
  have isAfter : some (⟨[("z",.i64 2)]⟩ : Row) = some after := by
    rw [← applied]
    decide
  cases Option.some.inj isAfter
  have sameValue := atOnce.value "x" (by decide)
  exact absurd sameValue (by decide)

end Beava.Core
