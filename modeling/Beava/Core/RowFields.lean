/-
The fields of a row, name by name.

The values a row has under a name, in order, determine what a lookup finds, and
each operation on rows changes them for one name only.
-/

import Beava.Core.Row

namespace Beava.Core

namespace Row

variable {row : Row}

/-- The values under a name, in order. -/
def valuesOf (row : Row) (field : String) : List Value :=
  (row.fields.filter fun entry => entry.1 = field).map Prod.snd

theorem mem_valuesOf {field : String} {value : Value} :
    value ∈ row.valuesOf field ↔ (field,value) ∈ row.fields := by
  constructor
  · intro member
    obtain ⟨⟨name,own⟩,inFiltered,rfl⟩ := List.mem_map.mp member
    obtain ⟨inFields,named⟩ := List.mem_filter.mp inFiltered
    rw [← of_decide_eq_true named]
    exact inFields
  · intro member
    exact List.mem_map.mpr ⟨(field,value),
      List.mem_filter.mpr ⟨member,decide_eq_true rfl⟩,rfl⟩

theorem get_eq_head (row : Row) (field : String) : row.get field = (row.valuesOf field).head? := by
  obtain ⟨fields⟩ := row
  simp only [get,valuesOf]
  induction fields with
  | nil => rfl
  | cons entry rest ih =>
      obtain ⟨name,value⟩ := entry
      rw [List.lookup_cons,List.filter_cons]
      by_cases named : name = field
      · simp [named]
      · have differs : (field == name) = false := beq_false_of_ne (Ne.symm named)
        rw [differs,if_neg (by simpa using named)]
        exact ih

theorem valuesOf_replaceFirst (field other : String) (value : Value)
    (fields : List (String × Value)) (present : (fields.lookup field).isSome = true) :
    valuesOf ⟨replaceFirst field value fields⟩ other =
      if field = other then value :: (valuesOf ⟨fields⟩ other).tail
      else valuesOf ⟨fields⟩ other := by
  induction fields with
  | nil => cases present
  | cons entry rest ih =>
      obtain ⟨name,old⟩ := entry
      simp only [replaceFirst]
      by_cases isFirst : name = field
      · rw [if_pos isFirst]
        subst isFirst
        by_cases same : name = other
        · simp [valuesOf,same]
        · simp [valuesOf,same]
      · rw [if_neg isFirst]
        have inRest : (rest.lookup field).isSome = true := by
          rwa [List.lookup_cons,beq_false_of_ne (Ne.symm isFirst)] at present
        have later := ih inRest
        simp only [valuesOf] at later ⊢
        by_cases same : field = other
        · subst same
          rw [if_pos rfl] at later ⊢
          simpa [isFirst] using later
        · rw [if_neg same] at later ⊢
          by_cases here : name = other
          · simpa [here] using later
          · simpa [here] using later

theorem valuesOf_withField (row : Row) (field other : String) (value : Value) :
    (row.withField field value).valuesOf other =
      if field = other then value :: (row.valuesOf other).tail else row.valuesOf other := by
  unfold withField
  split
  · rename_i present
    exact valuesOf_replaceFirst field other value row.fields present
  · rename_i absent
    have noValues : row.valuesOf field = [] := by
      rw [get_eq_head,Bool.not_eq_true,Option.isSome_eq_false_iff,Option.isNone_iff_eq_none,
        List.head?_eq_none_iff] at absent
      exact absent
    by_cases same : field = other
    · subst same
      rw [if_pos rfl,noValues]
      simp only [valuesOf] at noValues
      simp [valuesOf,List.filter_append,noValues]
    · rw [if_neg same]
      simp [valuesOf,List.filter_append,same]

theorem valuesOf_withoutField (row : Row) (field other : String) :
    (row.withoutField field).valuesOf other =
      if field = other then (row.valuesOf other).tail else row.valuesOf other := by
  obtain ⟨fields⟩ := row
  simp only [withoutField]
  induction fields with
  | nil => simp [valuesOf]
  | cons entry rest ih =>
      obtain ⟨name,value⟩ := entry
      by_cases isFirst : name = field
      · subst isFirst
        by_cases same : name = other
        · simp [valuesOf,same]
        · simp [valuesOf,same]
      · rw [List.eraseP_cons_of_neg (by simpa using isFirst)]
        simp only [valuesOf] at ih ⊢
        by_cases same : field = other
        · subst same
          rw [if_pos rfl] at ih ⊢
          simpa [isFirst] using ih
        · rw [if_neg same] at ih ⊢
          by_cases here : name = other
          · simpa [here] using ih
          · simpa [here] using ih

theorem get_withField (row : Row) (field other : String) (value : Value) :
    (row.withField field value).get other = if field = other then some value else row.get other := by
  rw [get_eq_head,get_eq_head,valuesOf_withField]
  split <;> rfl

theorem get_withoutField_ne (row : Row) {field other : String} (differs : field ≠ other) :
    (row.withoutField field).get other = row.get other := by
  rw [get_eq_head,get_eq_head,valuesOf_withoutField,if_neg differs]

theorem nodup_names_iff :
    (row.fields.map Prod.fst).Nodup ↔ ∀ field, (row.valuesOf field).length ≤ 1 := by
  have counted : ∀ field, (row.valuesOf field).length = (row.fields.map Prod.fst).count field := by
    intro field
    rw [valuesOf,List.length_map,List.count,List.countP_map,List.countP_eq_length_filter]
    rfl
  rw [List.nodup_iff_count]
  constructor
  · intro once field
    rw [counted]
    exact once field
  · intro once field
    rw [← counted]
    exact once field

end Row

end Beava.Core
