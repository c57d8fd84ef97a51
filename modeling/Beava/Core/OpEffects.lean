/-
What each operator does to a schema and to a row, field by field.
-/

import Beava.Core.RowFields
import Beava.Core.Stages
import Beava.Lib.KeyMap

namespace Beava.Core

variable {Expr : Type} {env : Env Expr}

theorem foldl_errors_nil {α : Type} {step : Propagated → α → Propagated}
    (appends : ∀ state item, ∃ more, (step state item).2 = state.2 ++ more) {items : List α}
    {state : Propagated} (noErrors : (items.foldl step state).2 = []) : state.2 = [] := by
  induction items generalizing state with
  | nil => exact noErrors
  | cons item rest ih =>
      obtain ⟨more,isMore⟩ := appends state item
      rw [List.foldl_cons] at noErrors
      have after := ih noErrors
      rw [isMore] at after
      exact (List.append_eq_nil_iff.mp after).1

section Select

variable {index : Nat} {current : Schema}

theorem select_fields (fields : List String) (state : Propagated) (field : String) :
    (fields.foldl (selectField index current) state).1.fields[field]? =
      if field ∈ fields then current.fields[field]?.or state.1.fields[field]?
      else state.1.fields[field]? := by
  induction fields generalizing state with
  | nil => rfl
  | cons first rest ih =>
      rw [List.foldl_cons,ih]
      unfold selectField
      by_cases same : first = field
      · subst same
        rw [if_pos List.mem_cons_self]
        cases found : current.fields[first]? with
        | none => simp
        | some fieldType => simp
      · have inRest : field ∈ first :: rest ↔ field ∈ rest := by
          rw [List.mem_cons,or_iff_right (Ne.symm same)]
        simp only [inRest]
        cases found : current.fields[first]? with
        | none => rfl
        | some fieldType => simp only [KeyMap.lookup_insert_ne _ _ same]

theorem select_optional (fields : List String) (state : Propagated) (field : String) :
    field ∈ (fields.foldl (selectField index current) state).1.optionalFields ↔
      field ∈ state.1.optionalFields ∨
        (field ∈ fields ∧ field ∈ current.fields ∧ field ∈ current.optionalFields) := by
  induction fields generalizing state with
  | nil => simp
  | cons first rest ih =>
      rw [List.foldl_cons,ih]
      unfold selectField
      cases found : current.fields[first]? with
      | none =>
          have notHead : field ∈ current.fields → field ≠ first := by
            rintro isField rfl
            exact KeyMap.notMem_of_lookup found isField
          simp only [List.mem_cons]
          grind
      | some fieldType =>
          have isField : first ∈ current.fields := KeyMap.mem_of_lookup found
          simp only [List.mem_cons,List.contains_iff_mem]
          split
          · simp only [List.mem_append,List.mem_singleton]
            grind
          · grind

theorem select_known {fields : List String} {state : Propagated}
    (noErrors : (fields.foldl (selectField index current) state).2 = []) {field : String}
    (member : field ∈ fields) : field ∈ current.fields := by
  have appends : ∀ (state : Propagated) (item : String),
      ∃ more, (selectField index current state item).2 = state.2 ++ more := by
    intro state item
    unfold selectField
    split
    · exact ⟨[],(List.append_nil _).symm⟩
    · exact ⟨_,rfl⟩
  induction fields generalizing state with
  | nil => cases member
  | cons first rest ih =>
      rw [List.foldl_cons] at noErrors
      rcases List.mem_cons.mp member with rfl | inRest
      · have here := foldl_errors_nil appends noErrors
        unfold selectField at here
        split at here
        · rename_i fieldType found
          exact KeyMap.mem_of_lookup found
        · simp at here
      · exact ih noErrors inRest

theorem select_values (fields : List String) (state : Row × Row) (field : String) :
    (fields.foldl selectColumn state).2.valuesOf field =
      match ((state.1.valuesOf field).take (fields.count field)).getLast? with
      | some value => value :: (state.2.valuesOf field).tail
      | none => state.2.valuesOf field := by
  induction fields generalizing state with
  | nil => rfl
  | cons first rest ih =>
      rw [List.foldl_cons,ih]
      unfold selectColumn
      by_cases same : first = field
      · subst same
        rw [List.count_cons_self,Row.get_eq_head]
        cases values : state.1.valuesOf first with
        | nil => simp [values]
        | cons value others =>
            simp only [List.head?_cons,Row.valuesOf_withoutField,if_true,values,List.tail_cons,
              Row.valuesOf_withField,List.take_succ_cons,List.getLast?_cons]
            cases later : (others.take (rest.count first)).getLast? with
            | none => simp
            | some last => simp
      · rw [List.count_cons_of_ne same]
        cases found : state.1.get first with
        | none => rfl
        | some value => simp only [Row.valuesOf_withoutField,Row.valuesOf_withField,if_neg same]

theorem selectRow_values (fields : List String) (row : Row) (field : String) :
    (fields.foldl selectColumn (row,Row.new)).2.valuesOf field =
      ((row.valuesOf field).take (fields.count field)).getLast?.toList := by
  rw [select_values]
  simp only
  cases ((row.valuesOf field).take (fields.count field)).getLast? <;> rfl

end Select

section Drop

variable {index : Nat}

theorem drop_fields (fields : List String) (state : Propagated) (field : String) :
    (fields.foldl (dropField index) state).1.fields[field]? =
      if field ∈ fields then none else state.1.fields[field]? := by
  induction fields generalizing state with
  | nil => rfl
  | cons first rest ih =>
      rw [List.foldl_cons,ih]
      by_cases inRest : field ∈ rest
      · rw [if_pos inRest,if_pos (List.mem_cons_of_mem first inRest)]
      · rw [if_neg inRest]
        by_cases same : first = field
        · subst same
          rw [if_pos List.mem_cons_self]
          unfold dropField
          split
          · rw [KeyMap.lookup_erase,if_pos rfl]
          · rename_i absent
            rw [KeyMap.contains_iff_exists,not_exists] at absent
            exact Option.eq_none_iff_forall_ne_some.mpr absent
        · rw [if_neg (by simp [Ne.symm same,inRest])]
          unfold dropField
          split
          · rw [KeyMap.lookup_erase,if_neg same]
          · rfl

theorem drop_optional (fields : List String) (state : Propagated) {field : String}
    (kept : field ∉ fields) :
    field ∈ (fields.foldl (dropField index) state).1.optionalFields ↔
      field ∈ state.1.optionalFields := by
  induction fields generalizing state with
  | nil => rfl
  | cons first rest ih =>
      rw [List.mem_cons,not_or] at kept
      rw [List.foldl_cons,ih _ kept.2]
      unfold dropField
      split
      · rw [List.mem_filter]
        exact and_iff_left (decide_eq_true kept.1)
      · rfl

theorem drop_values (fields : List String) (row : Row) (field : String) :
    (fields.foldl Row.withoutField row).valuesOf field =
      (row.valuesOf field).drop (fields.count field) := by
  induction fields generalizing row with
  | nil => rfl
  | cons first rest ih =>
      rw [List.foldl_cons,ih,Row.valuesOf_withoutField]
      by_cases same : first = field
      · subst same
        rw [if_pos rfl,List.count_cons_self,← List.drop_one,List.drop_drop,Nat.add_comm]
      · rw [if_neg same,List.count_cons_of_ne same]

end Drop

/-! ### `rename` -/

section Rename

variable {name : String} {fieldType : FieldType}
variable {index : Nat} {old : String}

theorem nodup_keys {β : Type} (map : StrMap β) : (map.toList.map Prod.fst).Nodup := by
  rw [Std.ExtTreeMap.map_fst_toList_eq_keys]
  exact Std.ExtTreeMap.nodup_keys

variable {mapping : StrMap String} {current : Schema}

theorem getLast?_cons_map {α β : Type} (value : α → β) (first : α) (rest : List α) :
    (first :: rest).getLast?.map value = (rest.getLast?.map value).or (some (value first)) := by
  rw [List.getLast?_cons]
  cases rest.getLast? <;> rfl

theorem rename_fields (entries : List (String × FieldType)) (schema : Schema) (name : String) :
    (entries.foldl (renameField mapping current) schema).fields[name]? =
      ((entries.filter fun entry => mapping.getD entry.1 entry.1 = name).getLast?.map
        Prod.snd).or schema.fields[name]? := by
  induction entries generalizing schema with
  | nil => rfl
  | cons entry rest ih =>
      rw [List.foldl_cons,ih]
      simp only [renameField]
      by_cases same : mapping.getD entry.1 entry.1 = name
      · rw [List.filter_cons_of_pos (by simpa using same),getLast?_cons_map,Option.or_assoc,same,
          KeyMap.lookup_insert_self,Option.some_or]
      · rw [List.filter_cons_of_neg (by simpa using same),KeyMap.lookup_insert_ne _ _ same]

theorem rename_optional (entries : List (String × FieldType)) (schema : Schema) (name : String) :
    name ∈ (entries.foldl (renameField mapping current) schema).optionalFields ↔
      name ∈ schema.optionalFields ∨ ∃ entry ∈ entries,
        entry.1 ∈ current.optionalFields ∧ mapping.getD entry.1 entry.1 = name := by
  induction entries generalizing schema with
  | nil => simp
  | cons entry rest ih =>
      rw [List.foldl_cons,ih]
      simp only [renameField,List.contains_iff_mem,List.mem_cons,exists_eq_or_imp]
      split
      · rename_i isOptional
        simp only [List.mem_append,List.mem_singleton,isOptional,true_and]
        grind
      · rename_i notOptional
        simp only [notOptional,false_and,false_or]

theorem takeRenamed_values (entries : List (String × String)) (state : Row × List (String × Value))
    (field : String) :
    (entries.foldl takeRenamed state).1.valuesOf field =
      (state.1.valuesOf field).drop ((entries.map Prod.fst).count field) := by
  induction entries generalizing state with
  | nil => rfl
  | cons entry rest ih =>
      rw [List.foldl_cons,ih,List.map_cons]
      unfold takeRenamed
      by_cases same : entry.1 = field
      · rw [same,List.count_cons_self,Row.get_eq_head]
        cases values : state.1.valuesOf field with
        | nil => simp [values]
        | cons value others =>
            simp only [List.head?_cons,Row.valuesOf_withoutField,if_true,values,List.tail_cons,
              List.drop_succ_cons]
      · rw [List.count_cons_of_ne same]
        cases found : state.1.get entry.1 with
        | none => rfl
        | some value => simp only [Row.valuesOf_withoutField,if_neg same]

theorem takeRenamed_taken {entries : List (String × String)}
    (distinct : (entries.map Prod.fst).Nodup) (state : Row × List (String × Value)) :
    (entries.foldl takeRenamed state).2 =
      state.2 ++ entries.filterMap fun entry => (state.1.get entry.1).map fun value =>
        (entry.2,value) := by
  induction entries generalizing state with
  | nil => simp
  | cons entry rest ih =>
      rw [List.map_cons,List.nodup_cons] at distinct
      have others : ∀ other ∈ rest, entry.1 ≠ other.1 := by
        intro other inRest same
        exact distinct.1 (List.mem_map.mpr ⟨other,inRest,same.symm⟩)
      rw [List.foldl_cons,ih distinct.2]
      unfold takeRenamed
      cases found : state.1.get entry.1 with
      | none => rw [List.filterMap_cons_none (by rw [found]; rfl)]
      | some value =>
          rw [List.filterMap_cons_some (by rw [found]; rfl),List.append_assoc,
            List.singleton_append]
          congr 2
          apply List.filterMap_congr
          intro other inRest
          rw [Row.get_withoutField_ne _ (others other inRest)]

theorem putBack_values (pairs : List (String × Value)) (row : Row) (field : String) :
    (pairs.foldl (fun current entry => current.withField entry.1 entry.2) row).valuesOf field =
      match ((pairs.filter fun entry => entry.1 = field).map Prod.snd).getLast? with
      | some value => value :: (row.valuesOf field).tail
      | none => row.valuesOf field := by
  induction pairs generalizing row with
  | nil => rfl
  | cons entry rest ih =>
      rw [List.foldl_cons,ih,Row.valuesOf_withField]
      by_cases same : entry.1 = field
      · rw [List.filter_cons_of_pos (by simpa using same),List.map_cons,List.getLast?_cons,
          if_pos same]
        cases ((rest.filter fun entry => entry.1 = field).map Prod.snd).getLast? <;> simp
      · rw [List.filter_cons_of_neg (by simpa using same),if_neg same]

/-- The values of the row that are renamed to a name, in the order of the
mapping. -/
def renamedValues (mapping : StrMap String) (row : Row) (name : String) : List Value :=
  (mapping.toList.filter fun entry => entry.2 = name).filterMap fun entry => row.get entry.1

theorem taken_values (entries : List (String × String)) (row : Row) (name : String) :
    ((entries.filterMap fun entry => (row.get entry.1).map fun value => (entry.2,value)).filter
      fun entry => entry.1 = name).map Prod.snd =
    (entries.filter fun entry => entry.2 = name).filterMap fun entry => row.get entry.1 := by
  induction entries with
  | nil => rfl
  | cons entry rest ih =>
      cases found : row.get entry.1 with
      | none =>
          rw [List.filterMap_cons_none (by rw [found]; rfl),ih]
          by_cases same : entry.2 = name
          · rw [List.filter_cons_of_pos (by simpa using same),List.filterMap_cons,found]
          · rw [List.filter_cons_of_neg (by simpa using same)]
      | some value =>
          rw [List.filterMap_cons_some (by rw [found]; rfl)]
          by_cases same : entry.2 = name
          · rw [List.filter_cons_of_pos (by simpa using same),
              List.filter_cons_of_pos (by simpa using same),List.map_cons,ih,
              List.filterMap_cons,found]
          · rw [List.filter_cons_of_neg (by simpa using same),
              List.filter_cons_of_neg (by simpa using same),ih]

/-- The row after a `rename`. -/
def renamedRow (mapping : StrMap String) (row : Row) : Row :=
  let taken := mapping.toList.foldl takeRenamed (row,[])
  taken.2.foldl (fun current entry => current.withField entry.1 entry.2) taken.1

theorem renamedRow_values (mapping : StrMap String) (row : Row) (name : String) :
    (renamedRow mapping row).valuesOf name =
      match (renamedValues mapping row name).getLast? with
      | some value =>
          value :: ((row.valuesOf name).drop ((mapping.toList.map Prod.fst).count name)).tail
      | none => (row.valuesOf name).drop ((mapping.toList.map Prod.fst).count name) := by
  unfold renamedRow
  simp only
  rw [putBack_values,takeRenamed_taken (nodup_keys mapping),List.nil_append,taken_values,
    takeRenamed_values]
  rfl

/-- A mapping that is accepted takes fields of the schema, to names that are free
or freed. -/
theorem rename_accepted (accepted : mapping.toList.flatMap (checkRename index mapping current) = [])
    {entry : String × String} (member : entry ∈ mapping.toList) :
    entry.1 ∈ current.fields ∧ (entry.2 ∈ current.fields → entry.2 ∈ mapping) := by
  have none := List.flatMap_eq_nil_iff.mp accepted entry member
  unfold checkRename at none
  rw [List.append_eq_nil_iff] at none
  constructor
  · have first := none.1
    split at first
    · rename_i contained
      exact Std.ExtTreeMap.contains_iff_mem.mp contained
    · cases first
  · intro isField
    have second := none.2
    split at second
    · cases second
    · rename_i free
      simp only [Bool.and_eq_true,Bool.not_eq_true',not_and,Bool.not_eq_false] at free
      exact Std.ExtTreeMap.contains_iff_mem.mp
        (free (Std.ExtTreeMap.contains_iff_mem.mpr isField))

/-- The type a name has after a `rename`. -/
def renamedType (mapping : StrMap String) (schema : Schema) (name : String) : Option FieldType :=
  (schema.fields.toList.filter fun entry =>
    mapping.getD entry.1 entry.1 = name).getLast?.map Prod.snd

theorem renameSchema_fields (index : Nat) (mapping : StrMap String) (schema : Schema)
    (name : String) :
    (applyRenameSchema index mapping schema).1.fields[name]? = renamedType mapping schema name := by
  rw [applyRenameSchema,rename_fields]
  exact Option.or_none

theorem getD_eq_iff :
    mapping.getD old old = name ↔ (old,name) ∈ mapping.toList ∨ (old ∉ mapping ∧ old = name) := by
  rw [Std.ExtTreeMap.getD_eq_getD_getElem?,Std.ExtTreeMap.mem_toList_iff_getElem?_eq_some,
    Std.ExtTreeMap.mem_iff_isSome_getElem?]
  cases mapping[old]? with
  | none => simp
  | some target => simp

/-- A type after a `rename` is that of a field with the new name. -/
theorem renamedType_source (isType : renamedType mapping current name = some fieldType) :
    ∃ old, current.fields[old]? = some fieldType ∧ mapping.getD old old = name := by
  obtain ⟨⟨old,oldType⟩,isLast,rfl⟩ := Option.map_eq_some_iff.mp isType
  obtain ⟨isField,mapped⟩ := List.mem_filter.mp (List.mem_of_getLast? isLast)
  exact ⟨old,Std.ExtTreeMap.mem_toList_iff_getElem?_eq_some.mp isField,of_decide_eq_true mapped⟩

theorem renamedType_isSome (isField : old ∈ current.fields) (mapped : mapping.getD old old = name) :
    ∃ fieldType, renamedType mapping current name = some fieldType := by
  obtain ⟨fieldType,found⟩ := KeyMap.mem_iff_exists.mp isField
  have inFiltered : (old,fieldType) ∈ current.fields.toList.filter fun entry =>
      mapping.getD entry.1 entry.1 = name :=
    List.mem_filter.mpr ⟨Std.ExtTreeMap.mem_toList_iff_getElem?_eq_some.mpr found,
      decide_eq_true mapped⟩
  obtain ⟨last,isLast⟩ := Option.isSome_iff_exists.mp
    (List.getLast?_isSome.mpr (List.ne_nil_of_mem inFiltered))
  exact ⟨last.2,by rw [renamedType,isLast,Option.map_some]⟩

theorem renamedType_target
    (accepted : mapping.toList.flatMap (checkRename index mapping current) = [])
    (isTarget : ∃ entry ∈ mapping.toList, entry.2 = name) :
    ∃ fieldType, renamedType mapping current name = some fieldType := by
  obtain ⟨⟨old,new⟩,member,rfl⟩ := isTarget
  exact renamedType_isSome (rename_accepted accepted member).1 (getD_eq_iff.mpr (.inl member))

theorem renamedType_own (notTarget : ¬∃ entry ∈ mapping.toList, entry.2 = name)
    (isType : renamedType mapping current name = some fieldType) :
    name ∉ mapping ∧ current.fields[name]? = some fieldType := by
  obtain ⟨old,declared,mapped⟩ := renamedType_source isType
  rcases getD_eq_iff.mp mapped with member | ⟨notMapped,rfl⟩
  · exact absurd ⟨(old,name),member,rfl⟩ notTarget
  · exact ⟨notMapped,declared⟩

theorem renamedType_kept (notTarget : ¬∃ entry ∈ mapping.toList, entry.2 = name)
    (notMapped : name ∉ mapping) (declared : current.fields[name]? = some fieldType) :
    renamedType mapping current name = some fieldType := by
  have isField : name ∈ current.fields := KeyMap.mem_of_lookup declared
  obtain ⟨found,isFound⟩ :=
    renamedType_isSome isField (getD_eq_iff.mpr (.inr ⟨notMapped,rfl⟩))
  have own := (renamedType_own notTarget isFound).2
  rw [isFound,← own,declared]

theorem renamedValues_nil (notTarget : ¬∃ entry ∈ mapping.toList, entry.2 = name) (row : Row) :
    renamedValues mapping row name = [] := by
  unfold renamedValues
  rw [List.filter_eq_nil_iff.mpr,List.filterMap_nil]
  intro entry member isName
  exact notTarget ⟨entry,member,of_decide_eq_true isName⟩

theorem count_keys_eq_zero (notMapped : name ∉ mapping) :
    (mapping.toList.map Prod.fst).count name = 0 := by
  apply List.count_eq_zero_of_not_mem
  rwa [Std.ExtTreeMap.map_fst_toList_eq_keys,Std.ExtTreeMap.mem_keys]

theorem count_keys_pos (isMapped : name ∈ mapping) :
    0 < (mapping.toList.map Prod.fst).count name := by
  apply List.count_pos_iff.mpr
  rwa [Std.ExtTreeMap.map_fst_toList_eq_keys,Std.ExtTreeMap.mem_keys]

end Rename

section Columns

variable {entries : List (String × String)}
variable {index : Nat} {state : Propagated} {schema : Schema} {column : String × Expr}
variable {field : String}

/-- The schema with the new column, once its expression is parsed. -/
def columnSchema (env : Env Expr) (schema : Schema) (column : String × Expr) : Schema :=
  match (env.inferExprType column.2 schema).2 with
  | some (.known fieldType) =>
      { fields := schema.fields.insert column.1 fieldType
        optionalFields := schema.optionalFields.filter (· ≠ column.1) }
  | some .nullLiteral => { schema with fields := schema.fields.insert column.1 .str }
  | none => schema

theorem addColumn_schema {entry : String × String} {ast : Expr}
    (parsed : parseAt env index entry.2 = .ok ast) :
    (addColumn env index state entry).1 = columnSchema env state.1 (entry.1,ast) := by
  unfold parseAt at parsed
  split at parsed
  · rename_i found isParsed
    cases parsed
    simp only [addColumn,isParsed,columnSchema]
    cases (env.inferExprType ast state.1).2 with
    | none => rfl
    | some type => cases type <;> rfl
  · cases parsed

theorem compileColumns_spec {columns : List (String × Expr)}
    (ok : compileColumns env index entries = .ok columns) (state : Propagated) :
    columns.map Prod.fst = entries.map Prod.fst ∧
      (entries.foldl (addColumn env index) state).1 =
        columns.foldl (columnSchema env) state.1 := by
  induction entries generalizing columns state with
  | nil =>
      cases ok
      exact ⟨rfl,rfl⟩
  | cons entry rest ih =>
      unfold compileColumns at ok
      obtain ⟨ast,parsed,ok⟩ := Checked.bind_eq_ok ok
      obtain ⟨others,othersOk,ok⟩ := Checked.bind_eq_ok ok
      cases ok
      obtain ⟨sameNames,sameSchema⟩ := ih othersOk (addColumn env index state entry)
      refine ⟨by rw [List.map_cons,List.map_cons,sameNames],?_⟩
      rw [List.foldl_cons,List.foldl_cons,sameSchema,addColumn_schema parsed]

theorem addColumn_appends (env : Env Expr) (index : Nat) (state : Propagated)
    (item : String × String) : ∃ more, (addColumn env index state item).2 = state.2 ++ more := by
  unfold addColumn
  split
  · exact ⟨_,rfl⟩
  · simp only [List.append_assoc]
    split
    all_goals exact ⟨_,rfl⟩

theorem compileColumns_ok (noErrors : (entries.foldl (addColumn env index) state).2 = []) :
    ∃ columns, compileColumns env index entries = .ok columns := by
  induction entries generalizing state with
  | nil => exact ⟨[],rfl⟩
  | cons entry rest ih =>
      rw [List.foldl_cons] at noErrors
      obtain ⟨others,othersOk⟩ := ih noErrors
      have here := foldl_errors_nil (addColumn_appends env index) noErrors
      unfold addColumn at here
      split at here
      · simp at here
      · rename_i ast parsed
        refine ⟨(entry.1,ast) :: others,?_⟩
        simp only [compileColumns,parseAt,parsed,othersOk]
        rfl

theorem columnSchema_other (differs : column.1 ≠ field) :
    (columnSchema env schema column).fields[field]? = schema.fields[field]? := by
  unfold columnSchema
  split
  · rw [KeyMap.lookup_insert_ne _ _ differs]
  · rw [KeyMap.lookup_insert_ne _ _ differs]
  · rfl

theorem columnSchema_optional (differs : column.1 ≠ field) :
    field ∈ (columnSchema env schema column).optionalFields ↔ field ∈ schema.optionalFields := by
  unfold columnSchema
  split
  · rw [List.mem_filter]
    exact and_iff_left (decide_eq_true (Ne.symm differs))
  · rfl
  · rfl

theorem columns_other {columns : List (String × Expr)} {field : String}
    (differs : field ∉ columns.map Prod.fst) (schema : Schema) (row : Row) :
    (columns.foldl (columnSchema env) schema).fields[field]? = schema.fields[field]? ∧
      (field ∈ (columns.foldl (columnSchema env) schema).optionalFields ↔
        field ∈ schema.optionalFields) ∧
      (columns.foldl (setColumn env) row).valuesOf field = row.valuesOf field := by
  induction columns generalizing schema row with
  | nil => exact ⟨rfl,Iff.rfl,rfl⟩
  | cons column rest ih =>
      rw [List.map_cons,List.mem_cons,not_or] at differs
      obtain ⟨sameType,sameOptional,sameValues⟩ :=
        ih differs.2 (columnSchema env schema column) (setColumn env row column)
      rw [List.foldl_cons,List.foldl_cons,sameType,sameOptional,sameValues]
      refine ⟨columnSchema_other (Ne.symm differs.1),columnSchema_optional (Ne.symm differs.1),?_⟩
      rw [setColumn,Row.valuesOf_withField,if_neg (Ne.symm differs.1)]

end Columns

section Changes

variable {field : String}

/-- The value a lookup finds is changed. -/
def mapHead (change : Value → Value) : List Value → List Value
  | [] => []
  | value :: rest => change value :: rest

variable {α : Type} {step : Row → String × α → Row} {change : α → Value → Value}
variable {entries : List (String × α)}

theorem foldl_values_of_notMem
    (effect : ∀ row entry field, (step row entry).valuesOf field =
      if entry.1 = field then mapHead (change entry.2) (row.valuesOf field)
      else row.valuesOf field)
    (absent : field ∉ entries.map Prod.fst)
    (row : Row) : (entries.foldl step row).valuesOf field = row.valuesOf field := by
  induction entries generalizing row with
  | nil => rfl
  | cons entry rest ih =>
      rw [List.map_cons,List.mem_cons,not_or] at absent
      rw [List.foldl_cons,ih absent.2,effect,if_neg (Ne.symm absent.1)]

theorem foldl_values_of_mem
    (effect : ∀ row entry field, (step row entry).valuesOf field =
      if entry.1 = field then mapHead (change entry.2) (row.valuesOf field)
      else row.valuesOf field)
    (distinct : (entries.map Prod.fst).Nodup)
    {item : α} (member : (field,item) ∈ entries) (row : Row) :
    (entries.foldl step row).valuesOf field = mapHead (change item) (row.valuesOf field) := by
  induction entries generalizing row with
  | nil => cases member
  | cons entry rest ih =>
      rw [List.map_cons,List.nodup_cons] at distinct
      rw [List.foldl_cons]
      rcases List.mem_cons.mp member with isHead | inRest
      · subst isHead
        rw [foldl_values_of_notMem effect distinct.1,effect,if_pos rfl]
      · have differs : entry.1 ≠ field := by
          intro same
          exact distinct.1 (List.mem_map.mpr ⟨_,inRest,same.symm⟩)
        rw [ih distinct.2 inRest,effect,if_neg differs]

/-- What a `cast` puts for a value. -/
def castValue (env : Env Expr) (target : CastTarget) (value : Value) : Value :=
  env.castBuiltin value target.asValueStr

theorem castColumn_values (row : Row) (entry : String × CastTarget) (field : String) :
    (castColumn env row entry).valuesOf field =
      if entry.1 = field then mapHead (castValue env entry.2) (row.valuesOf field)
      else row.valuesOf field := by
  unfold castColumn
  by_cases same : entry.1 = field
  · subst same
    rw [if_pos rfl,Row.get_eq_head]
    cases values : row.valuesOf entry.1 with
    | nil => exact values
    | cons value rest =>
        rw [List.head?_cons]
        simp only [Row.valuesOf_withField,if_true,values,List.tail_cons,mapHead,castValue]
  · rw [if_neg same]
    split
    · rw [Row.valuesOf_withField,if_neg same]
    · rfl

/-- What `fillna` puts for a value. -/
def filled (fallback value : Value) : Value := if value.isNull then fallback else value

theorem fillColumn_values (row : Row) (entry : String × Value) (field : String) :
    (fillColumn row entry).valuesOf field =
      if entry.1 = field then mapHead (filled entry.2) (row.valuesOf field)
      else row.valuesOf field := by
  unfold fillColumn
  by_cases same : entry.1 = field
  · subst same
    rw [if_pos rfl,Row.get_eq_head]
    cases values : row.valuesOf entry.1 with
    | nil => exact values
    | cons value rest =>
        rw [List.head?_cons]
        simp only [mapHead,filled]
        split
        · rw [Row.valuesOf_withField,if_pos rfl,values,List.tail_cons]
        · exact values
  · rw [if_neg same]
    split
    · split
      · rw [Row.valuesOf_withField,if_neg same]
      · rfl
    · rfl

end Changes

/-! ### `cast` -/

section Cast

variable {index : Nat}
variable {entries : List (String × String)}
variable {state : Propagated} {field target : String} {targetType : FieldType}

theorem castField_appends (state : Propagated) (entry : String × String) :
    ∃ more, (castField env index state entry).2 = state.2 ++ more := by
  unfold castField
  split
  · exact ⟨_,rfl⟩
  · split
    · exact ⟨_,rfl⟩
    · split
      · exact ⟨[],(List.append_nil _).symm⟩
      · exact ⟨_,rfl⟩

theorem castField_accepted {entry : String × String}
    (noErrors : (castField env index state entry).2 = []) :
    ∃ targetType, parseCastTarget entry.2 = some targetType ∧ entry.1 ∈ state.1.fields ∧
      (castField env index state entry).1 =
        { state.1 with fields := state.1.fields.insert entry.1 targetType } := by
  unfold castField at noErrors ⊢
  split at noErrors
  · simp at noErrors
  · rename_i sourceType found
    split at noErrors
    · simp at noErrors
    · rename_i targetType isTarget
      split at noErrors
      · rename_i legal
        refine ⟨targetType,isTarget,KeyMap.mem_of_lookup found,?_⟩
        rw [if_pos legal]
      · simp at noErrors

theorem cast_optional (entries : List (String × String)) (state : Propagated) :
    (entries.foldl (castField env index) state).1.optionalFields = state.1.optionalFields := by
  induction entries generalizing state with
  | nil => rfl
  | cons entry rest ih =>
      rw [List.foldl_cons,ih]
      unfold castField
      split
      · rfl
      · split
        · rfl
        · split <;> rfl

theorem cast_fields_of_notMem (absent : field ∉ entries.map Prod.fst) (state : Propagated) :
    (entries.foldl (castField env index) state).1.fields[field]? = state.1.fields[field]? := by
  induction entries generalizing state with
  | nil => rfl
  | cons entry rest ih =>
      rw [List.map_cons,List.mem_cons,not_or] at absent
      rw [List.foldl_cons,ih absent.2]
      unfold castField
      split
      · rfl
      · split
        · rfl
        · split
          · rw [KeyMap.lookup_insert_ne _ _ (Ne.symm absent.1)]
          · rfl

theorem cast_fields_of_mem (distinct : (entries.map Prod.fst).Nodup)
    (noErrors : (entries.foldl (castField env index) state).2 = [])
    (member : (field,target) ∈ entries) :
    ∃ targetType, parseCastTarget target = some targetType ∧ field ∈ state.1.fields ∧
      (entries.foldl (castField env index) state).1.fields[field]? = some targetType := by
  induction entries generalizing state with
  | nil => cases member
  | cons entry rest ih =>
      rw [List.map_cons,List.nodup_cons] at distinct
      rw [List.foldl_cons] at noErrors ⊢
      have here := foldl_errors_nil castField_appends noErrors
      obtain ⟨headType,isHeadTarget,isField,headSchema⟩ := castField_accepted here
      rcases List.mem_cons.mp member with isHead | inRest
      · subst isHead
        refine ⟨headType,isHeadTarget,isField,?_⟩
        rw [cast_fields_of_notMem distinct.1,headSchema,KeyMap.lookup_insert_self]
      · obtain ⟨targetType,isTarget,declared,result⟩ := ih distinct.2 noErrors inRest
        refine ⟨targetType,isTarget,?_,result⟩
        rw [headSchema] at declared
        rcases KeyMap.mem_insert_iff.mp declared with same | before
        · rwa [← same]
        · exact before

theorem castTargetFromStr_of_parse (isTarget : parseCastTarget target = some targetType) :
    ∃ compiled, castTargetFromStr target = some compiled ∧ compiled.asValueStr = target := by
  unfold parseCastTarget at isTarget
  unfold castTargetFromStr
  split at isTarget
  · rename_i isStr
    exact ⟨.str,by rw [if_pos isStr],isStr.symm⟩
  · rename_i notStr
    rw [if_neg notStr]
    split at isTarget
    · rename_i isInt
      exact ⟨.int,by rw [if_pos isInt],isInt.symm⟩
    · rename_i notInt
      rw [if_neg notInt]
      split at isTarget
      · rename_i isFloat
        exact ⟨.float,by rw [if_pos isFloat],isFloat.symm⟩
      · rename_i notFloat
        rw [if_neg notFloat]
        split at isTarget
        · rename_i isBool
          exact ⟨.bool,by rw [if_pos isBool],isBool.symm⟩
        · cases isTarget

/-- The compiled entries of a `cast`. -/
def castEntries (entries : List (String × String)) : List (String × CastTarget) :=
  entries.filterMap fun entry => (castTargetFromStr entry.2).map fun target => (entry.1,target)

theorem castEntries_names (entries : List (String × String)) :
    ((castEntries entries).map Prod.fst).Sublist (entries.map Prod.fst) := by
  induction entries with
  | nil => exact List.Sublist.refl _
  | cons entry rest ih =>
      unfold castEntries
      cases found : castTargetFromStr entry.2 with
      | none =>
          rw [List.filterMap_cons_none (by rw [found]; rfl),List.map_cons]
          exact ih.cons _
      | some target =>
          rw [List.filterMap_cons_some (by rw [found]; rfl),List.map_cons,List.map_cons]
          exact ih.cons_cons _

theorem cast_values_of_notMem (absent : field ∉ entries.map Prod.fst) (row : Row) :
    ((castEntries entries).foldl (castColumn env) row).valuesOf field = row.valuesOf field :=
  foldl_values_of_notMem castColumn_values
    (fun member => absent ((castEntries_names entries).subset member)) row

theorem cast_values_of_mem (distinct : (entries.map Prod.fst).Nodup)
    (member : (field,target) ∈ entries) (isTarget : parseCastTarget target = some targetType)
    (row : Row) :
    ((castEntries entries).foldl (castColumn env) row).valuesOf field =
      mapHead (fun value => env.castBuiltin value target) (row.valuesOf field) := by
  obtain ⟨compiled,isCompiled,sameText⟩ := castTargetFromStr_of_parse isTarget
  have inEntries : (field,compiled) ∈ castEntries entries :=
    List.mem_filterMap.mpr ⟨_,member,by rw [isCompiled]; rfl⟩
  rw [foldl_values_of_mem castColumn_values ((castEntries_names entries).nodup distinct) inEntries]
  unfold castValue
  rw [sameText]

end Cast

section Fillna

variable {index : Nat}
variable {entries : List (String × Json)} {field : String}
variable {state : Propagated}

theorem fill_fields (entries : List (String × Json)) (state : Propagated) :
    (entries.foldl (fillField index) state).1.fields = state.1.fields := by
  induction entries generalizing state with
  | nil => rfl
  | cons entry rest ih =>
      rw [List.foldl_cons,ih]
      unfold fillField
      split <;> rfl

theorem fill_known (noErrors : (entries.foldl (fillField index) state).2 = [])
    (member : field ∈ entries.map Prod.fst) : field ∈ state.1.fields := by
  have appends : ∀ (state : Propagated) (item : String × Json),
      ∃ more, (fillField index state item).2 = state.2 ++ more := by
    intro state item
    unfold fillField
    split
    · exact ⟨[],(List.append_nil _).symm⟩
    · exact ⟨_,rfl⟩
  induction entries generalizing state with
  | nil => cases member
  | cons entry rest ih =>
      rw [List.foldl_cons] at noErrors
      rw [List.map_cons] at member
      rcases List.mem_cons.mp member with isHead | inRest
      · have here := foldl_errors_nil appends noErrors
        unfold fillField at here
        split at here
        · rename_i contained
          rw [isHead]
          exact Std.ExtTreeMap.contains_iff_mem.mp contained
        · simp at here
      · have later := ih noErrors inRest
        rwa [show (fillField index state entry).1.fields = state.1.fields from
          fill_fields [entry] state] at later

theorem fill_optional (noErrors : (entries.foldl (fillField index) state).2 = []) (field : String) :
    field ∈ (entries.foldl (fillField index) state).1.optionalFields ↔
      field ∈ state.1.optionalFields ∧ field ∉ entries.map Prod.fst := by
  have known : ∀ name ∈ entries.map Prod.fst, name ∈ state.1.fields :=
    fun name member => fill_known noErrors member
  clear noErrors
  induction entries generalizing state with
  | nil => simp
  | cons entry rest ih =>
      have contained : state.1.fields.contains entry.1 = true :=
        Std.ExtTreeMap.contains_iff_mem.mpr (known entry.1 List.mem_cons_self)
      have here : (fillField index state entry).1 =
          { state.1 with optionalFields := state.1.optionalFields.filter (· ≠ entry.1) } := by
        unfold fillField
        rw [if_pos contained]
      have later : ∀ name ∈ rest.map Prod.fst, name ∈ (fillField index state entry).1.fields := by
        intro name member
        rw [here]
        exact known name (List.mem_cons_of_mem _ member)
      rw [List.foldl_cons]
      refine (ih later).trans ?_
      rw [here,List.map_cons,List.mem_cons,not_or,List.mem_filter,decide_eq_true_iff,
        and_assoc]

/-- The compiled entries of a `fillna`. -/
def fillEntries (env : Env Expr) (entries : List (String × Json)) : List (String × Value) :=
  entries.map fun entry => (entry.1,jsonToValue env entry.2)

theorem fillEntries_names (entries : List (String × Json)) :
    (fillEntries env entries).map Prod.fst = entries.map Prod.fst := by
  rw [fillEntries,List.map_map]
  rfl

theorem fill_values_of_notMem (absent : field ∉ entries.map Prod.fst) (row : Row) :
    ((fillEntries env entries).foldl fillColumn row).valuesOf field = row.valuesOf field :=
  foldl_values_of_notMem fillColumn_values (by rwa [fillEntries_names]) row

theorem fill_values_of_mem (distinct : (entries.map Prod.fst).Nodup) {content : Json}
    (member : (field,content) ∈ entries) (row : Row) :
    ((fillEntries env entries).foldl fillColumn row).valuesOf field =
      mapHead (filled (jsonToValue env content)) (row.valuesOf field) := by
  rw [← @fillEntries_names _ env] at distinct
  exact foldl_values_of_mem fillColumn_values distinct
    (List.mem_map.mpr ⟨(field,content),member,rfl⟩) row

end Fillna

section Running

variable {index : Nat} {row : Row}
variable {columns : List (String × Expr)}
variable {exprs : StrMap String}

theorem forall_result_iff {found : Option Row} {made : Row} {property : Row → Prop}
    (isMade : found = some made) :
    (∀ result, found = some result → property result) ↔ property made := by
  rw [isMade]
  constructor
  · intro each
    exact each made rfl
  · intro holds result isResult
    cases isResult
    exact holds

theorem runOp_filter {exprSrc : String} {result : Row}
    (passes : runOp env index (.filter exprSrc) row = some result) : result = row := by
  unfold runOp at passes
  simp only [compileOp] at passes
  cases parsed : parseAt env index exprSrc with
  | error errors =>
      rw [parsed] at passes
      cases passes
  | ok ast =>
      rw [parsed] at passes
      change (if (env.eval ast row).isTrue then some row else none) = some result at passes
      split at passes
      · exact (Option.some.inj passes).symm
      · cases passes

theorem runOp_withColumns (ok : compileColumns env index exprs.toList = .ok columns) (row : Row) :
    runOp env index (.withColumns exprs) row = some (columns.foldl (setColumn env) row) := by
  simp only [runOp,compileOp,ok]
  rfl

theorem runOp_map (ok : compileColumns env index exprs.toList = .ok columns) (row : Row) :
    runOp env index (.map exprs) row = some (columns.foldl (setColumn env) row) := by
  simp only [runOp,compileOp,ok]
  rfl

end Running

end Beava.Core
