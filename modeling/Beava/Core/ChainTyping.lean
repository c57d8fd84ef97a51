/-
Types along an operator list.

A row is typed by a schema when its names are distinct, all declared, and each
value fits its type.  For one operator it is said exactly which rows stay typed;
a run over an accepted list stays typed as long as its steps are of this kind.
-/

import Beava.Core.ExprTyping
import Beava.Core.OpEffects

namespace Beava.Core

variable {declared : Option FieldType}
variable {schema : Schema} {row : Row} {values : List Value}

structure Typed (schema : Schema) (row : Row) : Prop where
  distinct : (row.fields.map Prod.fst).Nodup
  declared : ∀ entry ∈ row.fields, ∃ fieldType,
    schema.fields[entry.1]? = some fieldType ∧ entry.2.fits fieldType = true

def FieldTyped (declared : Option FieldType) (values : List Value) : Prop :=
  values.length ≤ 1 ∧ ∀ value ∈ values, ∃ fieldType,
    declared = some fieldType ∧ value.fits fieldType = true

theorem typed_iff :
    Typed schema row ↔ ∀ field, FieldTyped schema.fields[field]? (row.valuesOf field) := by
  constructor
  · intro typed field
    refine ⟨Row.nodup_names_iff.mp typed.distinct field,fun value member => ?_⟩
    exact typed.declared (field,value) (Row.mem_valuesOf.mp member)
  · intro each
    refine ⟨Row.nodup_names_iff.mpr fun field => (each field).1,?_⟩
    rintro ⟨field,value⟩ member
    exact (each field).2 value (Row.mem_valuesOf.mpr member)

theorem Typed.rowFits (typed : Typed schema row) : RowFits schema row := by
  intro field fieldType value declared found
  rw [Row.get_eq_head] at found
  obtain ⟨own,isOwn,fits⟩ := (typed_iff.mp typed field).2 value (List.mem_of_head? found)
  rw [declared] at isOwn
  cases isOwn
  exact fits

theorem fieldTyped_nil (declared : Option FieldType) : FieldTyped declared [] :=
  ⟨Nat.zero_le 1,fun _ member => by cases member⟩

theorem fieldTyped_singleton {value : Value} :
    FieldTyped declared [value] ↔
      ∃ fieldType, declared = some fieldType ∧ value.fits fieldType = true := by
  constructor
  · intro typed
    exact typed.2 value List.mem_cons_self
  · intro fits
    refine ⟨Nat.le_refl 1,fun other member => ?_⟩
    rw [List.mem_singleton.mp member]
    exact fits

theorem fieldTyped_toList {found : Option Value} :
    FieldTyped declared found.toList ↔ ∀ value, found = some value →
      ∃ fieldType, declared = some fieldType ∧ value.fits fieldType = true := by
  cases found with
  | none =>
      constructor
      · intro _ value isSome
        cases isSome
      · intro _
        exact fieldTyped_nil declared
  | some value =>
      rw [Option.toList_some,fieldTyped_singleton]
      constructor
      · intro fits other isOther
        cases isOther
        exact fits
      · intro each
        exact each value rfl

theorem FieldTyped.eq_toList (typed : FieldTyped declared values) :
    values = values.head?.toList := by
  match values, typed.1 with
  | [], _ => rfl
  | [value], _ => rfl

theorem FieldTyped.drop_pos (typed : FieldTyped declared values) {count : Nat}
    (positive : 0 < count) : values.drop count = [] :=
  List.drop_eq_nil_of_le (Nat.le_trans typed.1 positive)

section Condition

variable (host : Host)

/-- Every column gets a type, or there is a column of its name that its value
fits. -/
def ColumnsTyped : List (String × Expr) → Schema → Row → Prop
  | [], _, _ => True
  | column :: rest, schema, row =>
      ((host.env.inferExprType column.2 schema).2 = none →
        ∃ fieldType, schema.fields[column.1]? = some fieldType ∧
          (host.env.eval column.2 row).fits fieldType = true) ∧
      ColumnsTyped rest (columnSchema host.env schema column) (setColumn host.env row column)

/-- Where propagation and execution can part: the last of several fields that are
renamed to one name is missing, a column without a type, a default of another
type in the place of a `Null`. -/
def TypeSafe (index : Nat) (op : OpNode) (schema : Schema) (row : Row) : Prop :=
  match op with
  | .rename mapping => ∀ (name : String) (value : Value) (fieldType : FieldType),
      (renamedValues mapping row name).getLast? = some value →
        renamedType mapping schema name = some fieldType → value.fits fieldType = true
  | .withColumns exprs => ∀ columns,
      compileColumns host.env index exprs.toList = .ok columns →
        ColumnsTyped host columns schema row
  | .map exprs => ∀ columns,
      compileColumns host.env index exprs.toList = .ok columns →
        ColumnsTyped host columns schema row
  | .fillna defaults => ∀ (field : String) (content : Json) (fieldType : FieldType),
      (field,content) ∈ defaults.toList → row.get field = some .null →
        schema.fields[field]? = some fieldType →
          (jsonToValue host.env content).fits fieldType = true
  | _ => True

end Condition

section Steps

variable {host : Host} {index : Nat} {schema : Schema} {row : Row}

theorem select_typed (fields : List String) (typed : Typed schema row) :
    Typed (applySelectSchema index fields schema).1
      (fields.foldl selectColumn (row,Row.new)).2 := by
  rw [typed_iff] at typed ⊢
  intro field
  rw [applySelectSchema,select_fields,selectRow_values,fieldTyped_toList]
  intro value isLast
  have taken := List.mem_of_getLast? isLast
  have isSelected : field ∈ fields := by
    rw [← List.one_le_count_iff]
    by_contra none
    rw [Nat.not_le,Nat.lt_one_iff] at none
    rw [none,List.take_zero] at taken
    cases taken
  obtain ⟨fieldType,declared,fits⟩ := (typed field).2 value (List.mem_of_mem_take taken)
  rw [if_pos isSelected,declared]
  exact ⟨fieldType,rfl,fits⟩

theorem drop_typed (fields : List String) (typed : Typed schema row) :
    Typed (applyDropSchema index fields schema).1 (fields.foldl Row.withoutField row) := by
  rw [typed_iff] at typed ⊢
  intro field
  rw [applyDropSchema,drop_fields,drop_values]
  by_cases dropped : field ∈ fields
  · rw [(typed field).drop_pos (List.count_pos_iff.mpr dropped)]
    exact fieldTyped_nil _
  · rw [if_neg dropped,List.count_eq_zero_of_not_mem dropped,List.drop_zero]
    exact typed field

theorem cast_typed {typeMap : StrMap String}
    (accepted : (applyCastSchema host.env index typeMap schema).2 = [])
    (typed : Typed schema row) :
    Typed (applyCastSchema host.env index typeMap schema).1
      ((castEntries typeMap.toList).foldl (castColumn host.env) row) := by
  rw [typed_iff] at typed ⊢
  intro field
  by_cases isCast : field ∈ typeMap.toList.map Prod.fst
  · obtain ⟨⟨_,target⟩,member,rfl⟩ := List.mem_map.mp isCast
    obtain ⟨targetType,isTarget,-,declared⟩ :=
      cast_fields_of_mem (nodup_keys typeMap) accepted member
    rw [cast_values_of_mem (nodup_keys typeMap) member isTarget,
      applyCastSchema,declared,(typed _).eq_toList]
    cases (row.valuesOf _).head? with
    | none => exact fieldTyped_nil _
    | some value =>
        exact fieldTyped_singleton.mpr ⟨targetType,rfl,castEval_fits isTarget value⟩
  · rw [cast_values_of_notMem isCast,applyCastSchema,cast_fields_of_notMem isCast]
    exact typed field

theorem fillna_typed_iff {defaults : StrMap Json} (typed : Typed schema row) :
    Typed (applyFillnaSchema index defaults schema).1
      ((fillEntries host.env defaults.toList).foldl fillColumn row) ↔
    TypeSafe host index (.fillna defaults) schema row := by
  have distinct := nodup_keys defaults
  rw [typed_iff] at typed
  rw [typed_iff,applyFillnaSchema,fill_fields]
  constructor
  · intro result field content fieldType member isNull declared
    have here := result field
    rw [Row.get_eq_head] at isNull
    rw [fill_values_of_mem distinct member,(typed field).eq_toList,isNull] at here
    obtain ⟨own,isOwn,fits⟩ := here.2 _ List.mem_cons_self
    rw [declared] at isOwn
    cases isOwn
    exact fits
  · intro safe field
    by_cases isFilled : field ∈ defaults.toList.map Prod.fst
    · obtain ⟨⟨_,content⟩,member,rfl⟩ := List.mem_map.mp isFilled
      rw [fill_values_of_mem distinct member,(typed _).eq_toList]
      cases found : (row.valuesOf _).head? with
      | none => exact fieldTyped_nil _
      | some value =>
          obtain ⟨fieldType,declared,fits⟩ := (typed _).2 value (List.mem_of_head? found)
          refine fieldTyped_singleton.mpr ⟨fieldType,declared,?_⟩
          unfold filled
          split
          · rename_i isNull
            rw [Value.isNull_iff] at isNull
            rw [isNull] at found
            exact safe _ content fieldType member (by rw [Row.get_eq_head,found]) declared
          · exact fits
    · rw [fill_values_of_notMem isFilled]
      exact typed field

theorem rename_typed_iff {mapping : StrMap String}
    (accepted : mapping.toList.flatMap (checkRename index mapping schema) = [])
    (typed : Typed schema row) :
    Typed (applyRenameSchema index mapping schema).1 (renamedRow mapping row) ↔
      TypeSafe host index (.rename mapping) schema row := by
  rw [typed_iff] at typed
  have atTarget : ∀ name, (∃ entry ∈ mapping.toList, entry.2 = name) →
      (renamedRow mapping row).valuesOf name =
        (renamedValues mapping row name).getLast?.toList := by
    rintro name ⟨entry,member,isName⟩
    have nothingLeft :
        (row.valuesOf name).drop ((mapping.toList.map Prod.fst).count name) = [] := by
      by_cases isMapped : name ∈ mapping
      · exact (typed name).drop_pos (count_keys_pos isMapped)
      · have notField : name ∉ schema.fields := by
          intro isField
          exact isMapped (isName ▸ (rename_accepted accepted member).2 (isName.symm ▸ isField))
        have noValues : row.valuesOf name = [] := by
          apply List.eq_nil_iff_forall_not_mem.mpr
          intro value inRow
          obtain ⟨fieldType,declared,-⟩ := (typed name).2 value inRow
          exact notField (KeyMap.mem_of_lookup declared)
        rw [noValues,List.drop_nil]
    rw [renamedRow_values,nothingLeft]
    cases (renamedValues mapping row name).getLast? <;> rfl
  rw [typed_iff]
  constructor
  · intro result name value fieldType isLast isType
    have isTarget : ∃ entry ∈ mapping.toList, entry.2 = name := by
      obtain ⟨entry,inFiltered,-⟩ := List.mem_filterMap.mp (List.mem_of_getLast? isLast)
      obtain ⟨member,isName⟩ := List.mem_filter.mp inFiltered
      exact ⟨entry,member,of_decide_eq_true isName⟩
    have here := result name
    rw [renameSchema_fields,atTarget name isTarget,isLast,Option.toList_some,fieldTyped_singleton]
      at here
    obtain ⟨own,isOwn,fits⟩ := here
    rw [isType] at isOwn
    cases isOwn
    exact fits
  · intro safe name
    rw [renameSchema_fields]
    by_cases isTarget : ∃ entry ∈ mapping.toList, entry.2 = name
    · rw [atTarget name isTarget,fieldTyped_toList]
      intro value isLast
      obtain ⟨fieldType,isType⟩ := renamedType_target accepted isTarget
      exact ⟨fieldType,isType,safe name value fieldType isLast isType⟩
    · rw [renamedRow_values,renamedValues_nil isTarget]
      simp only [List.getLast?_nil]
      by_cases isMapped : name ∈ mapping
      · rw [(typed name).drop_pos (count_keys_pos isMapped)]
        exact fieldTyped_nil _
      · rw [count_keys_eq_zero isMapped,List.drop_zero]
        refine ⟨(typed name).1,fun value inRow => ?_⟩
        obtain ⟨fieldType,declared,fits⟩ := (typed name).2 value inRow
        exact ⟨fieldType,renamedType_kept isTarget isMapped declared,fits⟩

theorem column_typed {column : String × Expr} (typed : Typed schema row)
    (safe : (host.env.inferExprType column.2 schema).2 = none →
      ∃ fieldType, schema.fields[column.1]? = some fieldType ∧
        (host.env.eval column.2 row).fits fieldType = true) :
    Typed (columnSchema host.env schema column) (setColumn host.env row column) := by
  rw [typed_iff]
  intro field
  rw [setColumn,Row.valuesOf_withField]
  by_cases same : column.1 = field
  · subst same
    have rest : (row.valuesOf column.1).tail = [] := by
      rw [(typed_iff.mp typed column.1).eq_toList]
      cases (row.valuesOf column.1).head? <;> rfl
    rw [if_pos rfl,rest,fieldTyped_singleton]
    unfold columnSchema
    split
    · rename_i fieldType inferred
      refine ⟨fieldType,KeyMap.lookup_insert_self ..,?_⟩
      exact infer_agrees typed.rowFits column.2 (.known fieldType) 0 inferred
    · rename_i inferred
      refine ⟨.str,KeyMap.lookup_insert_self ..,?_⟩
      have isNull : host.env.eval column.2 row = .null := infer_null column.2 0 inferred
      rw [isNull]
      rfl
    · rename_i inferred
      exact safe inferred
  · rw [if_neg same,columnSchema_other same]
    exact typed_iff.mp typed field

theorem columns_typed_iff {columns : List (String × Expr)}
    (distinct : (columns.map Prod.fst).Nodup) (typed : Typed schema row) :
    Typed (columns.foldl (columnSchema host.env) schema)
        (columns.foldl (setColumn host.env) row) ↔
      ColumnsTyped host columns schema row := by
  induction columns generalizing schema row with
  | nil => exact ⟨fun _ => trivial,fun _ => typed⟩
  | cons column rest ih =>
      rw [List.map_cons,List.nodup_cons] at distinct
      rw [List.foldl_cons,List.foldl_cons]
      constructor
      · intro result
        have safe : (host.env.inferExprType column.2 schema).2 = none →
            ∃ fieldType, schema.fields[column.1]? = some fieldType ∧
              (host.env.eval column.2 row).fits fieldType = true := by
          intro inferred
          obtain ⟨sameType,-,sameValues⟩ := @columns_other _ host.env rest column.1 distinct.1
            (columnSchema host.env schema column) (setColumn host.env row column)
          have here := typed_iff.mp result column.1
          have unchanged : columnSchema host.env schema column = schema := by
            unfold columnSchema
            rw [inferred]
          rw [sameType,sameValues,unchanged,setColumn,Row.valuesOf_withField,if_pos rfl] at here
          exact here.2 _ List.mem_cons_self
        exact ⟨safe,(ih distinct.2 (column_typed typed safe)).mp result⟩
      · rintro ⟨safe,later⟩
        exact (ih distinct.2 (column_typed typed safe)).mpr later

theorem withColumns_typed_iff {exprs : StrMap String}
    (accepted : (applyWithColumnsSchema host.env index exprs schema).2 = [])
    (typed : Typed schema row) :
    ∃ columns, compileColumns host.env index exprs.toList = .ok columns ∧
      (Typed (applyWithColumnsSchema host.env index exprs schema).1
          (columns.foldl (setColumn host.env) row) ↔ ColumnsTyped host columns schema row) := by
  obtain ⟨columns,ok⟩ := compileColumns_ok accepted
  obtain ⟨sameNames,sameSchema⟩ := compileColumns_spec ok (schema,[])
  have distinct := nodup_keys exprs
  rw [← sameNames] at distinct
  refine ⟨columns,ok,?_⟩
  rw [applyWithColumnsSchema,sameSchema]
  exact columns_typed_iff distinct typed

theorem typed_step (op : OpNode) (accepted : (propagateOp host.env index op schema).2 = [])
    (typed : Typed schema row) :
    (∀ result, runOp host.env index op row = some result →
      Typed (propagateOp host.env index op schema).1 result) ↔
    TypeSafe host index op schema row := by
  cases op with
  | filter exprSrc =>
      refine iff_of_true (fun result passes => ?_) trivial
      rw [runOp_filter passes]
      exact typed
  | select fields =>
      exact (forall_result_iff rfl).trans (iff_of_true (select_typed fields typed) trivial)
  | drop fields =>
      exact (forall_result_iff rfl).trans (iff_of_true (drop_typed fields typed) trivial)
  | rename mapping => exact (forall_result_iff rfl).trans (rename_typed_iff accepted typed)
  | withColumns exprs =>
      obtain ⟨columns,ok,columnsIff⟩ := withColumns_typed_iff accepted typed
      refine ((forall_result_iff (runOp_withColumns ok row)).trans columnsIff).trans ?_
      simp only [TypeSafe,ok,Except.ok.injEq,forall_eq']
  | map exprs =>
      obtain ⟨columns,ok,columnsIff⟩ := withColumns_typed_iff accepted typed
      refine ((forall_result_iff (runOp_map ok row)).trans columnsIff).trans ?_
      simp only [TypeSafe,ok,Except.ok.injEq,forall_eq']
  | cast typeMap =>
      exact (forall_result_iff rfl).trans (iff_of_true (cast_typed accepted typed) trivial)
  | fillna defaults => exact (forall_result_iff rfl).trans (fillna_typed_iff typed)
  | groupBy keys agg => cases accepted

end Steps

/-- An accepted list keeps rows typed if every step is safe, and what each of its
prefixes makes of the row is typed exactly then. -/
theorem chain_typed (host : Host) (schema : Schema) (ops : List OpNode) (chain : OpChain Expr)
    (final : Schema) (ok : OpChain.compile host.env schema ops = .ok (chain,final)) (row : Row)
    (typed : Typed schema row) :
    (Machine.Meets (stage host.env)
        (fun state op => ∀ row ∈ state.row, TypeSafe host state.index op state.schema row)
        ⟨0,schema,some row⟩ ops →
      ∀ result, chain.apply host.env row = some result → Typed final result) ∧
    ((∀ (count : Nat) (shorter : OpChain Expr) (cut : Schema) (result : Row),
        OpChain.compile host.env schema (ops.take count) = .ok (shorter,cut) →
          shorter.apply host.env row = some result → Typed cut result) ↔
      Machine.Meets (stage host.env)
        (fun state op => ∀ row ∈ state.row, TypeSafe host state.index op state.schema row)
        ⟨0,schema,some row⟩ ops) := by
  exact prefixes_iff_meets
    (fun index op before current accepted typedBefore =>
      @typed_step host index before current op accepted typedBefore) ok typed

def outcome (host : Host) (schema : Schema) (ops : List OpNode) (row : Row) :
    Option (Schema × Option Row) :=
  match OpChain.compile host.env schema ops with
  | .ok (chain,final) => some (final,chain.apply host.env row)
  | .error _ => none

theorem exists_of_outcome {host : Host} {final : Schema} {ops : List OpNode} {result : Option Row}
    (isOutcome : outcome host schema ops row = some (final,result)) :
    ∃ chain, OpChain.compile host.env schema ops = .ok (chain,final) ∧
      chain.apply host.env row = result := by
  unfold outcome at isOutcome
  split at isOutcome
  · rename_i chain made ok
    cases isOutcome
    exact ⟨chain,ok,rfl⟩
  · cases isOutcome

def sampleHost : Host :=
  { parse := fun _ => .error ⟨0,"expected an expression"⟩
    floats :=
      { add := fun first _ => first
        sub := fun first _ => first
        mul := fun first _ => first
        div := fun first _ => first
        ofInt := fun _ => F64.zero
        toInt := fun _ => 0
        display := fun _ => "0"
        parse := fun _ => none
        tileRow := fun _ _ => 0
        tileCol := fun _ _ => 0 }
    texts := { str := fun text => "\"" ++ text ++ "\"", f64 := fun _ => "0.0" }
    clusterSignature := fun _ => 0 }

def twoOptional : Schema :=
  { fields := .ofList [("a",FieldType.str),("b",FieldType.i64)]
    optionalFields := ["a","b"] }

/-- Both fields become `c`. -/
def mergingRename : List OpNode := [.rename (.ofList [("a","c"),("b","c")])]

def onlyFirst : Row := ⟨[("a",.str "u")]⟩

def bothFields : Row := ⟨[("a",.str "u"),("b",.i64 7)]⟩

theorem onlyFirst_typed : Typed twoOptional onlyFirst := by
  refine ⟨by decide,?_⟩
  intro entry member
  rw [onlyFirst,List.mem_singleton] at member
  rw [member]
  exact ⟨.str,by decide,rfl⟩

theorem bothFields_typed : Typed twoOptional bothFields := by
  refine ⟨by decide,?_⟩
  intro entry member
  rw [bothFields,List.mem_cons,List.mem_singleton] at member
  rcases member with rfl | rfl
  · exact ⟨.str,by decide,rfl⟩
  · exact ⟨.i64,by decide,rfl⟩

theorem bothFields_safe :
    Machine.Meets (stage sampleHost.env)
      (fun state op => ∀ row ∈ state.row, TypeSafe sampleHost state.index op state.schema row)
      ⟨0,twoOptional,some bothFields⟩ mergingRename := by
  refine ⟨?_,trivial⟩
  intro row member name value fieldType isLast isType
  cases member
  have entries : (Std.ExtTreeMap.ofList [("a","c"),("b","c")] : StrMap String).toList =
      [("a","c"),("b","c")] := by
    decide
  have types : renamedType (.ofList [("a","c"),("b","c")]) twoOptional "c" = some .i64 := by
    decide
  rw [renamedValues,entries] at isLast
  by_cases isTarget : "c" = name
  · subst isTarget
    rw [types] at isType
    cases isType
    cases isLast
    rfl
  · simp [isTarget] at isLast

theorem mergingRename_typed :
    ∃ chain final, OpChain.compile sampleHost.env twoOptional mergingRename = .ok (chain,final) ∧
      ∀ result, chain.apply sampleHost.env bothFields = some result → Typed final result := by
  have isOutcome : outcome sampleHost twoOptional mergingRename bothFields =
      some (⟨.ofList [("c",FieldType.i64)],["c","c"]⟩,some ⟨[("c",.i64 7)]⟩) := by
    decide
  obtain ⟨chain,ok,-⟩ := exists_of_outcome isOutcome
  exact ⟨chain,_,ok,(chain_typed sampleHost twoOptional mergingRename chain _ ok bothFields
    bothFields_typed).1 bothFields_safe⟩

/-- The merged column has the type of `b` and the value of `a`. -/
theorem mergingRename_not_typed :
    Typed twoOptional onlyFirst ∧ ∃ chain final result,
      OpChain.compile sampleHost.env twoOptional mergingRename = .ok (chain,final) ∧
      chain.apply sampleHost.env onlyFirst = some result ∧ ¬Typed final result := by
  have isOutcome : outcome sampleHost twoOptional mergingRename onlyFirst =
      some (⟨.ofList [("c",FieldType.i64)],["c","c"]⟩,some ⟨[("c",.str "u")]⟩) := by
    decide
  obtain ⟨chain,ok,applied⟩ := exists_of_outcome isOutcome
  refine ⟨onlyFirst_typed,chain,_,_,ok,applied,fun typed => ?_⟩
  obtain ⟨fieldType,declared,fits⟩ := typed.declared ("c",.str "u") List.mem_cons_self
  have isInt : fieldType = .i64 := by
    have found : (Std.ExtTreeMap.ofList [("c",FieldType.i64)] : StrMap FieldType)["c"]? =
        some .i64 := by
      decide
    rw [found] at declared
    exact (Option.some.inj declared).symm
  rw [isInt] at fits
  cases fits

end Beava.Core
