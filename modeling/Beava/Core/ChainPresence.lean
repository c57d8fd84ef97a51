/-
Fields that are not optional, along an operator list.

A row is filled for a schema when every field that is not optional is there and
not `Null`.  For one operator it is said exactly which rows stay filled, in terms
of the causes of a `Null`.
-/

import Beava.Core.ChainTyping
import Beava.Core.ExprNull

namespace Beava.Core

def Filled (schema : Schema) (row : Row) : Prop :=
  ∀ field ∈ schema.fields, field ∉ schema.optionalFields →
    ∃ value, row.get field = some value ∧ value ≠ .null

def Json.isScalar : Json → Bool
  | .bool _ => true
  | .number _ => true
  | .string _ => true
  | _ => false

section Condition

variable (host : Host)

/-- A column that is not optional afterwards has a value; a column that is only
`null` was optional. -/
def ColumnFilled (column : String × Expr) (schema : Schema) (row : Row) : Prop :=
  match (host.env.inferExprType column.2 schema).2 with
  | some (.known _) => ¬NullOn host.floats row 0 column.2
  | some .nullLiteral => column.1 ∈ schema.optionalFields
  | none => column.1 ∈ schema.fields → column.1 ∉ schema.optionalFields →
      ¬NullOn host.floats row 0 column.2

def ColumnsFilled : List (String × Expr) → Schema → Row → Prop
  | [], _, _ => True
  | column :: rest, schema, row =>
      ColumnFilled host column schema row ∧
      ColumnsFilled rest (columnSchema host.env schema column) (setColumn host.env row column)

/-- Where a field that is not optional can get lost: a `select` that takes a
repeated field again, an expression with a `Null`, a conversion that fails, a
default for a field that is not there or that is no scalar. -/
def PresenceSafe (index : Nat) (op : OpNode) (schema : Schema) (row : Row) : Prop :=
  match op with
  | .select fields => ∀ field ∈ fields, field ∉ schema.optionalFields →
      ((row.valuesOf field).take (fields.count field)).getLast? ≠ some .null
  | .withColumns exprs => ∀ columns,
      compileColumns host.env index exprs.toList = .ok columns →
        ColumnsFilled host columns schema row
  | .map exprs => ∀ columns,
      compileColumns host.env index exprs.toList = .ok columns →
        ColumnsFilled host columns schema row
  | .cast typeMap => ∀ (field target : String) (value : Value),
      (field,target) ∈ typeMap.toList → field ∉ schema.optionalFields →
        row.get field = some value → ¬castFails host.floats target value
  | .fillna defaults => ∀ (field : String) (content : Json),
      (field,content) ∈ defaults.toList →
        ∃ value, row.get field = some value ∧ (value ≠ .null ∨ content.isScalar = true)
  | _ => True

end Condition

section Steps

variable {host : Host} {index : Nat} {schema : Schema} {row : Row}
variable {column : String × Expr}

theorem mem_fields_congr {first second : Schema} {field : String}
    (same : first.fields[field]? = second.fields[field]?) :
    field ∈ first.fields ↔ field ∈ second.fields := by
  rw [KeyMap.mem_iff_exists,KeyMap.mem_iff_exists,same]

theorem select_filled_iff {fields : List String}
    (accepted : (applySelectSchema index fields schema).2 = []) (isFilled : Filled schema row) :
    Filled (applySelectSchema index fields schema).1
      (fields.foldl selectColumn (row,Row.new)).2 ↔
    PresenceSafe host index (.select fields) schema row := by
  have declared : ∀ field ∈ fields,
      field ∈ (applySelectSchema index fields schema).1.fields := by
    intro field isSelected
    have sameType : (applySelectSchema index fields schema).1.fields[field]? =
        schema.fields[field]? := by
      rw [applySelectSchema,select_fields,if_pos isSelected]
      exact Option.or_none
    exact (mem_fields_congr sameType).mpr (select_known accepted isSelected)
  have optional : ∀ field, field ∈ (applySelectSchema index fields schema).1.optionalFields ↔
      field ∈ fields ∧ field ∈ schema.fields ∧ field ∈ schema.optionalFields := by
    intro field
    rw [applySelectSchema,select_optional]
    exact or_iff_right List.not_mem_nil
  have found : ∀ field, (fields.foldl selectColumn (row,Row.new)).2.get field =
      ((row.valuesOf field).take (fields.count field)).getLast? := by
    intro field
    rw [Row.get_eq_head,selectRow_values,Option.head?_toList]
  constructor
  · intro result field isSelected notOptional isNull
    obtain ⟨value,isValue,notNull⟩ := result field (declared field isSelected) (by
      rw [optional]
      exact fun both => notOptional both.2.2)
    rw [found,isNull] at isValue
    exact notNull (Option.some.inj isValue).symm
  · intro safe field isField notOptional
    have isSelected : field ∈ fields := by
      by_contra notSelected
      refine KeyMap.notMem_of_lookup ?_ isField
      rw [applySelectSchema,select_fields,if_neg notSelected]
      rfl
    have known := select_known accepted isSelected
    have notOptionalBefore : field ∉ schema.optionalFields := by
      intro isOptional
      exact notOptional ((optional field).mpr ⟨isSelected,known,isOptional⟩)
    obtain ⟨first,isFirst,-⟩ := isFilled field known notOptionalBefore
    rw [Row.get_eq_head] at isFirst
    obtain ⟨rest,values⟩ := List.head?_eq_some_iff.mp isFirst
    have nonempty : (row.valuesOf field).take (fields.count field) ≠ [] := by
      obtain ⟨count,isCount⟩ := Nat.exists_eq_succ_of_ne_zero
        (Nat.ne_of_gt (List.count_pos_iff.mpr isSelected))
      rw [values,isCount,List.take_succ_cons]
      exact List.cons_ne_nil _ _
    obtain ⟨last,isLast⟩ := Option.isSome_iff_exists.mp (List.getLast?_isSome.mpr nonempty)
    refine ⟨last,by rw [found,isLast],?_⟩
    rintro rfl
    exact safe field isSelected notOptionalBefore isLast

theorem drop_filled (fields : List String) (isFilled : Filled schema row) :
    Filled (applyDropSchema index fields schema).1 (fields.foldl Row.withoutField row) := by
  intro field isField notOptional
  have kept : field ∉ fields := by
    intro dropped
    refine KeyMap.notMem_of_lookup ?_ isField
    rw [applyDropSchema,drop_fields,if_pos dropped]
  have sameType : (applyDropSchema index fields schema).1.fields[field]? =
      schema.fields[field]? := by
    rw [applyDropSchema,drop_fields,if_neg kept]
  rw [applyDropSchema,drop_optional _ _ kept] at notOptional
  rw [Row.get_eq_head,drop_values,List.count_eq_zero_of_not_mem kept,List.drop_zero,
    ← Row.get_eq_head]
  exact isFilled field ((mem_fields_congr sameType).mp isField) notOptional

theorem rename_filled {mapping : StrMap String}
    (accepted : mapping.toList.flatMap (checkRename index mapping schema) = [])
    (isFilled : Filled schema row) :
    Filled (applyRenameSchema index mapping schema).1 (renamedRow mapping row) := by
  intro name isField notOptional
  have sources : ∀ old ∈ schema.fields, mapping.getD old old = name →
      ∃ value, row.get old = some value ∧ value ≠ .null := by
    intro old isOld mapped
    refine isFilled old isOld fun isOptional => notOptional ?_
    obtain ⟨oldType,declared⟩ := KeyMap.mem_iff_exists.mp isOld
    rw [applyRenameSchema,rename_optional]
    exact .inr ⟨(old,oldType),Std.ExtTreeMap.mem_toList_iff_getElem?_eq_some.mpr declared,
      isOptional,mapped⟩
  rw [Row.get_eq_head,renamedRow_values]
  by_cases isTarget : ∃ entry ∈ mapping.toList, entry.2 = name
  · have taken : ∀ entry ∈ mapping.toList, entry.2 = name →
        ∃ value, row.get entry.1 = some value ∧ value ≠ .null := by
      rintro ⟨old,new⟩ member rfl
      exact sources old (rename_accepted accepted member).1 (getD_eq_iff.mpr (.inl member))
    obtain ⟨entry,member,isName⟩ := isTarget
    obtain ⟨value,isValue,-⟩ := taken entry member isName
    have nonempty : renamedValues mapping row name ≠ [] := by
      apply List.ne_nil_of_mem
      exact List.mem_filterMap.mpr
        ⟨entry,List.mem_filter.mpr ⟨member,decide_eq_true isName⟩,isValue⟩
    obtain ⟨last,isLast⟩ := Option.isSome_iff_exists.mp (List.getLast?_isSome.mpr nonempty)
    obtain ⟨other,inFiltered,isOther⟩ := List.mem_filterMap.mp (List.mem_of_getLast? isLast)
    obtain ⟨otherMember,otherName⟩ := List.mem_filter.mp inFiltered
    obtain ⟨own,isOwn,notNull⟩ := taken other otherMember (of_decide_eq_true otherName)
    rw [isLast]
    rw [isOwn] at isOther
    cases isOther
    exact ⟨last,rfl,notNull⟩
  · rw [renamedValues_nil isTarget]
    obtain ⟨fieldType,isType⟩ := KeyMap.mem_iff_exists.mp isField
    rw [renameSchema_fields] at isType
    obtain ⟨notMapped,declared⟩ := renamedType_own isTarget isType
    have isOld : name ∈ schema.fields := KeyMap.mem_of_lookup declared
    rw [count_keys_eq_zero notMapped,List.drop_zero]
    simp only [List.getLast?_nil]
    rw [← Row.get_eq_head]
    exact sources name isOld (getD_eq_iff.mpr (.inr ⟨notMapped,rfl⟩))

theorem head?_mapHead (change : Value → Value) (values : List Value) :
    (mapHead change values).head? = values.head?.map change := by
  cases values <;> rfl

theorem cast_filled_iff {typeMap : StrMap String}
    (accepted : (applyCastSchema host.env index typeMap schema).2 = [])
    (isFilled : Filled schema row) :
    Filled (applyCastSchema host.env index typeMap schema).1
      ((castEntries typeMap.toList).foldl (castColumn host.env) row) ↔
    PresenceSafe host index (.cast typeMap) schema row := by
  have distinct := nodup_keys typeMap
  have optional : (applyCastSchema host.env index typeMap schema).1.optionalFields =
      schema.optionalFields := cast_optional _ _
  have found : ∀ (field target : String), (field,target) ∈ typeMap.toList →
      field ∈ schema.fields ∧
        field ∈ (applyCastSchema host.env index typeMap schema).1.fields ∧
        ((castEntries typeMap.toList).foldl (castColumn host.env) row).get field =
          (row.get field).map fun value => castEval host.floats [value,.str target] := by
    intro field target member
    obtain ⟨targetType,isTarget,isField,declared⟩ :=
      cast_fields_of_mem distinct accepted member
    refine ⟨isField,KeyMap.mem_of_lookup declared,?_⟩
    · rw [Row.get_eq_head,Row.get_eq_head,cast_values_of_mem distinct member isTarget,
        head?_mapHead]
      rfl
  constructor
  · intro result field target value member notOptional isValue fails
    obtain ⟨-,stillField,isCast⟩ := found field target member
    obtain ⟨own,isOwn,notNull⟩ := result field stillField (by rwa [optional])
    rw [isCast,isValue,Option.map_some,castFails_iff.mpr fails] at isOwn
    exact notNull (Option.some.inj isOwn).symm
  · intro safe field isField notOptional
    rw [optional] at notOptional
    by_cases isCast : field ∈ typeMap.toList.map Prod.fst
    · obtain ⟨⟨_,target⟩,member,rfl⟩ := List.mem_map.mp isCast
      obtain ⟨wasField,-,castTo⟩ := found _ target member
      obtain ⟨value,isValue,-⟩ := isFilled _ wasField notOptional
      rw [castTo,isValue]
      refine ⟨_,rfl,fun isNull => ?_⟩
      exact safe _ target value member notOptional isValue (castFails_iff.mp isNull)
    · have sameType : (applyCastSchema host.env index typeMap schema).1.fields[field]? =
          schema.fields[field]? := cast_fields_of_notMem isCast _
      rw [Row.get_eq_head,cast_values_of_notMem isCast,← Row.get_eq_head]
      exact isFilled field ((mem_fields_congr sameType).mp isField) notOptional

theorem jsonToValue_null_iff {env : Env Expr} {content : Json} :
    jsonToValue env content = .null ↔ content.isScalar = false := by
  cases content with
  | null => exact iff_of_true rfl rfl
  | bool | string => exact iff_of_false Value.noConfusion Bool.noConfusion
  | array | object => exact iff_of_true rfl rfl
  | number value =>
      refine iff_of_false ?_ Bool.noConfusion
      unfold jsonToValue
      simp only
      split
      · exact Value.noConfusion
      · cases value with
        | posInt number => exact Value.noConfusion
        | negInt number => exact Value.noConfusion
        | float number => exact Value.noConfusion

theorem filled_ne_null_iff {fallback value : Value} :
    filled fallback value ≠ .null ↔ value ≠ .null ∨ fallback ≠ .null := by
  unfold filled
  split
  · rename_i isNull
    rw [Value.isNull_iff] at isNull
    rw [or_iff_right (not_not.mpr isNull)]
  · rename_i notNull
    rw [Value.isNull_iff] at notNull
    exact iff_of_true notNull (.inl notNull)

theorem fillna_filled_iff {defaults : StrMap Json}
    (accepted : (applyFillnaSchema index defaults schema).2 = []) (isFilled : Filled schema row) :
    Filled (applyFillnaSchema index defaults schema).1
      ((fillEntries host.env defaults.toList).foldl fillColumn row) ↔
    PresenceSafe host index (.fillna defaults) schema row := by
  have sameFields : (applyFillnaSchema index defaults schema).1.fields = schema.fields :=
    fill_fields _ _
  have optional : ∀ field, field ∈ (applyFillnaSchema index defaults schema).1.optionalFields ↔
      field ∈ schema.optionalFields ∧ field ∉ defaults.toList.map Prod.fst :=
    fill_optional accepted
  have found : ∀ (field : String) (content : Json), (field,content) ∈ defaults.toList →
      ((fillEntries host.env defaults.toList).foldl fillColumn row).get field =
        (row.get field).map (filled (jsonToValue host.env content)) := by
    intro field content member
    rw [Row.get_eq_head,Row.get_eq_head,fill_values_of_mem (nodup_keys defaults) member,
      head?_mapHead]
  constructor
  · intro result field content member
    have isKey : field ∈ defaults.toList.map Prod.fst := List.mem_map.mpr ⟨_,member,rfl⟩
    obtain ⟨own,isOwn,notNull⟩ := result field
      (by rw [sameFields]; exact fill_known accepted isKey)
      (by rw [optional]; exact fun both => both.2 isKey)
    rw [found field content member] at isOwn
    obtain ⟨value,isValue,rfl⟩ := Option.map_eq_some_iff.mp isOwn
    refine ⟨value,isValue,(filled_ne_null_iff.mp notNull).imp_right fun scalar => ?_⟩
    rwa [Ne,jsonToValue_null_iff,Bool.not_eq_false] at scalar
  · intro safe field isField notOptional
    rw [sameFields] at isField
    by_cases isKey : field ∈ defaults.toList.map Prod.fst
    · obtain ⟨⟨_,content⟩,member,rfl⟩ := List.mem_map.mp isKey
      obtain ⟨value,isValue,holds⟩ := safe _ content member
      rw [found _ content member,isValue]
      refine ⟨_,rfl,filled_ne_null_iff.mpr (holds.imp_right fun scalar => ?_)⟩
      rwa [Ne,jsonToValue_null_iff,Bool.not_eq_false]
    · rw [Row.get_eq_head,fill_values_of_notMem isKey,← Row.get_eq_head]
      exact isFilled field isField fun isOptional => notOptional ((optional field).mpr
        ⟨isOptional,isKey⟩)

theorem columnFilled_iff :
    ColumnFilled host column schema row ↔
      (column.1 ∈ (columnSchema host.env schema column).fields →
        column.1 ∉ (columnSchema host.env schema column).optionalFields →
          host.env.eval column.2 row ≠ .null) := by
  have evaluates : host.env.eval column.2 row ≠ .null ↔ ¬NullOn host.floats row 0 column.2 :=
    not_congr (nullOn_iff column.2 0)
  rw [evaluates]
  unfold ColumnFilled columnSchema
  cases inferred : (host.env.inferExprType column.2 schema).2 with
  | none => exact Iff.rfl
  | some type =>
      cases type with
      | known fieldType =>
          simp only [Std.ExtTreeMap.mem_insert_self,List.mem_filter,ne_eq,not_true_eq_false,
            decide_false,Bool.false_eq_true,and_false,not_false_eq_true,true_implies]
      | nullLiteral =>
          have isNull : NullOn host.floats row 0 column.2 :=
            (nullOn_iff column.2 0).mp (infer_null column.2 0 inferred)
          simp only [Std.ExtTreeMap.mem_insert_self,true_implies,isNull,not_true_eq_false,
            imp_false,not_not]

theorem column_filled (isFilled : Filled schema row) (safe : ColumnFilled host column schema row) :
    Filled (columnSchema host.env schema column) (setColumn host.env row column) := by
  intro field isField notOptional
  rw [setColumn,Row.get_withField]
  by_cases same : column.1 = field
  · subst same
    rw [if_pos rfl]
    exact ⟨_,rfl,columnFilled_iff.mp safe isField notOptional⟩
  · rw [if_neg same]
    rw [columnSchema_optional same] at notOptional
    exact isFilled field ((mem_fields_congr (columnSchema_other same)).mp isField) notOptional

theorem columns_filled_iff {columns : List (String × Expr)}
    (distinct : (columns.map Prod.fst).Nodup) (isFilled : Filled schema row) :
    Filled (columns.foldl (columnSchema host.env) schema)
        (columns.foldl (setColumn host.env) row) ↔
      ColumnsFilled host columns schema row := by
  induction columns generalizing schema row with
  | nil => exact ⟨fun _ => trivial,fun _ => isFilled⟩
  | cons column rest ih =>
      rw [List.map_cons,List.nodup_cons] at distinct
      rw [List.foldl_cons,List.foldl_cons]
      constructor
      · intro result
        have safe : ColumnFilled host column schema row := by
          rw [columnFilled_iff]
          intro isField notOptional isNull
          obtain ⟨sameType,sameOptional,sameValues⟩ := @columns_other _ host.env rest column.1
            distinct.1 (columnSchema host.env schema column) (setColumn host.env row column)
          obtain ⟨value,isValue,notNull⟩ := result column.1
            ((mem_fields_congr sameType).mpr isField) (by rwa [sameOptional])
          rw [Row.get_eq_head,sameValues,← Row.get_eq_head,setColumn,Row.get_withField,
            if_pos rfl,isNull] at isValue
          exact notNull (Option.some.inj isValue).symm
        exact ⟨safe,(ih distinct.2 (column_filled isFilled safe)).mp result⟩
      · rintro ⟨safe,later⟩
        exact (ih distinct.2 (column_filled isFilled safe)).mpr later

theorem withColumns_filled_iff {exprs : StrMap String}
    (accepted : (applyWithColumnsSchema host.env index exprs schema).2 = [])
    (isFilled : Filled schema row) :
    ∃ columns, compileColumns host.env index exprs.toList = .ok columns ∧
      (Filled (applyWithColumnsSchema host.env index exprs schema).1
          (columns.foldl (setColumn host.env) row) ↔ ColumnsFilled host columns schema row) := by
  obtain ⟨columns,ok⟩ := compileColumns_ok accepted
  obtain ⟨sameNames,sameSchema⟩ := compileColumns_spec ok (schema,[])
  have distinct := nodup_keys exprs
  rw [← sameNames] at distinct
  refine ⟨columns,ok,?_⟩
  rw [applyWithColumnsSchema,sameSchema]
  exact columns_filled_iff distinct isFilled

theorem filled_step (op : OpNode) (accepted : (propagateOp host.env index op schema).2 = [])
    (isFilled : Filled schema row) :
    (∀ result, runOp host.env index op row = some result →
      Filled (propagateOp host.env index op schema).1 result) ↔
    PresenceSafe host index op schema row := by
  cases op with
  | filter exprSrc =>
      refine iff_of_true (fun result passes => ?_) trivial
      rw [runOp_filter passes]
      exact isFilled
  | select fields => exact (forall_result_iff rfl).trans (select_filled_iff accepted isFilled)
  | drop fields =>
      exact (forall_result_iff rfl).trans (iff_of_true (drop_filled fields isFilled) trivial)
  | rename mapping =>
      exact (forall_result_iff rfl).trans (iff_of_true (rename_filled accepted isFilled) trivial)
  | withColumns exprs =>
      obtain ⟨columns,ok,columnsIff⟩ := withColumns_filled_iff accepted isFilled
      refine ((forall_result_iff (runOp_withColumns ok row)).trans columnsIff).trans ?_
      simp only [PresenceSafe,ok,Except.ok.injEq,forall_eq']
  | map exprs =>
      obtain ⟨columns,ok,columnsIff⟩ := withColumns_filled_iff accepted isFilled
      refine ((forall_result_iff (runOp_map ok row)).trans columnsIff).trans ?_
      simp only [PresenceSafe,ok,Except.ok.injEq,forall_eq']
  | cast typeMap => exact (forall_result_iff rfl).trans (cast_filled_iff accepted isFilled)
  | fillna defaults => exact (forall_result_iff rfl).trans (fillna_filled_iff accepted isFilled)
  | groupBy keys agg => cases accepted

end Steps

/-- An accepted list keeps rows filled if every step is safe, and what each of
its prefixes makes of the row is filled exactly then. -/
theorem chain_filled (host : Host) (schema : Schema) (ops : List OpNode) (chain : OpChain Expr)
    (final : Schema) (ok : OpChain.compile host.env schema ops = .ok (chain,final)) (row : Row)
    (isFilled : Filled schema row) :
    (Machine.Meets (stage host.env)
        (fun state op => ∀ row ∈ state.row, PresenceSafe host state.index op state.schema row)
        ⟨0,schema,some row⟩ ops →
      ∀ result, chain.apply host.env row = some result → Filled final result) ∧
    ((∀ (count : Nat) (shorter : OpChain Expr) (cut : Schema) (result : Row),
        OpChain.compile host.env schema (ops.take count) = .ok (shorter,cut) →
          shorter.apply host.env row = some result → Filled cut result) ↔
      Machine.Meets (stage host.env)
        (fun state op => ∀ row ∈ state.row, PresenceSafe host state.index op state.schema row)
        ⟨0,schema,some row⟩ ops) := by
  exact prefixes_iff_meets
    (fun index op before current accepted filledBefore =>
      @filled_step host index before current op accepted filledBefore) ok isFilled

def oneOptional : Schema :=
  { fields := .ofList [("x",FieldType.i64)]
    optionalFields := ["x"] }

def fillWithZero : List OpNode :=
  [.fillna (.ofList [("x",Json.number (.posInt 0))])]

theorem oneOptional_filled (row : Row) : Filled oneOptional row := by
  intro field isField notOptional
  have onlyField : oneOptional.fields.keys = ["x"] := by decide
  rw [← Std.ExtTreeMap.mem_keys,onlyField] at isField
  exact absurd isField notOptional

def nullField : Row := ⟨[("x",.null)]⟩

theorem nullField_safe :
    Machine.Meets (stage sampleHost.env)
      (fun state op => ∀ row ∈ state.row, PresenceSafe sampleHost state.index op state.schema row)
      ⟨0,oneOptional,some nullField⟩ fillWithZero := by
  refine ⟨?_,trivial⟩
  intro row member field content isDefault
  cases member
  have entries : (Std.ExtTreeMap.ofList [("x",Json.number (.posInt 0))] : StrMap Json).toList =
      [("x",.number (.posInt 0))] := by
    decide
  rw [entries,List.mem_singleton] at isDefault
  cases isDefault
  exact ⟨.null,rfl,.inr rfl⟩

theorem fillWithZero_filled :
    ∃ chain final, OpChain.compile sampleHost.env oneOptional fillWithZero = .ok (chain,final) ∧
      ∀ result, chain.apply sampleHost.env nullField = some result → Filled final result := by
  have isOutcome : outcome sampleHost oneOptional fillWithZero nullField =
      some (⟨.ofList [("x",FieldType.i64)],[]⟩,some ⟨[("x",.i64 0)]⟩) := by
    decide
  obtain ⟨chain,ok,-⟩ := exists_of_outcome isOutcome
  exact ⟨chain,_,ok,(chain_filled sampleHost oneOptional fillWithZero chain _ ok nullField
    (oneOptional_filled nullField)).1 nullField_safe⟩

/-- A default does not reach a field that is missing, and the field is not optional
any more. -/
theorem fillWithZero_not_filled :
    Filled oneOptional Row.new ∧ ∃ chain final result,
      OpChain.compile sampleHost.env oneOptional fillWithZero = .ok (chain,final) ∧
      chain.apply sampleHost.env Row.new = some result ∧ ¬Filled final result := by
  have isOutcome : outcome sampleHost oneOptional fillWithZero Row.new =
      some (⟨.ofList [("x",FieldType.i64)],[]⟩,some Row.new) := by
    decide
  obtain ⟨chain,ok,applied⟩ := exists_of_outcome isOutcome
  refine ⟨oneOptional_filled Row.new,chain,_,_,ok,applied,fun isFilled => ?_⟩
  have isField : "x" ∈ (Std.ExtTreeMap.ofList [("x",FieldType.i64)] : StrMap FieldType) := by
    decide
  obtain ⟨value,isValue,-⟩ := isFilled "x" isField List.not_mem_nil
  cases isValue

end Beava.Core
