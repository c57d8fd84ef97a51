/-
Inferred types and the values of expressions.

A value fits a type when it is `Null` or has the type, integers and floats
counting as one.  What an expression evaluates to fits the type that is inferred
for it, and an expression that is inferred to be `null` is `Null` on every row.
-/

import Beava.Core.Expr

namespace Beava.Core

variable {value : Value}

/-- `Value::type_of`. -/
def Value.typeOf : Value → Option FieldType
  | .str _ => some .str
  | .i64 _ => some .i64
  | .f64 _ => some .f64
  | .bool _ => some .bool
  | .bytes _ => some .bytes
  | .datetime _ => some .datetime
  | .json _ => some .json
  | _ => none

/-- `Null`, or a value of the type, where the numeric types are one. -/
def Value.fits (value : Value) (fieldType : FieldType) : Bool :=
  match value.typeOf with
  | some own => own = fieldType || (own.isNumeric && fieldType.isNumeric)
  | none => value.isNull

theorem Value.isNull_iff : value.isNull = true ↔ value = .null := by
  cases value <;> simp [Value.isNull]

theorem Value.fits_numeric {value : Value} {fieldType : FieldType}
    (numeric : fieldType.isNumeric = true) :
    value.fits fieldType = true ↔
      value = .null ∨ (∃ number, value = .i64 number) ∨ ∃ number, value = .f64 number := by
  cases value <;> cases fieldType <;> simp_all [Value.fits,Value.typeOf,FieldType.isNumeric,
    Value.isNull]

def InferredType.Agrees : InferredType → Value → Prop
  | .known fieldType, value => value.fits fieldType = true
  | .nullLiteral, value => value = .null

theorem InferredType.agrees_null (type : InferredType) : type.Agrees .null := by
  cases type <;> rfl

/-- The fields of the row that the schema declares have the declared types. -/
def RowFits (schema : Schema) (row : Row) : Prop :=
  ∀ (field : String) (fieldType : FieldType) (value : Value),
    schema.fields[field]? = some fieldType → row.get field = some value →
      value.fits fieldType = true

theorem rowFits_single {schema : Schema} {name : String} {fieldType : FieldType}
    (declared : schema.fields[name]? = some fieldType) (fits : value.fits fieldType = true) :
    RowFits schema ⟨[(name,value)]⟩ := by
  intro field own other isDeclared found
  by_cases same : field = name
  · subst same
    rw [declared] at isDeclared
    cases isDeclared
    rw [Row.get,List.lookup_cons,beq_self_eq_true] at found
    cases found
    exact fits
  · rw [Row.get,List.lookup_cons,beq_eq_false_iff_ne.mpr same] at found
    cases found

section Operators

variable {floats : Floats} {texts : DebugTexts} {left right : Value}
variable {op : String}
variable {fieldType : FieldType}

theorem cmpOp_fits (pred : Ordering → Bool) :
    (cmpOp floats left right pred).fits .bool = true := by
  unfold cmpOp
  split
  · rfl
  · split <;> rfl

theorem andThreeValued_fits : (left.andThreeValued right).fits .bool = true := by
  unfold Value.andThreeValued
  split <;> rfl

theorem orThreeValued_fits : (left.orThreeValued right).fits .bool = true := by
  unfold Value.orThreeValued
  split <;> rfl

theorem notThreeValued_fits : left.notThreeValued.fits .bool = true := by
  unfold Value.notThreeValued
  split <;> rfl

theorem arith_fits {onInts : Int64 → Int64 → Value} {onFloats : F64 → F64 → F64}
    (numeric : fieldType.isNumeric = true)
    (ints : ∀ first second, (onInts first second).fits .i64 = true) :
    (arith floats onInts onFloats left right).fits fieldType = true := by
  have eitherNumeric : ∀ value : Value, value.fits .i64 = true → value.fits fieldType = true := by
    intro value fitsInt
    rwa [Value.fits_numeric numeric,← @Value.fits_numeric value .i64 rfl]
  have float : ∀ number, (Value.f64 number).fits fieldType = true := by
    intro number
    exact (Value.fits_numeric numeric).mpr (.inr (.inr ⟨number,rfl⟩))
  unfold arith
  split
  · exact eitherNumeric _ (ints _ _)
  · exact float _
  · exact float _
  · exact float _
  · rfl

theorem isComparison_cases (comparison : isComparison op = true) :
    op = ">" ∨ op = ">=" ∨ op = "<" ∨ op = "<=" ∨ op = "==" ∨ op = "!=" := by
  simpa [isComparison,or_assoc] using comparison

theorem isArithmetic_cases (arithmetic : isArithmetic op = true) :
    op = "+" ∨ op = "-" ∨ op = "*" ∨ op = "/" := by
  simpa [isArithmetic,or_assoc] using arithmetic

/-- Every operator but `and` and `or` is strict in its null operands. -/
theorem evalBinop_strict (notAnd : op ≠ "and") (notOr : op ≠ "or") :
    evalBinop floats op left right =
      if left.isNull || right.isNull then .null else strictBinop floats op left right := by
  unfold evalBinop
  split
  · exact absurd rfl notAnd
  · exact absurd rfl notOr
  · rfl

theorem evalBinop_comparison (comparison : isComparison op = true) :
    (evalBinop floats op left right).fits .bool = true := by
  have notBoolean : op ≠ "and" ∧ op ≠ "or" := by
    rcases isComparison_cases comparison with rfl | rfl | rfl | rfl | rfl | rfl
    all_goals exact ⟨by decide,by decide⟩
  rw [evalBinop_strict notBoolean.1 notBoolean.2]
  split
  · rfl
  · rcases isComparison_cases comparison with rfl | rfl | rfl | rfl | rfl | rfl
    all_goals exact cmpOp_fits _

theorem evalBinop_arithmetic (arithmetic : isArithmetic op = true) :
    evalBinop floats op left right =
      if left.isNull || right.isNull then .null else strictBinop floats op left right := by
  rcases isArithmetic_cases arithmetic with rfl | rfl | rfl | rfl
  all_goals rfl

theorem strictBinop_arithmetic (arithmetic : isArithmetic op = true)
    (numeric : fieldType.isNumeric = true) :
    (strictBinop floats op left right).fits fieldType = true := by
  rcases isArithmetic_cases arithmetic with rfl | rfl | rfl | rfl
  · exact arith_fits numeric fun _ _ => rfl
  · exact arith_fits numeric fun _ _ => rfl
  · exact arith_fits numeric fun _ _ => rfl
  · refine arith_fits numeric fun _ second => ?_
    split <;> rfl

theorem evalBinop_boolean (boolean : op = "and" ∨ op = "or") :
    (evalBinop floats op left right).fits .bool = true := by
  rcases boolean with rfl | rfl
  · show (if left = .bool false then Value.bool false else left.andThreeValued right).fits .bool =
      true
    split
    · rfl
    · exact andThreeValued_fits
  · show (if left = .bool true then Value.bool true else left.orThreeValued right).fits .bool =
      true
    split
    · rfl
    · exact orThreeValued_fits

/-- Arithmetic on an operand that is `Null` is `Null`, whatever type it has. -/
theorem agrees_arithmetic (arithmetic : isArithmetic op = true)
    {leftType rightType type : InferredType} (leftAgrees : leftType.Agrees left)
    (rightAgrees : rightType.Agrees right)
    (inferred : (inferArithmeticType texts op leftType rightType).2 = some type) :
    type.Agrees (evalBinop floats op left right) := by
  rw [evalBinop_arithmetic arithmetic]
  cases leftType with
  | nullLiteral =>
      rw [show left = .null from leftAgrees]
      exact type.agrees_null
  | known leftField =>
      cases rightType with
      | nullLiteral =>
          rw [show right = .null from rightAgrees,Value.isNull,Bool.or_true,if_pos rfl]
          exact type.agrees_null
      | known rightField =>
          simp only [inferArithmeticType] at inferred
          split
          · exact type.agrees_null
          · split at inferred
            · cases inferred
            · split at inferred
              · cases inferred
                exact strictBinop_arithmetic arithmetic rfl
              · cases inferred
                exact strictBinop_arithmetic arithmetic rfl

theorem agrees_binop {leftType rightType type : InferredType} (leftAgrees : leftType.Agrees left)
    (rightAgrees : rightType.Agrees right)
    (inferred : (inferBinopType texts op leftType rightType).2 = some type) :
    type.Agrees (evalBinop floats op left right) := by
  unfold inferBinopType at inferred
  split at inferred
  · rename_i comparison
    split at inferred
    · cases inferred
      exact evalBinop_comparison comparison
    · cases inferred
  · split at inferred
    · rename_i boolean
      split at inferred
      · cases inferred
        exact evalBinop_boolean (by simpa using boolean)
      · cases inferred
    · split at inferred
      · rename_i arithmetic
        exact agrees_arithmetic arithmetic leftAgrees rightAgrees inferred
      · cases inferred

end Operators

section Calls

variable {floats : Floats} {texts : DebugTexts}
variable {target : String} {fieldType : FieldType} {type : InferredType}

theorem castTo_fits (isTarget : parseCastTarget target = some fieldType) (value : Value) :
    (castTo floats target value).fits fieldType = true := by
  unfold parseCastTarget at isTarget
  unfold castTo
  split at isTarget
  · rename_i isStr
    cases isTarget
    rw [if_pos isStr]
    cases value <;> rfl
  · rename_i notStr
    rw [if_neg notStr]
    split at isTarget
    · rename_i isInt
      cases isTarget
      rw [if_pos isInt]
      cases value with
      | str text =>
          show (((parseI64 text).map Value.i64).getD .null).fits .i64 = true
          cases parseI64 text <;> rfl
      | _ => rfl
    · rename_i notInt
      rw [if_neg notInt]
      split at isTarget
      · rename_i isFloat
        cases isTarget
        rw [if_pos isFloat]
        cases value with
        | str text =>
            show (((floats.parse text).map Value.f64).getD .null).fits .f64 = true
            cases floats.parse text <;> rfl
        | _ => rfl
      · rename_i notFloat
        rw [if_neg notFloat]
        split at isTarget
        · rename_i isBool
          cases isTarget
          rw [if_pos isBool]
          cases value with
          | str text =>
              show (if text = "true" then Value.bool true
                else if text = "false" then .bool false else .null).fits .bool = true
              split
              · rfl
              · split <;> rfl
          | _ => rfl
        · cases isTarget

theorem castEval_fits (isTarget : parseCastTarget target = some fieldType) (value : Value) :
    (castEval floats [value,.str target]).fits fieldType = true := by
  show (if value.isNull then Value.null else castTo floats target value).fits fieldType = true
  split
  · rfl
  · exact castTo_fits isTarget value

theorem withinDepth_agrees {value : Value} (depth : Nat) (agrees : type.Agrees value) :
    type.Agrees (withinDepth depth value) := by
  unfold withinDepth
  split
  · exact type.agrees_null
  · exact agrees

theorem lookupBuiltin_cast : lookupBuiltin "cast" = some ⟨"cast",.fixed 2,castEval⟩ := by
  simp [lookupBuiltin,builtins]

theorem lookupBuiltin_isnull :
    lookupBuiltin "isnull" = some ⟨"isnull",.fixed 1,fun _ => isnullEval⟩ := by
  simp [lookupBuiltin,builtins]

theorem inferCallType_some {fnName : String} {args : List Expr} {inferredArgs : List Inferred}
    (inferred : (inferCallType texts fnName args inferredArgs).2 = some type) :
    (fnName = "isnull" ∧ type = .known .bool ∧ ∃ arg, args = [arg]) ∨
    (fnName = "cast" ∧ ∃ arg targetArg target fieldType, args = [arg,targetArg] ∧
      castTargetText targetArg = some target ∧ parseCastTarget target = some fieldType ∧
        type = .known fieldType) := by
  unfold inferCallType at inferred
  split at inferred
  · cases inferred
  · rename_i builtin isBuiltin
    simp only at inferred
    split at inferred
    · cases inferred
    · rename_i rightCount
      split at inferred
      · rw [lookupBuiltin_isnull] at isBuiltin
        cases isBuiltin
        simp only [ite_eq_left_iff,reduceCtorEq,imp_false,not_not] at rightCount
        cases inferred
        exact .inl ⟨rfl,rfl,List.length_eq_one_iff.mp rightCount⟩
      · rename_i arg targetArg rest _ _
        rw [lookupBuiltin_cast] at isBuiltin
        cases isBuiltin
        simp only [ite_eq_left_iff,reduceCtorEq,imp_false,not_not] at rightCount
        have noMore : rest = [] := by
          rw [List.length_cons,List.length_cons] at rightCount
          exact List.length_eq_zero_iff.mp (by omega)
        simp only [inferCastType] at inferred
        split at inferred
        · cases inferred
        · rename_i target isText
          split at inferred
          · rename_i fieldType isTarget
            cases inferred
            rw [noMore]
            exact .inr ⟨rfl,arg,targetArg,target,fieldType,rfl,isText,isTarget,rfl⟩
          · cases inferred
      · cases inferred

end Calls

section Expressions

variable {floats : Floats} {texts : DebugTexts} {schema : Schema} {row : Row}
variable {type : InferredType}

theorem andThen_some {inferred : Inferred} {next : InferredType → Inferred}
    (isSome : (inferred.andThen next).2 = some type) :
    ∃ before, inferred.2 = some before ∧ (next before).2 = some type := by
  unfold Inferred.andThen at isSome
  split at isSome
  · rename_i isNone
    rw [isNone] at isSome
    cases isSome
  · rename_i before isBefore
    exact ⟨before,isBefore,isSome⟩

theorem eval_targetText {targetArg : Expr} {target : String}
    (isText : castTargetText targetArg = some target) (depth : Nat) :
    evalDepth floats row depth targetArg = withinDepth depth (.str target) := by
  unfold castTargetText at isText
  split at isText
  · cases isText
    rfl
  · cases isText
    rfl
  · cases isText

theorem call_agrees {fnName : String} {args : List Expr} {span : Span}
    (inferred : (inferExprType texts schema (.call fnName args span)).2 = some type) (depth : Nat) :
    type.Agrees (evalDepth floats row depth (.call fnName args span)) := by
  simp only [inferExprType] at inferred
  simp only [evalDepth]
  apply withinDepth_agrees
  rcases inferCallType_some inferred with
    ⟨rfl,rfl,arg,rfl⟩ | ⟨rfl,arg,targetArg,target,fieldType,rfl,isText,isTarget,rfl⟩
  · rw [lookupBuiltin_isnull]
    rfl
  · rw [lookupBuiltin_cast]
    simp only [evalArgs,eval_targetText isText,withinDepth]
    split
    · rfl
    · exact castEval_fits isTarget _

theorem infer_agrees (fits : RowFits schema row) :
    ∀ (expr : Expr) (type : InferredType) (depth : Nat),
      (inferExprType texts schema expr).2 = some type →
        type.Agrees (evalDepth floats row depth expr)
  | .field name span, type, depth, inferred => by
      simp only [inferExprType] at inferred
      obtain ⟨fieldType,declared,rfl⟩ := Option.map_eq_some_iff.mp inferred
      simp only [evalDepth]
      apply withinDepth_agrees
      cases found : row.get name with
      | none => rfl
      | some value => exact fits name fieldType value declared found
  | .literal content span, type, depth, inferred => by
      simp only [inferExprType] at inferred
      cases inferred
      simp only [evalDepth]
      apply withinDepth_agrees
      cases content <;> rfl
  | .unaryOp op operand span, type, depth, inferred => by
      simp only [inferExprType] at inferred
      obtain ⟨before,-,isType⟩ := andThen_some inferred
      simp only [evalDepth]
      apply withinDepth_agrees
      split at isType
      · split at isType
        · cases isType
          exact notThreeValued_fits
        · cases isType
      · cases isType
  | .binOp op left right span, type, depth, inferred => by
      simp only [inferExprType] at inferred
      obtain ⟨leftType,leftInferred,inferred⟩ := andThen_some inferred
      obtain ⟨rightType,rightInferred,inferred⟩ := andThen_some inferred
      simp only [evalDepth]
      apply withinDepth_agrees
      exact agrees_binop (infer_agrees fits left leftType (depth + 1) leftInferred)
        (infer_agrees fits right rightType (depth + 1) rightInferred) inferred
  | .call fnName args span, type, depth, inferred => call_agrees inferred depth

theorem inferArithmeticType_null {op : String} {leftType rightType : InferredType}
    (inferred : (inferArithmeticType texts op leftType rightType).2 = some .nullLiteral) :
    leftType = .nullLiteral := by
  cases leftType with
  | nullLiteral => rfl
  | known leftField =>
      cases rightType with
      | nullLiteral =>
          simp only [inferArithmeticType,resolveNullArithmetic] at inferred
          split at inferred
          · split at inferred
            all_goals simp at *
          · simp at inferred
      | known rightField =>
          simp only [inferArithmeticType] at inferred
          split at inferred
          · cases inferred
          · split at inferred <;> cases inferred

theorem infer_null : ∀ (expr : Expr) (depth : Nat),
    (inferExprType texts schema expr).2 = some .nullLiteral →
      evalDepth floats row depth expr = .null
  | .field name span, depth, inferred => by
      simp only [inferExprType] at inferred
      obtain ⟨fieldType,-,isNull⟩ := Option.map_eq_some_iff.mp inferred
      cases isNull
  | .literal content span, depth, inferred => by
      simp only [inferExprType] at inferred
      cases content with
      | null =>
          simp only [evalDepth,withinDepth,literalValue,ite_self]
      | _ => cases inferred
  | .unaryOp op operand span, depth, inferred => by
      simp only [inferExprType] at inferred
      obtain ⟨before,-,isType⟩ := andThen_some inferred
      split at isType
      · split at isType <;> cases isType
      · cases isType
  | .binOp op left right span, depth, inferred => by
      simp only [inferExprType] at inferred
      obtain ⟨leftType,leftInferred,inferred⟩ := andThen_some inferred
      obtain ⟨rightType,-,inferred⟩ := andThen_some inferred
      unfold inferBinopType at inferred
      split at inferred
      · split at inferred <;> cases inferred
      · split at inferred
        · split at inferred <;> cases inferred
        · split at inferred
          · rename_i arithmetic
            rw [inferArithmeticType_null inferred] at leftInferred
            simp only [evalDepth]
            rw [infer_null left (depth + 1) leftInferred,evalBinop_arithmetic arithmetic]
            simp only [Value.isNull,Bool.true_or,if_true,withinDepth,ite_self]
          · cases inferred
  | .call fnName args span, depth, inferred => by
      simp only [inferExprType] at inferred
      rcases inferCallType_some inferred with
        ⟨-,isBool,-⟩ | ⟨-,_,_,_,_,-,-,-,isKnown⟩
      · cases isBool
      · cases isKnown

end Expressions

end Beava.Core
