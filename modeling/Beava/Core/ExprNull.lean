/-
Where `Null` comes from.

The causes of a `Null` are listed for casts, for operators and for expressions:
a field that is missing or `Null`, a `null` literal, a conversion that fails, an
integer division by zero, operands an operator is not defined on, and the limit
on the depth.
-/

import Beava.Core.ExprTyping

namespace Beava.Core

variable {floats : Floats}
variable {target : String} {value : Value} {values : List Value}

/-- The conversion has no result. -/
def castFails (floats : Floats) (target : String) : Value → Prop
  | .str text =>
      if target = "str" then False
      else if target = "int" then parseI64 text = none
      else if target = "float" then floats.parse text = none
      else if target = "bool" then text ≠ "true" ∧ text ≠ "false"
      else True
  | .i64 _ => parseCastTarget target = none
  | .f64 _ => parseCastTarget target = none
  | .bool _ => parseCastTarget target = none
  | .datetime _ => parseCastTarget target = none
  | _ => True

theorem castTo_unknown (unknown : parseCastTarget target = none) (value : Value) :
    castTo floats target value = .null := by
  unfold parseCastTarget at unknown
  unfold castTo
  split at unknown
  · cases unknown
  · rename_i notStr
    rw [if_neg notStr]
    split at unknown
    · cases unknown
    · rename_i notInt
      rw [if_neg notInt]
      split at unknown
      · cases unknown
      · rename_i notFloat
        rw [if_neg notFloat]
        split at unknown
        · cases unknown
        · rename_i notBool
          rw [if_neg notBool]

theorem castTarget_cases {fieldType : FieldType} (known : parseCastTarget target = some fieldType) :
    target = "str" ∨ target = "int" ∨ target = "float" ∨ target = "bool" := by
  unfold parseCastTarget at known
  split at known
  · rename_i isStr
    exact .inl isStr
  · split at known
    · rename_i isInt
      exact .inr (.inl isInt)
    · split at known
      · rename_i isFloat
        exact .inr (.inr (.inl isFloat))
      · split at known
        · rename_i isBool
          exact .inr (.inr (.inr isBool))
        · cases known

theorem castTo_plain (toStr : castToStr floats value ≠ .null)
    (toInt : castToInt floats value ≠ .null) (toFloat : castToFloat floats value ≠ .null)
    (toBool : castToBool value ≠ .null) :
    castTo floats target value = .null ↔ parseCastTarget target = none := by
  constructor
  · intro isNull
    cases known : parseCastTarget target with
    | none => rfl
    | some fieldType =>
        rcases castTarget_cases known with rfl | rfl | rfl | rfl
        · exact absurd isNull toStr
        · exact absurd isNull toInt
        · exact absurd isNull toFloat
        · exact absurd isNull toBool
  · intro unknown
    exact castTo_unknown unknown value

theorem castTo_str {text : String} :
    castTo floats target (.str text) = .null ↔ castFails floats target (.str text) := by
  simp only [castTo,castFails,castToStr,castToInt,castToFloat,castToBool]
  split
  · simp
  · split
    · cases parseI64 text <;> simp
    · split
      · cases floats.parse text <;> simp
      · split
        · split
          · rename_i isTrue
            simp [isTrue]
          · rename_i notTrue
            split
            · rename_i isFalse
              simp [isFalse]
            · rename_i notFalse
              simp [notTrue,notFalse]
        · simp

theorem castFails_iff :
    castEval floats [value,.str target] = .null ↔ castFails floats target value := by
  show (if value.isNull then Value.null else castTo floats target value) = .null ↔ _
  have plainNull : ∀ {other : Value}, (∀ name, castTo floats name other = .null) →
      ((if other.isNull then Value.null else castTo floats target other) = .null ↔ True) := by
    intro other always
    rw [always target,ite_self]
    exact iff_of_true rfl trivial
  have never : ∀ other : Value,
      castToStr floats other = .null → castToInt floats other = .null →
        castToFloat floats other = .null → castToBool other = .null →
          ∀ name, castTo floats name other = .null := by
    intro other noStr noInt noFloat noBool name
    unfold castTo
    rw [noStr,noInt,noFloat,noBool]
    simp only [ite_self]
  cases value with
  | null | bytes | json | list | map => exact plainNull (never _ rfl rfl rfl rfl)
  | str text => exact castTo_str
  | i64 | f64 | bool | datetime =>
      exact castTo_plain Value.noConfusion Value.noConfusion Value.noConfusion Value.noConfusion

def Value.isNumber : Value → Bool
  | .i64 _ => true
  | .f64 _ => true
  | _ => false

def Value.isBool : Value → Bool
  | .bool _ => true
  | _ => false

/-- Two numbers, or two values of one of the ordered types. -/
def comparable : Value → Value → Bool
  | .str _, .str _ => true
  | .bool _, .bool _ => true
  | .datetime _, .datetime _ => true
  | .bytes _, .bytes _ => true
  | first, second => first.isNumber && second.isNumber

def intByZero : Value → Value → Bool
  | .i64 _, .i64 divisor => divisor = 0
  | _, _ => false

/-- The operator has no result on two values that are not `Null`. -/
def strictFails (op : String) (left right : Value) : Prop :=
  if isComparison op then comparable left right = false
  else if isArithmetic op then
    (left.isNumber && right.isNumber) = false ∨ (op = "/" ∧ intByZero left right = true)
  else True

/-- A boolean operator is not decided by its operands: `decisive` is the value
that decides it from either side. -/
def undecided (decisive : Bool) (left right : Value) : Prop :=
  left ≠ .bool decisive ∧ (left.isBool && right.isBool) = false ∧
    ¬(left = .null ∧ right = .bool decisive)

section Operators

variable {left right : Value}
variable {op : String}

theorem cmpOp_null_iff {pred : Ordering → Bool} :
    cmpOp floats left right pred = .null ↔ comparable left right = false := by
  unfold cmpOp
  cases left <;> cases right
  all_goals simp only [tryCompare,comparable,Value.isNumber,isFloatPair,Bool.and_true,
    Bool.and_false,Bool.false_eq_true,if_false,if_true,reduceCtorEq]
  all_goals (try split) <;> simp

theorem arith_null_iff {onInts : Int64 → Int64 → Value} {onFloats : F64 → F64 → F64} :
    arith floats onInts onFloats left right = .null ↔
      (left.isNumber && right.isNumber) = false ∨
        ∃ first second, left = .i64 first ∧ right = .i64 second ∧ onInts first second = .null := by
  cases left <;> cases right <;> simp [arith,Value.isNumber]

theorem strictBinop_null_iff :
    strictBinop floats op left right = .null ↔ strictFails op left right := by
  unfold strictFails
  by_cases comparison : isComparison op = true
  · rw [if_pos comparison]
    rcases isComparison_cases comparison with rfl | rfl | rfl | rfl | rfl | rfl
    all_goals exact cmpOp_null_iff
  · rw [if_neg comparison]
    by_cases arithmetic : isArithmetic op = true
    · rw [if_pos arithmetic]
      have noZero : ∀ {onInts : Int64 → Int64 → Value} {onFloats : F64 → F64 → F64},
          (∀ first second, onInts first second ≠ .null) →
            (arith floats onInts onFloats left right = .null ↔
              (left.isNumber && right.isNumber) = false) := by
        intro onInts onFloats never
        rw [arith_null_iff]
        refine or_iff_left ?_
        rintro ⟨first,second,-,-,isNull⟩
        exact never first second isNull
      rcases isArithmetic_cases arithmetic with rfl | rfl | rfl | rfl
      · exact (noZero fun _ _ => Value.noConfusion).trans (by simp)
      · exact (noZero fun _ _ => Value.noConfusion).trans (by simp)
      · exact (noZero fun _ _ => Value.noConfusion).trans (by simp)
      · refine arith_null_iff.trans (or_congr_right ?_)
        cases left <;> cases right <;> simp [intByZero]
    · rw [if_neg arithmetic]
      refine iff_of_true ?_ trivial
      unfold strictBinop
      split
      all_goals first | rfl | exact absurd rfl arithmetic | exact absurd rfl comparison

theorem and_null_iff :
    (if left = .bool false then Value.bool false else left.andThreeValued right) = .null ↔
      undecided false left right := by
  unfold undecided
  cases left with
  | bool flag =>
      cases flag <;> cases right with
      | bool other => cases other <;> simp [Value.andThreeValued,Value.isBool]
      | _ => simp [Value.andThreeValued,Value.isBool]
  | null =>
      cases right with
      | bool other => cases other <;> simp [Value.andThreeValued,Value.isBool]
      | _ => simp [Value.andThreeValued,Value.isBool]
  | _ => simp [Value.andThreeValued,Value.isBool]

theorem or_null_iff :
    (if left = .bool true then Value.bool true else left.orThreeValued right) = .null ↔
      undecided true left right := by
  unfold undecided
  cases left with
  | bool flag =>
      cases flag <;> cases right with
      | bool other => cases other <;> simp [Value.orThreeValued,Value.isBool]
      | _ => simp [Value.orThreeValued,Value.isBool]
  | null =>
      cases right with
      | bool other => cases other <;> simp [Value.orThreeValued,Value.isBool]
      | _ => simp [Value.orThreeValued,Value.isBool]
  | _ => simp [Value.orThreeValued,Value.isBool]

theorem evalBinop_null_iff (notAnd : op ≠ "and") (notOr : op ≠ "or") :
    evalBinop floats op left right = .null ↔
      left = .null ∨ right = .null ∨ strictFails op left right := by
  rw [evalBinop_strict notAnd notOr]
  by_cases leftNull : left = .null
  · rw [leftNull]
    exact iff_of_true rfl (.inl rfl)
  · by_cases rightNull : right = .null
    · rw [rightNull,Value.isNull,Bool.or_true,if_pos rfl]
      exact iff_of_true rfl (.inr (.inl rfl))
    · have neither : ¬(left.isNull || right.isNull) = true := by
        rw [Bool.or_eq_true,Value.isNull_iff,Value.isNull_iff,not_or]
        exact ⟨leftNull,rightNull⟩
      rw [if_neg neither,strictBinop_null_iff,or_iff_right leftNull,or_iff_right rightNull]

end Operators

/-- The call has no result on the values of its arguments. -/
def callFails (floats : Floats) (fnName : String) (values : List Value) : Prop :=
  if fnName = "cast" then
    ∀ value target, values = [value,.str target] → castFails floats target value
  else if fnName = "isnull" then values.length ≠ 1
  else if fnName = "quadkey" then
    ¬∃ lat lon zoom, values = [lat,lon,.i64 zoom] ∧ lat.isNumber = true ∧
      lon.isNumber = true ∧ 1 ≤ zoom ∧ zoom ≤ 24
  else True

/-- The causes of a `Null`. -/
def NullOn (floats : Floats) (row : Row) (depth : Nat) : Expr → Prop
  | .field name _ => maxEvalDepth < depth ∨ ∀ value, row.get name = some value → value = .null
  | .literal content _ => maxEvalDepth < depth ∨ content = .null
  | .unaryOp _ operand _ =>
      maxEvalDepth < depth ∨ (evalDepth floats row (depth + 1) operand).isBool = false
  | .binOp op left right _ =>
      maxEvalDepth < depth ∨
        (if op = "and" then
          undecided false (evalDepth floats row (depth + 1) left)
            (evalDepth floats row (depth + 1) right)
         else if op = "or" then
          undecided true (evalDepth floats row (depth + 1) left)
            (evalDepth floats row (depth + 1) right)
         else NullOn floats row (depth + 1) left ∨ NullOn floats row (depth + 1) right ∨
          strictFails op (evalDepth floats row (depth + 1) left)
            (evalDepth floats row (depth + 1) right))
  | .call fnName args _ =>
      maxEvalDepth < depth ∨ callFails floats fnName (evalArgs floats row (depth + 1) args)

theorem withinDepth_null_iff {depth : Nat} :
    withinDepth depth value = .null ↔ maxEvalDepth < depth ∨ value = .null := by
  unfold withinDepth
  split
  · rename_i deep
    exact iff_of_true rfl (.inl deep)
  · rename_i notDeep
    exact (or_iff_right notDeep).symm

theorem castEval_null_iff :
    castEval floats values = .null ↔
      ∀ value target, values = [value,.str target] → castFails floats target value := by
  constructor
  · intro isNull value target isPair
    rw [isPair] at isNull
    exact castFails_iff.mp isNull
  · intro fails
    unfold castEval
    split
    · rename_i value target
      exact castFails_iff.mpr (fails value target rfl)
    · rfl

theorem isnullEval_null_iff : isnullEval values = .null ↔ values.length ≠ 1 := by
  unfold isnullEval
  split
  · simp
  · rename_i notSingle
    refine iff_of_true rfl fun isOne => ?_
    obtain ⟨value,isValue⟩ := List.length_eq_one_iff.mp isOne
    exact notSingle value isValue

theorem coordinate_isSome {value : Value} :
    (coordinate floats value).isSome = value.isNumber := by
  cases value <;> rfl

theorem quadkeyEval_null_iff :
    quadkeyEval floats values = .null ↔
      ¬∃ lat lon zoom, values = [lat,lon,.i64 zoom] ∧ lat.isNumber = true ∧
        lon.isNumber = true ∧ 1 ≤ zoom ∧ zoom ≤ 24 := by
  rw [iff_not_comm]
  constructor
  · rintro ⟨lat,lon,zoom,rfl,latNumber,lonNumber,atLeast,atMost⟩
    rw [← @coordinate_isSome floats,Option.isSome_iff_exists] at latNumber lonNumber
    obtain ⟨latValue,isLat⟩ := latNumber
    obtain ⟨lonValue,isLon⟩ := lonNumber
    simp [quadkeyEval,isLat,isLon,atLeast,atMost]
  · intro notNull
    unfold quadkeyEval at notNull
    split at notNull
    · rename_i lat lon zoom
      split at notNull
      · rename_i latValue lonValue isLat isLon
        split at notNull
        · rename_i inRange
          rw [Bool.and_eq_true,decide_eq_true_iff,decide_eq_true_iff] at inRange
          refine ⟨lat,lon,zoom,rfl,?_,?_,inRange⟩
          · rw [← @coordinate_isSome floats,isLat]
            rfl
          · rw [← @coordinate_isSome floats,isLon]
            rfl
        · exact absurd rfl notNull
      · exact absurd rfl notNull
    · exact absurd rfl notNull

theorem call_null_iff {fnName : String} :
    (match lookupBuiltin fnName with
      | some builtin => builtin.eval floats values
      | none => .null) = .null ↔ callFails floats fnName values := by
  unfold callFails
  by_cases isCast : fnName = "cast"
  · subst isCast
    rw [lookupBuiltin_cast,if_pos rfl]
    exact castEval_null_iff
  · rw [if_neg isCast]
    by_cases isIsnull : fnName = "isnull"
    · subst isIsnull
      rw [lookupBuiltin_isnull,if_pos rfl]
      exact isnullEval_null_iff
    · rw [if_neg isIsnull]
      by_cases isQuadkey : fnName = "quadkey"
      · subst isQuadkey
        have found : lookupBuiltin "quadkey" = some ⟨"quadkey",.fixed 3,quadkeyEval⟩ := by
          simp [lookupBuiltin,builtins]
        rw [found,if_pos rfl]
        exact quadkeyEval_null_iff
      · have unknown : lookupBuiltin fnName = none := by
          simp [lookupBuiltin,builtins,Ne.symm isCast,Ne.symm isIsnull,Ne.symm isQuadkey]
        rw [unknown,if_neg isQuadkey]
        exact iff_of_true rfl trivial

theorem nullOn_iff {row : Row} : ∀ (expr : Expr) (depth : Nat),
    evalDepth floats row depth expr = .null ↔ NullOn floats row depth expr
  | .field name span, depth => by
      simp only [evalDepth,NullOn]
      rw [withinDepth_null_iff]
      refine or_congr_right ?_
      cases row.get name with
      | none => simp
      | some value => simp
  | .literal content span, depth => by
      simp only [evalDepth,NullOn]
      rw [withinDepth_null_iff]
      refine or_congr_right ?_
      cases content <;> simp [literalValue]
  | .unaryOp op operand span, depth => by
      simp only [evalDepth,NullOn]
      rw [withinDepth_null_iff]
      refine or_congr_right ?_
      cases evalDepth floats row (depth + 1) operand <;> simp [Value.notThreeValued,Value.isBool]
  | .binOp op left right span, depth => by
      simp only [evalDepth,NullOn]
      rw [withinDepth_null_iff]
      refine or_congr_right ?_
      by_cases isAnd : op = "and"
      · subst isAnd
        rw [if_pos rfl]
        exact and_null_iff
      · by_cases isOr : op = "or"
        · subst isOr
          rw [if_neg isAnd,if_pos rfl]
          exact or_null_iff
        · rw [if_neg isAnd,if_neg isOr,evalBinop_null_iff isAnd isOr,nullOn_iff left (depth + 1),
            nullOn_iff right (depth + 1)]
  | .call fnName args span, depth => by
      simp only [evalDepth,NullOn]
      rw [withinDepth_null_iff]
      exact or_congr_right call_null_iff

end Beava.Core
