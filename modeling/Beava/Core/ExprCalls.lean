/-
What type inference says of a whole expression.

Inference ends at the first operand without a type.  Where every field is declared
and no error is recorded, there is one way to have none: a division between `null`
and an operand that is no number.  Without such a division the inference gets to
every leaf, so that the expression has a type and each call is one of a builtin
with as many arguments as it takes.
-/

import Beava.Core.ExprPanic

namespace Beava.Core

def Arity.admits : Arity → Nat → Bool
  | .fixed expected, count => count = expected
  | .variadic, _ => true

def callKnown (fnName : String) (count : Nat) : Bool :=
  match lookupBuiltin fnName with
  | some builtin => builtin.arity.admits count
  | none => false

namespace Expr

mutual

def callsKnown : Expr → Bool
  | .field .. => true
  | .literal .. => true
  | .binOp _ left right _ => callsKnown left && callsKnown right
  | .unaryOp _ operand _ => callsKnown operand
  | .call fnName args _ => callKnown fnName args.length && argsKnown args

def argsKnown : List Expr → Bool
  | [] => true
  | arg :: rest => callsKnown arg && argsKnown rest

end

end Expr

/-- One side of the division is `null` and the other is no number; inference finds no
type for it and records no error. -/
def isNullQuotient (op : String) (left right : Option InferredType) : Bool :=
  match left, right with
  | some .nullLiteral, some (.known fieldType) => op = "/" && !fieldType.isNumeric
  | some (.known fieldType), some .nullLiteral => op = "/" && !fieldType.isNumeric
  | _, _ => false

section

variable (texts : DebugTexts)

mutual

def hasNullQuotient (schema : Schema) : Expr → Bool
  | .field .. => false
  | .literal .. => false
  | .binOp op left right _ =>
      isNullQuotient op (inferExprType texts schema left).2 (inferExprType texts schema right).2 ||
        hasNullQuotient schema left || hasNullQuotient schema right
  | .unaryOp _ operand _ => hasNullQuotient schema operand
  | .call _ args _ => argsHaveNullQuotient schema args

def argsHaveNullQuotient (schema : Schema) : List Expr → Bool
  | [] => false
  | arg :: rest => hasNullQuotient schema arg || argsHaveNullQuotient schema rest

end

end

section

variable {texts : DebugTexts} {schema : Schema}
variable {op : String}

theorem andThen_noErrors {inferred : Inferred} {next : InferredType → Inferred}
    (noErrors : (inferred.andThen next).1 = []) :
    inferred.1 = [] ∧ ∀ type, inferred.2 = some type →
      (next type).1 = [] ∧ (inferred.andThen next).2 = (next type).2 := by
  unfold Inferred.andThen at noErrors ⊢
  split at noErrors
  · rename_i isNone
    refine ⟨noErrors,?_⟩
    intro type isSome
    rw [isNone] at isSome
    cases isSome
  · rename_i found isFound
    obtain ⟨here,later⟩ := List.append_eq_nil_iff.mp noErrors
    refine ⟨here,?_⟩
    intro type isSome
    rw [isFound] at isSome
    cases isSome
    exact ⟨later,rfl⟩

theorem resolveNullArithmetic_isSome {other : InferredType}
    (numeric : ∀ fieldType, other = .known fieldType → op = "/" → fieldType.isNumeric = true) :
    ∃ type, resolveNullArithmetic op other = some type := by
  unfold resolveNullArithmetic
  split
  · rename_i isDivision
    cases other with
    | nullLiteral => exact ⟨_,rfl⟩
    | known fieldType =>
        have isNumber := numeric fieldType rfl isDivision
        cases fieldType with
        | i64 => exact ⟨_,rfl⟩
        | f64 => exact ⟨_,rfl⟩
        | _ => cases isNumber
  · exact ⟨_,rfl⟩

theorem numeric_of_notNullQuotient {fieldType : FieldType}
    (notQuotient : (op = "/" && !fieldType.isNumeric) = false) (isDivision : op = "/") :
    fieldType.isNumeric = true := by
  rw [decide_eq_true isDivision,Bool.true_and,Bool.not_eq_false'] at notQuotient
  exact notQuotient

theorem inferArithmeticType_isSome {left right : InferredType}
    (noErrors : (inferArithmeticType texts op left right).1 = [])
    (notQuotient : isNullQuotient op (some left) (some right) = false) :
    ∃ type, (inferArithmeticType texts op left right).2 = some type := by
  cases left with
  | nullLiteral =>
      apply resolveNullArithmetic_isSome
      intro fieldType isKnown isDivision
      rw [isKnown] at notQuotient
      exact numeric_of_notNullQuotient notQuotient isDivision
  | known leftType =>
      cases right with
      | nullLiteral =>
          apply resolveNullArithmetic_isSome
          intro fieldType isKnown isDivision
          cases isKnown
          exact numeric_of_notNullQuotient notQuotient isDivision
      | known rightType =>
          simp only [inferArithmeticType] at noErrors ⊢
          split at noErrors
          · cases noErrors
          · rename_i numeric
            rw [if_neg numeric]
            split
            · exact ⟨_,rfl⟩
            · exact ⟨_,rfl⟩

theorem inferBinopType_isSome {left right : InferredType}
    (noErrors : (inferBinopType texts op left right).1 = [])
    (notQuotient : isNullQuotient op (some left) (some right) = false) :
    ∃ type, (inferBinopType texts op left right).2 = some type := by
  unfold inferBinopType at noErrors ⊢
  split at noErrors
  · rename_i comparison
    rw [if_pos comparison]
    split at noErrors
    · rename_i comparable
      rw [if_pos comparable]
      exact ⟨_,rfl⟩
    · cases noErrors
  · rename_i notComparison
    rw [if_neg notComparison]
    split at noErrors
    · rename_i boolean
      rw [if_pos boolean]
      split at noErrors
      · rename_i compatible
        rw [if_pos compatible]
        exact ⟨_,rfl⟩
      · cases noErrors
    · rename_i notBoolean
      rw [if_neg notBoolean]
      split at noErrors
      · rename_i arithmetic
        rw [if_pos arithmetic]
        exact inferArithmeticType_isSome noErrors notQuotient
      · cases noErrors

theorem inferCastType_isSome {targetArg : Expr}
    (noErrors : (inferCastType texts targetArg).1 = []) :
    ∃ type, (inferCastType texts targetArg).2 = some type := by
  unfold inferCastType at noErrors ⊢
  split at noErrors
  · cases noErrors
  · split at noErrors
    · exact ⟨_,rfl⟩
    · cases noErrors

theorem inferCallType_isSome {fnName : String} {args : List Expr} {inferredArgs : List Inferred}
    (noErrors : (inferCallType texts fnName args inferredArgs).1 = []) :
    (∃ type, (inferCallType texts fnName args inferredArgs).2 = some type) ∧
      ∀ inferred ∈ inferredArgs.head?, inferred.1 = [] := by
  unfold inferCallType at noErrors ⊢
  split at noErrors
  · cases noErrors
  · simp only at noErrors ⊢
    split at noErrors
    · cases noErrors
    · split at noErrors
      · refine ⟨⟨_,rfl⟩,?_⟩
        intro inferred member
        cases member
        exact noErrors
      · obtain ⟨ofArg,ofTarget⟩ := List.append_eq_nil_iff.mp noErrors
        refine ⟨inferCastType_isSome ofTarget,?_⟩
        intro inferred member
        cases member
        exact ofArg
      · cases noErrors

end

section

variable {texts : DebugTexts} {schema : Schema}

theorem infer_targetText {targetArg : Expr} {target : String}
    (isText : castTargetText targetArg = some target) :
    (inferExprType texts schema targetArg).1 = [] := by
  unfold castTargetText at isText
  split at isText
  · rfl
  · rfl
  · cases isText

mutual

/-- Without errors and without a division of or by `null`, inference gets to every
leaf. -/
theorem infer_complete : ∀ (expr : Expr),
    (∀ field ∈ expr.collectFields, field ∈ schema.fields) →
      (inferExprType texts schema expr).1 = [] → hasNullQuotient texts schema expr = false →
        (∃ type, (inferExprType texts schema expr).2 = some type) ∧ expr.callsKnown = true
  | .field name span, declared, _, _ => by
      obtain ⟨fieldType,found⟩ := KeyMap.mem_iff_exists.mp
        (declared name (by rw [Expr.collectFields]; exact List.mem_singleton_self name))
      rw [inferExprType,Expr.callsKnown,found]
      exact ⟨⟨_,rfl⟩,rfl⟩
  | .literal content span, _, _, _ => by
      simp only [inferExprType,Expr.callsKnown]
      exact ⟨⟨_,rfl⟩,trivial⟩
  | .unaryOp op operand span, declared, noErrors, clean => by
      rw [inferExprType] at noErrors ⊢
      rw [Expr.collectFields] at declared
      rw [hasNullQuotient] at clean
      obtain ⟨operandErrors,later⟩ := andThen_noErrors noErrors
      obtain ⟨⟨type,isType⟩,calls⟩ := infer_complete operand declared operandErrors clean
      obtain ⟨laterErrors,result⟩ := later type isType
      rw [result,Expr.callsKnown]
      refine ⟨?_,calls⟩
      split at laterErrors
      · rename_i isNot
        rw [if_pos isNot]
        split at laterErrors
        · rename_i compatible
          rw [if_pos compatible]
          exact ⟨_,rfl⟩
        · cases laterErrors
      · cases laterErrors
  | .binOp op left right span, declared, noErrors, clean => by
      rw [inferExprType] at noErrors ⊢
      rw [Expr.collectFields] at declared
      rw [hasNullQuotient,Bool.or_eq_false_iff,Bool.or_eq_false_iff] at clean
      obtain ⟨⟨notQuotient,leftClean⟩,rightClean⟩ := clean
      obtain ⟨leftErrors,later⟩ := andThen_noErrors noErrors
      obtain ⟨⟨leftType,isLeft⟩,leftCalls⟩ := infer_complete left
        (fun field member => declared field (List.mem_append_left _ member)) leftErrors leftClean
      obtain ⟨laterErrors,result⟩ := later leftType isLeft
      obtain ⟨rightErrors,last⟩ := andThen_noErrors laterErrors
      obtain ⟨⟨rightType,isRight⟩,rightCalls⟩ := infer_complete right
        (fun field member => declared field (List.mem_append_right _ member)) rightErrors rightClean
      obtain ⟨binopErrors,binopResult⟩ := last rightType isRight
      rw [isLeft,isRight] at notQuotient
      rw [result,binopResult,Expr.callsKnown,leftCalls,rightCalls]
      exact ⟨inferBinopType_isSome binopErrors notQuotient,rfl⟩
  | .call fnName args span, declared, noErrors, clean => by
      rw [inferExprType] at noErrors ⊢
      rw [Expr.collectFields] at declared
      rw [hasNullQuotient] at clean
      have ofArgs := args_complete args declared clean
      obtain ⟨⟨type,isType⟩,headErrors⟩ := inferCallType_isSome noErrors
      refine ⟨⟨type,isType⟩,?_⟩
      rw [Expr.callsKnown,Bool.and_eq_true]
      rcases inferCallType_some isType with
        ⟨rfl,-,arg,rfl⟩ | ⟨rfl,arg,targetArg,target,fieldType,rfl,isText,-,-⟩
      · constructor
        · rw [callKnown,lookupBuiltin_isnull]
          rfl
        · apply ofArgs
          intro other member
          rw [List.mem_singleton.mp member]
          exact headErrors _ rfl
      · constructor
        · rw [callKnown,lookupBuiltin_cast]
          rfl
        · apply ofArgs
          intro other member
          rcases List.mem_cons.mp member with isArg | inRest
          · rw [isArg]
            exact headErrors _ rfl
          · rw [List.mem_singleton.mp inRest]
            exact infer_targetText isText

theorem args_complete : ∀ (args : List Expr),
    (∀ field ∈ Expr.collectArgs args, field ∈ schema.fields) →
      argsHaveNullQuotient texts schema args = false →
        (∀ arg ∈ args, (inferExprType texts schema arg).1 = []) → Expr.argsKnown args = true
  | [], _, _, _ => by
      rw [Expr.argsKnown]
  | arg :: rest, declared, clean, noErrors => by
      rw [Expr.collectArgs] at declared
      rw [argsHaveNullQuotient,Bool.or_eq_false_iff] at clean
      obtain ⟨-,here⟩ := infer_complete arg
        (fun field member => declared field (List.mem_append_left _ member))
        (noErrors arg List.mem_cons_self) clean.1
      have others := args_complete rest
        (fun field member => declared field (List.mem_append_right _ member)) clean.2
        (fun other member => noErrors other (List.mem_cons_of_mem arg member))
      rw [Expr.argsKnown,here,others]
      rfl

end

end

section

variable (host : Host) (schema : Schema)

/-- The checks of an expression against a schema found nothing. -/
structure ExprPassed (expr : Expr) : Prop where
  declared : ∀ field ∈ expr.referencedFields, field ∈ schema.fields
  noErrors : (inferExprType host.texts schema expr).1 = []

/-- What the checks ensure.  Where no division is of or by `null`, the calls are known
and every evaluation that returns agrees with the type. -/
structure ExprJudged (expr : Expr) : Prop where
  declared : ∀ field ∈ expr.referencedFields, field ∈ schema.fields
  callsKnown : hasNullQuotient host.texts schema expr = false → expr.callsKnown = true
  typed : hasNullQuotient host.texts schema expr = false →
    ∃ type, inferExprType host.texts schema expr = ([],some type) ∧
      ∀ row, RowFits schema row → ¬ ReachesMinDivision host.floats row 0 expr →
        ∃ value, evalStopping host.floats row 0 expr = some value ∧ type.Agrees value

/-- What becomes of a filter: of a boolean type, or the type of `null`, it gives a
boolean or `Null`; of any type, it keeps the rows on which it is true. -/
structure FilterJudged (ast : Expr) : Prop where
  boolean : ∀ type, (inferExprType host.texts schema ast).2 = some type →
    type.isBoolCompatible = true →
      ∀ row, RowFits schema row → ¬ ReachesMinDivision host.floats row 0 ast →
        ∃ value, evalStopping host.floats row 0 ast = some value ∧
          (value = .null ∨ ∃ flag, value = .bool flag)
  keeps : ∀ row, (CompiledOp.filter ast).applyStopping host row = some (some row) ↔
    evalStopping host.floats row 0 ast = some (.bool true)

end

section

variable {host : Host} {schema : Schema} {expr : Expr}
variable {value : Value}

theorem ExprPassed.judged (passed : ExprPassed host schema expr) :
    ExprJudged host schema expr := by
  have declared : ∀ field ∈ expr.collectFields, field ∈ schema.fields := by
    intro field member
    exact passed.declared field (KeyMap.mem_sortDedup.mpr member)
  have complete := infer_complete expr declared passed.noErrors
  refine ⟨passed.declared,fun clean => (complete clean).2,?_⟩
  intro clean
  obtain ⟨type,isType⟩ := (complete clean).1
  refine ⟨type,Prod.ext passed.noErrors isType,?_⟩
  intro row fits
  exact (typed_value_iff fits isType).mpr

theorem agrees_boolean {type : InferredType} (compatible : type.isBoolCompatible = true)
    (agrees : type.Agrees value) : value = .null ∨ ∃ flag, value = .bool flag := by
  cases type with
  | nullLiteral => exact .inl agrees
  | known fieldType =>
      cases fieldType with
      | bool =>
          cases value with
          | null => exact .inl rfl
          | bool flag => exact .inr ⟨flag,rfl⟩
          | _ => cases agrees
      | _ => cases compatible

theorem isTrue_iff : value.isTrue = true ↔ value = .bool true := by
  cases value with
  | bool flag => cases flag <;> simp [Value.isTrue]
  | _ => simp [Value.isTrue]

theorem filterJudged (host : Host) (schema : Schema) (ast : Expr) :
    FilterJudged host schema ast := by
  constructor
  · intro type isType compatible row fits returns
    obtain ⟨value,returned,agrees⟩ := (typed_value_iff fits isType).mpr returns
    exact ⟨value,returned,agrees_boolean compatible agrees⟩
  · intro row
    rw [CompiledOp.applyStopping]
    cases evalStopping host.floats row 0 ast with
    | none => simp only [Option.map_none,reduceCtorEq]
    | some value =>
        rw [Option.map_some,Option.some_inj,Option.some_inj,← isTrue_iff]
        split
        · rename_i isTrue
          exact iff_of_true rfl isTrue
        · rename_i notTrue
          exact iff_of_false (fun same => by cases same) notTrue

theorem whereStopping_iff {row : Row} : whereStopping host expr row = some true ↔
    evalStopping host.floats row 0 expr = some (.bool true) := by
  rw [whereStopping]
  cases evalStopping host.floats row 0 expr with
  | none => simp only [Option.map_none,reduceCtorEq]
  | some value => rw [Option.map_some,Option.some_inj,Option.some_inj,isTrue_iff]

end

/-- The expressions of columns with the schemas they are checked against: each column
is there for the ones behind it. -/
def columnChecks (env : Env Expr) : List (String × Expr) → Schema → List (Expr × Schema)
  | [], _ => []
  | column :: rest, schema =>
      (column.2,schema) :: columnChecks env rest (columnSchema env schema column)

/-- The expressions of an operator over a schema, with the schemas they are checked
against. -/
def CompiledOp.checks (env : Env Expr) (op : CompiledOp Expr) (schema : Schema) :
    List (Expr × Schema) :=
  match op with
  | .filter ast => [(ast,schema)]
  | .withColumns columns => columnChecks env columns schema
  | _ => []

section

variable {host : Host}
variable {index : Nat} {schema : Schema}
variable {op : OpNode}

theorem columnEvals_checked (columns : List (String × Expr)) (row : Row) (schema : Schema) :
    (columnEvals host columns row).map Prod.fst =
      (columnChecks host.env columns schema).map Prod.fst := by
  induction columns generalizing row schema with
  | nil => rfl
  | cons column rest ih =>
      rw [columnEvals,columnChecks,List.map_cons,List.map_cons,ih]

theorem evals_checked (op : CompiledOp Expr) (row : Row) (schema : Schema) :
    (op.evals host row).map Prod.fst = (op.checks host.env schema).map Prod.fst := by
  cases op with
  | withColumns columns => exact columnEvals_checked columns row schema
  | _ => rfl

/-- What a chain evaluates is an expression of one of its operators, over whatever
schema the operator is checked. -/
theorem chainEvals_checked {ops : List (CompiledOp Expr)} {row : Row} {call : Expr × Row}
    (evaluated : call ∈ chainEvals host ops row) :
    ∃ (index : Nat) (op : CompiledOp Expr), ops[index]? = some op ∧
      ∀ schema, ∃ check ∈ op.checks host.env schema, check.1 = call.1 := by
  induction ops generalizing row with
  | nil => cases evaluated
  | cons op rest ih =>
      rw [chainEvals] at evaluated
      rcases List.mem_append.mp evaluated with here | later
      · refine ⟨0,op,rfl,?_⟩
        intro schema
        have inEvals : call.1 ∈ (op.evals host row).map Prod.fst := List.mem_map_of_mem here
        rw [evals_checked op row schema] at inEvals
        exact List.mem_map.mp inEvals
      · cases applied : op.apply host.env row with
        | none =>
            rw [applied] at later
            cases later
        | some next =>
            rw [applied] at later
            obtain ⟨index,found,atIndex,inChecks⟩ := ih later
            exact ⟨index + 1,found,atIndex,inChecks⟩

theorem exprPassed_of_noErrors {ast : Expr}
    (noFields : checkReferencedFields host.env index ast schema = [])
    (noTypes : (host.env.inferExprType ast schema).1.map
      (PropagationError.typeMismatch index) = []) : ExprPassed host schema ast := by
  constructor
  · intro field member
    have passed := List.filterMap_eq_nil_iff.mp noFields field member
    by_cases contained : schema.fields.contains field = true
    · exact Std.ExtTreeMap.contains_iff_mem.mp contained
    · rw [if_neg contained] at passed
      cases passed
  · exact List.map_eq_nil_iff.mp noTypes

theorem columns_passed {entries : List (String × String)} {columns : List (String × Expr)}
    (ok : compileColumns host.env index entries = .ok columns) {state : Propagated}
    (noErrors : (entries.foldl (addColumn host.env index) state).2 = []) :
    ∀ check ∈ columnChecks host.env columns state.1, ExprPassed host check.2 check.1 := by
  induction entries generalizing columns state with
  | nil =>
      cases ok
      intro check member
      cases member
  | cons entry rest ih =>
      unfold compileColumns at ok
      obtain ⟨ast,parsed,ok⟩ := Checked.bind_eq_ok ok
      obtain ⟨others,othersOk,ok⟩ := Checked.bind_eq_ok ok
      cases ok
      rw [List.foldl_cons] at noErrors
      intro check member
      rcases List.mem_cons.mp member with isHead | inRest
      · rw [isHead]
        have here := foldl_errors_nil (addColumn_appends host.env index) noErrors
        unfold parseAt at parsed
        split at parsed
        · rename_i found isParsed
          cases parsed
          simp only [addColumn,isParsed] at here
          have noneHere : state.2 ++ checkReferencedFields host.env index ast state.1 ++
              (host.env.inferExprType ast state.1).1.map (PropagationError.typeMismatch index) =
                [] := by
            split at here
            · exact here
            · exact here
            · exact here
          rw [List.append_eq_nil_iff,List.append_eq_nil_iff] at noneHere
          exact exprPassed_of_noErrors noneHere.1.2 noneHere.2
        · cases parsed
      · have later := ih othersOk noErrors
        rw [addColumn_schema parsed] at later
        exact later check inRest

theorem op_passed {compiled : CompiledOp Expr}
    (noErrors : (propagateOp host.env index op schema).2 = [])
    (ok : compileOp host.env index op = .ok (some compiled)) :
    ∀ check ∈ compiled.checks host.env schema, ExprPassed host check.2 check.1 := by
  cases op with
  | filter exprSrc =>
      obtain ⟨ast,parsed,ok⟩ := Checked.bind_eq_ok ok
      cases ok
      intro check member
      rw [List.mem_singleton.mp member]
      unfold parseAt at parsed
      split at parsed
      · rename_i found isParsed
        cases parsed
        simp only [propagateOp,applyFilterSchema,isParsed,List.append_eq_nil_iff] at noErrors
        exact exprPassed_of_noErrors noErrors.1 noErrors.2
      · cases parsed
  | withColumns | map =>
      obtain ⟨columns,columnsOk,ok⟩ := Checked.bind_eq_ok ok
      cases ok
      exact columns_passed columnsOk noErrors
  | groupBy keys specs => cases ok
  | _ =>
      cases ok
      intro check member
      cases member

theorem compileOp_isSome {first : Option (CompiledOp Expr)} (isRowOp : op.isGroupBy = false)
    (ok : compileOp host.env index op = .ok first) : ∃ compiled, first = some compiled := by
  cases op with
  | filter exprSrc =>
      obtain ⟨ast,-,ok⟩ := Checked.bind_eq_ok ok
      cases ok
      exact ⟨_,rfl⟩
  | withColumns | map =>
      obtain ⟨columns,-,ok⟩ := Checked.bind_eq_ok ok
      cases ok
      exact ⟨_,rfl⟩
  | groupBy keys specs => cases isRowOp
  | _ =>
      cases ok
      exact ⟨_,rfl⟩

/-- Every operator of an accepted list is checked against the schema that the ones
before it lead to. -/
theorem chain_passed {ops : List OpNode} {compiled : List (CompiledOp Expr)}
    (rowOps : ∀ op ∈ ops, op.isGroupBy = false)
    (noErrors : (propagateFrom host.env index ops schema).2 = [])
    (ok : compileOps host.env index ops = .ok compiled) {position : Nat} {op : CompiledOp Expr}
    (atPosition : compiled[position]? = some op) :
    ∀ check ∈ op.checks host.env (propagateFrom host.env index (ops.take position) schema).1,
      ExprPassed host check.2 check.1 := by
  induction ops generalizing index compiled schema position with
  | nil =>
      cases ok
      cases atPosition
  | cons node rest ih =>
      obtain ⟨first,others,firstOk,othersOk,rfl⟩ := compileOps_cons ok
      obtain ⟨head,rfl⟩ := compileOp_isSome (rowOps node List.mem_cons_self) firstOk
      simp only [propagateFrom,List.append_eq_nil_iff] at noErrors
      cases position with
      | zero =>
          cases atPosition
          exact op_passed noErrors.1 firstOk
      | succ position =>
          exact ih (fun other member => rowOps other (List.mem_cons_of_mem node member))
            noErrors.2 othersOk atPosition

end

end Beava.Core
