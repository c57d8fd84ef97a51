/-
How deep an evaluation goes.

The parser counts how often its recursion is entered, the evaluator how many
levels of the tree it is below the root.  A chain of operators of one level is one
entry of the parser with as many levels as it has operators, so that a tree that
is parsed need not be evaluated within the limit.
-/

import Beava.Core.ExprPanic
import Beava.Core.ParseTree

namespace Beava.Core

section Unbounded

variable (floats : Floats) (row : Row)

mutual

/-- Evaluation without a limit. -/
def evalUnbounded : Expr → Value
  | .field name _ => (row.get name).getD .null
  | .literal content _ => literalValue content
  | .unaryOp _ operand _ => (evalUnbounded operand).notThreeValued
  | .binOp op left right _ => evalBinop floats op (evalUnbounded left) (evalUnbounded right)
  | .call fnName args _ =>
      match lookupBuiltin fnName with
      | some builtin => builtin.eval floats (evalArgsUnbounded args)
      | none => .null

def evalArgsUnbounded : List Expr → List Value
  | [] => []
  | arg :: rest => evalUnbounded arg :: evalArgsUnbounded rest

end

mutual

/-- The levels below the root that are evaluated.  The right operand of a boolean
operator is not, when the left one decides. -/
def evalLevels : Expr → Nat
  | .field .. => 0
  | .literal .. => 0
  | .unaryOp _ operand _ => evalLevels operand + 1
  | .binOp op left right _ =>
      if skipsRight op (evalUnbounded floats row left) then evalLevels left + 1
      else max (evalLevels left) (evalLevels right) + 1
  | .call _ args _ => evalArgsLevels args

def evalArgsLevels : List Expr → Nat
  | [] => 0
  | arg :: rest => max (evalLevels arg + 1) (evalArgsLevels rest)

end

/-- All nodes that are evaluated are within the limit. -/
def StaysWithin (depth : Nat) (expr : Expr) : Prop :=
  ∀ lower sub, Visits floats row depth expr lower sub → lower ≤ maxEvalDepth

/-- `MAX_EVAL_DEPTH` is exceeded somewhere. -/
def GuardFires (expr : Expr) : Prop :=
  ∃ lower sub, Visits floats row 0 expr lower sub ∧ maxEvalDepth < lower

end Unbounded

section

variable {floats : Floats} {row : Row} {depth : Nat}
variable {expr : Expr} {op : String} {span : Span}

theorem guardFires_iff : GuardFires floats row expr ↔ ¬ StaysWithin floats row 0 expr := by
  constructor
  · rintro ⟨lower,sub,visits,fires⟩ within
    exact absurd (within lower sub visits) (Nat.not_le_of_lt fires)
  · intro notWithin
    by_contra notFires
    apply notWithin
    intro lower sub visits
    by_contra deep
    exact notFires ⟨lower,sub,visits,Nat.lt_of_not_le deep⟩

theorem staysWithin_here (within : StaysWithin floats row depth expr) : depth ≤ maxEvalDepth :=
  within depth expr (.here depth expr)

theorem staysWithin_unaryOp {operand : Expr} :
    StaysWithin floats row depth (.unaryOp op operand span) ↔
      depth ≤ maxEvalDepth ∧ StaysWithin floats row (depth + 1) operand := by
  constructor
  · intro within
    have here := staysWithin_here within
    exact ⟨here,fun lower sub visits => within lower sub (.operand here visits)⟩
  · rintro ⟨here,below⟩ lower sub visits
    cases visits with
    | here => exact here
    | operand _ later => exact below lower sub later

theorem staysWithin_binOp {left right : Expr} :
    StaysWithin floats row depth (.binOp op left right span) ↔
      depth ≤ maxEvalDepth ∧ StaysWithin floats row (depth + 1) left ∧
        (skipsRight op (evalDepth floats row (depth + 1) left) = false →
          StaysWithin floats row (depth + 1) right) := by
  constructor
  · intro within
    have here := staysWithin_here within
    exact ⟨here,fun lower sub visits => within lower sub (.left here visits),
      fun needed lower sub visits => within lower sub (.right here needed visits)⟩
  · rintro ⟨here,below,belowRight⟩ lower sub visits
    cases visits with
    | here => exact here
    | left _ later => exact below lower sub later
    | right _ needed later => exact belowRight needed lower sub later

theorem staysWithin_call {fnName : String} {args : List Expr} :
    StaysWithin floats row depth (.call fnName args span) ↔
      depth ≤ maxEvalDepth ∧ ∀ arg ∈ args, StaysWithin floats row (depth + 1) arg := by
  constructor
  · intro within
    have here := staysWithin_here within
    exact ⟨here,fun arg member lower sub visits => within lower sub (.arg here member visits)⟩
  · rintro ⟨here,below⟩ lower sub visits
    cases visits with
    | here => exact here
    | arg _ member later => exact below _ member lower sub later

mutual

theorem evalDepth_eq_unbounded : (expr : Expr) → ∀ depth,
    depth + evalLevels floats row expr ≤ maxEvalDepth →
      evalDepth floats row depth expr = evalUnbounded floats row expr
  | .field name span, depth, within => by
      rw [evalDepth,withinDepth,if_neg (by omega),evalUnbounded]
  | .literal content span, depth, within => by
      rw [evalDepth,withinDepth,if_neg (by omega),evalUnbounded]
  | .unaryOp op operand span, depth, within => by
      rw [evalLevels] at within
      have isOperand := evalDepth_eq_unbounded operand (depth + 1) (by omega)
      rw [evalDepth,withinDepth,if_neg (by omega),evalUnbounded,isOperand]
  | .binOp op left right span, depth, within => by
      rw [evalLevels] at within
      rw [evalDepth,withinDepth,evalUnbounded]
      split at within
      · rename_i skips
        have isLeft := evalDepth_eq_unbounded left (depth + 1) (by omega)
        rw [if_neg (by omega),isLeft,skipsRight_result skips,skipsRight_result skips]
      · have isLeft := evalDepth_eq_unbounded left (depth + 1) (by omega)
        have isRight := evalDepth_eq_unbounded right (depth + 1) (by omega)
        rw [if_neg (by omega),isLeft,isRight]
  | .call fnName args span, depth, within => by
      rw [evalLevels] at within
      have shallow : ¬maxEvalDepth < depth := by omega
      have areArgs := evalArgs_eq_unbounded args depth within
      cases known : lookupBuiltin fnName with
      | none => simp only [evalDepth,withinDepth,if_neg shallow,evalUnbounded,known]
      | some builtin =>
          simp only [evalDepth,withinDepth,if_neg shallow,evalUnbounded,known,areArgs]

theorem evalArgs_eq_unbounded : (args : List Expr) → ∀ depth,
    depth + evalArgsLevels floats row args ≤ maxEvalDepth →
      evalArgs floats row (depth + 1) args = evalArgsUnbounded floats row args
  | [], _, _ => by
      rw [evalArgs,evalArgsUnbounded]
  | arg :: rest, depth, within => by
      rw [evalArgsLevels] at within
      rw [evalArgs,evalArgsUnbounded,evalDepth_eq_unbounded arg (depth + 1) (by omega),
        evalArgs_eq_unbounded rest depth (by omega)]

end

mutual

theorem staysWithin_iff : (expr : Expr) → ∀ depth,
    (StaysWithin floats row depth expr ↔ depth + evalLevels floats row expr ≤ maxEvalDepth)
  | .field name span, depth => by
      constructor
      · intro within
        exact staysWithin_here within
      · intro within lower sub visits
        cases visits
        exact within
  | .literal content span, depth => by
      constructor
      · intro within
        exact staysWithin_here within
      · intro within lower sub visits
        cases visits
        exact within
  | .unaryOp op operand span, depth => by
      rw [staysWithin_unaryOp,staysWithin_iff operand (depth + 1),evalLevels]
      omega
  | .binOp op left right span, depth => by
      rw [staysWithin_binOp,staysWithin_iff left (depth + 1),staysWithin_iff right (depth + 1),
        evalLevels]
      by_cases below : depth + 1 + evalLevels floats row left ≤ maxEvalDepth
      · rw [evalDepth_eq_unbounded left (depth + 1) below]
        cases skips : skipsRight op (evalUnbounded floats row left) with
        | true =>
            simp only [if_true,reduceCtorEq,false_implies,and_true]
            omega
        | false =>
            simp only [Bool.false_eq_true,if_false,forall_const]
            omega
      · -- The left operand is evaluated in any case.
        split <;> omega
  | .call fnName args span, depth => by
      rw [staysWithin_call,evalLevels,argsStayWithin_iff args depth]

theorem argsStayWithin_iff : (args : List Expr) → ∀ depth,
    ((depth ≤ maxEvalDepth ∧ ∀ arg ∈ args, StaysWithin floats row (depth + 1) arg) ↔
      depth + evalArgsLevels floats row args ≤ maxEvalDepth)
  | [], depth => by
      rw [evalArgsLevels]
      simp
  | arg :: rest, depth => by
      have isRest := argsStayWithin_iff rest depth
      rw [evalArgsLevels,List.forall_mem_cons,staysWithin_iff arg (depth + 1)]
      constructor
      · rintro ⟨here,isArg,others⟩
        have := isRest.mp ⟨here,others⟩
        omega
      · intro within
        obtain ⟨here,others⟩ := isRest.mpr (by omega)
        exact ⟨here,by omega,others⟩

end

/-- The limit is not exceeded, and the value is the unbounded one, exactly when what is
evaluated has no more levels than the limit. -/
theorem within_limit_iff (expr : Expr) :
    (¬ GuardFires floats row expr ∧ eval floats expr row = evalUnbounded floats row expr) ↔
      evalLevels floats row expr ≤ maxEvalDepth := by
  have within := @staysWithin_iff floats row expr 0
  rw [Nat.zero_add] at within
  rw [guardFires_iff,not_not,within]
  constructor
  · exact fun both => both.1
  · intro levels
    exact ⟨levels,evalDepth_eq_unbounded expr 0 (by rw [Nat.zero_add]; exact levels)⟩

end

section Bare

variable (floats : Floats) (row : Row)

mutual

theorem evalDepth_bare : (expr : Expr) → ∀ depth,
    evalDepth floats row depth expr.bare = evalDepth floats row depth expr
  | .field _ _, _ => rfl
  | .literal _ _, _ => rfl
  | .unaryOp _ operand _, depth => by
      rw [Expr.bare,evalDepth,evalDepth,evalDepth_bare operand]
  | .binOp _ left right _, depth => by
      rw [Expr.bare,evalDepth,evalDepth,evalDepth_bare left,evalDepth_bare right]
  | .call fnName args _, depth => by
      rw [Expr.bare,evalDepth,evalDepth,evalArgs_bare args]

theorem evalArgs_bare : (args : List Expr) → ∀ depth,
    evalArgs floats row depth (Expr.bareArgs args) = evalArgs floats row depth args
  | [], _ => rfl
  | arg :: rest, depth => by
      rw [Expr.bareArgs,evalArgs,evalArgs,evalDepth_bare arg,evalArgs_bare rest]

end

mutual

theorem evalUnbounded_bare : (expr : Expr) →
    evalUnbounded floats row expr.bare = evalUnbounded floats row expr
  | .field _ _ => rfl
  | .literal _ _ => rfl
  | .unaryOp _ operand _ => by
      rw [Expr.bare,evalUnbounded,evalUnbounded,evalUnbounded_bare operand]
  | .binOp _ left right _ => by
      rw [Expr.bare,evalUnbounded,evalUnbounded,evalUnbounded_bare left,
        evalUnbounded_bare right]
  | .call fnName args _ => by
      rw [Expr.bare,evalUnbounded,evalUnbounded,evalArgsUnbounded_bare args]

theorem evalArgsUnbounded_bare : (args : List Expr) →
    evalArgsUnbounded floats row (Expr.bareArgs args) = evalArgsUnbounded floats row args
  | [] => rfl
  | arg :: rest => by
      rw [Expr.bareArgs,evalArgsUnbounded,evalArgsUnbounded,evalUnbounded_bare arg,
        evalArgsUnbounded_bare rest]

end

end Bare

/-- What is parsed is evaluated without the depth limit as long as its evaluation goes down
no more levels. -/
theorem parsed_evaluates_iff {floats : Floats} {texts : DebugTexts} {source : String} {expr : Expr}
    (_parsed : parse floats texts source = .ok expr) (row : Row) :
    (¬ GuardFires floats row expr ∧ eval floats expr row = evalUnbounded floats row expr) ↔
      evalLevels floats row expr ≤ maxEvalDepth :=
  within_limit_iff expr

theorem short_sum_within :
    ∃ expr, parse sampleHost.floats sampleHost.texts "(a + 1)" = .ok expr ∧
      ¬ GuardFires sampleHost.floats ⟨[("a",.i64 2)]⟩ expr ∧
        eval sampleHost.floats expr ⟨[("a",.i64 2)]⟩ =
          evalUnbounded sampleHost.floats ⟨[("a",.i64 2)]⟩ expr :=
  ⟨_,rfl,(@parsed_evaluates_iff sampleHost.floats sampleHost.texts "(a + 1)" _ rfl _).mpr
    (by decide)⟩

/-- `a`, and `+ a` so many times. -/
def sumNode : Nat → Cst (.bin .add)
  | 0 => .operand .add (.operand .mul (.ident "a" rfl))
  | count + 1 => .chain .add (sumNode count) .plus rfl (.operand .mul (.ident "a" rfl))

def sumTree : Nat → Expr
  | 0 => .field "a" noSpan
  | count + 1 => .binOp "+" (sumTree count) (.field "a" noSpan) noSpan

def sumChars : Nat → List Char
  | 0 => ['a']
  | count + 1 => sumChars count ++ ['+','a']

/-- The sum as what stands between parentheses. -/
def longSum (count : Nat) : Derivation :=
  .operand .or (.operand .and (.plain (.single (sumNode count))))

def longSumSource (count : Nat) : String :=
  String.ofList ('(' :: (sumChars count ++ [')']))

section

variable {floats : Floats}
variable (count : Nat)
variable {rest : List Char}

theorem sumNode_nesting : (sumNode count).nesting = 0 := by
  induction count with
  | zero => rfl
  | succ count ih =>
      show max (sumNode count).nesting 0 = 0
      rw [ih]
      rfl

theorem sumNode_placed : (sumNode count).notsPlaced false = true := by
  induction count with
  | zero => rfl
  | succ count ih =>
      show ((sumNode count).notsPlaced false && true) = true
      rw [ih]
      rfl

theorem sumNode_tree : (sumNode count).tree floats = sumTree count := by
  induction count with
  | zero => rfl
  | succ count ih =>
      show Expr.binOp "+" ((sumNode count).tree floats) (.field "a" noSpan) noSpan = _
      rw [ih]
      rfl

theorem sumNode_tokens : (sumNode (count + 1)).tokens floats =
    (sumNode count).tokens floats ++ [Token.punct .plus,Token.word "a"] :=
  rfl

theorem sumNode_denotes : ∀ token ∈ (sumNode count).tokens floats, token.denotes floats = true := by
  induction count with
  | zero =>
      intro token member
      cases List.mem_singleton.mp member
      rfl
  | succ count ih =>
      rw [sumNode_tokens]
      intro token member
      rcases List.mem_append.mp member with inLeft | inRight
      · exact ih token inLeft
      · rcases List.mem_cons.mp inRight with rfl | inRight
        · rfl
        · cases List.mem_singleton.mp inRight
          rfl

theorem spelling_a (ends : wordGoesOn rest = false) : Spelling floats ['a'] (Token.word "a") rest :=
  @Spelling.word floats 'a' [] rest rfl .nil ends

theorem sumNode_spelled {tokens : List Token} (ends : wordGoesOn rest = false)
    (later : SpelledBy floats rest tokens) :
    SpelledBy floats (sumChars count ++ rest) ((sumNode count).tokens floats ++ tokens) := by
  induction count generalizing rest tokens with
  | zero => exact (SpelledBy.cons (spelling_a ends) later)
  | succ count ih =>
      have behind : SpelledBy floats ('+' :: 'a' :: rest)
          (Token.punct .plus :: Token.word "a" :: tokens) :=
        .cons (@Spelling.punct floats .plus ['+'] _ (by decide) (by intro never; simp at never))
          (.cons (spelling_a ends) later)
      have whole := @ih ('+' :: 'a' :: rest) _ rfl behind
      rw [sumNode_tokens,sumChars,List.append_assoc,List.append_assoc]
      exact whole

theorem sumChars_ascii : ∀ ch ∈ sumChars count, ch.val.toNat < 128 := by
  induction count with
  | zero => exact List.forall_mem_singleton.mpr (by decide)
  | succ count ih =>
      intro ch member
      rcases List.mem_append.mp member with inLeft | inRight
      · exact ih ch inLeft
      · have both : ∀ ch ∈ ['+','a'], ch.val.toNat < 128 :=
          List.forall_mem_cons.mpr ⟨by decide,List.forall_mem_singleton.mpr (by decide)⟩
        exact both ch inRight

theorem longSum_parsed (texts : DebugTexts) (count : Nat) :
    ∃ tree, parse floats texts (longSumSource count) = .ok (normalize tree) ∧
      tree.bare = sumTree count := by
  have isSource : sourceChars (longSumSource count) = '(' :: (sumChars count ++ [')']) := by
    apply sourceChars_ofList
    intro ch member
    rcases List.mem_cons.mp member with rfl | member
    · decide
    · rcases List.mem_append.mp member with inSum | isClose
      · exact sumChars_ascii count ch inSum
      · cases List.mem_singleton.mp isClose
        decide
  have closes : SpelledBy floats [')'] [Token.punct .rParen] :=
    .cons (@Spelling.punct floats .rParen [')'] [] (by decide) (by decide))
      (.done (fun _ member => by cases member))
  have spelled : SpelledBy floats ('(' :: (sumChars count ++ [')']))
      ((Cst.paren (longSum count)).tokens floats) :=
    .cons (@Spelling.punct floats .lParen ['('] _ (by decide) (by intro never; simp at never))
      (sumNode_spelled count rfl closes)
  have shallow : (Cst.paren (longSum count)).nesting + 1 ≤ maxParseDepth := by
    show (sumNode count).nesting + 1 + 1 ≤ maxParseDepth
    rw [sumNode_nesting]
    decide
  have denote : ∀ token ∈ (Cst.paren (longSum count)).tokens floats, token.denotes floats = true := by
    intro token member
    rcases List.mem_cons.mp member with rfl | member
    · rfl
    · rcases List.mem_append.mp member with inSum | isClose
      · exact sumNode_denotes count token inSum
      · cases List.mem_singleton.mp isClose
        rfl
  obtain ⟨tree,isTree,isBare⟩ := (@parseTree_paren_iff floats texts _ _ spelled shallow).mpr
    ⟨sumNode_placed count,denote⟩
  refine ⟨tree,?_,isBare.trans (sumNode_tree count)⟩
  rw [parse,isSource,isTree]
  rfl

theorem sumTree_normalize : normalize (sumTree count) = sumTree count := by
  have isCast : ∀ count, normalizeCast (sumTree count) = sumTree count := by
    intro count
    induction count with
    | zero => rfl
    | succ count ih =>
        rw [sumTree,normalizeCast,ih]
        rfl
  rw [normalize,isCast]
  induction count with
  | zero => rfl
  | succ count ih =>
      have notNull : (sumTree count).isNullLiteral = false := by
        cases count <;> rfl
      rw [sumTree,rewriteNullEq,ih,rewriteNullEq,rewriteComparison,besideNull,notNull]
      rfl

/-- Beyond the limit the innermost operand is `Null`, and with it every sum. -/
theorem sumTree_deep {row : Row} : ∀ depth, maxEvalDepth < depth + count →
    evalDepth floats row depth (sumTree count) = .null := by
  induction count with
  | zero =>
      intro depth deep
      rw [sumTree,evalDepth,withinDepth,if_pos (by omega)]
  | succ count ih =>
      intro depth deep
      rw [sumTree,evalDepth,ih (depth + 1) (by omega),withinDepth]
      split
      · rfl
      · rfl

def zeroRow : Row := ⟨[("a",.i64 0)]⟩

theorem sumTree_unbounded : evalUnbounded floats zeroRow (sumTree count) = .i64 0 := by
  induction count with
  | zero => rfl
  | succ count ih =>
      rw [sumTree,evalUnbounded,ih]
      rfl

end

/-- A sum of 514 fields that are zero. -/
theorem long_sum_is_null :
    ∃ expr, parse sampleHost.floats sampleHost.texts (longSumSource 513) = .ok expr ∧
      eval sampleHost.floats expr zeroRow = .null ∧
      evalUnbounded sampleHost.floats zeroRow expr = .i64 0 := by
  obtain ⟨tree,isParsed,isBare⟩ := @longSum_parsed sampleHost.floats sampleHost.texts 513
  have same : (normalize tree).bare = sumTree 513 := by
    rw [bare_normalize,isBare,sumTree_normalize]
  refine ⟨normalize tree,isParsed,?_,?_⟩
  · rw [eval,← evalDepth_bare,same]
    exact sumTree_deep 513 0 (by decide)
  · rw [← evalUnbounded_bare,same,sumTree_unbounded]

end Beava.Core
