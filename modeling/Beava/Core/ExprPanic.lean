/-
Evaluation that may stop.

Of all that an evaluation computes, one operation has inputs on which the code
panics: the division of the smallest integer by -1.  The evaluator here is the one
of the source with an outcome for this; the builtin functions are written with
their indexing, shifts and bounds, of which none fails.

Whether an evaluation gets to such a division is said through the calls it makes:
a call evaluates a node at a depth, and makes calls for its children, except for
the right operand of a boolean operator that the left one decides.
-/

import Beava.Core.ChainTyping
import Beava.Core.ExprTyping
import Beava.Core.Parser

namespace Beava.Core

section Builtins

variable (floats : Floats)

/-- `args[index]`. -/
def argAt (args : List Value) (index : Nat) : Option Value :=
  args[index]?

/-- `1i64 << zoom`. -/
def shiftOne (zoom : Int64) : Option Int64 :=
  if 0 ≤ zoom.toInt ∧ zoom.toInt < 64 then some (Int64.ofInt (2 ^ zoom.toInt.toNat)) else none

/-- `clamp`, which stops when the bounds are not in order. -/
def clampInt (number low high : Int) : Option Int :=
  if low ≤ high then some (max low (min number high)) else none

def castStopping (args : List Value) : Option Value :=
  if args.length ≠ 2 then some .null
  else do
    let target ← argAt args 1
    match target with
    | .str target =>
        let value ← argAt args 0
        return if value.isNull then .null else castTo floats target value
    | _ => return .null

def isnullStopping (args : List Value) : Option Value :=
  if args.length ≠ 1 then some .null
  else do
    let value ← argAt args 0
    return .bool value.isNull

def quadkeyStopping (args : List Value) : Option Value :=
  if args.length ≠ 3 then some .null
  else do
    let lat ← argAt args 0
    let lon ← argAt args 1
    let zoom ← argAt args 2
    match coordinate floats lat, coordinate floats lon, zoom with
    | some lat, some lon, .i64 zoom =>
        if 1 ≤ zoom && zoom ≤ 24 then do
          let tiles ← shiftOne zoom
          let row := floats.tileRow lat tiles
          let clamped ← clampInt row.toInt 0 (saturate (tiles.toInt - 1)).toInt
          return .i64 (saturate
            ((saturate ((floats.tileCol lon tiles).toInt * tiles.toInt)).toInt + clamped))
        else return .null
    | _, _, _ => return .null

/-- The call of a builtin; an unknown function is `Null`. -/
def callStopping (fnName : String) (args : List Value) : Option Value :=
  if fnName = "cast" then castStopping floats args
  else if fnName = "isnull" then isnullStopping args
  else if fnName = "quadkey" then quadkeyStopping floats args
  else some .null

end Builtins

section Evaluator

variable (floats : Floats)

/-- `x / y` on integers, which stops when the quotient has no 64 bits. -/
def divInts (first second : Int64) : Option Value :=
  if second = 0 then some .null
  else if first = Int64.minValue ∧ second = -1 then none
  else some (.i64 (first / second))

def divStopping (left right : Value) : Option Value :=
  match left, right with
  | .i64 first, .i64 second => divInts first second
  | _, _ => some (arithDiv floats left right)

def strictStopping (op : String) (left right : Value) : Option Value :=
  if left.isNull || right.isNull then some .null
  else if op = "/" then divStopping floats left right
  else some (strictBinop floats op left right)

def skipsRight (op : String) (left : Value) : Bool :=
  (op = "and" && left = .bool false) || (op = "or" && left = .bool true)

/-- `eval_binop` on the outcomes of the operands. -/
def binopStopping (op : String) (left right : Option Value) : Option Value := do
  let leftValue ← left
  if skipsRight op leftValue then return leftValue
  else do
    let rightValue ← right
    if op = "and" then return leftValue.andThreeValued rightValue
    else if op = "or" then return leftValue.orThreeValued rightValue
    else strictStopping floats op leftValue rightValue

mutual

/-- `eval_depth`; `none` is a panic. -/
def evalStopping (row : Row) (depth : Nat) : Expr → Option Value
  | .field name _ => some (withinDepth depth ((row.get name).getD .null))
  | .literal content _ => some (withinDepth depth (literalValue content))
  | .unaryOp _ operand _ =>
      if maxEvalDepth < depth then some .null
      else (evalStopping row (depth + 1) operand).map Value.notThreeValued
  | .binOp op left right _ =>
      if maxEvalDepth < depth then some .null
      else
        binopStopping floats op (evalStopping row (depth + 1) left)
          (evalStopping row (depth + 1) right)
  | .call fnName args _ =>
      if maxEvalDepth < depth then some .null
      else (evalArgsStopping row (depth + 1) args).bind (callStopping floats fnName)

def evalArgsStopping (row : Row) (depth : Nat) : List Expr → Option (List Value)
  | [] => some []
  | arg :: rest => do
      let value ← evalStopping row depth arg
      let others ← evalArgsStopping row depth rest
      return value :: others

end

end Evaluator

section Visits

variable (floats : Floats) (row : Row)

/-- Evaluating a node at a depth evaluates another at another depth. -/
inductive Visits : Nat → Expr → Nat → Expr → Prop
  | here (depth : Nat) (expr : Expr) : Visits depth expr depth expr
  | operand {depth lower : Nat} {op : String} {operand sub : Expr} {span : Span}
      (within : depth ≤ maxEvalDepth) (later : Visits (depth + 1) operand lower sub) :
      Visits depth (.unaryOp op operand span) lower sub
  | left {depth lower : Nat} {op : String} {left right sub : Expr} {span : Span}
      (within : depth ≤ maxEvalDepth) (later : Visits (depth + 1) left lower sub) :
      Visits depth (.binOp op left right span) lower sub
  | right {depth lower : Nat} {op : String} {left right sub : Expr} {span : Span}
      (within : depth ≤ maxEvalDepth)
      (needed : skipsRight op (evalDepth floats row (depth + 1) left) = false)
      (later : Visits (depth + 1) right lower sub) :
      Visits depth (.binOp op left right span) lower sub
  | arg {depth lower : Nat} {fnName : String} {args : List Expr} {arg sub : Expr} {span : Span}
      (within : depth ≤ maxEvalDepth) (member : arg ∈ args)
      (later : Visits (depth + 1) arg lower sub) :
      Visits depth (.call fnName args span) lower sub

def DividesMin (depth : Nat) : Expr → Prop
  | .binOp op left right _ =>
      op = "/" ∧ depth ≤ maxEvalDepth ∧
        evalDepth floats row (depth + 1) left = .i64 Int64.minValue ∧
        evalDepth floats row (depth + 1) right = .i64 (-1)
  | _ => False

/-- The evaluation gets to such a division. -/
def ReachesMinDivision (depth : Nat) (expr : Expr) : Prop :=
  ∃ lower sub, Visits floats row depth expr lower sub ∧ DividesMin floats row lower sub

end Visits

section

variable {floats : Floats} {row : Row} {depth : Nat}
variable {span : Span}
variable {op : String}

theorem reaches_field {name : String} :
    ¬ ReachesMinDivision floats row depth (.field name span) := by
  rintro ⟨lower,sub,visits,divides⟩
  cases visits
  exact divides

theorem reaches_literal {content : Literal} :
    ¬ ReachesMinDivision floats row depth (.literal content span) := by
  rintro ⟨lower,sub,visits,divides⟩
  cases visits
  exact divides

theorem reaches_unaryOp {operand : Expr} :
    ReachesMinDivision floats row depth (.unaryOp op operand span) ↔
      depth ≤ maxEvalDepth ∧ ReachesMinDivision floats row (depth + 1) operand := by
  constructor
  · rintro ⟨lower,sub,visits,divides⟩
    cases visits with
    | here => exact divides.elim
    | operand within later => exact ⟨within,lower,sub,later,divides⟩
  · rintro ⟨within,lower,sub,later,divides⟩
    exact ⟨lower,sub,.operand within later,divides⟩

theorem reaches_binOp {left right : Expr} :
    ReachesMinDivision floats row depth (.binOp op left right span) ↔
      depth ≤ maxEvalDepth ∧
        (ReachesMinDivision floats row (depth + 1) left ∨
          (skipsRight op (evalDepth floats row (depth + 1) left) = false ∧
            (ReachesMinDivision floats row (depth + 1) right ∨
              (op = "/" ∧ evalDepth floats row (depth + 1) left = .i64 Int64.minValue ∧
                evalDepth floats row (depth + 1) right = .i64 (-1))))) := by
  constructor
  · rintro ⟨lower,sub,visits,divides⟩
    cases visits with
    | here =>
        obtain ⟨rfl,within,isMin,isMinusOne⟩ := divides
        exact ⟨within,.inr ⟨rfl,.inr ⟨rfl,isMin,isMinusOne⟩⟩⟩
    | left within later => exact ⟨within,.inl ⟨lower,sub,later,divides⟩⟩
    | right within needed later =>
        exact ⟨within,.inr ⟨needed,.inl ⟨lower,sub,later,divides⟩⟩⟩
  · rintro ⟨within,⟨lower,sub,later,divides⟩ | ⟨needed,others⟩⟩
    · exact ⟨lower,sub,.left within later,divides⟩
    · rcases others with ⟨lower,sub,later,divides⟩ | ⟨isDivision,isMin,isMinusOne⟩
      · exact ⟨lower,sub,.right within needed later,divides⟩
      · exact ⟨depth,_,.here depth _,isDivision,within,isMin,isMinusOne⟩

theorem reaches_call {fnName : String} {args : List Expr} :
    ReachesMinDivision floats row depth (.call fnName args span) ↔
      depth ≤ maxEvalDepth ∧ ∃ arg ∈ args, ReachesMinDivision floats row (depth + 1) arg := by
  constructor
  · rintro ⟨lower,sub,visits,divides⟩
    cases visits with
    | here => exact divides.elim
    | arg within member later => exact ⟨within,_,member,lower,sub,later,divides⟩
  · rintro ⟨within,arg,member,lower,sub,later,divides⟩
    exact ⟨lower,sub,.arg within member later,divides⟩

end

theorem saturate_of_fits {number : Int} (low : -2 ^ 63 ≤ number) (high : number < 2 ^ 63) :
    saturate number = Int64.ofInt number := by
  rw [saturate,if_neg (Int.not_lt.mpr low),if_neg (Int.not_le.mpr high)]

theorem tiles_of_zoom {zoom : Int64} (inRange : (1 ≤ zoom && zoom ≤ 24) = true) (row : Int) :
    ∃ tiles, shiftOne zoom = some tiles ∧ tiles = saturate (2 ^ zoom.toInt.toNat) ∧
      clampInt row 0 (saturate (tiles.toInt - 1)).toInt =
        some (max 0 (min row (tiles.toInt - 1))) := by
  rw [Bool.and_eq_true,decide_eq_true_eq,decide_eq_true_eq,Int64.le_iff_toInt_le,
    Int64.le_iff_toInt_le] at inRange
  have low : (1 : Int) ≤ zoom.toInt := inRange.1
  have high : zoom.toInt ≤ (24 : Int) := inRange.2
  have atLeast : (1 : Int) ≤ 2 ^ zoom.toInt.toNat := one_le_pow₀ (by decide)
  have atMost : (2 : Int) ^ zoom.toInt.toNat ≤ 2 ^ 24 := by
    apply pow_le_pow_right₀ (by decide)
    omega
  have isTiles : saturate (2 ^ zoom.toInt.toNat) = Int64.ofInt (2 ^ zoom.toInt.toNat) :=
    saturate_of_fits (by omega) (by omega)
  have toInt : (Int64.ofInt (2 ^ zoom.toInt.toNat)).toInt = 2 ^ zoom.toInt.toNat :=
    Int64.toInt_ofInt_of_le (by omega) (by omega)
  refine ⟨Int64.ofInt (2 ^ zoom.toInt.toNat),?_,isTiles.symm,?_⟩
  · rw [shiftOne,if_pos ⟨by omega,by omega⟩]
  · rw [toInt,saturate_of_fits (by omega) (by omega),
      Int64.toInt_ofInt_of_le (by omega) (by omega),clampInt,if_pos (by omega)]

section

variable {floats : Floats}

theorem castStopping_eq (args : List Value) :
    castStopping floats args = some (castEval floats args) := by
  match args with
  | [] => rfl
  | [value] => rfl
  | [value,target] => cases target <;> rfl
  | first :: second :: third :: rest =>
      rw [castStopping,if_pos (by simp only [List.length_cons]; omega)]
      cases second <;> rfl

theorem isnullStopping_eq (args : List Value) : isnullStopping args = some (isnullEval args) := by
  match args with
  | [] => rfl
  | [value] => rfl
  | first :: second :: rest => rfl

theorem quadkeyStopping_eq (args : List Value) :
    quadkeyStopping floats args = some (quadkeyEval floats args) := by
  match args with
  | [] => rfl
  | [lat] => rfl
  | [lat,lon] => rfl
  | [lat,lon,zoom] =>
      rw [quadkeyStopping,if_neg (by simp)]
      simp only [argAt,List.getElem?_cons_zero,List.getElem?_cons_succ,Option.bind_eq_bind,
        Option.bind_some]
      cases zoom with
      | i64 zoom =>
          rw [quadkeyEval]
          cases coordinate floats lat with
          | none => rfl
          | some lat =>
              cases coordinate floats lon with
              | none => rfl
              | some lon =>
                  dsimp only
                  split
                  · rename_i inRange
                    obtain ⟨tiles,isShift,rfl,isClamp⟩ :=
                      tiles_of_zoom inRange (floats.tileRow lat (saturate (2 ^ zoom.toInt.toNat))).toInt
                    rw [isShift,Option.bind_some,isClamp]
                    rfl
                  · rfl
      | _ => cases coordinate floats lat <;> cases coordinate floats lon <;> rfl
  | first :: second :: third :: fourth :: rest =>
      rw [quadkeyStopping,if_pos (by simp only [List.length_cons]; omega)]
      cases third <;> rfl

theorem callStopping_eq (fnName : String) (args : List Value) :
    callStopping floats fnName args =
      some (match lookupBuiltin fnName with
        | some builtin => builtin.eval floats args
        | none => .null) := by
  unfold callStopping
  split
  · rename_i isCast
    rw [isCast,lookupBuiltin_cast]
    exact castStopping_eq args
  · split
    · rename_i isIsnull
      rw [isIsnull,lookupBuiltin_isnull]
      exact isnullStopping_eq args
    · split
      · rename_i isQuadkey
        rw [isQuadkey,show lookupBuiltin "quadkey" = some ⟨"quadkey",.fixed 3,quadkeyEval⟩ from by
          simp [lookupBuiltin,builtins]]
        exact quadkeyStopping_eq args
      · rename_i notCast notIsnull notQuadkey
        have unknown : lookupBuiltin fnName = none := by
          simp only [lookupBuiltin,builtins,List.find?_eq_none,List.mem_cons,List.not_mem_nil,
            or_false,decide_eq_true_eq]
          rintro builtin (rfl | rfl | rfl) same
          · exact notCast same.symm
          · exact notIsnull same.symm
          · exact notQuadkey same.symm
        rw [unknown]

end

section

variable {floats : Floats}
variable {op : String} {left : Value}

theorem skipsRight_result (skips : skipsRight op left = true) (right : Value) :
    evalBinop floats op left right = left := by
  rw [skipsRight,Bool.or_eq_true,Bool.and_eq_true,Bool.and_eq_true,decide_eq_true_eq,
    decide_eq_true_eq,decide_eq_true_eq,decide_eq_true_eq] at skips
  rcases skips with ⟨rfl,rfl⟩ | ⟨rfl,rfl⟩
  · rfl
  · rfl

theorem divStopping_eq (left right : Value) :
    divStopping floats left right =
      if left = .i64 Int64.minValue ∧ right = .i64 (-1) then none
      else some (arithDiv floats left right) := by
  unfold divStopping
  split
  · rename_i first second
    simp only [Value.i64.injEq]
    unfold divInts
    split
    · rename_i isZero
      rw [if_neg (by rintro ⟨-,isMinusOne⟩; rw [isZero] at isMinusOne; revert isMinusOne; decide)]
      rw [isZero]
      rfl
    · rename_i notZero
      split
      · rfl
      · simp only [arithDiv,arith,if_neg notZero]
  · rename_i notInts
    rw [if_neg]
    rintro ⟨rfl,rfl⟩
    exact notInts _ _ rfl rfl

theorem binopStopping_values {right : Value} (needed : skipsRight op left = false) :
    binopStopping floats op (some left) (some right) =
      if op = "/" ∧ left = .i64 Int64.minValue ∧ right = .i64 (-1) then none
      else some (evalBinop floats op left right) := by
  simp only [binopStopping,Option.bind_eq_bind,Option.bind_some,needed,Bool.false_eq_true,
    if_false]
  by_cases isAnd : op = "and"
  · subst isAnd
    have undecided : left ≠ .bool false := by
      intro isFalse
      rw [isFalse] at needed
      revert needed
      decide
    rw [if_pos rfl,if_neg (by simp)]
    simp only [evalBinop,if_neg undecided]
    rfl
  · rw [if_neg isAnd]
    by_cases isOr : op = "or"
    · subst isOr
      have undecided : left ≠ .bool true := by
        intro isTrue
        rw [isTrue] at needed
        revert needed
        decide
      rw [if_pos rfl,if_neg (by simp)]
      simp only [evalBinop,if_neg undecided]
      rfl
    · rw [if_neg isOr,evalBinop_strict isAnd isOr,strictStopping]
      split
      · rename_i isNull
        rw [if_neg]
        rintro ⟨-,rfl,rfl⟩
        cases isNull
      · split
        · rename_i isDivision
          subst isDivision
          rw [divStopping_eq]
          simp only [true_and]
          rfl
        · rename_i notDivision
          rw [if_neg (by rintro ⟨isDivision,-⟩; exact notDivision isDivision)]

theorem binopStopping_skips (skips : skipsRight op left = true) (right : Option Value) :
    binopStopping floats op (some left) right = some left := by
  simp only [binopStopping,Option.bind_eq_bind,Option.bind_some,skips,if_true]
  rfl

theorem binopStopping_none (needed : skipsRight op left = false) :
    binopStopping floats op (some left) none = none := by
  simp only [binopStopping,Option.bind_eq_bind,Option.bind_some,needed,Bool.false_eq_true,
    if_false,Option.bind_none]

end

section

variable {floats : Floats} {row : Row}

open scoped Classical in
mutual

/-- The evaluation stops exactly when it gets to a division of the smallest integer
by -1, and otherwise gives the value. -/
theorem evalStopping_eq : ∀ (depth : Nat) (expr : Expr),
    evalStopping floats row depth expr =
      if ReachesMinDivision floats row depth expr then none
      else some (evalDepth floats row depth expr)
  | depth, .field name span => by
      rw [if_neg reaches_field,evalStopping,evalDepth]
  | depth, .literal content span => by
      rw [if_neg reaches_literal,evalStopping,evalDepth]
  | depth, .unaryOp op operand span => by
      rw [evalStopping,evalDepth,withinDepth,evalStopping_eq (depth + 1) operand]
      simp only [reaches_unaryOp]
      by_cases deep : maxEvalDepth < depth
      · rw [if_pos deep,if_pos deep,if_neg (by omega)]
      · by_cases reaches : ReachesMinDivision floats row (depth + 1) operand
        · rw [if_neg deep,if_pos reaches,if_pos ⟨Nat.le_of_not_lt deep,reaches⟩]
          rfl
        · rw [if_neg deep,if_neg deep,if_neg reaches,if_neg (fun both => reaches both.2)]
          rfl
  | depth, .binOp op left right span => by
      rw [evalStopping,evalDepth,withinDepth,evalStopping_eq (depth + 1) left,
        evalStopping_eq (depth + 1) right]
      simp only [reaches_binOp]
      by_cases deep : maxEvalDepth < depth
      · rw [if_pos deep,if_pos deep,if_neg (by omega)]
      · have within : depth ≤ maxEvalDepth := Nat.le_of_not_lt deep
        simp only [if_neg deep,within,true_and]
        by_cases reachesLeft : ReachesMinDivision floats row (depth + 1) left
        · simp only [reachesLeft,if_true,true_or]
          rfl
        · simp only [reachesLeft,if_false,false_or]
          cases skips : skipsRight op (evalDepth floats row (depth + 1) left) with
          | true =>
              rw [binopStopping_skips skips,if_neg (by simp),skipsRight_result skips]
          | false =>
              by_cases reachesRight : ReachesMinDivision floats row (depth + 1) right
              · simp only [reachesRight,if_true,true_or,true_and]
                exact binopStopping_none skips
              · simp only [reachesRight,if_false,false_or,true_and]
                exact binopStopping_values skips
  | depth, .call fnName args span => by
      rw [evalStopping,evalDepth,withinDepth,evalArgsStopping_eq (depth + 1) args]
      simp only [reaches_call]
      by_cases deep : maxEvalDepth < depth
      · rw [if_pos deep,if_pos deep,if_neg (by omega)]
      · simp only [if_neg deep,Nat.le_of_not_lt deep,true_and]
        split
        · rfl
        · exact callStopping_eq fnName _

theorem evalArgsStopping_eq : ∀ (depth : Nat) (args : List Expr),
    evalArgsStopping floats row depth args =
      if ∃ arg ∈ args, ReachesMinDivision floats row depth arg then none
      else some (evalArgs floats row depth args)
  | depth, [] => by
      rw [if_neg (by simp),evalArgsStopping,evalArgs]
  | depth, arg :: rest => by
      rw [evalArgsStopping,evalArgs,evalStopping_eq depth arg,evalArgsStopping_eq depth rest]
      simp only [List.exists_mem_cons_iff]
      by_cases reaches : ReachesMinDivision floats row depth arg
      · simp only [reaches,if_true,true_or]
        rfl
      · simp only [reaches,if_false,false_or]
        split
        · rfl
        · rfl

end

theorem evalStopping_returns {expr : Expr} :
    evalStopping floats row 0 expr = some (eval floats expr row) ↔
      ¬ ReachesMinDivision floats row 0 expr := by
  classical
  rw [evalStopping_eq]
  split
  · rename_i reaches
    constructor
    · intro returned
      cases returned
    · intro notReached
      exact absurd reaches notReached
  · rename_i notReached
    exact ⟨fun _ => notReached,fun _ => rfl⟩

end

section Chains

variable (host : Host)

def setColumnStopping (row : Row) (entry : String × Expr) : Option Row :=
  (evalStopping host.floats row 0 entry.2).map (row.withField entry.1)

def castColumnStopping (row : Row) (entry : String × CastTarget) : Option Row :=
  match row.get entry.1 with
  | some value =>
      (callStopping host.floats "cast" [value,.str entry.2.asValueStr]).map
        (row.withField entry.1)
  | none => some row

def CompiledOp.applyStopping (op : CompiledOp Expr) (row : Row) : Option (Option Row) :=
  match op with
  | .filter ast =>
      (evalStopping host.floats row 0 ast).map fun value => if value.isTrue then some row else none
  | .withColumns exprs => (exprs.foldlM (setColumnStopping host) row).map some
  | .cast entries => (entries.foldlM (castColumnStopping host) row).map some
  | other => some (other.apply host.env row)

def applyOpsStopping : List (CompiledOp Expr) → Row → Option (Option Row)
  | [], row => some (some row)
  | op :: rest, row => do
      let applied ← op.applyStopping host row
      match applied with
      | none => return none
      | some next => applyOpsStopping rest next

/-- `OpChain::apply`. -/
def OpChain.applyStopping (chain : OpChain Expr) (row : Row) : Option (Option Row) :=
  applyOpsStopping host chain.ops row

/-- `evaluate_where_predicate`. -/
def whereStopping (predicate : Expr) (row : Row) : Option Bool :=
  (evalStopping host.floats row 0 predicate).map Value.isTrue

def columnEvals : List (String × Expr) → Row → List (Expr × Row)
  | [], _ => []
  | entry :: rest, row => (entry.2,row) :: columnEvals rest (setColumn host.env row entry)

def CompiledOp.evals (op : CompiledOp Expr) (row : Row) : List (Expr × Row) :=
  match op with
  | .filter ast => [(ast,row)]
  | .withColumns exprs => columnEvals host exprs row
  | _ => []

def chainEvals : List (CompiledOp Expr) → Row → List (Expr × Row)
  | [], _ => []
  | op :: rest, row =>
      op.evals host row ++ ((op.apply host.env row).map (chainEvals rest)).getD []

/-- The evaluation does not divide the smallest integer by -1. -/
def Returns (call : Expr × Row) : Prop :=
  ¬ ReachesMinDivision host.floats call.2 0 call.1

end Chains

section

variable {host : Host}

theorem map_returns_iff {α β : Type} {outcome : Option α} {value : α}
    (known : outcome = none ∨ outcome = some value) (change : α → β) :
    outcome.map change = some (change value) ↔ outcome = some value := by
  rcases known with isNone | isSome
  · rw [isNone]
    simp only [Option.map_none,reduceCtorEq]
  · rw [isSome]
    simp only [Option.map_some]

theorem evalStopping_cases (floats : Floats) (row : Row) (expr : Expr) :
    evalStopping floats row 0 expr = none ∨
      evalStopping floats row 0 expr = some (eval floats expr row) := by
  classical
  rw [evalStopping_eq]
  split
  · exact .inl rfl
  · exact .inr rfl

theorem columns_stopping (entries : List (String × Expr)) (row : Row) :
    (entries.foldlM (setColumnStopping host) row = none ∨
      entries.foldlM (setColumnStopping host) row =
        some (entries.foldl (setColumn host.env) row)) ∧
    (entries.foldlM (setColumnStopping host) row =
        some (entries.foldl (setColumn host.env) row) ↔
      ∀ call ∈ columnEvals host entries row, Returns host call) := by
  induction entries generalizing row with
  | nil =>
      refine ⟨.inr rfl,?_⟩
      simp only [columnEvals,List.not_mem_nil,false_imp_iff,implies_true,iff_true]
      rfl
  | cons entry rest ih =>
      obtain ⟨known,iff⟩ := ih (setColumn host.env row entry)
      have first : Returns host (entry.2,row) ↔
          evalStopping host.floats row 0 entry.2 = some (eval host.floats entry.2 row) :=
        evalStopping_returns.symm
      rw [List.foldlM_cons,List.foldl_cons,columnEvals,setColumnStopping,List.forall_mem_cons,
        first,← iff]
      rcases evalStopping_cases host.floats row entry.2 with stops | returns
      · rw [stops]
        simp
      · rw [returns]
        simp only [Option.map_some,Option.bind_eq_bind,Option.bind_some,true_and]
        exact ⟨known,Iff.rfl⟩

theorem casts_stopping (entries : List (String × CastTarget)) (row : Row) :
    entries.foldlM (castColumnStopping host) row =
      some (entries.foldl (castColumn host.env) row) := by
  induction entries generalizing row with
  | nil => rfl
  | cons entry rest ih =>
      have one : castColumnStopping host row entry = some (castColumn host.env row entry) := by
        unfold castColumnStopping castColumn
        cases row.get entry.1 with
        | none => rfl
        | some value =>
            dsimp only
            rw [callStopping_eq,lookupBuiltin_cast]
            rfl
      rw [List.foldlM_cons,one,List.foldl_cons]
      exact ih _

theorem op_stopping (op : CompiledOp Expr) (row : Row) :
    (op.applyStopping host row = none ∨
      op.applyStopping host row = some (op.apply host.env row)) ∧
    (op.applyStopping host row = some (op.apply host.env row) ↔
      ∀ call ∈ op.evals host row, Returns host call) := by
  cases op with
  | filter ast =>
      simp only [CompiledOp.applyStopping,CompiledOp.evals,List.forall_mem_singleton,Returns,
        ← evalStopping_returns]
      have known := evalStopping_cases host.floats row ast
      refine ⟨?_,map_returns_iff known _⟩
      rcases known with stops | returns
      · exact .inl (by rw [stops]; rfl)
      · exact .inr (by rw [returns]; rfl)
  | withColumns exprs =>
      obtain ⟨known,iff⟩ := @columns_stopping host exprs row
      refine ⟨?_,(map_returns_iff known some).trans iff⟩
      rcases known with stops | returns
      · exact .inl (by rw [CompiledOp.applyStopping,stops]; rfl)
      · exact .inr (by rw [CompiledOp.applyStopping,returns]; rfl)
  | cast entries =>
      have returns : CompiledOp.applyStopping host (.cast entries) row =
          some (CompiledOp.apply host.env (.cast entries) row) := by
        rw [CompiledOp.applyStopping,casts_stopping]
        rfl
      refine ⟨.inr returns,?_⟩
      simp only [returns,CompiledOp.evals,List.not_mem_nil,false_imp_iff,implies_true]
  | _ =>
      refine ⟨.inr rfl,?_⟩
      simp only [CompiledOp.applyStopping,CompiledOp.evals,List.not_mem_nil,false_imp_iff,
        implies_true]

theorem ops_stopping (ops : List (CompiledOp Expr)) (row : Row) :
    applyOpsStopping host ops row =
        some (ops.foldlM (fun current op => op.apply host.env current) row) ↔
      ∀ call ∈ chainEvals host ops row, Returns host call := by
  induction ops generalizing row with
  | nil =>
      simp only [chainEvals,List.not_mem_nil,false_imp_iff,implies_true,iff_true]
      rfl
  | cons op rest ih =>
      rw [applyOpsStopping,chainEvals,List.foldlM_cons]
      obtain ⟨known,iff⟩ := @op_stopping host op row
      simp only [List.forall_mem_append,← iff]
      rcases known with stops | returns
      · rw [stops]
        simp
      · rw [returns]
        simp only [Option.bind_eq_bind,Option.bind_some,true_and]
        cases op.apply host.env row with
        | none => simp
        | some next =>
            simp only [Option.bind_some,Option.map_some,Option.getD_some]
            exact ih next

/-- An evaluation, the chain of a derivation and a predicate return exactly when no
evaluation they ask for gets to a division of the smallest integer by -1. -/
theorem evaluation_returns_iff (host : Host) :
    (∀ (expr : Expr) (row : Row),
      evalStopping host.floats row 0 expr = some (eval host.floats expr row) ↔
        Returns host (expr,row)) ∧
    (∀ (chain : OpChain Expr) (row : Row),
      chain.applyStopping host row = some (chain.apply host.env row) ↔
        ∀ call ∈ chainEvals host chain.ops row, Returns host call) ∧
    (∀ (predicate : Expr) (row : Row),
      whereStopping host predicate row = some (eval host.floats predicate row).isTrue ↔
        Returns host (predicate,row)) := by
  refine ⟨fun expr row => evalStopping_returns,fun chain row => ops_stopping chain.ops row,?_⟩
  intro predicate row
  rw [whereStopping,map_returns_iff (evalStopping_cases host.floats row predicate)]
  exact evalStopping_returns

def smallestRow : Row := ⟨[("x",.i64 Int64.minValue)]⟩

theorem quotient_stops :
    ∃ expr, parse sampleHost.floats sampleHost.texts "(x / -1)" = .ok expr ∧
      evalStopping sampleHost.floats smallestRow 0 expr = none :=
  ⟨_,rfl,by decide⟩

/-- An expression with an inferred type has a value that agrees with it exactly when
its evaluation does not get to such a division. -/
theorem typed_value_iff {floats : Floats} {texts : DebugTexts} {schema : Schema} {row : Row}
    (fits : RowFits schema row) {expr : Expr} {type : InferredType}
    (inferred : (inferExprType texts schema expr).2 = some type) :
    (∃ value, evalStopping floats row 0 expr = some value ∧ type.Agrees value) ↔
      ¬ ReachesMinDivision floats row 0 expr := by
  rw [← evalStopping_returns]
  constructor
  · rintro ⟨value,returned,-⟩
    rcases evalStopping_cases floats row expr with stops | returns
    · rw [stops] at returned
      cases returned
    · exact returns
  · intro returns
    exact ⟨_,returns,infer_agrees fits expr type 0 inferred⟩

def quotient : Expr :=
  .binOp "/" (.field "x" ⟨1,2⟩) (.literal (.int (-1)) ⟨5,7⟩) ⟨0,8⟩

def oneInteger : Schema :=
  { fields := .ofList [("x",FieldType.i64)]
    optionalFields := [] }

theorem oneInteger_fits (number : Int64) : RowFits oneInteger ⟨[("x",.i64 number)]⟩ := by
  have isInt : oneInteger.fields["x"]? = some .i64 := by
    decide
  exact rowFits_single isInt rfl

theorem quotient_typed : (inferExprType sampleHost.texts oneInteger quotient).2 =
    some (.known .i64) := by
  decide

theorem quotient_of_seven :
    ∃ value, evalStopping sampleHost.floats ⟨[("x",.i64 7)]⟩ 0 quotient = some value ∧
      (InferredType.known .i64).Agrees value := by
  apply (typed_value_iff (oneInteger_fits 7) quotient_typed).mpr
  rw [← evalStopping_returns]
  decide

/-- The type is `I64`, and there is no value. -/
theorem quotient_typed_stops :
    RowFits oneInteger smallestRow ∧
      inferExprType sampleHost.texts oneInteger quotient = ([],some (.known .i64)) ∧
      evalStopping sampleHost.floats smallestRow 0 quotient = none :=
  ⟨oneInteger_fits _,by decide,by decide⟩

end

end Beava.Core
