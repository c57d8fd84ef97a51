/-
The expression language: syntax trees, builtin functions, evaluation and type
inference.

Arithmetic on numbers in the binary format and the texts of numbers are
parameters.  An integer division that overflows, where the code stops with a
panic, has the wrapped quotient here.
-/

import Beava.Core.OpChain
import Beava.Lib.KeyMap

namespace Beava.Core

namespace F64

def zero : F64 := ⟨0⟩

def one : F64 := ⟨0x3FF0000000000000⟩

def isZero (number : F64) : Bool :=
  number.bits &&& 0x7FFFFFFFFFFFFFFF = 0

def orderKey (number : F64) : Int :=
  if 0x8000000000000000 ≤ number.bits then -((number.bits &&& 0x7FFFFFFFFFFFFFFF).toNat : Int)
  else (number.bits.toNat : Int)

/-- `f64::partial_cmp`: nothing compares with a NaN, and the zeros are equal. -/
def partialCmp (first second : F64) : Option Ordering :=
  if first.isNaN || second.isNaN then none else some (compare first.orderKey second.orderKey)

end F64

structure Floats where
  add : F64 → F64 → F64
  sub : F64 → F64 → F64
  mul : F64 → F64 → F64
  div : F64 → F64 → F64
  /-- `as f64`. -/
  ofInt : Int → F64
  /-- `as i64`. -/
  toInt : F64 → Int64
  display : F64 → String
  /-- `str::parse::<f64>`. -/
  parse : String → Option F64
  tileRow : F64 → Int64 → Int64
  tileCol : F64 → Int64 → Int64

def saturate (number : Int) : Int64 :=
  if number < -2 ^ 63 then Int64.minValue
  else if 2 ^ 63 ≤ number then Int64.maxValue
  else Int64.ofInt number

def parseDigits (digits : List Char) : Option Nat :=
  if digits.isEmpty then none
  else digits.foldlM
    (fun number ch => if isAsciiDigit ch then some (number * 10 + (ch.toNat - '0'.toNat)) else none)
    0

def parseI64 (text : String) : Option Int64 :=
  let number :=
    match text.toList with
    | '-' :: digits => (parseDigits digits).map fun number => -(number : Int)
    | '+' :: digits => (parseDigits digits).map fun number => (number : Int)
    | digits => (parseDigits digits).map fun number => (number : Int)
  number.bind fun number =>
    if -2 ^ 63 ≤ number && number < 2 ^ 63 then some (Int64.ofInt number) else none

namespace Value

def andThreeValued : Value → Value → Value
  | .bool false, .bool _ => .bool false
  | .bool false, .null => .bool false
  | .bool _, .bool false => .bool false
  | .null, .bool false => .bool false
  | .bool true, .bool true => .bool true
  | _, _ => .null

def orThreeValued : Value → Value → Value
  | .bool true, .bool _ => .bool true
  | .bool true, .null => .bool true
  | .bool _, .bool true => .bool true
  | .null, .bool true => .bool true
  | .bool false, .bool false => .bool false
  | _, _ => .null

def notThreeValued : Value → Value
  | .bool flag => .bool !flag
  | _ => .null

end Value

structure Span where
  start : Nat
  stop : Nat
  deriving DecidableEq, Repr

inductive Literal where
  | null
  | bool (flag : Bool)
  | int (number : Int64)
  | float (number : F64)
  | str (text : String)
  | bareIdent (name : String)
  deriving DecidableEq, Repr

inductive Expr where
  | field (name : String) (span : Span)
  | literal (content : Literal) (span : Span)
  | binOp (op : String) (left right : Expr) (span : Span)
  | unaryOp (op : String) (operand : Expr) (span : Span)
  | call (fnName : String) (args : List Expr) (span : Span)

namespace Expr

mutual

def collectFields : Expr → List String
  | .field name _ => [name]
  | .literal .. => []
  | .binOp _ left right _ => collectFields left ++ collectFields right
  | .unaryOp _ operand _ => collectFields operand
  | .call _ args _ => collectArgs args

def collectArgs : List Expr → List String
  | [] => []
  | arg :: rest => collectFields arg ++ collectArgs rest

end

def referencedFields (expr : Expr) : List String :=
  KeyMap.sortDedup compare expr.collectFields

end Expr

/-! ### Builtin functions -/

section Builtins

variable (floats : Floats)

def castToStr : Value → Value
  | .str text => .str text
  | .i64 number => .str (toString number)
  | .f64 number => .str (floats.display number)
  | .bool flag => .str (if flag then "true" else "false")
  | .datetime millis => .str (toString millis)
  | _ => .null

def castToInt : Value → Value
  | .i64 number => .i64 number
  | .f64 number => .i64 (floats.toInt number)
  | .bool flag => .i64 (if flag then 1 else 0)
  | .str text => ((parseI64 text).map Value.i64).getD .null
  | .datetime millis => .i64 millis
  | _ => .null

def castToFloat : Value → Value
  | .i64 number => .f64 (floats.ofInt number.toInt)
  | .f64 number => .f64 number
  | .bool flag => .f64 (if flag then F64.one else F64.zero)
  | .str text => ((floats.parse text).map Value.f64).getD .null
  | .datetime millis => .f64 (floats.ofInt millis.toInt)
  | _ => .null

def castToBool : Value → Value
  | .bool flag => .bool flag
  | .i64 number => .bool (number ≠ 0)
  | .f64 number => .bool (!number.isZero && !number.isNaN)
  | .str text => if text = "true" then .bool true else if text = "false" then .bool false else .null
  | .datetime millis => .bool (millis ≠ 0)
  | _ => .null

def castTo (target : String) (value : Value) : Value :=
  if target = "str" then castToStr floats value
  else if target = "int" then castToInt floats value
  else if target = "float" then castToFloat floats value
  else if target = "bool" then castToBool value
  else .null

def castEval : List Value → Value
  | [value,.str target] => if value.isNull then .null else castTo floats target value
  | _ => .null

def isnullEval : List Value → Value
  | [value] => .bool value.isNull
  | _ => .null

/-- A coordinate of `quadkey`. -/
def coordinate : Value → Option F64
  | .f64 number => some number
  | .i64 number => some (floats.ofInt number.toInt)
  | _ => none

/-- `quadkey(lat, lon, zoom)`. -/
def quadkeyEval : List Value → Value
  | [lat,lon,.i64 zoom] =>
      match coordinate floats lat, coordinate floats lon with
      | some lat, some lon =>
          if 1 ≤ zoom && zoom ≤ 24 then
            let tiles := saturate (2 ^ zoom.toInt.toNat)
            let row := floats.tileRow lat tiles
            let clamped := max 0 (min row.toInt (tiles.toInt - 1))
            .i64 (saturate
              ((saturate ((floats.tileCol lon tiles).toInt * tiles.toInt)).toInt + clamped))
          else .null
      | _, _ => .null
  | _ => .null

inductive Arity where
  | fixed (count : Nat)
  | variadic
  deriving DecidableEq, Repr

structure BuiltinFn where
  name : String
  arity : Arity
  eval : Floats → List Value → Value

def builtins : List BuiltinFn :=
  [⟨"cast",.fixed 2,castEval⟩,⟨"isnull",.fixed 1,fun _ => isnullEval⟩,
    ⟨"quadkey",.fixed 3,quadkeyEval⟩]

def lookupBuiltin (name : String) : Option BuiltinFn :=
  builtins.find? fun builtin => builtin.name = name

end Builtins

/-! ### Evaluation -/

section Eval

variable (floats : Floats)

/-- A numeric operator on two integers or on two numbers of which one is a
float. -/
def arith (onInts : Int64 → Int64 → Value) (onFloats : F64 → F64 → F64) : Value → Value → Value
  | .i64 first, .i64 second => onInts first second
  | .f64 first, .f64 second => .f64 (onFloats first second)
  | .i64 first, .f64 second => .f64 (onFloats (floats.ofInt first.toInt) second)
  | .f64 first, .i64 second => .f64 (onFloats first (floats.ofInt second.toInt))
  | _, _ => .null

def arithAdd : Value → Value → Value :=
  arith floats (fun first second => .i64 (saturate (first.toInt + second.toInt))) floats.add

def arithSub : Value → Value → Value :=
  arith floats (fun first second => .i64 (saturate (first.toInt - second.toInt))) floats.sub

def arithMul : Value → Value → Value :=
  arith floats (fun first second => .i64 (saturate (first.toInt * second.toInt))) floats.mul

/-- Integers are divided towards zero; a division by zero is `Null`. -/
def arithDiv : Value → Value → Value :=
  arith floats (fun first second => if second = 0 then .null else .i64 (first / second)) floats.div

def tryCompare : Value → Value → Option Ordering
  | .i64 first, .i64 second => some (compare first.toInt second.toInt)
  | .f64 first, .f64 second => first.partialCmp second
  | .i64 first, .f64 second => (floats.ofInt first.toInt).partialCmp second
  | .f64 first, .i64 second => first.partialCmp (floats.ofInt second.toInt)
  | .str first, .str second => some (compare first second)
  | .bool first, .bool second => some (compare first second)
  | .datetime first, .datetime second => some (compare first.toInt second.toInt)
  | .bytes first, .bytes second => some (compare first second)
  | _, _ => none

def isFloatPair : Value → Value → Bool
  | .f64 _, .f64 _ => true
  | .f64 _, .i64 _ => true
  | .i64 _, .f64 _ => true
  | _, _ => false

/-- `cmp_op`, `cmp_eq` and `cmp_ne`, which differ in the predicate. -/
def cmpOp (first second : Value) (pred : Ordering → Bool) : Value :=
  match tryCompare floats first second with
  | some order => .bool (pred order)
  | none => if isFloatPair first second then .bool false else .null

/-- The strict operators, on values that are not `Null`. -/
def strictBinop (op : String) (left right : Value) : Value :=
  match op with
  | "+" => arithAdd floats left right
  | "-" => arithSub floats left right
  | "*" => arithMul floats left right
  | "/" => arithDiv floats left right
  | ">" => cmpOp floats left right (· = .gt)
  | ">=" => cmpOp floats left right (· ≠ .lt)
  | "<" => cmpOp floats left right (· = .lt)
  | "<=" => cmpOp floats left right (· ≠ .gt)
  | "==" => cmpOp floats left right (· = .eq)
  | "!=" => cmpOp floats left right (· ≠ .eq)
  | _ => .null

/-- `eval_binop` on the values of the operands; skipping the right operand does
not change the result. -/
def evalBinop (op : String) (left right : Value) : Value :=
  match op with
  | "and" => if left = .bool false then .bool false else left.andThreeValued right
  | "or" => if left = .bool true then .bool true else left.orThreeValued right
  | _ => if left.isNull || right.isNull then .null else strictBinop floats op left right

def maxEvalDepth : Nat := 512

/-- Below the depth limit everything is `Null`. -/
def withinDepth (depth : Nat) (value : Value) : Value :=
  if maxEvalDepth < depth then .null else value

def literalValue : Literal → Value
  | .null => .null
  | .bool flag => .bool flag
  | .int number => .i64 number
  | .float number => .f64 number
  | .str text => .str text
  | .bareIdent name => .str name

mutual

def evalDepth (row : Row) (depth : Nat) : Expr → Value
  | .field name _ => withinDepth depth ((row.get name).getD .null)
  | .literal content _ => withinDepth depth (literalValue content)
  | .unaryOp _ operand _ => withinDepth depth (evalDepth row (depth + 1) operand).notThreeValued
  | .binOp op left right _ =>
      withinDepth depth
        (evalBinop floats op (evalDepth row (depth + 1) left) (evalDepth row (depth + 1) right))
  | .call fnName args _ =>
      withinDepth depth
        (match lookupBuiltin fnName with
         | some builtin => builtin.eval floats (evalArgs row (depth + 1) args)
         | none => .null)

def evalArgs (row : Row) (depth : Nat) : List Expr → List Value
  | [] => []
  | arg :: rest => evalDepth row depth arg :: evalArgs row depth rest

end

def eval (expr : Expr) (row : Row) : Value := evalDepth floats row 0 expr

end Eval

/-! ### Type inference -/

namespace InferredType

/-- The `{:?}` of an inferred type. -/
def debug : InferredType → String
  | .known fieldType => "Known(" ++ fieldType.debug ++ ")"
  | .nullLiteral => "NullLiteral"

def isBoolCompatible : InferredType → Bool
  | .known .bool => true
  | .nullLiteral => true
  | _ => false

end InferredType

def FieldType.isNumeric : FieldType → Bool
  | .i64 => true
  | .f64 => true
  | _ => false

def typesAreComparable : InferredType → InferredType → Bool
  | .known left, .known right => left = right || (left.isNumeric && right.isNumeric)
  | _, _ => true

structure DebugTexts where
  str : String → String
  f64 : F64 → String

section Infer

variable (texts : DebugTexts)

def Span.debug (span : Span) : String :=
  "Span \x7b start: " ++ toString span.start ++ ", end: " ++ toString span.stop ++ " \x7d"

def Literal.debug : Literal → String
  | .null => "Null"
  | .bool flag => "Bool(" ++ toString flag ++ ")"
  | .int number => "Int(" ++ toString number ++ ")"
  | .float number => "Float(" ++ texts.f64 number ++ ")"
  | .str text => "Str(" ++ texts.str text ++ ")"
  | .bareIdent name => "BareIdent(" ++ texts.str name ++ ")"

mutual

def Expr.debug : Expr → String
  | .field name span => "Field \x7b name: " ++ texts.str name ++ ", span: " ++ span.debug ++ " \x7d"
  | .literal content span => "Literal(" ++ content.debug texts ++ ", " ++ span.debug ++ ")"
  | .binOp op left right span =>
      "BinOp \x7b op: " ++ texts.str op ++ ", left: " ++ Expr.debug left ++ ", right: " ++
        Expr.debug right ++ ", span: " ++ span.debug ++ " \x7d"
  | .unaryOp op operand span =>
      "UnaryOp \x7b op: " ++ texts.str op ++ ", operand: " ++ Expr.debug operand ++ ", span: " ++
        span.debug ++ " \x7d"
  | .call fnName args span =>
      "Call \x7b fn_name: " ++ texts.str fnName ++ ", args: [" ++
        ", ".intercalate (Expr.debugArgs args) ++ "], span: " ++ span.debug ++ " \x7d"

def Expr.debugArgs : List Expr → List String
  | [] => []
  | arg :: rest => Expr.debug arg :: Expr.debugArgs rest

end

abbrev Inferred := List String × Option InferredType

def resolveNullArithmetic (op : String) (other : InferredType) : Option InferredType :=
  if op = "/" then
    match other with
    | .known .f64 => some (.known .f64)
    | .known .i64 => some (.known .i64)
    | .nullLiteral => some .nullLiteral
    -- No reason is recorded here, and no caller has checked the operand.
    | .known _ => none
  else some other

def inferArithmeticType (op : String) (left right : InferredType) : Inferred :=
  match left, right with
  | .known leftType, .known rightType =>
      if !leftType.isNumeric || !rightType.isNumeric then
        (["arithmetic operator " ++ texts.str op ++ " requires numeric operands, got " ++
          left.debug ++ " and " ++ right.debug],none)
      else if leftType = .f64 || rightType = .f64 then ([],some (.known .f64))
      else ([],some (.known .i64))
  | .nullLiteral, other => ([],resolveNullArithmetic op other)
  | other, .nullLiteral => ([],resolveNullArithmetic op other)

def isComparison (op : String) : Bool :=
  op = ">" || op = ">=" || op = "<" || op = "<=" || op = "==" || op = "!="

def isArithmetic (op : String) : Bool :=
  op = "+" || op = "-" || op = "*" || op = "/"

def inferBinopType (op : String) (left right : InferredType) : Inferred :=
  if isComparison op then
    if typesAreComparable left right then ([],some (.known .bool))
    else
      (["comparison operator " ++ texts.str op ++ " requires comparable operands, got " ++
        left.debug ++ " and " ++ right.debug],none)
  else if op = "and" || op = "or" then
    if left.isBoolCompatible && right.isBoolCompatible then ([],some (.known .bool))
    else
      (["boolean operator " ++ texts.str op ++ " requires Bool operands, got " ++ left.debug ++
        " and " ++ right.debug],none)
  else if isArithmetic op then inferArithmeticType texts op left right
  else (["unknown binary operator " ++ texts.str op],none)

def Inferred.andThen (inferred : Inferred) (next : InferredType → Inferred) : Inferred :=
  match inferred.2 with
  | none => inferred
  | some type =>
      let later := next type
      (inferred.1 ++ later.1,later.2)

def castTargetText : Expr → Option String
  | .literal (.bareIdent name) _ => some name
  | .literal (.str text) _ => some text
  | _ => none

/-- The type of `cast` from its second argument. -/
def inferCastType (targetArg : Expr) : Inferred :=
  match castTargetText targetArg with
  | none =>
      (["cast second argument must be a type literal (str/int/float/bool), got " ++
        targetArg.debug texts],none)
  | some target =>
      match parseCastTarget target with
      | some fieldType => ([],some (.known fieldType))
      | none =>
          (["unknown cast target type " ++ texts.str target ++
            "; must be one of: str, int, float, bool"],none)

/-- `infer_call_type`; `inferredArgs` is what the inference finds for each of the
arguments. -/
def inferCallType (fnName : String) (args : List Expr) (inferredArgs : List Inferred) : Inferred :=
  match lookupBuiltin fnName with
  | none =>
      (["unknown function " ++ texts.str fnName ++
        "; only 'cast' and 'isnull' are supported in Phase 4"],none)
  | some builtin =>
      let wrongCount :=
        match builtin.arity with
        | .fixed count => if args.length = count then none else some count
        | .variadic => none
      match wrongCount with
      | some count =>
          (["function " ++ texts.str fnName ++ " expects " ++ toString count ++
            " argument(s), got " ++ toString args.length],none)
      | none =>
          match fnName, args, inferredArgs with
          | "isnull", _, inferred :: _ => (inferred.1,some (.known .bool))
          | "cast", _ :: targetArg :: _, inferred :: _ =>
              let target := inferCastType texts targetArg
              (inferred.1 ++ target.1,target.2)
          | _, _, _ => (["unhandled builtin " ++ texts.str fnName],none)

mutual

/-- `infer_expr_type_inner`. -/
def inferExprType (schema : Schema) : Expr → Inferred
  | .field name _ => ([],schema.fields[name]?.map .known)
  | .literal content _ =>
      ([],some (match content with
        | .null => .nullLiteral
        | .bool _ => .known .bool
        | .int _ => .known .i64
        | .float _ => .known .f64
        | .str _ => .known .str
        | .bareIdent _ => .known .str))
  | .unaryOp op operand _ =>
      (inferExprType schema operand).andThen fun type =>
        if op = "not" then
          if type.isBoolCompatible then ([],some (.known .bool))
          else (["'not' operator requires Bool operand, got " ++ type.debug],none)
        else (["unknown unary operator " ++ texts.str op],none)
  | .binOp op left right _ =>
      (inferExprType schema left).andThen fun leftType =>
        (inferExprType schema right).andThen fun rightType =>
          inferBinopType texts op leftType rightType
  | .call fnName args _ => inferCallType texts fnName args (inferArgs schema args)

def inferArgs (schema : Schema) : List Expr → List Inferred
  | [] => []
  | arg :: rest => inferExprType schema arg :: inferArgs schema rest

end

end Infer

/-- What the chains need beside the expression language: the parser, numbers and
texts. -/
structure Host where
  parse : String → Except ParseError Expr
  floats : Floats
  texts : DebugTexts
  /-- The `fxhash` of the group keys in declaration order. -/
  clusterSignature : List String → UInt64

def Host.env (host : Host) : Env Expr :=
  { parse := host.parse
    referencedFields := Expr.referencedFields
    inferExprType := fun ast schema => inferExprType host.texts schema ast
    eval := eval host.floats
    castBuiltin := fun value target => castEval host.floats [value,.str target]
    debugStr := host.texts.str
    displayF64 := host.floats.display
    debugF64 := host.texts.f64
    parseF64 := host.floats.parse
    f64OfInt := host.floats.ofInt
    clusterSignature := host.clusterSignature }

end Beava.Core
