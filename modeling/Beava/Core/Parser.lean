/-
The parser of expressions.

Each precedence level is a loop over the operands of the level below, and takes
its operators only inside parentheses.  Recursion goes through `parse_expr`
alone, whose nesting is bounded.  Two passes over the tree follow: the target
of a cast becomes a bare identifier, and a comparison with `null` a call.
-/

import Beava.Core.Lexer

namespace Beava.Core

namespace Lexed

def peekKind (input : Lexed) : Option TokenKind :=
  input.tokens.head?.map Token.kind

/-- Where an error is reported: at the next token, or behind the source. -/
def col (input : Lexed) : Nat :=
  match input.tokens with
  | token :: _ => token.span.start + 1
  | [] => input.sourceLen + 1

/-- The next token; an error of the token behind it is reported here. -/
def next (input : Lexed) : Except ParseError (Token × Lexed) :=
  match input.tokens with
  | [] => .error (ParseError.at (input.sourceLen + 1) "unexpected end of input")
  | [token] =>
      match input.failure with
      | some error => .error error
      | none => .ok (token,{ input with tokens := [] })
  | token :: second :: rest => .ok (token,{ input with tokens := second :: rest })

def expect (kind : TokenKind) (message : String) (input : Lexed) :
    Except ParseError (Token × Lexed) :=
  if input.peekKind = some kind then input.next else .error (ParseError.at input.col message)

end Lexed

/-- Gives a result and the tokens behind it. -/
abbrev Parser (α : Type) := Lexed → Except ParseError (α × Lexed)

namespace Expr

def span : Expr → Span
  | .field _ span => span
  | .literal _ span => span
  | .binOp _ _ _ span => span
  | .unaryOp _ _ span => span
  | .call _ _ span => span

def withSpan (span : Span) : Expr → Expr
  | .field name _ => .field name span
  | .literal content _ => .literal content span
  | .binOp op left right _ => .binOp op left right span
  | .unaryOp op operand _ => .unaryOp op operand span
  | .call fnName args _ => .call fnName args span

def binary (op : String) (left right : Expr) : Expr :=
  .binOp op left right ⟨left.span.start,right.span.stop⟩

end Expr

def orOp : TokenKind → Option String
  | .or => some "or"
  | _ => none

def andOp : TokenKind → Option String
  | .and => some "and"
  | _ => none

def cmpOpOf : TokenKind → Option String
  | .gt => some ">"
  | .gtEq => some ">="
  | .lt => some "<"
  | .ltEq => some "<="
  | .eqEq => some "=="
  | .bangEq => some "!="
  | _ => none

def addOp : TokenKind → Option String
  | .plus => some "+"
  | .minus => some "-"
  | _ => none

def mulOp : TokenKind → Option String
  | .star => some "*"
  | .slash => some "/"
  | _ => none

section Levels

def leftLoop (opOf : TokenKind → Option String) (operand : Parser Expr) :
    Nat → Expr → Parser Expr
  | 0, left, input => .ok (left,input)
  | fuel + 1, left, input =>
      match input.peekKind.bind opOf with
      | none => .ok (left,input)
      | some op => do
          let opToken ← input.next
          let right ← operand opToken.2
          leftLoop opOf operand fuel (Expr.binary op left right.1) right.2

/-- `parse_or`, `parse_and`, `parse_add` and `parse_mul`, which differ in the
operators and in the level below. -/
def leftAssoc (opOf : TokenKind → Option String) (operand : Parser Expr)
    (parenDepth : Nat) (input : Lexed) : Except ParseError (Expr × Lexed) := do
  let left ← operand input
  if parenDepth = 0 then return left
  else leftLoop opOf operand left.2.tokens.length left.1 left.2

variable (atom : Parser Expr) (parenDepth : Nat)

def parseMul : Parser Expr :=
  leftAssoc mulOp atom parenDepth

def parseAdd : Parser Expr :=
  leftAssoc addOp (parseMul atom parenDepth) parenDepth

def parseCmp (input : Lexed) : Except ParseError (Expr × Lexed) := do
  let left ← parseAdd atom parenDepth input
  if parenDepth = 0 then return left
  else
    match left.2.peekKind.bind cmpOpOf with
    | none => return left
    | some op =>
        let opToken ← left.2.next
        let right ← parseAdd atom parenDepth opToken.2
        return (Expr.binary op left.1 right.1,right.2)

def parseNot : Parser Expr :=
  parseCmp atom parenDepth

def parseAnd : Parser Expr :=
  leftAssoc andOp (parseNot atom parenDepth) parenDepth

def parseOr : Parser Expr :=
  leftAssoc orOp (parseAnd atom parenDepth) parenDepth

end Levels

/-- `-number`: only the sign bit changes. -/
def F64.neg (number : F64) : F64 :=
  ⟨number.bits ^^^ 0x8000000000000000⟩

section Atoms

variable (texts : DebugTexts) (expr : Nat → Parser Expr)

def argsLoop (parenDepth : Nat) : Nat → Lexed → Except ParseError (List Expr × Lexed)
  | 0, input => .ok ([],input)
  | fuel + 1, input =>
      if input.peekKind = some .comma then do
        let comma ← input.next
        let arg ← expr parenDepth comma.2
        let others ← argsLoop parenDepth fuel arg.2
        return (arg.1 :: others.1,others.2)
      else .ok ([],input)

def parseArglist (parenDepth : Nat) (input : Lexed) : Except ParseError (List Expr × Lexed) :=
  if input.peekKind = some .rParen then .ok ([],input)
  else do
    let first ← expr parenDepth input
    let others ← argsLoop expr parenDepth first.2.tokens.length first.2
    return (first.1 :: others.1,others.2)

def parseParen (parenDepth : Nat) (start : Nat) (input : Lexed) : Except ParseError (Expr × Lexed) :=
  if input.peekKind = some .not then do
    let notToken ← input.next
    let operand ← expr (parenDepth + 1) notToken.2
    let close ← operand.2.expect .rParen "expected ')'"
    return (.unaryOp "not" operand.1 ⟨start,close.1.span.stop⟩,close.2)
  else do
    let inner ← expr (parenDepth + 1) input
    let close ← inner.2.expect .rParen "expected ')'"
    return (inner.1.withSpan ⟨start,close.1.span.stop⟩,close.2)

def parseNamed (parenDepth : Nat) (name : Token) (input : Lexed) : Except ParseError (Expr × Lexed) :=
  if input.peekKind = some .lParen then do
    let open_ ← input.next
    let args ← parseArglist expr parenDepth open_.2
    let close ← args.2.expect .rParen "expected ',' or ')'"
    return (.call name.text args.1 ⟨name.span.start,close.1.span.stop⟩,close.2)
  else .ok (.field name.text name.span,input)

/-- Behind a minus sign that begins an atom. -/
def parseNegative (minus : Token) (input : Lexed) : Except ParseError (Expr × Lexed) :=
  match input.peekKind with
  | some .intLit => do
      let number ← input.next
      return (.literal (.int (-number.1.intVal)) ⟨minus.span.start,number.1.span.stop⟩,number.2)
  | some .floatLit => do
      let number ← input.next
      return (.literal (.float number.1.floatVal.neg) ⟨minus.span.start,number.1.span.stop⟩,
        number.2)
  | _ =>
      .error (ParseError.at (minus.span.start + 1) "'-' must be followed by a number literal")

def parseAtom (parenDepth : Nat) (input : Lexed) : Except ParseError (Expr × Lexed) :=
  match input.tokens with
  | [] => .error (ParseError.at (input.sourceLen + 1) "expected expression")
  | token :: _ =>
      match token.kind with
      | .lParen => do
          let taken ← input.next
          parseParen expr parenDepth taken.1.span.start taken.2
      | .true => do
          let taken ← input.next
          return (.literal (.bool true) taken.1.span,taken.2)
      | .false => do
          let taken ← input.next
          return (.literal (.bool false) taken.1.span,taken.2)
      | .null => do
          let taken ← input.next
          return (.literal .null taken.1.span,taken.2)
      | .and | .or | .not => do
          let taken ← input.next
          .error (ParseError.at (taken.1.span.start + 1)
            ("unexpected keyword " ++ texts.str taken.1.text ++ " in expression"))
      | .ident => do
          let taken ← input.next
          parseNamed expr parenDepth taken.1 taken.2
      | .intLit => do
          let taken ← input.next
          return (.literal (.int taken.1.intVal) taken.1.span,taken.2)
      | .floatLit => do
          let taken ← input.next
          return (.literal (.float taken.1.floatVal) taken.1.span,taken.2)
      | .strLit => do
          let taken ← input.next
          return (.literal (.str taken.1.text) taken.1.span,taken.2)
      | .minus => do
          let taken ← input.next
          parseNegative taken.1 taken.2
      | _ =>
          .error (ParseError.at (token.span.start + 1)
            ("unexpected token " ++ texts.str token.text ++ " in expression"))

def maxParseDepth : Nat := 512

/-- `parse_expr` with so many levels of nesting left. -/
def parseExpr : Nat → Nat → Parser Expr
  | 0, _, input =>
      .error (ParseError.at input.col
        ("predicate nesting depth exceeds " ++ toString maxParseDepth ++ " (got " ++
          toString (maxParseDepth + 1) ++ ")"))
  | levels + 1, parenDepth, input =>
      parseOr (parseAtom texts (parseExpr levels) parenDepth) parenDepth input

end Atoms

def castTargetArg : List Expr → List Expr
  | [arg,.field name span] => [arg,.literal (.bareIdent name) span]
  | args => args

mutual

/-- `normalize_cast`. -/
def normalizeCast : Expr → Expr
  | .field name span => .field name span
  | .literal content span => .literal content span
  | .binOp op left right span => .binOp op (normalizeCast left) (normalizeCast right) span
  | .unaryOp op operand span => .unaryOp op (normalizeCast operand) span
  | .call fnName args span =>
      let args := normalizeCastArgs args
      .call fnName (if fnName = "cast" then castTargetArg args else args) span

def normalizeCastArgs : List Expr → List Expr
  | [] => []
  | arg :: rest => normalizeCast arg :: normalizeCastArgs rest

end

def Expr.isNullLiteral : Expr → Bool
  | .literal .null _ => true
  | _ => false

/-- The operand of a comparison with `null`. -/
def besideNull (left right : Expr) : Option Expr :=
  if right.isNullLiteral then some left
  else if left.isNullLiteral then some right
  else none

def rewriteComparison (op : String) (left right : Expr) (span : Span) : Expr :=
  match besideNull left right with
  | some operand =>
      if op = "==" then .call "isnull" [operand] span
      else if op = "!=" then .unaryOp "not" (.call "isnull" [operand] span) span
      else .binOp op left right span
  | none => .binOp op left right span

mutual

/-- `rewrite_null_eq`. -/
def rewriteNullEq : Expr → Expr
  | .field name span => .field name span
  | .literal content span => .literal content span
  | .binOp op left right span =>
      rewriteComparison op (rewriteNullEq left) (rewriteNullEq right) span
  | .unaryOp op operand span => .unaryOp op (rewriteNullEq operand) span
  | .call fnName args span => .call fnName (rewriteNullEqArgs args) span

def rewriteNullEqArgs : List Expr → List Expr
  | [] => []
  | arg :: rest => rewriteNullEq arg :: rewriteNullEqArgs rest

end

def normalize (expr : Expr) : Expr :=
  rewriteNullEq (normalizeCast expr)

section Parse

variable (floats : Floats) (texts : DebugTexts)

def parseTree (chars : List Char) : Except ParseError Expr :=
  let input := tokenize floats texts chars
  match input.tokens, input.failure with
  | [], some error => .error error
  | _, _ => do
      let tree ← parseExpr texts maxParseDepth 0 input
      match tree.2.tokens with
      | [] => return tree.1
      | trailing :: _ =>
          let text :=
            if trailing.text = "" then
              String.ofList ((chars.drop trailing.span.start).take
                (trailing.span.stop - trailing.span.start))
            else trailing.text
          .error (ParseError.at (trailing.span.start + 1) ("unexpected token " ++ texts.str text))

/-- `parse`. -/
def parse (source : String) : Except ParseError Expr := do
  let tree ← parseTree floats texts (sourceChars source)
  return normalize tree

end Parse

end Beava.Core
