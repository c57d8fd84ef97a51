/-
The grammar of expressions and what the parser makes of it.

A derivation of the documented grammar is a tree with one node for each rule that
is used.  It has the tokens of its text and the expression that precedence and left
associativity assign to it.

The parser accepts a language of its own.  It takes `not` only behind an opening
parenthesis, and there as far as the closing one.
-/

import Beava.Core.ParserSpans

namespace Beava.Core

inductive BinLevel where
  | or
  | and
  | add
  | mul
  deriving DecidableEq, Repr

def BinLevel.opOf : BinLevel → TokenKind → Option String
  | .or => orOp
  | .and => andOp
  | .add => addOp
  | .mul => mulOp

inductive Level where
  | bin (level : BinLevel)
  | not
  | cmp
  | atom
  deriving DecidableEq, Repr

def BinLevel.below : BinLevel → Level
  | .or => .bin .and
  | .and => .not
  | .add => .bin .mul
  | .mul => .atom

/-- The derivations of `OrExpr`, `AndExpr`, `AddExpr` and `MulExpr` (`bin`), of
`NotExpr`, `CmpExpr` and `Atom`.  A number may have a sign. -/
inductive Cst : Level → Type
  | operand (level : BinLevel) (first : Cst level.below) : Cst (.bin level)
  | chain (level : BinLevel) (left : Cst (.bin level)) (kind : TokenKind)
      (isOp : (level.opOf kind).isSome = true) (right : Cst level.below) : Cst (.bin level)
  | notOp (operand : Cst .not) : Cst .not
  | plain (only : Cst .cmp) : Cst .not
  | single (only : Cst (.bin .add)) : Cst .cmp
  | compare (left : Cst (.bin .add)) (kind : TokenKind) (isOp : (cmpOpOf kind).isSome = true)
      (right : Cst (.bin .add)) : Cst .cmp
  | paren (inner : Cst (.bin .or)) : Cst .atom
  | call (name : String) (isName : keywordKind name = .ident) (args : List (Cst (.bin .or))) :
      Cst .atom
  | ident (name : String) (isName : keywordKind name = .ident) : Cst .atom
  | int (negative : Bool) (text : String) : Cst .atom
  | float (negative : Bool) (text : String) : Cst .atom
  | string (content : String) : Cst .atom
  | constant (flag : Bool) : Cst .atom
  | null : Cst .atom

abbrev Derivation := Cst (.bin .or)

def signTokens (negative : Bool) : List Token :=
  if negative then [Token.punct .minus] else []

def opToken : TokenKind → Token
  | .or => Token.word "or"
  | .and => Token.word "and"
  | kind => Token.punct kind

def opText (opOf : TokenKind → Option String) (kind : TokenKind) : String :=
  (opOf kind).getD ""

namespace Cst

section

variable (floats : Floats)

mutual

def tokens : {level : Level} → Cst level → List Token
  | _, .operand _ first => first.tokens
  | _, .chain _ left kind _ right => left.tokens ++ opToken kind :: right.tokens
  | _, .notOp inner => Token.word "not" :: inner.tokens
  | _, .plain only => only.tokens
  | _, .single only => only.tokens
  | _, .compare left kind _ right => left.tokens ++ opToken kind :: right.tokens
  | _, .paren inner => Token.punct .lParen :: (inner.tokens ++ [Token.punct .rParen])
  | _, .call name _ args =>
      Token.word name :: Token.punct .lParen :: (argTokens args ++ [Token.punct .rParen])
  | _, .ident name _ => [Token.word name]
  | _, .int negative text => signTokens negative ++ [Token.int text]
  | _, .float negative text => signTokens negative ++ [Token.float floats text]
  | _, .string content => [Token.quoted content]
  | _, .constant flag => [Token.word (if flag then "true" else "false")]
  | _, .null => [Token.word "null"]

def argTokens : List (Cst (.bin .or)) → List Token
  | [] => []
  | first :: rest => first.tokens ++ moreArgTokens rest

def moreArgTokens : List (Cst (.bin .or)) → List Token
  | [] => []
  | arg :: rest => Token.punct .comma :: (arg.tokens ++ moreArgTokens rest)

end

mutual

def tree : {level : Level} → Cst level → Expr
  | _, .operand _ first => first.tree
  | _, .chain level left kind _ right =>
      .binOp (opText level.opOf kind) left.tree right.tree noSpan
  | _, .notOp inner => .unaryOp "not" inner.tree noSpan
  | _, .plain only => only.tree
  | _, .single only => only.tree
  | _, .compare left kind _ right => .binOp (opText cmpOpOf kind) left.tree right.tree noSpan
  | _, .paren inner => inner.tree
  | _, .call name _ args => .call name (argTrees args) noSpan
  | _, .ident name _ => .field name noSpan
  | _, .int negative text =>
      let number := (Token.int text).intVal
      .literal (.int (if negative then -number else number)) noSpan
  | _, .float negative text =>
      let number := (Token.float floats text).floatVal
      .literal (.float (if negative then number.neg else number)) noSpan
  | _, .string content => .literal (.str content) noSpan
  | _, .constant flag => .literal (.bool flag) noSpan
  | _, .null => .literal .null noSpan

def argTrees : List (Cst (.bin .or)) → List Expr
  | [] => []
  | arg :: rest => arg.tree :: argTrees rest

end

end

mutual

/-- How deep `Expr` is nested below this node. -/
def nesting : {level : Level} → Cst level → Nat
  | _, .operand _ first => first.nesting
  | _, .chain _ left _ _ right => max left.nesting right.nesting
  | _, .notOp inner => inner.nesting
  | _, .plain only => only.nesting
  | _, .single only => only.nesting
  | _, .compare left _ _ right => max left.nesting right.nesting
  | _, .paren inner => inner.nesting + 1
  | _, .call _ _ args => argNesting args
  | _, .ident .. => 0
  | _, .int .. => 0
  | _, .float .. => 0
  | _, .string _ => 0
  | _, .constant _ => 0
  | _, .null => 0

def argNesting : List (Cst (.bin .or)) → Nat
  | [] => 0
  | arg :: rest => max (arg.nesting + 1) (argNesting rest)

end

/-- The node begins with `not`. -/
def startsNot : {level : Level} → Cst level → Bool
  | _, .operand _ first => first.startsNot
  | _, .chain _ left _ _ _ => left.startsNot
  | _, .notOp _ => true
  | _, _ => false

mutual

/-- Every `not` stands behind an opening parenthesis and reaches, with an operand
without another `not` in front, to the closing one.  At the head of a
parenthesis such a `not` is passed over. -/
def notsPlaced : {level : Level} → (atHead : Bool) → Cst level → Bool
  | _, atHead, .operand _ first => first.notsPlaced atHead
  | _, _, .chain _ left _ _ right => left.notsPlaced false && right.notsPlaced false
  | _, atHead, .notOp inner => atHead && inner.notsPlaced false
  | _, _, .plain only => only.notsPlaced false
  | _, _, .single only => only.notsPlaced false
  | _, _, .compare left _ _ right => left.notsPlaced false && right.notsPlaced false
  | _, _, .paren inner => inner.notsPlaced true
  | _, _, .call _ _ args => argsNotsPlaced args
  | _, _, .ident .. => true
  | _, _, .int .. => true
  | _, _, .float .. => true
  | _, _, .string _ => true
  | _, _, .constant _ => true
  | _, _, .null => true

def argsNotsPlaced : List (Cst (.bin .or)) → Bool
  | [] => true
  | arg :: rest => arg.notsPlaced false && argsNotsPlaced rest

end

mutual

/-- The node is an atom, and so are the arguments of its calls that are not in
parentheses. -/
def isPlain : {level : Level} → Cst level → Bool
  | _, .operand _ first => first.isPlain
  | _, .plain only => only.isPlain
  | _, .single only => only.isPlain
  | _, .chain .. => false
  | _, .notOp _ => false
  | _, .compare .. => false
  | _, .call _ _ args => argsPlain args
  | _, .paren _ => true
  | _, .ident .. => true
  | _, .int .. => true
  | _, .float .. => true
  | _, .string _ => true
  | _, .constant _ => true
  | _, .null => true

def argsPlain : List (Cst (.bin .or)) → Bool
  | [] => true
  | arg :: rest => arg.isPlain && argsPlain rest

end

/-- The tokens, where the parser may have taken the `not` in front. -/
def body (floats : Floats) : {level : Level} → (stripped : Bool) → Cst level → List Token
  | _, stripped, .operand _ first => first.body floats stripped
  | _, stripped, .chain _ left kind _ right =>
      left.body floats stripped ++ opToken kind :: right.tokens floats
  | _, stripped, .notOp inner =>
      if stripped then inner.tokens floats else Token.word "not" :: inner.tokens floats
  | _, _, other => other.tokens floats

mutual

def parsed (floats : Floats) : {level : Level} → (stripped : Bool) → Cst level → Option Expr
  | _, stripped, .operand _ first => first.parsed floats stripped
  | _, stripped, .chain level left kind _ right =>
      (left.parsed floats stripped).bind fun leftExpr =>
        (right.parsed floats false).map fun rightExpr =>
          .binOp (opText level.opOf kind) leftExpr rightExpr noSpan
  | _, stripped, .notOp inner => if stripped then inner.parsed floats false else none
  | _, _, .plain only => only.parsed floats false
  | _, _, .single only => only.parsed floats false
  | _, _, .compare left kind _ right =>
      (left.parsed floats false).bind fun leftExpr =>
        (right.parsed floats false).map fun rightExpr =>
          .binOp (opText cmpOpOf kind) leftExpr rightExpr noSpan
  | _, _, .paren inner =>
      if inner.startsNot then (inner.parsed floats true).map fun operand => .unaryOp "not" operand noSpan
      else inner.parsed floats false
  | _, _, .call name _ args => (parsedArgs floats args).map fun exprs => .call name exprs noSpan
  | _, _, .ident name isName => some ((Cst.ident name isName).tree floats)
  | _, _, .int negative text => some ((Cst.int negative text).tree floats)
  | _, _, .float negative text => some ((Cst.float negative text).tree floats)
  | _, _, .string content => some ((Cst.string content).tree floats)
  | _, _, .constant flag => some ((Cst.constant flag).tree floats)
  | _, _, .null => some (Cst.null.tree floats)

def parsedArgs (floats : Floats) : List (Cst (.bin .or)) → Option (List Expr)
  | [] => some []
  | arg :: rest =>
      (arg.parsed floats false).bind fun expr => (parsedArgs floats rest).map fun others => expr :: others

end

section

variable {floats : Floats}

theorem body_false : {level : Level} → (node : Cst level) → node.body floats false = node.tokens floats
  | _, .operand _ first => by
      rw [body,tokens,body_false first]
  | _, .chain _ left _ _ _ => by
      rw [body,tokens,body_false left]
  | _, .notOp _ => rfl
  | _, .plain _ => rfl
  | _, .single _ => rfl
  | _, .compare .. => rfl
  | _, .paren _ => rfl
  | _, .call .. => rfl
  | _, .ident .. => rfl
  | _, .int .. => rfl
  | _, .float .. => rfl
  | _, .string _ => rfl
  | _, .constant _ => rfl
  | _, .null => rfl

theorem tokens_of_startsNot : {level : Level} → (node : Cst level) → node.startsNot = true →
    node.tokens floats = Token.word "not" :: node.body floats true
  | _, .operand _ first, starts => by
      rw [tokens,body,tokens_of_startsNot first starts]
  | _, .chain _ left _ _ _, starts => by
      rw [tokens,body,tokens_of_startsNot left starts,List.cons_append]
  | _, .notOp _, _ => rfl

/-- The levels below `NotExpr`. -/
def belowNot : Level → Bool
  | .bin .add => true
  | .bin .mul => true
  | .cmp => true
  | .atom => true
  | _ => false

theorem startsNot_below : {level : Level} → (node : Cst level) → belowNot level = true →
    node.startsNot = false
  | _, .operand .add first, _ => by
      rw [startsNot]
      exact startsNot_below first rfl
  | _, .operand .mul first, _ => by
      rw [startsNot]
      exact startsNot_below first rfl
  | _, .chain .add left _ _ _, _ => by
      rw [startsNot]
      exact startsNot_below left rfl
  | _, .chain .mul left _ _ _, _ => by
      rw [startsNot]
      exact startsNot_below left rfl
  | _, .single _, _ => rfl
  | _, .compare .., _ => rfl
  | _, .paren _, _ => rfl
  | _, .call .., _ => rfl
  | _, .ident .., _ => rfl
  | _, .int .., _ => rfl
  | _, .float .., _ => rfl
  | _, .string _, _ => rfl
  | _, .constant _, _ => rfl
  | _, .null, _ => rfl

theorem word_kind {name : String} (isName : keywordKind name = .ident) :
    (Token.word name).kind = .ident :=
  isName

/-- The first token closes nothing, and is `not` only where the node begins with it. -/
theorem tokens_head : {level : Level} → (node : Cst level) →
    ∃ token rest, node.tokens floats = token :: rest ∧ token.kind ≠ .rParen ∧
      (node.startsNot = false → token.kind ≠ .not)
  | _, .operand _ first => by
      rw [tokens,startsNot]
      exact tokens_head first
  | _, .chain _ left kind _ right => by
      obtain ⟨token,rest,isCons,notClose,notNot⟩ := tokens_head left
      rw [tokens,startsNot,isCons]
      exact ⟨token,_,rfl,notClose,notNot⟩
  | _, .notOp inner => ⟨_,_,rfl,by decide,by intro starts; cases starts⟩
  | _, .plain only => by
      obtain ⟨token,rest,isCons,notClose,notNot⟩ := tokens_head only
      rw [tokens]
      exact ⟨token,rest,isCons,notClose,fun _ => notNot (startsNot_below only rfl)⟩
  | _, .single only => by
      obtain ⟨token,rest,isCons,notClose,notNot⟩ := tokens_head only
      rw [tokens]
      exact ⟨token,rest,isCons,notClose,fun _ => notNot (startsNot_below only rfl)⟩
  | _, .compare left _ _ _ => by
      obtain ⟨token,rest,isCons,notClose,notNot⟩ := tokens_head left
      rw [tokens,isCons]
      exact ⟨token,_,rfl,notClose,fun _ => notNot (startsNot_below left rfl)⟩
  | _, .paren inner => ⟨_,_,rfl,by decide,fun _ => by decide⟩
  | _, .call name isName args => by
      refine ⟨_,_,rfl,?_,fun _ => ?_⟩
      · rw [word_kind isName]
        decide
      · rw [word_kind isName]
        decide
  | _, .ident name isName => by
      refine ⟨_,_,rfl,?_,fun _ => ?_⟩
      · rw [word_kind isName]
        decide
      · rw [word_kind isName]
        decide
  | _, .int negative text => by
      cases negative <;> exact ⟨_,_,rfl,by simp [Token.int,Token.punct],fun _ => by
        simp [Token.int,Token.punct]⟩
  | _, .float negative text => by
      cases negative <;> exact ⟨_,_,rfl,by simp [Token.float,Token.punct],fun _ => by
        simp [Token.float,Token.punct]⟩
  | _, .string content => ⟨_,_,rfl,by simp [Token.quoted],fun _ => by simp [Token.quoted]⟩
  | _, .constant flag => by
      cases flag <;> exact ⟨_,_,rfl,by decide,fun _ => by decide⟩
  | _, .null => ⟨_,_,rfl,by decide,fun _ => by decide⟩

end

end Cst

end Beava.Core
