/-
Expressions of the SDK.

An expression is sent as a text in which every operator stands in parentheses of its
own.  Each pair of them is one node of the grammar, so that the server reads the nodes
of the expression, and its passes rewrite the comparisons with `null` and the targets
of casts alone.
-/

import Beava.Core.OpChain
import Beava.Sdk.Literal

namespace Beava.Sdk

open Beava.Core

/-- The operators that the overloads make. -/
inductive PyBinOp where
  | add
  | sub
  | mul
  | truediv
  | gt
  | ge
  | lt
  | le
  | eq
  | ne
  | and
  | or
  deriving DecidableEq, Repr

def PyBinOp.symbol : PyBinOp → String
  | .add => "+"
  | .sub => "-"
  | .mul => "*"
  | .truediv => "/"
  | .gt => ">"
  | .ge => ">="
  | .lt => "<"
  | .le => "<="
  | .eq => "=="
  | .ne => "!="
  | .and => "and"
  | .or => "or"

/-- `_Col`, `_Literal`, `_BinOp`, `_UnaryOp` with `isnull` or `~`, and `_CastOp`. -/
inductive PyExpr where
  | col (name : String)
  | literal (value : PyLiteral)
  | binOp (op : PyBinOp) (left right : PyExpr)
  | isnull (operand : PyExpr)
  | invert (operand : PyExpr)
  | castOp (operand : PyExpr) (target : CastTarget)

namespace PyExpr

def toExprString (python : Python) : PyExpr → String
  | .col name => name
  | .literal value => value.toExprString python
  | .binOp op left right =>
      "(" ++ left.toExprString python ++ " " ++ op.symbol ++ " " ++ right.toExprString python ++ ")"
  | .isnull operand => "(" ++ operand.toExprString python ++ " == null)"
  | .invert operand => "(not " ++ operand.toExprString python ++ ")"
  | .castOp operand target =>
      "cast(" ++ operand.toExprString python ++ ", " ++ target.asValueStr ++ ")"

/-- How deep operators are nested. -/
def nesting : PyExpr → Nat
  | .col _ => 0
  | .literal _ => 0
  | .binOp _ left right => max left.nesting right.nesting + 1
  | .isnull operand => operand.nesting + 1
  | .invert operand => operand.nesting + 1
  | .castOp operand _ => operand.nesting + 1

end PyExpr

/-- A letter or an underscore, and letters, digits and underscores. -/
def isIdentifier : List Char → Bool
  | [] => false
  | ch :: rest => isWordStart ch && rest.all isWordChar

/-- A name that is no keyword: an identifier, or two with a dot between them. -/
def IsColumn (name : String) : Prop :=
  keywordKind name = .ident ∧ (isIdentifier name.toList = true ∨
    ∃ table field, name.toList = table ++ '.' :: field ∧
      isIdentifier table = true ∧ isIdentifier field = true)

/-- Every leaf is read as itself when it is sent alone. -/
def PyExpr.Sendable (floats : Floats) (texts : DebugTexts) (python : Python) : PyExpr → Prop
  | .col name => IsColumn name
  | .literal value => RoundTrips floats texts python value
  | .binOp _ left right => left.Sendable floats texts python ∧ right.Sendable floats texts python
  | .isnull operand => operand.Sendable floats texts python
  | .invert operand => operand.Sendable floats texts python
  | .castOp operand _ => operand.Sendable floats texts python

def CodePoint.toChar? : CodePoint → Option Char
  | .scalar ch => some ch
  | .surrogate _ => none

def PyLiteral.onServer : PyLiteral → Literal
  | .none => .null
  | .bool flag => .bool flag
  | .str text => .str (String.ofList (text.filterMap CodePoint.toChar?))
  | .int number => .int (Int64.ofInt number)
  | .float number => .float number

/-- `lit(None)`. -/
def PyExpr.isNone : PyExpr → Bool
  | .literal .none => true
  | _ => false

def isnullCall (operand : Expr) : Expr := .call "isnull" [operand] noSpan

def notNull (operand : Expr) : Expr := .unaryOp "not" (isnullCall operand) noSpan

/-- Of two null literals the right one is the one that is compared with. -/
def PyExpr.onServer : PyExpr → Expr
  | .col name => .field name noSpan
  | .literal value => .literal value.onServer noSpan
  | .binOp op left right =>
      if op = .eq ∧ right.isNone then isnullCall left.onServer
      else if op = .eq ∧ left.isNone then isnullCall right.onServer
      else if op = .ne ∧ right.isNone then notNull left.onServer
      else if op = .ne ∧ left.isNone then notNull right.onServer
      else .binOp op.symbol left.onServer right.onServer noSpan
  | .isnull operand => isnullCall operand.onServer
  | .invert operand => .unaryOp "not" operand.onServer noSpan
  | .castOp operand target =>
      .call "cast" [operand.onServer,.literal (.bareIdent target.asValueStr) noSpan] noSpan

theorem isNullLiteral_onServer (expr : PyExpr) : expr.onServer.isNullLiteral = expr.isNone := by
  cases expr with
  | col name => rfl
  | literal value => cases value <;> rfl
  | binOp op left right =>
      unfold PyExpr.onServer
      split
      · rfl
      · split
        · rfl
        · split
          · rfl
          · split <;> rfl
  | isnull | invert | castOp => rfl

theorem rewriteComparison_onServer (op : PyBinOp) (left right : PyExpr) :
    rewriteComparison op.symbol left.onServer right.onServer noSpan =
      (PyExpr.binOp op left right).onServer := by
  rw [rewriteComparison,besideNull,isNullLiteral_onServer,isNullLiteral_onServer,
    PyExpr.onServer]
  cases right.isNone <;> cases left.isNone <;> cases op <;> rfl

/-! ### Nodes of the grammar -/

section Nodes

def asAdd (only : Cst .atom) : Cst (.bin .add) := .operand .add (.operand .mul only)

def asNot (only : Cst .atom) : Cst .not := .plain (.single (asAdd only))

def asAnd (only : Cst .atom) : Cst (.bin .and) := .operand .and (asNot only)

def asOr (only : Cst .atom) : Derivation := .operand .or (asAnd only)

def ofNot (inner : Cst .not) : Derivation := .operand .or (.operand .and inner)

def ofComparison (left : Cst .atom) (kind : TokenKind) (isOp : (cmpOpOf kind).isSome = true)
    (right : Cst .atom) : Derivation :=
  ofNot (.plain (.compare (asAdd left) kind isOp (asAdd right)))

theorem plus_isAddition : (BinLevel.add.opOf .plus).isSome = true := rfl

theorem and_isConjunction : (BinLevel.and.opOf .and).isSome = true := rfl

/-- What stands between the parentheses of an operator. -/
def operation : PyBinOp → Cst .atom → Cst .atom → Derivation
  | .add, left, right =>
      ofNot (.plain (.single (.chain .add (asAdd left) .plus plus_isAddition (.operand .mul right))))
  | .sub, left, right =>
      ofNot (.plain (.single (.chain .add (asAdd left) .minus rfl (.operand .mul right))))
  | .mul, left, right =>
      ofNot (.plain (.single (.operand .add (.chain .mul (.operand .mul left) .star rfl right))))
  | .truediv, left, right =>
      ofNot (.plain (.single (.operand .add (.chain .mul (.operand .mul left) .slash rfl right))))
  | .gt, left, right => ofComparison left .gt rfl right
  | .ge, left, right => ofComparison left .gtEq rfl right
  | .lt, left, right => ofComparison left .lt rfl right
  | .le, left, right => ofComparison left .ltEq rfl right
  | .eq, left, right => ofComparison left .eqEq rfl right
  | .ne, left, right => ofComparison left .bangEq rfl right
  | .and, left, right => .operand .or (.chain .and (asAnd left) .and and_isConjunction (asNot right))
  | .or, left, right => .chain .or (asOr left) .or rfl (asAnd right)

def PyBinOp.kind : PyBinOp → TokenKind
  | .add => .plus
  | .sub => .minus
  | .mul => .star
  | .truediv => .slash
  | .gt => .gt
  | .ge => .gtEq
  | .lt => .lt
  | .le => .ltEq
  | .eq => .eqEq
  | .ne => .bangEq
  | .and => .and
  | .or => .or

variable {floats : Floats} (op : PyBinOp) (left right : Cst .atom)

theorem tokens_operation : (operation op left right).tokens floats =
    left.tokens floats ++ opToken op.kind :: right.tokens floats := by
  cases op <;> rfl

theorem tree_operation : (operation op left right).tree floats =
    .binOp op.symbol (left.tree floats) (right.tree floats) noSpan := by
  cases op <;> rfl

theorem nesting_operation :
    (operation op left right).nesting = max left.nesting right.nesting := by
  cases op <;> rfl

theorem notsPlaced_operation : (operation op left right).notsPlaced true =
    (left.notsPlaced false && right.notsPlaced false) := by
  cases op <;> rfl

end Nodes

theorem sourceChars_append (first second : String) :
    sourceChars (first ++ second) = sourceChars first ++ sourceChars second := by
  rw [sourceChars,String.toList_append,List.flatMap_append,List.map_append,sourceChars,
    sourceChars]

section Texts

variable {floats : Floats} {source more : List Char} {tokens others : List Token}

theorem spelledBy_blank (spelled : SpelledBy floats source tokens) :
    SpelledBy floats (' ' :: source) tokens := by
  cases spelled with
  | done isBlank => exact .done (List.forall_mem_cons.mpr ⟨rfl,isBlank⟩)
  | @next blanks text rest token tokens isBlank spelling later =>
      exact @SpelledBy.next floats (' ' :: blanks) text rest token tokens
        (List.forall_mem_cons.mpr ⟨rfl,isBlank⟩) spelling later

theorem separated_cons {ch : Char} (isEnd : ch = ' ' ∨ ch = ')' ∨ ch = ',') (rest : List Char) :
    Separated (ch :: rest) := by
  intro other member
  cases member
  exact isEnd

theorem spelling_single {kind : TokenKind} {ch : Char} (isPunct : (kind,[ch]) ∈ punctTexts)
    (notCompared : kind ≠ .gt ∧ kind ≠ .lt) (rest : List Char) :
    Spelling floats [ch] (Token.punct kind) rest := by
  refine .punct isPunct ?_
  rintro (isGt | isLt)
  · exact absurd isGt notCompared.1
  · exact absurd isLt notCompared.2

theorem spells_paren (spells : Spells floats source tokens) :
    Spells floats ('(' :: (source ++ [')']))
      (Token.punct .lParen :: (tokens ++ [Token.punct .rParen])) := by
  intro rest behind separated spelled
  have close : SpelledBy floats (')' :: rest) (Token.punct .rParen :: behind) :=
    .cons (spelling_single (by decide) (by decide) rest) spelled
  have inside := spells _ _ (separated_cons (.inr (.inl rfl)) rest) close
  rw [List.cons_append,List.cons_append,List.append_assoc,List.append_assoc]
  exact .cons (spelling_single (by decide) (by decide) _) inside

theorem spells_blank (first : Spells floats source tokens) (second : Spells floats more others) :
    Spells floats (source ++ ' ' :: more) (tokens ++ others) := by
  intro rest behind separated spelled
  have later := spelledBy_blank (second rest behind separated spelled)
  rw [List.append_assoc,List.append_assoc]
  exact first _ _ (separated_cons (.inl rfl) _) later

theorem spells_symbol (op : PyBinOp) : ∀ rest behind, SpelledBy floats (' ' :: rest) behind →
    SpelledBy floats (op.symbol.toList ++ ' ' :: rest) (opToken op.kind :: behind) := by
  have punct : ∀ {kind : TokenKind} {text : List Char}, (kind,text) ∈ punctTexts →
      ∀ rest behind, SpelledBy floats (' ' :: rest) behind →
        SpelledBy floats (text ++ ' ' :: rest) (Token.punct kind :: behind) := by
    intro kind text isPunct rest behind spelled
    refine .cons (.punct isPunct ?_) spelled
    intro _ never
    cases never
  have word : ∀ {ch : Char} {tail : List Char}, isWordStart ch = true → WordTail tail →
      ∀ rest behind, SpelledBy floats (' ' :: rest) behind →
        SpelledBy floats (ch :: tail ++ ' ' :: rest)
          (Token.word (String.ofList (ch :: tail)) :: behind) :=
    fun isStart isTail rest behind spelled => .cons (.word isStart isTail rfl) spelled
  cases op with
  | and => exact @word 'a' ['n','d'] rfl (.char rfl (.char rfl .nil))
  | or => exact @word 'o' ['r'] rfl (.char rfl .nil)
  | add => exact @punct .plus ['+'] (by decide)
  | sub => exact @punct .minus ['-'] (by decide)
  | mul => exact @punct .star ['*'] (by decide)
  | truediv => exact @punct .slash ['/'] (by decide)
  | gt => exact @punct .gt ['>'] (by decide)
  | ge => exact @punct .gtEq ['>','='] (by decide)
  | lt => exact @punct .lt ['<'] (by decide)
  | le => exact @punct .ltEq ['<','='] (by decide)
  | eq => exact @punct .eqEq ['=','='] (by decide)
  | ne => exact @punct .bangEq ['!','='] (by decide)

theorem spells_operation (op : PyBinOp) (first : Spells floats source tokens)
    (second : Spells floats more others) :
    Spells floats (source ++ ' ' :: (op.symbol.toList ++ ' ' :: more))
      (tokens ++ opToken op.kind :: others) := by
  apply spells_blank first
  intro rest behind separated spelled
  have later := spelledBy_blank (second rest behind separated spelled)
  rw [List.append_assoc,List.cons_append,List.cons_append]
  exact spells_symbol op _ _ later

end Texts

/-! ### Written expressions -/

/-- The text spells an atom of the grammar, and the passes make the expression of its tree. -/
structure Written (floats : Floats) (source : List Char) (expr : Expr) (depth : Nat)
    (node : Cst .atom) : Prop where
  spells : Spells floats source (node.tokens floats)
  denote : ∀ token ∈ node.tokens floats, token.denotes floats = true
  isPlain : node.isPlain = true
  placed : node.notsPlaced false = true
  normal : normalize (node.tree floats) = expr
  nesting : node.nesting = depth

section Composed

variable {floats : Floats} {source more : List Char} {depth other : Nat} {left right : Cst .atom}
variable {tokens : List Token}
variable {expr : Expr}

theorem denote_paren (denote : ∀ token ∈ tokens, token.denotes floats = true) :
    ∀ token ∈ Token.punct .lParen :: (tokens ++ [Token.punct .rParen]),
      token.denotes floats = true := by
  intro token member
  rcases List.mem_cons.mp member with rfl | member
  · rfl
  · rcases List.mem_append.mp member with inside | isClose
    · exact denote token inside
    · rw [List.mem_singleton.mp isClose]
      rfl

theorem written_operation (op : PyBinOp) {first second : PyExpr}
    (isFirst : Written floats source first.onServer depth left)
    (isSecond : Written floats more second.onServer other right) :
    Written floats ('(' :: (source ++ ' ' :: (op.symbol.toList ++ ' ' :: more) ++ [')']))
      (PyExpr.binOp op first second).onServer (max depth other + 1)
      (.paren (operation op left right)) where
  spells := by
    rw [Cst.tokens,tokens_operation]
    exact spells_paren (spells_operation op isFirst.spells isSecond.spells)
  denote := by
    rw [Cst.tokens,tokens_operation]
    apply denote_paren
    intro token member
    rcases List.mem_append.mp member with inFirst | member
    · exact isFirst.denote token inFirst
    · rcases List.mem_cons.mp member with rfl | inSecond
      · cases op <;> rfl
      · exact isSecond.denote token inSecond
  isPlain := rfl
  placed := by
    rw [Cst.notsPlaced,notsPlaced_operation,isFirst.placed,isSecond.placed]
    rfl
  normal := by
    rw [Cst.tree,tree_operation,← rewriteComparison_onServer,← isFirst.normal,
      ← isSecond.normal]
    rfl
  nesting := by
    rw [Cst.nesting,nesting_operation,isFirst.nesting,isSecond.nesting]

theorem spells_not (spells : Spells floats source tokens) :
    Spells floats ('n' :: 'o' :: 't' :: ' ' :: source) (Token.word "not" :: tokens) :=
  spells_blank (@spells_word floats 'n' ['o','t'] rfl (.char rfl (.char rfl .nil))) spells

theorem written_not (written : Written floats source expr depth left) :
    Written floats ('(' :: ('n' :: 'o' :: 't' :: ' ' :: source ++ [')']))
      (.unaryOp "not" expr noSpan) (depth + 1) (.paren (ofNot (.notOp (asNot left)))) where
  spells := spells_paren (spells_not written.spells)
  denote := by
    apply denote_paren
    intro token member
    rcases List.mem_cons.mp member with rfl | inside
    · rfl
    · exact written.denote token inside
  isPlain := rfl
  placed := written.placed
  normal := by
    rw [← written.normal]
    rfl
  nesting := congrArg Nat.succ written.nesting

theorem isName_target (target : CastTarget) : keywordKind target.asValueStr = .ident := by
  cases target <;> rfl

theorem spells_target (target : CastTarget) :
    Spells floats target.asValueStr.toList [Token.word target.asValueStr] := by
  cases target with
  | str => exact @spells_word floats 's' ['t','r'] rfl (.char rfl (.char rfl .nil))
  | int => exact @spells_word floats 'i' ['n','t'] rfl (.char rfl (.char rfl .nil))
  | float =>
      exact @spells_word floats 'f' ['l','o','a','t'] rfl
        (.char rfl (.char rfl (.char rfl (.char rfl .nil))))
  | bool =>
      exact @spells_word floats 'b' ['o','o','l'] rfl (.char rfl (.char rfl (.char rfl .nil)))

/-- `cast` of an atom. -/
def castNode (operand : Cst .atom) (target : CastTarget) : Cst .atom :=
  .call "cast" rfl [asOr operand,asOr (.ident target.asValueStr (isName_target target))]

theorem spells_cast (spells : Spells floats source tokens) (target : CastTarget) :
    Spells floats
      ('c' :: 'a' :: 's' :: 't' :: '(' ::
        (source ++ ',' :: ' ' :: (target.asValueStr.toList ++ [')'])))
      (Token.word "cast" :: Token.punct .lParen ::
        (tokens ++ Token.punct .comma :: [Token.word target.asValueStr,Token.punct .rParen])) := by
  intro rest behind separated spelled
  have close : SpelledBy floats (')' :: rest) (Token.punct .rParen :: behind) :=
    .cons (spelling_single (by decide) (by decide) rest) spelled
  have named := spelledBy_blank
    (spells_target target _ _ (separated_cons (.inr (.inl rfl)) rest) close)
  have comma := SpelledBy.cons
    (@spelling_single floats .comma ',' (by decide) (by decide) _) named
  have argument := spells _ _ (separated_cons (.inr (.inr rfl)) _) comma
  have opened := SpelledBy.cons
    (@spelling_single floats .lParen '(' (by decide) (by decide) _) argument
  have whole := SpelledBy.cons
    (@Spelling.word floats 'c' ['a','s','t'] _ rfl (.char rfl (.char rfl (.char rfl .nil))) rfl)
    opened
  simpa using whole

theorem tokens_castNode (operand : Cst .atom) (target : CastTarget) :
    (castNode operand target).tokens floats =
      Token.word "cast" :: Token.punct .lParen :: (operand.tokens floats ++
        Token.punct .comma :: [Token.word target.asValueStr,Token.punct .rParen]) := by
  show Token.word "cast" :: Token.punct .lParen :: (operand.tokens floats ++
    Token.punct .comma :: [Token.word target.asValueStr] ++ [Token.punct .rParen]) = _
  rw [List.append_assoc]
  rfl

theorem written_cast (written : Written floats source expr depth left) (target : CastTarget) :
    Written floats
      ('c' :: 'a' :: 's' :: 't' :: '(' ::
        (source ++ ',' :: ' ' :: (target.asValueStr.toList ++ [')'])))
      (.call "cast" [expr,.literal (.bareIdent target.asValueStr) noSpan] noSpan) (depth + 1)
      (castNode left target) where
  spells := by
    rw [tokens_castNode]
    exact spells_cast written.spells target
  denote := by
    rw [tokens_castNode]
    intro token member
    rcases List.mem_cons.mp member with rfl | member
    · rfl
    · rcases List.mem_cons.mp member with rfl | member
      · rfl
      · rcases List.mem_append.mp member with inOperand | member
        · exact written.denote token inOperand
        · simp only [List.mem_cons,List.not_mem_nil,or_false] at member
          rcases member with rfl | rfl | rfl
          · rfl
          · cases target <;> rfl
          · rfl
  isPlain := by
    show (left.isPlain && true) = true
    rw [written.isPlain]
    rfl
  placed := by
    show (left.notsPlaced false && true) = true
    rw [written.placed]
    rfl
  normal := by
    rw [← written.normal]
    rfl
  nesting := by
    show max (left.nesting + 1) (max (0 + 1) 0) = depth + 1
    rw [written.nesting]
    omega

end Composed

section Leaves

variable {floats : Floats} {texts : DebugTexts} {python : Python}
variable {literal : PyLiteral}
variable {content : Literal} {name : String}

theorem onServer_of_sameValue (same : SameValue literal content) : content = literal.onServer := by
  cases literal with
  | none =>
      cases content with
      | null => rfl
      | _ => exact same.elim
  | bool flag =>
      cases content with
      | bool other => rw [PyLiteral.onServer,show flag = other from same]
      | _ => exact same.elim
  | str text =>
      cases content with
      | str content =>
          have isText : content.toList.map CodePoint.scalar = text := same
          have back : text.filterMap CodePoint.toChar? = content.toList := by
            rw [← isText,List.filterMap_map]
            exact List.filterMap_some
          rw [PyLiteral.onServer,back,String.ofList_toList]
      | _ => exact same.elim
  | int number =>
      cases content with
      | int value =>
          have isNumber : value.toInt = number := same
          rw [PyLiteral.onServer,← isNumber,Int64.ofInt_toInt]
      | _ => exact same.elim
  | float number =>
      cases content with
      | float value => rw [PyLiteral.onServer,show value = number from same]
      | _ => exact same.elim

theorem written_leaf {node : Cst .atom} (roundTrips : RoundTrips floats texts python literal)
    (spells : Spells floats (sourceChars (literal.toExprString python)) (node.tokens floats))
    (isPlain : node.isPlain = true) (placed : node.notsPlaced false = true)
    (isTree : node.tree floats = .literal content noSpan) (nesting : node.nesting = 0) :
    Written floats (sourceChars (literal.toExprString python)) (.literal literal.onServer noSpan) 0
      node := by
  obtain ⟨read,span,isParsed,same⟩ := roundTrips
  have denote : ∀ token ∈ node.tokens floats, token.denotes floats = true := by
    obtain ⟨tree,isTree,-⟩ := parse_tree isParsed
    exact denotes_of_parsed spells.whole (parseTree_derived isTree).1
  have parsed : node.parsed floats false = some (.literal content noSpan) := by
    rw [← isTree]
    exact (Cst.parsed_iff node).mpr placed
  obtain ⟨other,isLiteral⟩ := @parse_literal floats texts _ _ _ spells.whole denote isPlain parsed
    (by rw [nesting]; decide)
  rw [isLiteral] at isParsed
  cases isParsed
  refine ⟨spells,denote,isPlain,placed,?_,nesting⟩
  rw [isTree,onServer_of_sameValue same]
  rfl

theorem spells_name {name : String} {ch : Char} {tail : List Char} (isText : name.toList = ch :: tail)
    (isStart : isWordStart ch = true) (isTail : WordTail tail)
    (ascii : name.toList.all (fun other => other.val.toNat < 128) = true) :
    Spells floats (sourceChars name) [Token.word name] := by
  have isName : String.ofList (ch :: tail) = name := by
    rw [← isText,String.ofList_toList]
  have isSource : sourceChars name = ch :: tail := by
    rw [← isName]
    apply sourceChars_ofList
    rw [← isText]
    intro other member
    exact of_decide_eq_true (List.all_eq_true.mp ascii other member)
  have spells := @spells_word floats ch tail isStart isTail
  rw [isName] at spells
  rw [isSource]
  exact spells

theorem finite_of_roundTrips {number : F64}
    (roundTrips : RoundTrips floats texts python (.float number)) : isFinite number = true := by
  obtain ⟨content,span,isParsed,-⟩ := roundTrips
  cases finite : isFinite number with
  | true => rfl
  | false =>
      have text : (PyLiteral.float number).toExprString python = reprFloat python number := rfl
      rw [text,reprFloat,finite,if_neg Bool.false_ne_true] at isParsed
      split at isParsed
      · cases isParsed
      · cases sign : isNegative number with
        | true =>
            rw [sign] at isParsed
            cases isParsed
        | false =>
            rw [sign] at isParsed
            cases isParsed

theorem written_literal (roundTrips : RoundTrips floats texts python literal) :
    ∃ node, Written floats (sourceChars (literal.toExprString python))
      (.literal literal.onServer noSpan) 0 node := by
  cases literal with
  | none =>
      exact ⟨.null,written_leaf roundTrips
        (@spells_name floats "null" 'n' ['u','l','l'] rfl rfl
          (.char rfl (.char rfl (.char rfl .nil))) (by decide)) rfl rfl rfl rfl⟩
  | bool flag =>
      refine ⟨.constant flag,written_leaf roundTrips ?_ rfl rfl rfl rfl⟩
      cases flag with
      | true =>
          exact @spells_name floats "true" 't' ['r','u','e'] rfl rfl
            (.char rfl (.char rfl (.char rfl .nil))) (by decide)
      | false =>
          exact @spells_name floats "false" 'f' ['a','l','s','e'] rfl rfl
            (.char rfl (.char rfl (.char rfl (.char rfl .nil)))) (by decide)
  | str text =>
      have notDouble := ((str_roundTrips_iff text).mp roundTrips).2
      have isQuote : reprQuote text = '\'' := if_neg notDouble
      obtain ⟨content,isQuoted,-,-⟩ := reprPoints_quoted python text
      refine ⟨.string (String.ofList content),written_leaf roundTrips ?_ rfl rfl rfl rfl⟩
      show Spells floats (sourceChars (reprStr python text)) _
      rw [sourceChars_reprStr,isQuote]
      exact spells_quoted isQuoted
  | int number =>
      exact ⟨.int (decide (number < 0)) (intNumeral number),
        written_leaf roundTrips (reprInt_spells number) rfl rfl rfl rfl⟩
  | float number =>
      have finite := finite_of_roundTrips roundTrips
      have hasPoint : (python.shortest (magnitude number)).lacksPoint = false := by
        obtain ⟨content,span,isParsed,-⟩ := roundTrips
        cases lacks : (python.shortest (magnitude number)).lacksPoint with
        | false => rfl
        | true => exact absurd isParsed (pointless_not_parsed finite lacks _)
      exact ⟨_,written_leaf roundTrips (reprFloat_spells finite hasPoint) rfl rfl rfl rfl⟩

theorem wordChar_ascii {ch : Char} (isChar : isWordChar ch = true) : ch.val.toNat < 128 := by
  simp only [isWordChar,isAsciiAlphabetic,isAsciiDigit,Bool.or_eq_true,Bool.and_eq_true,
    decide_eq_true_eq] at isChar
  have below : ∀ {ch bound : Char}, ch ≤ bound → bound.val.toNat < 128 → ch.val.toNat < 128 :=
    fun isBelow small => Nat.lt_of_le_of_lt (UInt32.le_iff_toNat_le.mp (Char.le_def.mp isBelow)) small
  rcases isChar with ((isLower | isUpper) | isDigit) | rfl
  · exact below isLower.2 (by decide)
  · exact below isUpper.2 (by decide)
  · exact below isDigit.2 (by decide)
  · decide

theorem wordTail_of_all {chars more : List Char} (areChars : chars.all isWordChar = true)
    (isTail : WordTail more) : WordTail (chars ++ more) := by
  induction chars with
  | nil => exact isTail
  | cons ch rest ih =>
      rw [List.all_cons,Bool.and_eq_true] at areChars
      exact .char areChars.1 (ih areChars.2)

theorem identifier_cases {chars : List Char} (isName : isIdentifier chars = true) :
    ∃ ch rest, chars = ch :: rest ∧ isWordStart ch = true ∧ rest.all isWordChar = true := by
  cases chars with
  | nil => cases isName
  | cons ch rest =>
      rw [isIdentifier,Bool.and_eq_true] at isName
      exact ⟨ch,rest,rfl,isName.1,isName.2⟩

theorem column_word (isColumn : IsColumn name) :
    ∃ ch tail, name.toList = ch :: tail ∧ isWordStart ch = true ∧ WordTail tail ∧
      ∀ other ∈ name.toList, other.val.toNat < 128 := by
  have ascii : ∀ {chars : List Char}, isIdentifier chars = true →
      ∀ other ∈ chars, other.val.toNat < 128 := by
    intro chars isName other member
    obtain ⟨ch,rest,rfl,isStart,areChars⟩ := identifier_cases isName
    rcases List.mem_cons.mp member with rfl | inRest
    · exact wordChar_ascii (isWordChar_of_start isStart)
    · exact wordChar_ascii (List.all_eq_true.mp areChars other inRest)
  rcases isColumn.2 with isName | ⟨table,field,isText,isTable,isField⟩
  · obtain ⟨ch,rest,isCons,isStart,areChars⟩ := identifier_cases isName
    have isTail := wordTail_of_all areChars .nil
    rw [List.append_nil] at isTail
    exact ⟨ch,rest,isCons,isStart,isTail,ascii isName⟩
  · obtain ⟨ch,rest,rfl,isStart,areChars⟩ := identifier_cases isTable
    obtain ⟨first,others,rfl,isFirst,areOthers⟩ := identifier_cases isField
    have isTail := wordTail_of_all areOthers .nil
    rw [List.append_nil] at isTail
    refine ⟨ch,rest ++ '.' :: first :: others,isText,isStart,
      wordTail_of_all areChars (.dot isFirst isTail),?_⟩
    intro other member
    rw [isText] at member
    rcases List.mem_append.mp member with inTable | inField
    · exact ascii isTable other inTable
    · rcases List.mem_cons.mp inField with rfl | inField
      · decide
      · exact ascii isField other inField

theorem written_column (isColumn : IsColumn name) :
    Written floats (sourceChars name) (.field name noSpan) 0 (.ident name isColumn.1) := by
  obtain ⟨ch,tail,isText,isStart,isTail,ascii⟩ := column_word isColumn
  have allAscii : name.toList.all (fun other => other.val.toNat < 128) = true :=
    List.all_eq_true.mpr fun other member => decide_eq_true (ascii other member)
  refine ⟨spells_name isText isStart isTail allAscii,?_,rfl,rfl,rfl,rfl⟩
  intro token member
  rw [List.mem_singleton.mp member,Token.denotes,Cst.word_kind isColumn.1]

theorem written_binOp (op : PyBinOp) {left right : PyExpr} {first second : Cst .atom}
    (isFirst : Written floats (sourceChars (left.toExprString python)) left.onServer left.nesting
      first)
    (isSecond : Written floats (sourceChars (right.toExprString python)) right.onServer
      right.nesting second) :
    Written floats (sourceChars ((PyExpr.binOp op left right).toExprString python))
      (PyExpr.binOp op left right).onServer (PyExpr.binOp op left right).nesting
      (.paren (operation op first second)) := by
  have symbol : sourceChars op.symbol = op.symbol.toList := by
    cases op <;> decide
  have isSource : sourceChars ((PyExpr.binOp op left right).toExprString python) =
      '(' :: (sourceChars (left.toExprString python) ++ ' ' ::
        (op.symbol.toList ++ ' ' :: sourceChars (right.toExprString python)) ++ [')']) := by
    have opened : sourceChars "(" = ['('] := by decide
    have blank : sourceChars " " = [' '] := by decide
    have closed : sourceChars ")" = [')'] := by decide
    rw [PyExpr.toExprString]
    simp only [sourceChars_append,opened,blank,closed,symbol,List.append_assoc,
      List.cons_append,List.nil_append]
  rw [isSource]
  exact written_operation op isFirst isSecond

theorem written_expr {expr : PyExpr} (sendable : expr.Sendable floats texts python) :
    ∃ node, Written floats (sourceChars (expr.toExprString python)) expr.onServer expr.nesting
      node := by
  induction expr with
  | col name => exact ⟨_,written_column sendable⟩
  | literal value => exact written_literal sendable
  | binOp op left right ihLeft ihRight =>
      obtain ⟨first,isFirst⟩ := ihLeft sendable.1
      obtain ⟨second,isSecond⟩ := ihRight sendable.2
      exact ⟨_,written_binOp op isFirst isSecond⟩
  | isnull operand ih =>
      obtain ⟨node,written⟩ := ih sendable
      have isNull : Written floats (sourceChars ((PyExpr.literal .none).toExprString python))
          (PyExpr.literal .none).onServer (PyExpr.literal .none).nesting .null := by
        refine ⟨?_,?_,rfl,rfl,rfl,rfl⟩
        · exact @spells_name floats "null" 'n' ['u','l','l'] rfl rfl
            (.char rfl (.char rfl (.char rfl .nil))) (by decide)
        · intro token member
          rw [List.mem_singleton.mp member]
          rfl
      have compared := written_binOp .eq written isNull
      have sameText : (PyExpr.binOp .eq operand (.literal .none)).toExprString python =
          (PyExpr.isnull operand).toExprString python := by
        have parts : " == null)" = " " ++ "==" ++ " " ++ "null" ++ ")" := by decide
        show "(" ++ operand.toExprString python ++ " " ++ "==" ++ " " ++ "null" ++ ")" =
          "(" ++ operand.toExprString python ++ " == null)"
        rw [parts]
        simp only [String.append_assoc]
      have sameMeaning : (PyExpr.binOp .eq operand (.literal .none)).onServer =
          (PyExpr.isnull operand).onServer := if_pos ⟨rfl,rfl⟩
      have sameNesting : (PyExpr.binOp .eq operand (.literal .none)).nesting =
          (PyExpr.isnull operand).nesting := congrArg Nat.succ (Nat.max_zero _)
      rw [sameText,sameMeaning,sameNesting] at compared
      exact ⟨_,compared⟩
  | invert operand ih =>
      obtain ⟨node,written⟩ := ih sendable
      have isSource : sourceChars ((PyExpr.invert operand).toExprString python) =
          '(' :: ('n' :: 'o' :: 't' :: ' ' :: sourceChars (operand.toExprString python) ++ [')']) := by
        have opened : sourceChars "(not " = ['(','n','o','t',' '] := by decide
        have closed : sourceChars ")" = [')'] := by decide
        rw [PyExpr.toExprString]
        simp only [sourceChars_append,opened,closed,List.cons_append,List.nil_append]
      rw [isSource]
      exact ⟨_,written_not written⟩
  | castOp operand target ih =>
      obtain ⟨node,written⟩ := ih sendable
      have isSource : sourceChars ((PyExpr.castOp operand target).toExprString python) =
          'c' :: 'a' :: 's' :: 't' :: '(' :: (sourceChars (operand.toExprString python) ++
            ',' :: ' ' :: (target.asValueStr.toList ++ [')'])) := by
        have opened : sourceChars "cast(" = ['c','a','s','t','('] := by decide
        have comma : sourceChars ", " = [',',' '] := by decide
        have closed : sourceChars ")" = [')'] := by decide
        have isTarget : sourceChars target.asValueStr = target.asValueStr.toList := by
          cases target <;> decide
        rw [PyExpr.toExprString]
        simp only [sourceChars_append,opened,comma,closed,isTarget,List.append_assoc,
          List.cons_append,List.nil_append]
      rw [isSource]
      exact ⟨_,written_cast written target⟩

end Leaves

/-- The server reads an expression of the SDK as it was made, with its comparisons with `null` as
calls of `isnull` and its cast targets as bare identifiers. -/
theorem expression_kept (floats : Floats) (texts : DebugTexts) (python : Python) (expr : PyExpr)
    (sendable : expr.Sendable floats texts python) (shallow : expr.nesting ≤ 511) :
    ∃ parsed, parse floats texts (expr.toExprString python) = .ok parsed ∧
      parsed.bare = expr.onServer := by
  obtain ⟨node,written⟩ := written_expr sendable
  have enough : node.nesting + 1 ≤ maxParseDepth := by
    rw [written.nesting]
    exact Nat.succ_le_succ shallow
  obtain ⟨tree,isParsed,isBare⟩ := @parse_atom floats texts _ node _ written.spells.whole
    written.denote written.isPlain ((Cst.parsed_iff node).mpr written.placed) enough
  refine ⟨_,isParsed,?_⟩
  rw [bare_normalize,isBare,written.normal]

/-- `((orders.total > 5) & ~col("note").isnull()) | (col("flag").cast("bool") != None)`. -/
def sampleExpr : PyExpr :=
  .binOp .or
    (.binOp .and (.binOp .gt (.col "orders.total") (.literal (.int 5)))
      (.invert (.isnull (.col "note"))))
    (.binOp .ne (.castOp (.col "flag") .bool) (.literal .none))

theorem expression_kept_sample :
    ∃ parsed, parse sampleHost.floats sampleHost.texts (sampleExpr.toExprString samplePython) =
        .ok parsed ∧ parsed.bare = sampleExpr.onServer := by
  have total : IsColumn "orders.total" :=
    ⟨by decide,.inr ⟨"orders".toList,"total".toList,by decide,by decide,by decide⟩⟩
  have note : IsColumn "note" := ⟨by decide,.inl (by decide)⟩
  have flag : IsColumn "flag" := ⟨by decide,.inl (by decide)⟩
  have five : RoundTrips sampleHost.floats sampleHost.texts samplePython (.int 5) :=
    (int_roundTrips_iff (by decide) (by decide)).mpr (by decide)
  have null : RoundTrips sampleHost.floats sampleHost.texts samplePython .none :=
    ⟨.null,⟨0,4⟩,rfl,trivial⟩
  exact expression_kept _ _ _ sampleExpr ⟨⟨⟨total,five⟩,note⟩,flag,null⟩ (by decide)

end Beava.Sdk
