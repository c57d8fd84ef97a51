/-
Positions do not matter to the parser.

Two token lists that differ in their positions alone are accepted alike, and the
trees differ in their positions alone; the errors may differ in their columns.
-/

import Beava.Core.Parser
import Beava.Core.Spelling

namespace Beava.Core

variable {operand atom : Parser Expr}

mutual

def Expr.bare : Expr → Expr
  | .field name _ => .field name noSpan
  | .literal content _ => .literal content noSpan
  | .binOp op left right _ => .binOp op left.bare right.bare noSpan
  | .unaryOp op operand _ => .unaryOp op operand.bare noSpan
  | .call fnName args _ => .call fnName (Expr.bareArgs args) noSpan

def Expr.bareArgs : List Expr → List Expr
  | [] => []
  | arg :: rest => arg.bare :: Expr.bareArgs rest

end

def Lexed.bare (input : Lexed) : Lexed :=
  { input with tokens := input.tokens.map Token.bare }

theorem Expr.bare_withSpan (span : Span) (expr : Expr) : (expr.withSpan span).bare = expr.bare := by
  cases expr <;> rfl

section

variable {α β : Type}

/-- Both fail, or both succeed with results that correspond and with the same tokens
left. -/
def Alike (same : α → α → Prop) :
    Except ParseError (α × Lexed) → Except ParseError (α × Lexed) → Prop
  | .ok first, .ok second => same first.1 second.1 ∧ first.2.bare = second.2.bare
  | .error _, .error _ => True
  | _, _ => False

theorem Alike.bind {same : α → α → Prop} {sameLater : β → β → Prop}
    {first second : Except ParseError (α × Lexed)} (alike : Alike same first second)
    {next other : α × Lexed → Except ParseError (β × Lexed)}
    (later : ∀ a b, same a.1 b.1 → a.2.bare = b.2.bare → Alike sameLater (next a) (other b)) :
    Alike sameLater (first >>= next) (second >>= other) := by
  cases first with
  | error _ =>
      cases second with
      | error _ => exact trivial
      | ok _ => exact alike.elim
  | ok a =>
      cases second with
      | error _ => exact alike.elim
      | ok b => exact later a b alike.1 alike.2

def SameToken (first second : Token) : Prop := first.bare = second.bare

theorem SameToken.fields {first second : Token} (same : SameToken first second) :
    first.kind = second.kind ∧ first.text = second.text ∧ first.intVal = second.intVal ∧
      first.floatVal = second.floatVal := by
  simp only [SameToken,Token.bare,Token.mk.injEq,true_and] at same
  exact same

def SameExpr (first second : Expr) : Prop := first.bare = second.bare

def SameArgs (first second : List Expr) : Prop := Expr.bareArgs first = Expr.bareArgs second

/-- The parser does not look at positions. -/
def Respects (parser : Parser Expr) : Prop :=
  ∀ first second, first.bare = second.bare → Alike SameExpr (parser first) (parser second)

end

section Input

variable {first second : Lexed}

theorem bare_tokens (same : first.bare = second.bare) :
    first.tokens.map Token.bare = second.tokens.map Token.bare :=
  congrArg Lexed.tokens same

theorem bare_failure (same : first.bare = second.bare) : first.failure = second.failure :=
  congrArg (fun input => input.failure) same

theorem bare_length (same : first.bare = second.bare) :
    first.tokens.length = second.tokens.length := by
  have lengths := congrArg List.length (bare_tokens same)
  rw [List.length_map,List.length_map] at lengths
  exact lengths

theorem bare_peekKind (same : first.bare = second.bare) : first.peekKind = second.peekKind := by
  have heads := congrArg (fun tokens => tokens.head?.map Token.kind) (bare_tokens same)
  simpa [Lexed.peekKind,Function.comp_def] using heads

theorem bare_sourceLen (same : first.bare = second.bare) : first.sourceLen = second.sourceLen :=
  congrArg (fun input => input.sourceLen) same

theorem next_alike (same : first.bare = second.bare) :
    Alike SameToken first.next second.next := by
  have tokens := bare_tokens same
  have failure := bare_failure same
  have sourceLen := bare_sourceLen same
  obtain ⟨tokens₁,failure₁,len₁⟩ := first
  obtain ⟨tokens₂,failure₂,len₂⟩ := second
  dsimp only at tokens failure sourceLen
  subst failure sourceLen
  cases tokens₁ with
  | nil =>
      cases tokens₂ with
      | nil => exact trivial
      | cons _ _ => cases tokens
  | cons token₁ rest₁ =>
      cases tokens₂ with
      | nil => cases tokens
      | cons token₂ rest₂ =>
          rw [List.map_cons,List.map_cons] at tokens
          obtain ⟨head,tail⟩ := List.cons.inj tokens
          cases rest₁ with
          | nil =>
              cases rest₂ with
              | cons _ _ => cases tail
              | nil =>
                  cases failure₁ with
                  | none => exact ⟨head,rfl⟩
                  | some _ => exact trivial
          | cons other₁ more₁ =>
              cases rest₂ with
              | nil => cases tail
              | cons other₂ more₂ =>
                  refine ⟨head,?_⟩
                  simp only [Lexed.bare]
                  rw [tail]

theorem expect_alike (same : first.bare = second.bare) (kind : TokenKind) (message : String) :
    Alike SameToken (first.expect kind message) (second.expect kind message) := by
  rw [Lexed.expect,Lexed.expect,bare_peekKind same]
  split
  · exact next_alike same
  · exact trivial

end Input

theorem SameExpr.binary {left left' right right' : Expr} (sameLeft : SameExpr left left')
    (sameRight : SameExpr right right') (op : String) :
    SameExpr (Expr.binary op left right) (Expr.binary op left' right') := by
  simp only [SameExpr,Expr.binary,Expr.bare]
  rw [sameLeft,sameRight]

theorem leftLoop_alike (respects : Respects operand) (opOf : TokenKind → Option String) (fuel : Nat)
    {left left' : Expr} (sameLeft : SameExpr left left') {first second : Lexed}
    (same : first.bare = second.bare) :
    Alike SameExpr (leftLoop opOf operand fuel left first)
      (leftLoop opOf operand fuel left' second) := by
  induction fuel generalizing left left' first second with
  | zero => exact ⟨sameLeft,same⟩
  | succ fuel ih =>
      rw [leftLoop,leftLoop,bare_peekKind same]
      split
      · exact ⟨sameLeft,same⟩
      · apply (next_alike same).bind
        intro op op' _ sameBehind
        apply (respects op.2 op'.2 sameBehind).bind
        intro right right' sameRight sameRest
        exact ih (sameLeft.binary sameRight _) sameRest

theorem leftAssoc_respects (respects : Respects operand) (opOf : TokenKind → Option String)
    (parenDepth : Nat) : Respects (leftAssoc opOf operand parenDepth) := by
  intro first second same
  apply (respects first second same).bind
  intro left left' sameLeft sameRest
  split
  · exact ⟨sameLeft,sameRest⟩
  · rw [bare_length sameRest]
    exact leftLoop_alike respects opOf _ sameLeft sameRest

theorem parseCmp_respects (respects : Respects atom) (parenDepth : Nat) :
    Respects (parseCmp atom parenDepth) := by
  have operand : Respects (parseAdd atom parenDepth) :=
    leftAssoc_respects (leftAssoc_respects respects mulOp parenDepth) addOp parenDepth
  intro first second same
  apply (operand first second same).bind
  intro left left' sameLeft sameRest
  split
  · exact ⟨sameLeft,sameRest⟩
  · rw [bare_peekKind sameRest]
    split
    · exact ⟨sameLeft,sameRest⟩
    · apply (next_alike sameRest).bind
      intro op op' _ sameBehind
      apply (operand op.2 op'.2 sameBehind).bind
      intro right right' sameRight sameEnd
      exact ⟨sameLeft.binary sameRight _,sameEnd⟩

theorem parseOr_respects (respects : Respects atom) (parenDepth : Nat) :
    Respects (parseOr atom parenDepth) :=
  leftAssoc_respects (leftAssoc_respects (parseCmp_respects respects parenDepth) andOp parenDepth)
    orOp parenDepth

section Atoms

variable {texts : DebugTexts} {expr : Nat → Parser Expr} (respects : ∀ depth, Respects (expr depth))
variable {first second : Lexed}

include respects

theorem argsLoop_alike (parenDepth fuel : Nat) (same : first.bare = second.bare) :
    Alike SameArgs (argsLoop expr parenDepth fuel first) (argsLoop expr parenDepth fuel second) := by
  induction fuel generalizing first second with
  | zero => exact ⟨rfl,same⟩
  | succ fuel ih =>
      rw [argsLoop,argsLoop,bare_peekKind same]
      split
      · apply (next_alike same).bind
        intro comma comma' _ sameBehind
        apply (respects parenDepth comma.2 comma'.2 sameBehind).bind
        intro arg arg' sameArg sameRest
        apply (ih sameRest).bind
        intro others others' sameOthers sameEnd
        refine ⟨?_,sameEnd⟩
        simp only [SameArgs,Expr.bareArgs]
        rw [sameArg,sameOthers]
      · exact ⟨rfl,same⟩

theorem parseArglist_alike (parenDepth : Nat) (same : first.bare = second.bare) :
    Alike SameArgs (parseArglist expr parenDepth first) (parseArglist expr parenDepth second) := by
  rw [parseArglist,parseArglist,bare_peekKind same]
  split
  · exact ⟨rfl,same⟩
  · apply (respects parenDepth first second same).bind
    intro arg arg' sameArg sameRest
    rw [bare_length sameRest]
    apply (argsLoop_alike respects parenDepth _ sameRest).bind
    intro others others' sameOthers sameEnd
    refine ⟨?_,sameEnd⟩
    simp only [SameArgs,Expr.bareArgs]
    rw [sameArg,sameOthers]

theorem parseParen_alike (parenDepth start start' : Nat) (same : first.bare = second.bare) :
    Alike SameExpr (parseParen expr parenDepth start first)
      (parseParen expr parenDepth start' second) := by
  rw [parseParen,parseParen,bare_peekKind same]
  split
  · apply (next_alike same).bind
    intro notToken notToken' _ sameBehind
    apply (respects (parenDepth + 1) _ _ sameBehind).bind
    intro operand operand' sameOperand sameRest
    apply (expect_alike sameRest .rParen "expected ')'").bind
    intro close close' _ sameEnd
    refine ⟨?_,sameEnd⟩
    simp only [SameExpr,Expr.bare]
    rw [sameOperand]
  · apply (respects (parenDepth + 1) _ _ same).bind
    intro inner inner' sameInner sameRest
    apply (expect_alike sameRest .rParen "expected ')'").bind
    intro close close' _ sameEnd
    refine ⟨?_,sameEnd⟩
    rw [SameExpr,Expr.bare_withSpan,Expr.bare_withSpan]
    exact sameInner

theorem parseNamed_alike (parenDepth : Nat) {name name' : Token} (sameName : SameToken name name')
    (same : first.bare = second.bare) :
    Alike SameExpr (parseNamed expr parenDepth name first)
      (parseNamed expr parenDepth name' second) := by
  have sameText : name.text = name'.text := sameName.fields.2.1
  rw [parseNamed,parseNamed,bare_peekKind same,sameText]
  split
  · apply (next_alike same).bind
    intro lParen lParen' _ sameBehind
    apply (parseArglist_alike respects parenDepth sameBehind).bind
    intro args args' sameArgs sameRest
    apply (expect_alike sameRest .rParen "expected ',' or ')'").bind
    intro close close' _ sameEnd
    refine ⟨?_,sameEnd⟩
    simp only [SameExpr,Expr.bare]
    rw [sameArgs]
  · exact ⟨rfl,same⟩

omit respects in
theorem parseNegative_alike (minus minus' : Token) (same : first.bare = second.bare) :
    Alike SameExpr (parseNegative minus first) (parseNegative minus' second) := by
  rw [parseNegative,parseNegative,bare_peekKind same]
  split
  · apply (next_alike same).bind
    intro number number' sameNumber sameRest
    have sameValue : number.1.intVal = number'.1.intVal :=
      sameNumber.fields.2.2.1
    rw [sameValue]
    exact ⟨rfl,sameRest⟩
  · apply (next_alike same).bind
    intro number number' sameNumber sameRest
    have sameValue : number.1.floatVal = number'.1.floatVal :=
      sameNumber.fields.2.2.2
    rw [sameValue]
    exact ⟨rfl,sameRest⟩
  · exact trivial

theorem parseAtom_respects (parenDepth : Nat) : Respects (parseAtom texts expr parenDepth) := by
  intro first second same
  have leaf : ∀ make : Token → Literal, (∀ token token', SameToken token token' →
      make token = make token') →
      Alike SameExpr
        (do
          let taken ← first.next
          return (.literal (make taken.1) taken.1.span,taken.2))
        (do
          let taken ← second.next
          return (.literal (make taken.1) taken.1.span,taken.2)) := by
    intro make sameLiteral
    apply (next_alike same).bind
    intro taken taken' sameTaken sameRest
    rw [sameLiteral taken.1 taken'.1 sameTaken]
    exact ⟨rfl,sameRest⟩
  have tokens := bare_tokens same
  rw [parseAtom,parseAtom]
  cases isFirst : first.tokens with
  | nil =>
      rw [isFirst] at tokens
      rw [List.map_eq_nil_iff.mp tokens.symm]
      exact trivial
  | cons token rest =>
      cases isSecond : second.tokens with
      | nil =>
          rw [isFirst,isSecond] at tokens
          cases tokens
      | cons token' rest' =>
          rw [isFirst,isSecond,List.map_cons,List.map_cons] at tokens
          have sameKind : token.kind = token'.kind :=
            (SameToken.fields (List.cons.inj tokens).1).1
          dsimp only
          rw [sameKind]
          cases token'.kind with
          | lParen =>
              apply (next_alike same).bind
              intro taken taken' _ sameRest
              exact parseParen_alike respects parenDepth _ _ sameRest
          | true => exact leaf (fun _ => .bool true) fun _ _ _ => rfl
          | false => exact leaf (fun _ => .bool false) fun _ _ _ => rfl
          | null => exact leaf (fun _ => .null) fun _ _ _ => rfl
          | and => exact (next_alike same).bind fun _ _ _ _ => trivial
          | or => exact (next_alike same).bind fun _ _ _ _ => trivial
          | not => exact (next_alike same).bind fun _ _ _ _ => trivial
          | ident =>
              apply (next_alike same).bind
              intro taken taken' sameTaken sameRest
              exact parseNamed_alike respects parenDepth sameTaken sameRest
          | intLit =>
              exact leaf (fun token => .int token.intVal) fun _ _ sameToken =>
                congrArg Literal.int sameToken.fields.2.2.1
          | floatLit =>
              exact leaf (fun token => .float token.floatVal) fun _ _ sameToken =>
                congrArg Literal.float sameToken.fields.2.2.2
          | strLit =>
              exact leaf (fun token => .str token.text) fun _ _ sameToken =>
                congrArg Literal.str sameToken.fields.2.1
          | minus =>
              apply (next_alike same).bind
              intro taken taken' _ sameRest
              exact parseNegative_alike taken.1 taken'.1 sameRest
          | _ => exact trivial

end Atoms

theorem parseExpr_respects (texts : DebugTexts) (levels : Nat) :
    ∀ parenDepth, Respects (parseExpr texts levels parenDepth) := by
  induction levels with
  | zero =>
      intro parenDepth first second same
      exact trivial
  | succ levels ih =>
      intro parenDepth
      exact parseOr_respects (parseAtom_respects ih parenDepth) parenDepth

theorem bare_castTargetArg (args : List Expr) :
    Expr.bareArgs (castTargetArg args) = castTargetArg (Expr.bareArgs args) := by
  match args with
  | [] => rfl
  | [_] => rfl
  | [_,.field _ _] => rfl
  | [_,.literal _ _] => rfl
  | [_,.binOp _ _ _ _] => rfl
  | [_,.unaryOp _ _ _] => rfl
  | [_,.call _ _ _] => rfl
  | first :: second :: third :: rest =>
      cases second <;> rfl

mutual

theorem bare_normalizeCast : (expr : Expr) → (normalizeCast expr).bare = normalizeCast expr.bare
  | .field _ _ => rfl
  | .literal _ _ => rfl
  | .binOp _ left right _ => by
      simp only [normalizeCast,Expr.bare]
      rw [bare_normalizeCast left,bare_normalizeCast right]
  | .unaryOp _ operand _ => by
      simp only [normalizeCast,Expr.bare]
      rw [bare_normalizeCast operand]
  | .call fnName args _ => by
      simp only [normalizeCast,Expr.bare]
      split
      · rw [bare_castTargetArg,bare_normalizeCastArgs args]
      · rw [bare_normalizeCastArgs args]

theorem bare_normalizeCastArgs : (args : List Expr) →
    Expr.bareArgs (normalizeCastArgs args) = normalizeCastArgs (Expr.bareArgs args)
  | [] => rfl
  | arg :: rest => by
      simp only [normalizeCastArgs,Expr.bareArgs]
      rw [bare_normalizeCast arg,bare_normalizeCastArgs rest]

end

theorem isNullLiteral_bare (expr : Expr) : expr.bare.isNullLiteral = expr.isNullLiteral := by
  cases expr with
  | literal content span => cases content <;> rfl
  | _ => rfl

theorem besideNull_bare (left right : Expr) :
    besideNull left.bare right.bare = (besideNull left right).map Expr.bare := by
  rw [besideNull,besideNull,isNullLiteral_bare,isNullLiteral_bare]
  split
  · rfl
  · split <;> rfl

theorem bare_rewriteComparison (op : String) (left right : Expr) (span : Span) :
    (rewriteComparison op left right span).bare =
      rewriteComparison op left.bare right.bare noSpan := by
  rw [rewriteComparison,rewriteComparison,besideNull_bare]
  cases besideNull left right with
  | none => rfl
  | some operand =>
      dsimp only [Option.map_some]
      split
      · rfl
      · split <;> rfl

mutual

theorem bare_rewriteNullEq : (expr : Expr) → (rewriteNullEq expr).bare = rewriteNullEq expr.bare
  | .field _ _ => rfl
  | .literal _ _ => rfl
  | .binOp _ left right _ => by
      simp only [rewriteNullEq,Expr.bare]
      rw [bare_rewriteComparison,bare_rewriteNullEq left,bare_rewriteNullEq right]
  | .unaryOp _ operand _ => by
      simp only [rewriteNullEq,Expr.bare]
      rw [bare_rewriteNullEq operand]
  | .call fnName args _ => by
      simp only [rewriteNullEq,Expr.bare]
      rw [bare_rewriteNullEqArgs args]

theorem bare_rewriteNullEqArgs : (args : List Expr) →
    Expr.bareArgs (rewriteNullEqArgs args) = rewriteNullEqArgs (Expr.bareArgs args)
  | [] => rfl
  | arg :: rest => by
      simp only [rewriteNullEqArgs,Expr.bareArgs]
      rw [bare_rewriteNullEq arg,bare_rewriteNullEqArgs rest]

end

theorem bare_normalize (expr : Expr) : (normalize expr).bare = normalize expr.bare := by
  rw [normalize,normalize,bare_rewriteNullEq,bare_normalizeCast]

end Beava.Core
