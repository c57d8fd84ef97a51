/-
The parser on the tokens of a derivation.

Inside parentheses the parser reads every derivation, and what it gives is
computed from the derivation alone.  This is the tree of the derivation exactly
when every `not` stands where the parser looks for it.
-/

import Beava.Core.Grammar

namespace Beava.Core

/-! ### The parser on tokens without positions -/

section Steps

variable {sourceLen : Nat} {token : Token} {rest : List Token}
variable {kind : TokenKind} {level : BinLevel}

theorem next_cons : (Lexed.mk (token :: rest) none sourceLen).next =
    .ok (token,⟨rest,none,sourceLen⟩) := by
  cases rest <;> rfl

theorem expect_cons (isKind : token.kind = kind) (message : String) :
    (Lexed.mk (token :: rest) none sourceLen).expect kind message =
      .ok (token,⟨rest,none,sourceLen⟩) := by
  have peeked : (Lexed.mk (token :: rest) none sourceLen).peekKind = some kind :=
    congrArg some isKind
  rw [Lexed.expect,if_pos peeked,next_cons]

theorem expect_close (message : String) :
    (Lexed.mk (Token.punct .rParen :: rest) none sourceLen).expect .rParen message =
      .ok (Token.punct .rParen,⟨rest,none,sourceLen⟩) :=
  expect_cons rfl message

def parserOf (atom : Parser Expr) (parenDepth : Nat) : Level → Parser Expr
  | .bin .or => parseOr atom parenDepth
  | .bin .and => parseAnd atom parenDepth
  | .not => parseNot atom parenDepth
  | .cmp => parseCmp atom parenDepth
  | .bin .add => parseAdd atom parenDepth
  | .bin .mul => parseMul atom parenDepth
  | .atom => atom

theorem parserOf_bin (atom : Parser Expr) (parenDepth : Nat) (level : BinLevel) :
    parserOf atom parenDepth (.bin level) =
      leftAssoc level.opOf (parserOf atom parenDepth level.below) parenDepth := by
  cases level <;> rfl

def goesOnMul (kind : TokenKind) : Bool := kind = .lParen || (mulOp kind).isSome

def goesOnAdd (kind : TokenKind) : Bool := goesOnMul kind || (addOp kind).isSome

def goesOnCmp (kind : TokenKind) : Bool := goesOnAdd kind || (cmpOpOf kind).isSome

def goesOnAnd (kind : TokenKind) : Bool := goesOnCmp kind || (andOp kind).isSome

def goesOn (level : Level) (kind : TokenKind) : Bool :=
  match level with
  | .atom => kind = .lParen
  | .bin .mul => goesOnMul kind
  | .bin .add => goesOnAdd kind
  | .cmp => goesOnCmp kind
  | .not => goesOnCmp kind
  | .bin .and => goesOnAnd kind
  | .bin .or => goesOnAnd kind || (orOp kind).isSome

/-- The tokens do not go on with an expression of the level. -/
def Ends (level : Level) (rest : List Token) : Prop :=
  ∀ token ∈ rest.head?, goesOn level token.kind = false

theorem opToken_kind (isOp : (level.opOf kind).isSome = true) :
    (opToken kind).kind = kind ∧ goesOn level.below kind = false := by
  cases level <;> cases kind <;> first | (cases isOp; done) | exact ⟨by decide,by decide⟩

theorem cmpToken_kind (isOp : (cmpOpOf kind).isSome = true) :
    (opToken kind).kind = kind ∧ goesOn (.bin .add) kind = false := by
  cases kind <;> first | (cases isOp; done) | exact ⟨by decide,by decide⟩

theorem opOf_none (ends : goesOn (.bin level) kind = false) :
    level.opOf kind = none ∧ goesOn level.below kind = false := by
  cases level <;> cases kind <;> first | (cases ends; done) | exact ⟨by decide,by decide⟩

theorem cmpOpOf_none (ends : goesOn .cmp kind = false) :
    cmpOpOf kind = none ∧ goesOn (.bin .add) kind = false := by
  cases kind <;> first | (cases ends; done) | exact ⟨by decide,by decide⟩

theorem Ends.below (ends : Ends (.bin level) rest) : Ends level.below rest :=
  fun token member => (opOf_none (ends token member)).2

theorem Ends.add (ends : Ends .cmp rest) : Ends (.bin .add) rest :=
  fun token member => (cmpOpOf_none (ends token member)).2

theorem Ends.cons {level : Level} (ends : goesOn level token.kind = false) :
    Ends level (token :: rest) := by
  intro other member
  cases member
  exact ends

theorem Ends.peek (ends : Ends (.bin level) rest) :
    (Lexed.mk rest none sourceLen).peekKind.bind level.opOf = none := by
  cases rest with
  | nil => rfl
  | cons token others => exact (opOf_none (ends token rfl)).1

theorem Ends.peekCmp (ends : Ends .cmp rest) :
    (Lexed.mk rest none sourceLen).peekKind.bind cmpOpOf = none := by
  cases rest with
  | nil => rfl
  | cons token others => exact (cmpOpOf_none (ends token rfl)).1

end Steps

/-! ### A level of the parser on the tokens of a node -/

def Gives {α : Type} (outcome : Except ParseError (α × Lexed)) (result : Option α) (left : Lexed) :
    Prop :=
  match result with
  | some value => outcome = .ok (value,left)
  | none => ∃ error, outcome = .error error

def GoesOnWith (outcome : Except ParseError (Expr × Lexed)) (result : Option Expr)
    (loop : Nat → Expr → Except ParseError (Expr × Lexed)) (needed : Nat) : Prop :=
  match result with
  | some expr => ∃ fuel, needed ≤ fuel ∧ outcome = loop fuel expr
  | none => ∃ error, outcome = .error error

theorem Gives.bind {α β : Type} {outcome : Except ParseError (α × Lexed)} {result : Option α}
    {left behind : Lexed} (gives : Gives outcome result left)
    {next : α × Lexed → Except ParseError (β × Lexed)} {after : α → Option β}
    (later : ∀ value, result = some value → Gives (next (value,left)) (after value) behind) :
    Gives (outcome >>= next) (result.bind after) behind := by
  cases result with
  | none =>
      obtain ⟨error,isError⟩ := gives
      rw [isError]
      exact ⟨error,rfl⟩
  | some value =>
      rw [Gives] at gives
      rw [gives]
      exact later value rfl

theorem Gives.map {α β : Type} {outcome : Except ParseError (α × Lexed)} {result : Option α}
    {left behind : Lexed} (gives : Gives outcome result left)
    {next : α × Lexed → Except ParseError (β × Lexed)} {make : α → β}
    (later : ∀ value, result = some value → next (value,left) = .ok (make value,behind)) :
    Gives (outcome >>= next) (result.map make) behind := by
  rw [Option.map_eq_bind]
  exact gives.bind later

/-- What a parser makes of tokens when others follow that it leaves. -/
def Reads (parser : Parser Expr) (tokens : List Token) (result : Option Expr)
    (ends : List Token → Prop) : Prop :=
  ∀ sourceLen rest, ends rest →
    Gives (parser ⟨tokens ++ rest,none,sourceLen⟩) result ⟨rest,none,sourceLen⟩

/-- What a loop has made of tokens, wherever it goes on from there. -/
def Loops (opOf : TokenKind → Option String) (operand : Parser Expr) (parenDepth : Nat)
    (tokens : List Token) (result : Option Expr) (ends : List Token → Prop) : Prop :=
  ∀ sourceLen rest, ends rest →
    GoesOnWith (leftAssoc opOf operand parenDepth ⟨tokens ++ rest,none,sourceLen⟩) result
      (fun fuel expr => leftLoop opOf operand fuel expr ⟨rest,none,sourceLen⟩) rest.length

section Loop

variable {opOf : TokenKind → Option String} {operand : Parser Expr} {parenDepth : Nat}
  {tokens : List Token} {result : Option Expr} {ends : List Token → Prop}
variable {kind : TokenKind}
variable {level : BinLevel} {rightTokens : List Token} {rightResult : Option Expr}

theorem leftLoop_stops {input : Lexed} (stops : input.peekKind.bind opOf = none) (fuel : Nat)
    (left : Expr) : leftLoop opOf operand fuel left input = .ok (left,input) := by
  cases fuel with
  | zero => rfl
  | succ fuel => rw [leftLoop,stops]

theorem Loops.reads (loops : Loops level.opOf operand parenDepth tokens result (Ends level.below)) :
    Reads (leftAssoc level.opOf operand parenDepth) tokens result (Ends (.bin level)) := by
  intro sourceLen rest ends
  have isLoop := loops sourceLen rest ends.below
  cases result with
  | none => exact isLoop
  | some expr =>
      obtain ⟨fuel,-,same⟩ := isLoop
      rw [Gives,same]
      exact leftLoop_stops ends.peek fuel expr

theorem Reads.loops (reads : Reads operand tokens result ends) (inside : parenDepth ≠ 0) :
    Loops opOf operand parenDepth tokens result ends := by
  intro sourceLen rest isEnd
  have isRead := reads sourceLen rest isEnd
  cases result with
  | none =>
      obtain ⟨error,isError⟩ := isRead
      refine ⟨error,?_⟩
      rw [leftAssoc,isError]
      rfl
  | some expr =>
      refine ⟨rest.length,Nat.le_refl _,?_⟩
      rw [Gives] at isRead
      rw [leftAssoc,isRead]
      exact if_neg inside

theorem opText_of {opOf : TokenKind → Option String} (isOp : (opOf kind).isSome = true) :
    opOf kind = some (opText opOf kind) := by
  obtain ⟨op,isText⟩ := Option.isSome_iff_exists.mp isOp
  rw [opText,isText]
  rfl

theorem Loops.chain (loops : Loops level.opOf operand parenDepth tokens result (Ends level.below))
    (reads : Reads operand rightTokens rightResult (Ends level.below))
    (isOp : (level.opOf kind).isSome = true)
    (noSpans : ∀ expr, result = some expr ∨ rightResult = some expr → expr.span = noSpan) :
    Loops level.opOf operand parenDepth (tokens ++ opToken kind :: rightTokens)
      (result.bind fun left => rightResult.map fun right =>
        .binOp (opText level.opOf kind) left right noSpan)
      (Ends level.below) := by
  intro sourceLen rest ends
  obtain ⟨isKind,stops⟩ := opToken_kind isOp
  have behind := loops sourceLen (opToken kind :: (rightTokens ++ rest))
    (Ends.cons (by rw [isKind]; exact stops))
  rw [List.append_assoc,List.cons_append]
  cases result with
  | none => exact behind
  | some left =>
      obtain ⟨fuel,enough,same⟩ := behind
      rw [List.length_cons,List.length_append] at enough
      have isRead := reads sourceLen rest ends
      obtain ⟨fuel,rfl⟩ : ∃ less, fuel = less + 1 := ⟨fuel - 1,by omega⟩
      have peeked : (Lexed.mk (opToken kind :: (rightTokens ++ rest)) none sourceLen).peekKind.bind
          level.opOf = some (opText level.opOf kind) := by
        show level.opOf (opToken kind).kind = _
        rw [isKind]
        exact opText_of isOp
      dsimp only at same
      rw [leftLoop,peeked] at same
      dsimp only at same
      rw [next_cons] at same
      rw [same]
      cases rightResult with
      | none =>
          obtain ⟨error,isError⟩ := isRead
          refine ⟨error,?_⟩
          show (operand ⟨rightTokens ++ rest,none,sourceLen⟩ >>= _) = _
          rw [isError]
          rfl
      | some right =>
          refine ⟨fuel,by omega,?_⟩
          show (operand ⟨rightTokens ++ rest,none,sourceLen⟩ >>= _) = _
          rw [Gives] at isRead
          rw [isRead]
          show leftLoop _ _ _ (Expr.binary _ _ _) _ = _
          rw [Expr.binary,noSpans left (.inl rfl),noSpans right (.inr rfl)]

theorem reads_compare {atom : Parser Expr}
    (left : Reads (parseAdd atom parenDepth) tokens result (Ends (.bin .add)))
    (right : Reads (parseAdd atom parenDepth) rightTokens rightResult (Ends (.bin .add)))
    (inside : parenDepth ≠ 0) (isOp : (cmpOpOf kind).isSome = true)
    (noSpans : ∀ expr, result = some expr ∨ rightResult = some expr → expr.span = noSpan) :
    Reads (parseCmp atom parenDepth) (tokens ++ opToken kind :: rightTokens)
      (result.bind fun left => rightResult.map fun right =>
        .binOp (opText cmpOpOf kind) left right noSpan)
      (Ends .cmp) := by
  intro sourceLen rest ends
  obtain ⟨isKind,stops⟩ := cmpToken_kind isOp
  have isLeft := left sourceLen (opToken kind :: (rightTokens ++ rest))
    (Ends.cons (by rw [isKind]; exact stops))
  have isRight := right sourceLen rest ends.add
  have peeked : (Lexed.mk (opToken kind :: (rightTokens ++ rest)) none sourceLen).peekKind.bind
      cmpOpOf = some (opText cmpOpOf kind) := by
    show cmpOpOf (opToken kind).kind = _
    rw [isKind]
    exact opText_of isOp
  rw [List.append_assoc,List.cons_append,parseCmp]
  refine isLeft.bind fun leftExpr isLeftExpr => ?_
  rw [if_neg inside]
  dsimp only
  rw [peeked]
  dsimp only
  rw [next_cons]
  refine isRight.map fun rightExpr isRightExpr => ?_
  show Except.ok (Expr.binary _ _ _,_) = _
  rw [Expr.binary,noSpans leftExpr (.inl isLeftExpr),noSpans rightExpr (.inr isRightExpr)]

theorem reads_single {atom : Parser Expr}
    (only : Reads (parseAdd atom parenDepth) tokens result (Ends (.bin .add)))
    (inside : parenDepth ≠ 0) : Reads (parseCmp atom parenDepth) tokens result (Ends .cmp) := by
  intro sourceLen rest ends
  have isOnly := only sourceLen rest ends.add
  rw [parseCmp]
  cases result with
  | none =>
      obtain ⟨error,isError⟩ := isOnly
      rw [isError]
      exact ⟨error,rfl⟩
  | some expr =>
      rw [Gives] at isOnly
      rw [isOnly]
      show Gives (if parenDepth = 0 then _ else _) _ _
      rw [if_neg inside]
      dsimp only
      rw [ends.peekCmp]
      rfl

end Loop

section Nodes

variable {texts : DebugTexts} {floats : Floats}
variable {parenDepth : Nat} {level : Level}
variable {expr : Nat → Parser Expr} {rest : List Token}

def ParsesAs (atom : Parser Expr) (parenDepth : Nat) (level : Level) (tokens : List Token)
    (result : Option Expr) : Prop :=
  match level with
  | .bin level =>
      Loops level.opOf (parserOf atom parenDepth level.below) parenDepth tokens result
        (Ends level.below)
  | other => Reads (parserOf atom parenDepth other) tokens result (Ends other)

theorem ParsesAs.reads {atom : Parser Expr} {tokens : List Token} {result : Option Expr}
    (parses : ParsesAs atom parenDepth level tokens result) :
    Reads (parserOf atom parenDepth level) tokens result (Ends level) := by
  cases level with
  | bin level =>
      rw [parserOf_bin]
      exact Loops.reads parses
  | not => exact parses
  | cmp => exact parses
  | atom => exact parses

theorem parserOf_error {atom : Parser Expr} {input : Lexed} {error : ParseError}
    (fails : atom input = .error error) (level : Level) :
    parserOf atom parenDepth level input = .error error := by
  have assoc : ∀ {opOf : TokenKind → Option String} {operand : Parser Expr},
      operand input = .error error → leftAssoc opOf operand parenDepth input = .error error := by
    intro opOf operand isError
    rw [leftAssoc,isError]
    rfl
  have add : parseAdd atom parenDepth input = .error error := assoc (assoc fails)
  have cmp : parseCmp atom parenDepth input = .error error := by
    rw [parseCmp,add]
    rfl
  cases level with
  | bin level =>
      cases level with
      | or => exact assoc (assoc cmp)
      | and => exact assoc cmp
      | add => exact add
      | mul => exact assoc fails
  | not => exact cmp
  | cmp => exact cmp
  | atom => exact fails

theorem Expr.withSpan_span (expr : Expr) : expr.withSpan expr.span = expr := by
  cases expr <;> rfl

mutual

theorem Cst.parsed_bare : {level : Level} → (node : Cst level) → ∀ (stripped : Bool) (expr : Expr),
    node.parsed floats stripped = some expr → expr.bare = expr
  | _, .operand _ first, stripped, expr, isParsed => by
      rw [Cst.parsed] at isParsed
      exact Cst.parsed_bare first stripped expr isParsed
  | _, .chain _ left _ _ right, stripped, expr, isParsed => by
      rw [Cst.parsed] at isParsed
      obtain ⟨leftExpr,isLeft,both⟩ := Option.bind_eq_some_iff.mp isParsed
      obtain ⟨rightExpr,isRight,rfl⟩ := Option.map_eq_some_iff.mp both
      rw [Expr.bare,Cst.parsed_bare left stripped leftExpr isLeft,
        Cst.parsed_bare right false rightExpr isRight]
  | _, .notOp inner, stripped, expr, isParsed => by
      rw [Cst.parsed] at isParsed
      split at isParsed
      · exact Cst.parsed_bare inner false expr isParsed
      · cases isParsed
  | _, .plain only, _, expr, isParsed => by
      rw [Cst.parsed] at isParsed
      exact Cst.parsed_bare only false expr isParsed
  | _, .single only, _, expr, isParsed => by
      rw [Cst.parsed] at isParsed
      exact Cst.parsed_bare only false expr isParsed
  | _, .compare left _ _ right, _, expr, isParsed => by
      rw [Cst.parsed] at isParsed
      obtain ⟨leftExpr,isLeft,both⟩ := Option.bind_eq_some_iff.mp isParsed
      obtain ⟨rightExpr,isRight,rfl⟩ := Option.map_eq_some_iff.mp both
      rw [Expr.bare,Cst.parsed_bare left false leftExpr isLeft,
        Cst.parsed_bare right false rightExpr isRight]
  | _, .paren inner, _, expr, isParsed => by
      rw [Cst.parsed] at isParsed
      split at isParsed
      · obtain ⟨operand,isOperand,rfl⟩ := Option.map_eq_some_iff.mp isParsed
        rw [Expr.bare,Cst.parsed_bare inner true operand isOperand]
      · exact Cst.parsed_bare inner false expr isParsed
  | _, .call _ _ args, _, expr, isParsed => by
      rw [Cst.parsed] at isParsed
      obtain ⟨exprs,areParsed,rfl⟩ := Option.map_eq_some_iff.mp isParsed
      rw [Expr.bare,Cst.parsedArgs_bare args exprs areParsed]
  | _, .ident .., _, expr, isParsed => by
      cases isParsed
      rfl
  | _, .int .., _, expr, isParsed => by
      cases isParsed
      rfl
  | _, .float .., _, expr, isParsed => by
      cases isParsed
      rfl
  | _, .string _, _, expr, isParsed => by
      cases isParsed
      rfl
  | _, .constant _, _, expr, isParsed => by
      cases isParsed
      rfl
  | _, .null, _, expr, isParsed => by
      cases isParsed
      rfl

theorem Cst.parsedArgs_bare : (args : List Derivation) → ∀ exprs,
    Cst.parsedArgs floats args = some exprs → Expr.bareArgs exprs = exprs
  | [], exprs, areParsed => by
      cases areParsed
      rfl
  | arg :: rest, exprs, areParsed => by
      rw [Cst.parsedArgs] at areParsed
      obtain ⟨expr,isParsed,both⟩ := Option.bind_eq_some_iff.mp areParsed
      obtain ⟨others,areOthers,rfl⟩ := Option.map_eq_some_iff.mp both
      rw [Expr.bareArgs,Cst.parsed_bare arg false expr isParsed,
        Cst.parsedArgs_bare rest others areOthers]

end

theorem Cst.parsed_span (node : Cst level) {stripped : Bool} {expr : Expr}
    (isParsed : node.parsed floats stripped = some expr) : expr.span = noSpan := by
  have bare := node.parsed_bare stripped expr isParsed
  rw [← bare]
  cases expr <;> rfl

/-! ### Atoms -/

theorem parseAtom_of {sourceLen : Nat} {token : Token}
    :
    parseAtom texts expr parenDepth ⟨token :: rest,none,sourceLen⟩ =
      match token.kind with
      | .lParen => parseParen expr parenDepth token.span.start ⟨rest,none,sourceLen⟩
      | .true => .ok (.literal (.bool true) token.span,⟨rest,none,sourceLen⟩)
      | .false => .ok (.literal (.bool false) token.span,⟨rest,none,sourceLen⟩)
      | .null => .ok (.literal .null token.span,⟨rest,none,sourceLen⟩)
      | .and | .or | .not =>
          .error (ParseError.at (token.span.start + 1)
            ("unexpected keyword " ++ texts.str token.text ++ " in expression"))
      | .ident => parseNamed expr parenDepth token ⟨rest,none,sourceLen⟩
      | .intLit => .ok (.literal (.int token.intVal) token.span,⟨rest,none,sourceLen⟩)
      | .floatLit => .ok (.literal (.float token.floatVal) token.span,⟨rest,none,sourceLen⟩)
      | .strLit => .ok (.literal (.str token.text) token.span,⟨rest,none,sourceLen⟩)
      | .minus => parseNegative token ⟨rest,none,sourceLen⟩
      | _ =>
          .error (ParseError.at (token.span.start + 1)
            ("unexpected token " ++ texts.str token.text ++ " in expression")) := by
  rw [parseAtom]
  simp only [next_cons]
  cases token.kind <;> rfl

theorem parseParen_reads
    {inner : Derivation} (stripped : inner.startsNot = true →
      Reads (expr (parenDepth + 1)) (inner.body floats true) (inner.parsed floats true)
        (Ends (.bin .or)))
    (whole : inner.startsNot = false →
      Reads (expr (parenDepth + 1)) (inner.body floats false) (inner.parsed floats false)
        (Ends (.bin .or))) (sourceLen : Nat) (rest : List Token) :
    Gives (parseParen expr parenDepth 0
      ⟨inner.tokens floats ++ Token.punct .rParen :: rest,none,sourceLen⟩)
      ((Cst.paren inner).parsed floats false) ⟨rest,none,sourceLen⟩ := by
  have closes : Ends (.bin .or) (Token.punct .rParen :: rest) := Ends.cons rfl
  rw [Cst.parsed,parseParen]
  cases starts : inner.startsNot with
  | true =>
      have isRead := stripped starts sourceLen (Token.punct .rParen :: rest) closes
      rw [Cst.tokens_of_startsNot inner starts,List.cons_append,next_cons]
      have isNot : (Lexed.mk (Token.word "not" :: (inner.body floats true ++
          Token.punct .rParen :: rest)) none sourceLen).peekKind = some .not :=
        rfl
      rw [if_pos isNot,if_pos rfl]
      refine isRead.map fun operand _ => ?_
      dsimp only
      rw [expect_close]
      rfl
  | false =>
      have isRead := whole starts sourceLen (Token.punct .rParen :: rest) closes
      rw [Cst.body_false] at isRead
      have notNot : (Lexed.mk (inner.tokens floats ++ Token.punct .rParen :: rest) none
          sourceLen).peekKind ≠ some .not := by
        obtain ⟨token,others,isCons,-,notNot⟩ := @Cst.tokens_head floats _ inner
        rw [isCons]
        intro same
        exact notNot starts (Option.some.inj same)
      rw [if_neg notNot,if_neg Bool.false_ne_true,
        ← @Option.map_id' _ (inner.parsed floats false)]
      refine isRead.map fun operand isParsed => ?_
      dsimp only
      rw [expect_close]
      show Except.ok (operand.withSpan noSpan,_) = _
      rw [← Cst.parsed_span inner isParsed,Expr.withSpan_span]

theorem length_moreArgTokens (args : List Derivation) :
    args.length ≤ (Cst.moreArgTokens floats args).length := by
  induction args with
  | nil => exact Nat.zero_le _
  | cons arg rest ih =>
      rw [Cst.moreArgTokens,List.length_cons,List.length_cons,List.length_append]
      omega

section Args

variable {expr : Nat → Parser Expr} {parenDepth : Nat}

theorem argsLoop_reads (sourceLen : Nat) (rest : List Token) (args : List Derivation)
    (reads : ∀ arg ∈ args, Reads (expr parenDepth) (arg.tokens floats) (arg.parsed floats false)
      (Ends (.bin .or))) :
    ∀ fuel, args.length ≤ fuel →
      Gives (argsLoop expr parenDepth fuel
        ⟨Cst.moreArgTokens floats args ++ Token.punct .rParen :: rest,none,sourceLen⟩)
        (Cst.parsedArgs floats args) ⟨Token.punct .rParen :: rest,none,sourceLen⟩ := by
  induction args with
  | nil =>
      intro fuel _
      cases fuel <;> rfl
  | cons arg others ih =>
      intro fuel enough
      rw [List.length_cons] at enough
      obtain ⟨fuel,rfl⟩ : ∃ less, fuel = less + 1 := ⟨fuel - 1,by omega⟩
      have ends : Ends (.bin .or) (Cst.moreArgTokens floats others ++ Token.punct .rParen :: rest) := by
        cases others <;> exact Ends.cons rfl
      have isRead := reads arg List.mem_cons_self sourceLen _ ends
      have later := ih (fun other member => reads other (List.mem_cons_of_mem _ member)) fuel
        (Nat.le_of_succ_le_succ enough)
      have isComma : (Lexed.mk (Cst.moreArgTokens floats (arg :: others) ++
          Token.punct .rParen :: rest) none sourceLen).peekKind = some .comma := by
        rw [Cst.moreArgTokens]
        rfl
      rw [argsLoop,if_pos isComma,Cst.moreArgTokens,List.cons_append,next_cons,Cst.parsedArgs,
        List.append_assoc]
      refine isRead.bind fun first _ => later.map fun exprs _ => ?_
      rfl

theorem parseArglist_reads (sourceLen : Nat) (rest : List Token) (args : List Derivation)
    (reads : ∀ arg ∈ args, Reads (expr parenDepth) (arg.tokens floats) (arg.parsed floats false)
      (Ends (.bin .or))) :
    Gives (parseArglist expr parenDepth
      ⟨Cst.argTokens floats args ++ Token.punct .rParen :: rest,none,sourceLen⟩)
      (Cst.parsedArgs floats args) ⟨Token.punct .rParen :: rest,none,sourceLen⟩ := by
  cases args with
  | nil => rfl
  | cons arg others =>
      have ends : Ends (.bin .or) (Cst.moreArgTokens floats others ++ Token.punct .rParen :: rest) := by
        cases others <;> exact Ends.cons rfl
      have isRead := reads arg List.mem_cons_self sourceLen _ ends
      have enough : others.length ≤
          (Cst.moreArgTokens floats others ++ Token.punct .rParen :: rest).length := by
        have := @length_moreArgTokens floats others
        rw [List.length_append]
        omega
      have later := argsLoop_reads sourceLen rest others
        (fun other member => reads other (List.mem_cons_of_mem _ member)) _ enough
      have notClose : (Lexed.mk (Cst.argTokens floats (arg :: others) ++ Token.punct .rParen :: rest)
          none sourceLen).peekKind ≠ some .rParen := by
        obtain ⟨token,more,isCons,notClose,-⟩ := @Cst.tokens_head floats _ arg
        rw [Cst.argTokens,isCons]
        intro same
        exact notClose (Option.some.inj same)
      rw [parseArglist,if_neg notClose,Cst.argTokens,Cst.parsedArgs,List.append_assoc]
      refine isRead.bind fun first _ => later.map fun exprs _ => ?_
      rfl

theorem parseNamed_reads (name : String) (isName : keywordKind name = .ident)
    (args : List Derivation)
    (reads : ∀ arg ∈ args, Reads (expr parenDepth) (arg.tokens floats) (arg.parsed floats false)
      (Ends (.bin .or))) (sourceLen : Nat) (rest : List Token) :
    Gives (parseNamed expr parenDepth (Token.word name)
      ⟨Token.punct .lParen :: (Cst.argTokens floats args ++ Token.punct .rParen :: rest),none,
        sourceLen⟩)
      ((Cst.call name isName args).parsed floats false) ⟨rest,none,sourceLen⟩ := by
  have isRead := parseArglist_reads sourceLen rest args reads
  have isOpen : (Lexed.mk (Token.punct .lParen :: (Cst.argTokens floats args ++
      Token.punct .rParen :: rest)) none sourceLen).peekKind = some .lParen :=
    rfl
  rw [parseNamed,if_pos isOpen,next_cons,Cst.parsed]
  refine isRead.map fun exprs _ => ?_
  dsimp only
  rw [expect_close]
  rfl

end Args

section Leaves

variable {expr : Nat → Parser Expr} {parenDepth : Nat}

theorem ident_reads (name : String) (isName : keywordKind name = .ident) :
    Reads (parseAtom texts expr parenDepth) [Token.word name] (some (.field name noSpan))
      (Ends .atom) := by
  intro sourceLen rest ends
  have noCall : (Lexed.mk rest none sourceLen).peekKind ≠ some .lParen := by
    cases rest with
    | nil => simp [Lexed.peekKind]
    | cons token others =>
        intro isOpen
        have notOpen := ends token rfl
        rw [Option.some.inj isOpen] at notOpen
        cases notOpen
  show parseAtom texts expr parenDepth ⟨Token.word name :: rest,none,sourceLen⟩ = _
  rw [parseAtom_of,Cst.word_kind isName]
  dsimp only
  rw [parseNamed,if_neg noCall]
  rfl

theorem int_reads (negative : Bool) (text : String) :
    Reads (parseAtom texts expr parenDepth) (signTokens negative ++ [Token.int text])
      (some ((Cst.int negative text).tree floats)) (Ends .atom) := by
  intro sourceLen rest _
  cases negative with
  | true =>
      have peeked : (Lexed.mk (Token.int text :: rest) none sourceLen).peekKind = some .intLit := rfl
      show parseAtom texts expr parenDepth
        ⟨Token.punct .minus :: Token.int text :: rest,none,sourceLen⟩ = _
      rw [parseAtom_of]
      show parseNegative _ _ = _
      rw [parseNegative,peeked]
      dsimp only
      rw [next_cons]
      rfl
  | false =>
      show parseAtom texts expr parenDepth ⟨Token.int text :: rest,none,sourceLen⟩ = _
      rw [parseAtom_of]
      rfl

theorem float_reads (negative : Bool) (text : String) :
    Reads (parseAtom texts expr parenDepth) (signTokens negative ++ [Token.float floats text])
      (some ((Cst.float negative text).tree floats)) (Ends .atom) := by
  intro sourceLen rest _
  cases negative with
  | true =>
      have peeked : (Lexed.mk (Token.float floats text :: rest) none sourceLen).peekKind =
          some .floatLit := rfl
      show parseAtom texts expr parenDepth
        ⟨Token.punct .minus :: Token.float floats text :: rest,none,sourceLen⟩ = _
      rw [parseAtom_of]
      show parseNegative _ _ = _
      rw [parseNegative,peeked]
      dsimp only
      rw [next_cons]
      rfl
  | false =>
      show parseAtom texts expr parenDepth ⟨Token.float floats text :: rest,none,sourceLen⟩ = _
      rw [parseAtom_of]
      rfl

theorem string_reads (content : String) :
    Reads (parseAtom texts expr parenDepth) [Token.quoted content]
      (some (.literal (.str content) noSpan)) (Ends .atom) := by
  intro sourceLen rest _
  show parseAtom texts expr parenDepth ⟨Token.quoted content :: rest,none,sourceLen⟩ = _
  rw [parseAtom_of]
  rfl

theorem constant_reads (flag : Bool) :
    Reads (parseAtom texts expr parenDepth) [Token.word (if flag then "true" else "false")]
      (some (.literal (.bool flag) noSpan)) (Ends .atom) := by
  intro sourceLen rest _
  show parseAtom texts expr parenDepth
    ⟨Token.word (if flag then "true" else "false") :: rest,none,sourceLen⟩ = _
  rw [parseAtom_of]
  cases flag <;> rfl

theorem null_reads :
    Reads (parseAtom texts expr parenDepth) [Token.word "null"] (some (.literal .null noSpan))
      (Ends .atom) := by
  intro sourceLen rest _
  show parseAtom texts expr parenDepth ⟨Token.word "null" :: rest,none,sourceLen⟩ = _
  rw [parseAtom_of]
  rfl

theorem paren_reads {inner : Derivation} (deeper : ∀ stripped : Bool,
    (stripped = true → inner.startsNot = true) →
      Reads (expr (parenDepth + 1)) (inner.body floats stripped) (inner.parsed floats stripped)
        (Ends (.bin .or))) :
    Reads (parseAtom texts expr parenDepth) ((Cst.paren inner).tokens floats)
      ((Cst.paren inner).parsed floats false) (Ends .atom) := by
  intro sourceLen rest _
  show Gives (parseAtom texts expr parenDepth
    ⟨Token.punct .lParen :: (inner.tokens floats ++ [Token.punct .rParen] ++ rest),none,
      sourceLen⟩) _ _
  rw [parseAtom_of,List.append_assoc,List.singleton_append]
  exact parseParen_reads (fun starts => deeper true fun _ => starts)
    (fun _ => deeper false fun never => by cases never) sourceLen rest

theorem call_reads {name : String} {isName : keywordKind name = .ident} {args : List Derivation}
    (reads : ∀ arg ∈ args, Reads (expr parenDepth) (arg.tokens floats) (arg.parsed floats false)
      (Ends (.bin .or))) :
    Reads (parseAtom texts expr parenDepth) ((Cst.call name isName args).tokens floats)
      ((Cst.call name isName args).parsed floats false) (Ends .atom) := by
  intro sourceLen rest _
  show Gives (parseAtom texts expr parenDepth
    ⟨Token.word name :: Token.punct .lParen :: (Cst.argTokens floats args ++
      [Token.punct .rParen] ++ rest),none,sourceLen⟩) _ _
  rw [parseAtom_of,Cst.word_kind isName,List.append_assoc,List.singleton_append]
  exact parseNamed_reads name isName args reads sourceLen rest

end Leaves

theorem parseExpr_succ (levels parenDepth : Nat) :
    parseExpr texts (levels + 1) parenDepth =
      parserOf (parseAtom texts (parseExpr texts levels) parenDepth) parenDepth (.bin .or) :=
  rfl

mutual

/-- Inside parentheses the parser gives what `parsed` says. -/
theorem Cst.parsesAs : {level : Level} → (node : Cst level) → ∀ stripped : Bool,
    (stripped = true → node.startsNot = true) → ∀ levels, node.nesting ≤ levels →
      ∀ parenDepth, parenDepth ≠ 0 →
        ParsesAs (parseAtom texts (parseExpr texts levels) parenDepth) parenDepth level
          (node.body floats stripped) (node.parsed floats stripped)
  | _, .operand level first, stripped, starts, levels, enough, parenDepth, inside => by
      have isFirst := Cst.parsesAs first stripped starts levels enough parenDepth inside
      rw [Cst.body,Cst.parsed]
      exact isFirst.reads.loops inside
  | _, .chain level left kind isOp right, stripped, starts, levels, enough, parenDepth, inside => by
      have isLeft := Cst.parsesAs left stripped starts levels
        (Nat.le_trans (Nat.le_max_left _ _) enough) parenDepth inside
      have isRight := Cst.parsesAs right false (fun never => by cases never) levels
        (Nat.le_trans (Nat.le_max_right _ _) enough) parenDepth inside
      rw [Cst.body,Cst.parsed,← Cst.body_false right]
      refine Loops.chain isLeft isRight.reads isOp ?_
      rintro expr (isParsed | isParsed)
      · exact Cst.parsed_span left isParsed
      · exact Cst.parsed_span right isParsed
  | _, .notOp inner, stripped, _, levels, enough, parenDepth, inside => by
      rw [Cst.body,Cst.parsed]
      cases stripped with
      | true =>
          have isInner := Cst.parsesAs inner false (fun never => by cases never) levels enough
            parenDepth inside
          rw [if_pos rfl,if_pos rfl,← Cst.body_false inner]
          exact isInner
      | false =>
          intro sourceLen rest _
          exact ⟨_,parserOf_error parseAtom_of .not⟩
  | _, .plain only, _, _, levels, enough, parenDepth, inside => by
      have isOnly := Cst.parsesAs only false (fun never => by cases never) levels enough
        parenDepth inside
      show ParsesAs _ _ _ (only.tokens floats) (only.parsed floats false)
      rw [← Cst.body_false only]
      exact isOnly
  | _, .single only, _, _, levels, enough, parenDepth, inside => by
      have isOnly := Cst.parsesAs only false (fun never => by cases never) levels enough
        parenDepth inside
      show ParsesAs _ _ _ (only.tokens floats) (only.parsed floats false)
      rw [← Cst.body_false only]
      exact reads_single isOnly.reads inside
  | _, .compare left kind isOp right, _, _, levels, enough, parenDepth, inside => by
      have isLeft := Cst.parsesAs left false (fun never => by cases never) levels
        (Nat.le_trans (Nat.le_max_left _ _) enough) parenDepth inside
      have isRight := Cst.parsesAs right false (fun never => by cases never) levels
        (Nat.le_trans (Nat.le_max_right _ _) enough) parenDepth inside
      show Reads _ (left.tokens floats ++ opToken kind :: right.tokens floats) _ _
      rw [Cst.parsed,← Cst.body_false left,← Cst.body_false right]
      refine reads_compare isLeft.reads isRight.reads inside isOp ?_
      rintro expr (isParsed | isParsed)
      · exact Cst.parsed_span left isParsed
      · exact Cst.parsed_span right isParsed
  | _, .paren inner, _, _, levels, enough, parenDepth, inside => by
      obtain ⟨levels,rfl⟩ : ∃ less, levels = less + 1 :=
        ⟨levels - 1,by rw [Cst.nesting] at enough; omega⟩
      have deeper : ∀ stripped : Bool, (stripped = true → inner.startsNot = true) →
          Reads (parseExpr texts (levels + 1) (parenDepth + 1)) (inner.body floats stripped)
            (inner.parsed floats stripped) (Ends (.bin .or)) := fun stripped starts =>
        (Cst.parsesAs inner stripped starts levels (Nat.le_of_succ_le_succ enough) (parenDepth + 1)
          (Nat.succ_ne_zero _)).reads
      show Reads _ ((Cst.paren inner).tokens floats) ((Cst.paren inner).parsed floats false) _
      exact paren_reads deeper
  | _, .call name isName args, _, _, levels, enough, parenDepth, inside => by
      have areArgs := Cst.argsParse args levels enough parenDepth inside
      show Reads _ ((Cst.call name isName args).tokens floats)
        ((Cst.call name isName args).parsed floats false) _
      exact call_reads areArgs
  | _, .ident name isName, _, _, levels, _, parenDepth, _ =>
      @ident_reads texts (parseExpr texts levels) parenDepth name isName
  | _, .int negative text, _, _, levels, _, parenDepth, _ =>
      @int_reads texts floats (parseExpr texts levels) parenDepth negative text
  | _, .float negative text, _, _, levels, _, parenDepth, _ =>
      @float_reads texts floats (parseExpr texts levels) parenDepth negative text
  | _, .string content, _, _, levels, _, parenDepth, _ =>
      @string_reads texts (parseExpr texts levels) parenDepth content
  | _, .constant flag, _, _, levels, _, parenDepth, _ =>
      @constant_reads texts (parseExpr texts levels) parenDepth flag
  | _, .null, _, _, levels, _, parenDepth, _ =>
      @null_reads texts (parseExpr texts levels) parenDepth

theorem Cst.argsParse : (args : List Derivation) → ∀ levels, Cst.argNesting args ≤ levels →
    ∀ parenDepth, parenDepth ≠ 0 → ∀ arg ∈ args,
      Reads (parseExpr texts levels parenDepth) (arg.tokens floats) (arg.parsed floats false)
        (Ends (.bin .or))
  | [], _, _, _, _, arg, member => by cases member
  | first :: rest, levels, enough, parenDepth, inside, arg, member => by
      rw [Cst.argNesting] at enough
      have later := Cst.argsParse rest levels (Nat.le_trans (Nat.le_max_right _ _) enough)
        parenDepth inside
      obtain ⟨levels,rfl⟩ : ∃ less, levels = less + 1 := ⟨levels - 1,by omega⟩
      have isFirst := Cst.parsesAs first false (fun never => by cases never) levels
        (Nat.le_of_succ_le_succ (Nat.le_trans (Nat.le_max_left _ _) enough)) parenDepth inside
      rcases List.mem_cons.mp member with rfl | inRest
      · rw [← Cst.body_false]
        exact isFirst.reads
      · exact later arg inRest

end

theorem binOp_iff {left right : Option Expr} {op : String} {leftTree rightTree : Expr} :
    ((left.bind fun leftExpr => right.map fun rightExpr =>
        Expr.binOp op leftExpr rightExpr noSpan) = some (.binOp op leftTree rightTree noSpan)) ↔
      left = some leftTree ∧ right = some rightTree := by
  constructor
  · intro same
    obtain ⟨leftExpr,rfl,isRight⟩ := Option.bind_eq_some_iff.mp same
    obtain ⟨rightExpr,rfl,isBoth⟩ := Option.map_eq_some_iff.mp isRight
    cases isBoth
    exact ⟨rfl,rfl⟩
  · rintro ⟨rfl,rfl⟩
    rfl

namespace Cst

theorem notsPlaced_of_startsNot : {level : Level} → (node : Cst level) → node.startsNot = true →
    node.notsPlaced false = false
  | _, .operand _ first, starts => by
      rw [notsPlaced]
      exact notsPlaced_of_startsNot first starts
  | _, .chain _ left _ _ right, starts => by
      rw [notsPlaced,notsPlaced_of_startsNot left starts]
      rfl
  | _, .notOp _, _ => rfl

theorem notsPlaced_head : {level : Level} → (node : Cst level) → node.startsNot = false →
    node.notsPlaced true = node.notsPlaced false
  | _, .operand _ first, starts => by
      rw [notsPlaced,notsPlaced]
      exact notsPlaced_head first starts
  | _, .chain _ left _ _ right, _ => rfl
  | _, .notOp _, starts => by cases starts
  | _, .plain _, _ => rfl
  | _, .single _, _ => rfl
  | _, .compare .., _ => rfl
  | _, .paren _, _ => rfl
  | _, .call .., _ => rfl
  | _, .ident .., _ => rfl
  | _, .int .., _ => rfl
  | _, .float .., _ => rfl
  | _, .string _, _ => rfl
  | _, .constant _, _ => rfl
  | _, .null, _ => rfl

mutual

/-- The parser gives the tree exactly when every `not` is placed. -/
theorem parsed_iff : {level : Level} → (node : Cst level) →
    (node.parsed floats false = some (node.tree floats) ↔ node.notsPlaced false = true)
  | _, .operand _ first => by
      rw [parsed,tree,notsPlaced]
      exact parsed_iff first
  | _, .chain _ left _ _ right => by
      rw [parsed,tree,notsPlaced,Bool.and_eq_true,binOp_iff,parsed_iff left,parsed_iff right]
  | _, .notOp inner => by
      rw [parsed,notsPlaced]
      simp
  | _, .plain only => by
      rw [parsed,tree,notsPlaced]
      exact parsed_iff only
  | _, .single only => by
      rw [parsed,tree,notsPlaced]
      exact parsed_iff only
  | _, .compare left _ _ right => by
      rw [parsed,tree,notsPlaced,Bool.and_eq_true,binOp_iff,parsed_iff left,parsed_iff right]
  | _, .paren inner => by
      rw [parsed,tree,notsPlaced]
      cases starts : inner.startsNot with
      | true =>
          rw [if_pos rfl]
          exact parsed_head_iff inner starts
      | false =>
          rw [if_neg Bool.false_ne_true,notsPlaced_head inner starts]
          exact parsed_iff inner
  | _, .call name _ args => by
      rw [parsed,tree,notsPlaced,← parsedArgs_iff args,Option.map_eq_some_iff]
      constructor
      · rintro ⟨exprs,areParsed,same⟩
        cases same
        exact areParsed
      · intro areParsed
        exact ⟨_,areParsed,rfl⟩
  | _, .ident .. => by simp [parsed,notsPlaced]
  | _, .int .. => by simp [parsed,notsPlaced]
  | _, .float .. => by simp [parsed,notsPlaced]
  | _, .string _ => by simp [parsed,notsPlaced]
  | _, .constant _ => by simp [parsed,notsPlaced]
  | _, .null => by simp [parsed,notsPlaced]

/-- A `not` behind the parenthesis is alone in it. -/
theorem parsed_head_iff : {level : Level} → (node : Cst level) → node.startsNot = true →
    ((node.parsed floats true).map (fun operand => Expr.unaryOp "not" operand noSpan) =
        some (node.tree floats) ↔ node.notsPlaced true = true)
  | _, .operand _ first, starts => by
      rw [parsed,tree,notsPlaced]
      exact parsed_head_iff first starts
  | _, .chain _ left _ _ right, starts => by
      rw [tree,notsPlaced,notsPlaced_of_startsNot left starts]
      simp
  | _, .notOp inner, _ => by
      rw [parsed,tree,notsPlaced,Bool.true_and,← parsed_iff inner,if_pos rfl,
        Option.map_eq_some_iff]
      constructor
      · rintro ⟨operand,isParsed,same⟩
        cases same
        exact isParsed
      · intro isParsed
        exact ⟨_,isParsed,rfl⟩

theorem parsedArgs_iff : (args : List Derivation) →
    (parsedArgs floats args = some (argTrees floats args) ↔ argsNotsPlaced args = true)
  | [] => by simp [parsedArgs,argTrees,argsNotsPlaced]
  | arg :: rest => by
      rw [parsedArgs,argTrees,argsNotsPlaced,Bool.and_eq_true,← parsed_iff arg,
        ← parsedArgs_iff rest]
      constructor
      · intro same
        obtain ⟨expr,isParsed,areOthers⟩ := Option.bind_eq_some_iff.mp same
        obtain ⟨others,areParsed,both⟩ := Option.map_eq_some_iff.mp areOthers
        cases both
        exact ⟨isParsed,areParsed⟩
      · rintro ⟨isParsed,areParsed⟩
        rw [isParsed,areParsed]
        rfl

end

end Cst

theorem parserOf_zero (atom : Parser Expr) (level : Level) (input : Lexed) :
    parserOf atom 0 level input = atom input := by
  cases isAtom : atom input with
  | error error => exact parserOf_error isAtom level
  | ok pair =>
      have assoc : ∀ {opOf : TokenKind → Option String} {operand : Parser Expr},
          operand input = .ok pair → leftAssoc opOf operand 0 input = .ok pair := by
        intro opOf operand isOperand
        rw [leftAssoc,isOperand]
        rfl
      have add : parseAdd atom 0 input = .ok pair := assoc (assoc isAtom)
      have cmp : parseCmp atom 0 input = .ok pair := by
        rw [parseCmp,add]
        rfl
      cases level with
      | bin level =>
          cases level with
          | or => exact assoc (assoc cmp)
          | and => exact assoc cmp
          | add => exact add
          | mul => exact assoc isAtom
      | not => exact cmp
      | cmp => exact cmp
      | atom => exact isAtom

theorem Ends.atom (ends : Ends level rest) : Ends .atom rest := by
  intro token member
  have stops := ends token member
  revert stops
  rcases level with (_ | _ | _ | _) | _ | _ | _ <;> cases token.kind <;> decide

mutual

theorem Cst.readsPlain : {level : Level} → (node : Cst level) → node.isPlain = true → ∀ levels,
    node.nesting ≤ levels →
      Reads (parseAtom texts (parseExpr texts levels) 0) (node.tokens floats)
        (node.parsed floats false) (Ends .atom)
  | _, .operand _ first, isPlain, levels, enough => Cst.readsPlain first isPlain levels enough
  | _, .chain .., isPlain, _, _ => by cases isPlain
  | _, .notOp _, isPlain, _, _ => by cases isPlain
  | _, .plain only, isPlain, levels, enough => Cst.readsPlain only isPlain levels enough
  | _, .single only, isPlain, levels, enough => Cst.readsPlain only isPlain levels enough
  | _, .compare .., isPlain, _, _ => by cases isPlain
  | _, .paren inner, _, levels, enough => by
      obtain ⟨levels,rfl⟩ : ∃ less, levels = less + 1 :=
        ⟨levels - 1,by rw [Cst.nesting] at enough; omega⟩
      exact paren_reads fun stripped starts =>
        (Cst.parsesAs inner stripped starts levels (Nat.le_of_succ_le_succ enough) 1
          Nat.one_ne_zero).reads
  | _, .call name isName args, isPlain, levels, enough =>
      call_reads (Cst.argsReadPlain args isPlain levels enough)
  | _, .ident name isName, _, levels, _ =>
      @ident_reads texts (parseExpr texts levels) 0 name isName
  | _, .int negative text, _, levels, _ =>
      @int_reads texts floats (parseExpr texts levels) 0 negative text
  | _, .float negative text, _, levels, _ =>
      @float_reads texts floats (parseExpr texts levels) 0 negative text
  | _, .string content, _, levels, _ =>
      @string_reads texts (parseExpr texts levels) 0 content
  | _, .constant flag, _, levels, _ =>
      @constant_reads texts (parseExpr texts levels) 0 flag
  | _, .null, _, levels, _ => @null_reads texts (parseExpr texts levels) 0

theorem Cst.argsReadPlain : (args : List Derivation) → Cst.argsPlain args = true → ∀ levels,
    Cst.argNesting args ≤ levels → ∀ arg ∈ args,
      Reads (parseExpr texts levels 0) (arg.tokens floats) (arg.parsed floats false)
        (Ends (.bin .or))
  | [], _, _, _, arg, member => by cases member
  | first :: rest, arePlain, levels, enough, arg, member => by
      rw [Cst.argNesting] at enough
      rw [Cst.argsPlain,Bool.and_eq_true] at arePlain
      have later := Cst.argsReadPlain rest arePlain.2 levels
        (Nat.le_trans (Nat.le_max_right _ _) enough)
      obtain ⟨levels,rfl⟩ : ∃ less, levels = less + 1 := ⟨levels - 1,by omega⟩
      have isFirst := Cst.readsPlain first arePlain.1 levels
        (Nat.le_of_succ_le_succ (Nat.le_trans (Nat.le_max_left _ _) enough))
      rcases List.mem_cons.mp member with rfl | inRest
      · intro sourceLen others ends
        rw [parseExpr_succ,parserOf_zero]
        exact isFirst sourceLen others ends.atom
      · exact later arg inRest

end

theorem parseExpr_plain {level : Level} (node : Cst level) (isPlain : node.isPlain = true)
    {levels : Nat} (enough : node.nesting ≤ levels) (sourceLen : Nat) :
    Gives (parseExpr texts (levels + 1) 0 ⟨node.tokens floats,none,sourceLen⟩)
      (node.parsed floats false) ⟨[],none,sourceLen⟩ := by
  have isRead := @Cst.readsPlain texts floats _ node isPlain levels enough sourceLen [] (fun _ never => by cases never)
  rw [List.append_nil] at isRead
  rw [parseExpr_succ,parserOf_zero]
  exact isRead

end Nodes

end Beava.Core
