/-
What the parser accepts is derived from the grammar.

Each function of the parser takes the tokens of a node of its level.  A `not`
behind a parenthesis is read in front of a whole expression, and derived in front
of the first operand of that expression.
-/

import Beava.Core.GrammarParse
import Beava.Lib.Checked

namespace Beava.Core

/-! ### Tokens of the tokenizer -/

/-- A token that the tokenizer can give, without its position. -/
inductive Proper (floats : Floats) : Token → Prop
  | punct {kind : TokenKind} {text : List Char} (isPunct : (kind,text) ∈ punctTexts) :
      Proper floats (Token.punct kind)
  | quoted (content : String) : Proper floats (Token.quoted content)
  | word (name : String) : Proper floats (Token.word name)
  | int (text : String) : Proper floats (Token.int text)
  | float (text : String) : Proper floats (Token.float floats text)

def Lexed.Proper (floats : Floats) (input : Lexed) : Prop :=
  ∀ token ∈ input.tokens, Core.Proper floats token.bare

section Tokens

variable {floats : Floats} {token : Token}
variable {kind : TokenKind}
variable {name : String}

theorem keywordKind_eq :
    (keywordKind name = .and → name = "and") ∧ (keywordKind name = .or → name = "or") ∧
      (keywordKind name = .true → name = "true") ∧ (keywordKind name = .false → name = "false") ∧
        (keywordKind name = .null → name = "null") ∧ (keywordKind name = .not → name = "not") := by
  unfold keywordKind
  refine ⟨?_,?_,?_,?_,?_,?_⟩
  all_goals
    intro isKind
    repeat' split at isKind
    all_goals first | assumption | cases isKind

/-- The kinds of brackets, the comma and operators. -/
def isPunctKind (kind : TokenKind) : Bool :=
  punctTexts.any fun pair => pair.1 = kind

theorem keywordKind_notPunct (name : String) : isPunctKind (keywordKind name) = false := by
  unfold keywordKind
  repeat' split
  all_goals decide

theorem Proper.punct_eq (proper : Proper floats token) (isPunct : isPunctKind token.kind = true) :
    token = Token.punct token.kind := by
  cases proper with
  | punct _ => rfl
  | quoted _ => cases isPunct
  | word name =>
      have isWord : isPunctKind (keywordKind name) = true := isPunct
      rw [keywordKind_notPunct] at isWord
      cases isWord
  | int _ => cases isPunct
  | float _ => cases isPunct

theorem Proper.word_eq (proper : Proper floats token) (notPunct : isPunctKind token.kind = false)
    (notNumber : token.kind ≠ .intLit ∧ token.kind ≠ .floatLit) (notString : token.kind ≠ .strLit) :
    token = Token.word token.text := by
  cases proper with
  | @punct kind text isPunct =>
      have isMember : isPunctKind kind = true :=
        List.any_eq_true.mpr ⟨_,isPunct,decide_eq_true rfl⟩
      have notMember : isPunctKind kind = false := notPunct
      rw [isMember] at notMember
      cases notMember
  | quoted _ => exact absurd rfl notString
  | word _ => rfl
  | int _ => exact absurd rfl notNumber.1
  | float _ => exact absurd rfl notNumber.2

theorem Proper.int_eq (proper : Proper floats token) (isInt : token.kind = .intLit) :
    token = Token.int token.text := by
  cases proper with
  | @punct kind text isPunct =>
      have notInt := (punct_head _ isPunct).2.1
      exact absurd isInt notInt
  | quoted _ => cases isInt
  | word name => exact absurd isInt (keywordKind_word name).1
  | int _ => rfl
  | float _ => cases isInt

theorem Proper.float_eq (proper : Proper floats token) (isFloat : token.kind = .floatLit) :
    token = Token.float floats token.text := by
  cases proper with
  | @punct kind text isPunct =>
      have notFloat := (punct_head _ isPunct).2.2
      exact absurd isFloat notFloat
  | quoted _ => cases isFloat
  | word name => exact absurd isFloat (keywordKind_word name).2
  | int _ => cases isFloat
  | float _ => rfl

theorem punctTexts_notString : ∀ pair ∈ punctTexts, pair.1 ≠ .strLit := by
  decide

theorem Proper.quoted_eq (proper : Proper floats token) (isString : token.kind = .strLit) :
    token = Token.quoted token.text := by
  cases proper with
  | @punct kind text isPunct => exact absurd isString (punctTexts_notString _ isPunct)
  | quoted _ => rfl
  | word name =>
      have isWord : keywordKind name = .strLit := isString
      unfold keywordKind at isWord
      repeat' split at isWord
      all_goals cases isWord
  | int _ => cases isString
  | float _ => cases isString

theorem Proper.keyword_eq (proper : Proper floats token) (isKind : token.kind = kind)
    (isKeyword : keywordKind token.text = kind → token.text = name)
    (plain : isPunctKind kind = false ∧ kind ≠ .intLit ∧ kind ≠ .floatLit ∧ kind ≠ .strLit) :
    token = Token.word name := by
  rw [← isKind] at plain
  have isWord := proper.word_eq plain.1 ⟨plain.2.1,plain.2.2.1⟩ plain.2.2.2
  have sameKind : token.kind = keywordKind token.text := congrArg Token.kind isWord
  rw [← isKeyword (sameKind.symm.trans isKind)]
  exact isWord

/-- The kinds of binary operators. -/
def isOpKind (kind : TokenKind) : Bool :=
  isPunctKind kind || kind = .and || kind = .or

theorem Proper.op_eq (proper : Proper floats token) (isOp : isOpKind token.kind = true) :
    token = opToken token.kind := by
  simp only [isOpKind,Bool.or_eq_true,decide_eq_true_eq] at isOp
  rcases isOp with (isPunct | isAnd) | isOr
  · have same : opToken token.kind = Token.punct token.kind := by
      revert isPunct
      cases token.kind <;> intro isPunct <;> first | rfl | cases isPunct
    rw [same]
    exact proper.punct_eq isPunct
  · rw [isAnd]
    exact proper.keyword_eq isAnd keywordKind_eq.1 (by decide)
  · rw [isOr]
    exact proper.keyword_eq isOr keywordKind_eq.2.1 (by decide)

theorem isOpKind_of {level : BinLevel} (isOp : (level.opOf kind).isSome = true) :
    isOpKind kind = true := by
  cases level <;> cases kind <;> first | (cases isOp; done) | decide

theorem isOpKind_cmp (isOp : (cmpOpOf kind).isSome = true) : isOpKind kind = true := by
  cases kind <;> first | (cases isOp; done) | decide

end Tokens

/-! ### What has been read -/

/-- The tokens between two points of the input. -/
structure Takes (input : Lexed) (tokens : List Token) (left : Lexed) : Prop where
  isCut : input.tokens.map Token.bare = tokens ++ left.tokens.map Token.bare
  sameFailure : left.failure = input.failure

/-- The end has not been reached in front of an error. -/
def Lexed.Whole (input : Lexed) : Prop :=
  input.tokens = [] → input.failure = none

section Takes

variable {floats : Floats} {input middle left : Lexed} {tokens more : List Token}
variable {token : Token} {kind : TokenKind}

theorem Takes.refl (input : Lexed) : Takes input [] input :=
  ⟨rfl,rfl⟩

theorem Takes.trans (first : Takes input tokens middle) (second : Takes middle more left) :
    Takes input (tokens ++ more) left where
  isCut := by rw [first.isCut,second.isCut,List.append_assoc]
  sameFailure := second.sameFailure.trans first.sameFailure

theorem Takes.proper (takes : Takes input tokens left) (proper : input.Proper floats) :
    left.Proper floats := by
  have all : ∀ token ∈ input.tokens.map Token.bare, Proper floats token := by
    intro token member
    obtain ⟨original,isMember,rfl⟩ := List.mem_map.mp member
    exact proper original isMember
  intro token member
  refine all token.bare ?_
  rw [takes.isCut]
  exact List.mem_append_right _ (List.mem_map_of_mem member)

theorem next_takes (isNext : input.next = .ok (token,left)) :
    Takes input [token.bare] left ∧ left.Whole ∧ input.tokens.head? = some token := by
  obtain ⟨tokens,failure,sourceLen⟩ := input
  cases tokens with
  | nil => cases isNext
  | cons first rest =>
      cases rest with
      | nil =>
          cases failure with
          | some error => cases isNext
          | none =>
              cases isNext
              exact ⟨⟨rfl,rfl⟩,fun _ => rfl,rfl⟩
      | cons second others =>
          cases isNext
          exact ⟨⟨rfl,rfl⟩,fun never => (List.cons_ne_nil _ _ never).elim,rfl⟩

theorem next_peeked (isPeek : input.peekKind = some kind) (isNext : input.next = .ok (token,left)) :
    token.bare.kind = kind := by
  obtain ⟨-,-,isHead⟩ := next_takes isNext
  rw [Lexed.peekKind,isHead] at isPeek
  exact Option.some.inj isPeek

theorem next_proper (proper : input.Proper floats) (isNext : input.next = .ok (token,left)) :
    Proper floats token.bare := by
  obtain ⟨-,-,isHead⟩ := next_takes isNext
  exact proper token (List.mem_of_head? isHead)

theorem next_op (proper : input.Proper floats) (isPeek : input.peekKind = some kind)
    (isOp : isOpKind kind = true) (isNext : input.next = .ok (token,left)) :
    Takes input [opToken kind] left := by
  obtain ⟨takes,-,-⟩ := next_takes isNext
  have isKind := next_peeked isPeek isNext
  have isToken := (next_proper proper isNext).op_eq (by rw [isKind]; exact isOp)
  rw [isKind] at isToken
  rw [isToken] at takes
  exact takes

theorem next_punct (proper : input.Proper floats) (isPeek : input.peekKind = some kind)
    (isPunct : isPunctKind kind = true) (isNext : input.next = .ok (token,left)) :
    Takes input [Token.punct kind] left := by
  obtain ⟨takes,-,-⟩ := next_takes isNext
  have isKind := next_peeked isPeek isNext
  have isToken := (next_proper proper isNext).punct_eq (by rw [isKind]; exact isPunct)
  rw [isKind] at isToken
  rw [isToken] at takes
  exact takes

theorem expect_takes {message : String} (proper : input.Proper floats)
    (isPunct : isPunctKind kind = true)
    (isExpected : input.expect kind message = .ok (token,left)) :
    Takes input [Token.punct kind] left ∧ left.Whole := by
  rw [Lexed.expect] at isExpected
  split at isExpected
  · rename_i isPeek
    exact ⟨next_punct proper isPeek isPunct isExpected,(next_takes isExpected).2.1⟩
  · cases isExpected

end Takes

def Derives (floats : Floats) (parser : Parser Expr) (level : Level) : Prop :=
  ∀ input expr left, input.Proper floats → parser input = .ok (expr,left) →
    ∃ node : Cst level, Takes input (node.tokens floats) left ∧ left.Whole

section Levels

variable {floats : Floats}
variable {atom : Parser Expr} {parenDepth : Nat}

theorem peek_op {input : Lexed} {opOf : TokenKind → Option String} {op : String}
    (isPeek : input.peekKind.bind opOf = some op) :
    ∃ kind, input.peekKind = some kind ∧ (opOf kind).isSome = true := by
  obtain ⟨kind,isKind,isOp⟩ := Option.bind_eq_some_iff.mp isPeek
  exact ⟨kind,isKind,by rw [isOp]; rfl⟩

theorem leftLoop_derives {level : BinLevel} {operand : Parser Expr}
    (derives : Derives floats operand level.below) {start : Lexed} (proper : start.Proper floats) :
    ∀ fuel expr input result left, leftLoop level.opOf operand fuel expr input = .ok (result,left) →
      ∀ node : Cst (.bin level), Takes start (node.tokens floats) input → input.Whole →
        ∃ whole : Cst (.bin level), Takes start (whole.tokens floats) left ∧ left.Whole := by
  intro fuel
  induction fuel with
  | zero =>
      intro expr input result left isLoop node takes isWhole
      cases isLoop
      exact ⟨node,takes,isWhole⟩
  | succ fuel ih =>
      intro expr input result left isLoop node takes isWhole
      rw [leftLoop] at isLoop
      split at isLoop
      · cases isLoop
        exact ⟨node,takes,isWhole⟩
      · rename_i op isPeek
        obtain ⟨kind,isKind,isOp⟩ := peek_op isPeek
        obtain ⟨⟨token,behind⟩,isNext,isLoop⟩ := Checked.bind_eq_ok isLoop
        obtain ⟨⟨right,rest⟩,isRight,isLoop⟩ := Checked.bind_eq_ok isLoop
        have inputProper := takes.proper proper
        have takesOp := next_op inputProper isKind (isOpKind_of isOp) isNext
        obtain ⟨rightNode,takesRight,rightWhole⟩ :=
          derives _ _ _ (takesOp.proper inputProper) isRight
        refine ih _ _ _ _ isLoop (.chain level node kind isOp rightNode) ?_ rightWhole
        have takesAll := takes.trans (takesOp.trans takesRight)
        rw [Cst.tokens]
        exact takesAll

theorem leftAssoc_derives {level : BinLevel} {operand : Parser Expr} {parenDepth : Nat}
    (derives : Derives floats operand level.below) :
    Derives floats (leftAssoc level.opOf operand parenDepth) (.bin level) := by
  intro input expr left proper isParsed
  obtain ⟨⟨first,behind⟩,isFirst,isParsed⟩ := Checked.bind_eq_ok isParsed
  obtain ⟨node,takes,whole⟩ := derives _ _ _ proper isFirst
  split at isParsed
  · cases isParsed
    exact ⟨.operand level node,takes,whole⟩
  · exact leftLoop_derives derives proper _ _ _ _ _ isParsed (.operand level node) takes whole

theorem parseCmp_derives (derives : Derives floats (parseAdd atom parenDepth) (.bin .add)) :
    Derives floats (parseCmp atom parenDepth) .cmp := by
  intro input expr left proper isParsed
  obtain ⟨⟨first,behind⟩,isFirst,isParsed⟩ := Checked.bind_eq_ok isParsed
  obtain ⟨node,takes,whole⟩ := derives _ _ _ proper isFirst
  split at isParsed
  · cases isParsed
    exact ⟨.single node,takes,whole⟩
  · split at isParsed
    · cases isParsed
      exact ⟨.single node,takes,whole⟩
    · rename_i op isPeek
      obtain ⟨kind,isKind,isOp⟩ := peek_op isPeek
      obtain ⟨⟨token,afterOp⟩,isNext,isParsed⟩ := Checked.bind_eq_ok isParsed
      obtain ⟨⟨right,rest⟩,isRight,isParsed⟩ := Checked.bind_eq_ok isParsed
      cases isParsed
      have behindProper := takes.proper proper
      have takesOp := next_op behindProper isKind (isOpKind_cmp isOp) isNext
      obtain ⟨rightNode,takesRight,rightWhole⟩ :=
        derives _ _ _ (takesOp.proper behindProper) isRight
      refine ⟨.compare node kind isOp rightNode,?_,rightWhole⟩
      rw [Cst.tokens]
      exact takes.trans (takesOp.trans takesRight)

theorem parseOr_derives (derives : Derives floats atom .atom) :
    Derives floats (parseOr atom parenDepth) (.bin .or) := by
  have mul : Derives floats (parseMul atom parenDepth) (.bin .mul) :=
    @leftAssoc_derives floats .mul _ _ derives
  have add : Derives floats (parseAdd atom parenDepth) (.bin .add) :=
    @leftAssoc_derives floats .add _ _ mul
  have not : Derives floats (parseNot atom parenDepth) .not := by
    intro input expr left proper isParsed
    obtain ⟨node,takes⟩ := parseCmp_derives add _ _ _ proper isParsed
    exact ⟨.plain node,takes⟩
  have and : Derives floats (parseAnd atom parenDepth) (.bin .and) :=
    @leftAssoc_derives floats .and _ _ not
  exact @leftAssoc_derives floats .or _ _ and

end Levels

section Atoms

variable {floats : Floats} {texts : DebugTexts} {expr : Nat → Parser Expr}
variable {parenDepth : Nat} {result : Expr}
variable {input left : Lexed} {token : Token} {rest : List Token}

/-- A `not` in front of an expression. -/
theorem behindNot : {level : Level} → Cst.belowNot level = false → (node : Cst level) →
    ∃ negated : Cst level, negated.tokens floats = Token.word "not" :: node.tokens floats
  | _, _, .operand .or first => by
      obtain ⟨negated,isNegated⟩ := behindNot rfl first
      exact ⟨.operand .or negated,isNegated⟩
  | _, _, .operand .and first => by
      obtain ⟨negated,isNegated⟩ := behindNot rfl first
      exact ⟨.operand .and negated,isNegated⟩
  | _, _, .chain .or left kind isOp right => by
      obtain ⟨negated,isNegated⟩ := behindNot rfl left
      refine ⟨.chain .or negated kind isOp right,?_⟩
      rw [Cst.tokens,Cst.tokens,isNegated,List.cons_append]
  | _, _, .chain .and left kind isOp right => by
      obtain ⟨negated,isNegated⟩ := behindNot rfl left
      refine ⟨.chain .and negated kind isOp right,?_⟩
      rw [Cst.tokens,Cst.tokens,isNegated,List.cons_append]
  | _, _, .notOp inner => ⟨.notOp (.notOp inner),rfl⟩
  | _, _, .plain only => ⟨.notOp (.plain only),rfl⟩

theorem parseParen_derives {start : Nat}
    (derives : Derives floats (expr (parenDepth + 1)) (.bin .or)) (proper : input.Proper floats)
    (isParsed : parseParen expr parenDepth start input = .ok (result,left)) :
    ∃ inner : Derivation,
      Takes input (inner.tokens floats ++ [Token.punct .rParen]) left ∧ left.Whole := by
  rw [parseParen] at isParsed
  split at isParsed
  · rename_i isPeek
    obtain ⟨⟨token,behind⟩,isNext,isParsed⟩ := Checked.bind_eq_ok isParsed
    obtain ⟨⟨operand,rest⟩,isOperand,isParsed⟩ := Checked.bind_eq_ok isParsed
    obtain ⟨⟨close,last⟩,isClose,isParsed⟩ := Checked.bind_eq_ok isParsed
    cases isParsed
    obtain ⟨takesNot,-,-⟩ := next_takes isNext
    have behindProper := takesNot.proper proper
    obtain ⟨node,takesNode,-⟩ := derives _ _ _ behindProper isOperand
    obtain ⟨takesClose,whole⟩ := expect_takes (takesNode.proper behindProper) rfl isClose
    have isKind : token.bare.kind = .not := next_peeked isPeek isNext
    have isToken := (next_proper proper isNext).keyword_eq isKind keywordKind_eq.2.2.2.2.2 (by decide)
    rw [isToken] at takesNot
    obtain ⟨negated,isNegated⟩ := @behindNot floats _ rfl node
    refine ⟨negated,?_,whole⟩
    rw [isNegated]
    exact takesNot.trans (takesNode.trans takesClose)
  · obtain ⟨⟨inner,rest⟩,isInner,isParsed⟩ := Checked.bind_eq_ok isParsed
    obtain ⟨⟨close,last⟩,isClose,isParsed⟩ := Checked.bind_eq_ok isParsed
    cases isParsed
    obtain ⟨node,takesNode,-⟩ := derives _ _ _ proper isInner
    obtain ⟨takesClose,whole⟩ := expect_takes (takesNode.proper proper) rfl isClose
    exact ⟨node,takesNode.trans takesClose,whole⟩

theorem argsLoop_derives (derives : Derives floats (expr parenDepth) (.bin .or)) :
    ∀ fuel input exprs left, input.Proper floats →
      argsLoop expr parenDepth fuel input = .ok (exprs,left) →
        ∃ args : List Derivation, Takes input (Cst.moreArgTokens floats args) left := by
  intro fuel
  induction fuel with
  | zero =>
      intro input exprs left _ isLoop
      cases isLoop
      exact ⟨[],.refl _⟩
  | succ fuel ih =>
      intro input exprs left proper isLoop
      rw [argsLoop] at isLoop
      split at isLoop
      · rename_i isPeek
        obtain ⟨⟨token,behind⟩,isNext,isLoop⟩ := Checked.bind_eq_ok isLoop
        obtain ⟨⟨arg,rest⟩,isArg,isLoop⟩ := Checked.bind_eq_ok isLoop
        obtain ⟨⟨others,last⟩,areOthers,isLoop⟩ := Checked.bind_eq_ok isLoop
        cases isLoop
        have takesComma := next_punct proper isPeek rfl isNext
        have behindProper := takesComma.proper proper
        obtain ⟨node,takesNode,-⟩ := derives _ _ _ behindProper isArg
        obtain ⟨args,takesArgs⟩ := ih _ _ _ (takesNode.proper behindProper) areOthers
        refine ⟨node :: args,?_⟩
        rw [Cst.moreArgTokens]
        exact takesComma.trans (takesNode.trans takesArgs)
      · cases isLoop
        exact ⟨[],.refl _⟩

theorem parseArglist_derives (derives : Derives floats (expr parenDepth) (.bin .or))
    {exprs : List Expr} (proper : input.Proper floats)
    (isParsed : parseArglist expr parenDepth input = .ok (exprs,left)) :
    ∃ args : List Derivation, Takes input (Cst.argTokens floats args) left := by
  rw [parseArglist] at isParsed
  split at isParsed
  · cases isParsed
    exact ⟨[],.refl _⟩
  · obtain ⟨⟨first,rest⟩,isFirst,isParsed⟩ := Checked.bind_eq_ok isParsed
    obtain ⟨⟨others,last⟩,areOthers,isParsed⟩ := Checked.bind_eq_ok isParsed
    cases isParsed
    obtain ⟨node,takesNode,-⟩ := derives _ _ _ proper isFirst
    obtain ⟨args,takesArgs⟩ := argsLoop_derives derives _ _ _ _ (takesNode.proper proper) areOthers
    refine ⟨node :: args,?_⟩
    rw [Cst.argTokens]
    exact takesNode.trans takesArgs

theorem parseNamed_derives (derives : Derives floats (expr parenDepth) (.bin .or)) {name : Token}
    (proper : input.Proper floats) (isName : keywordKind name.text = .ident)
    (isParsed : parseNamed expr parenDepth name input = .ok (result,left)) (whole : input.Whole) :
    ∃ node : Cst .atom, (∃ more, node.tokens floats = Token.word name.text :: more ∧
      Takes input more left) ∧ left.Whole := by
  rw [parseNamed] at isParsed
  split at isParsed
  · rename_i isPeek
    obtain ⟨⟨token,behind⟩,isNext,isParsed⟩ := Checked.bind_eq_ok isParsed
    obtain ⟨⟨args,rest⟩,areArgs,isParsed⟩ := Checked.bind_eq_ok isParsed
    obtain ⟨⟨close,last⟩,isClose,isParsed⟩ := Checked.bind_eq_ok isParsed
    cases isParsed
    have takesOpen := next_punct proper isPeek rfl isNext
    have behindProper := takesOpen.proper proper
    obtain ⟨nodes,takesArgs⟩ := parseArglist_derives derives behindProper areArgs
    obtain ⟨takesClose,isWhole⟩ := expect_takes (takesArgs.proper behindProper) rfl isClose
    exact ⟨.call name.text isName nodes,⟨_,rfl,takesOpen.trans (takesArgs.trans takesClose)⟩,
      isWhole⟩
  · cases isParsed
    exact ⟨.ident name.text isName,⟨[],rfl,.refl _⟩,whole⟩

theorem parseNegative_derives {minus : Token} (proper : input.Proper floats)
    (isParsed : parseNegative minus input = .ok (result,left)) :
    ∃ node : Cst .atom, (∃ more, node.tokens floats = Token.punct .minus :: more ∧
      Takes input more left) ∧ left.Whole := by
  rw [parseNegative] at isParsed
  split at isParsed
  · rename_i isPeek
    obtain ⟨⟨number,behind⟩,isNext,isParsed⟩ := Checked.bind_eq_ok isParsed
    cases isParsed
    obtain ⟨takes,whole,-⟩ := next_takes isNext
    rw [(next_proper proper isNext).int_eq (next_peeked isPeek isNext)] at takes
    exact ⟨.int true number.bare.text,⟨_,rfl,takes⟩,whole⟩
  · rename_i isPeek
    obtain ⟨⟨number,behind⟩,isNext,isParsed⟩ := Checked.bind_eq_ok isParsed
    cases isParsed
    obtain ⟨takes,whole,-⟩ := next_takes isNext
    rw [(next_proper proper isNext).float_eq (next_peeked isPeek isNext)] at takes
    exact ⟨.float true number.bare.text,⟨_,rfl,takes⟩,whole⟩
  · cases isParsed

theorem leaf_derives
    (isTokens : input.tokens = token :: rest) (node : Cst .atom) (make : Token → Literal)
    (isNode : [token.bare] = node.tokens floats)
    (isLeaf : (do
      let taken ← input.next
      return (.literal (make taken.1) taken.1.span,taken.2) : Except ParseError (Expr × Lexed)) =
        .ok (result,left)) :
    ∃ node : Cst .atom, Takes input (node.tokens floats) left ∧ left.Whole := by
  obtain ⟨⟨taken,behind⟩,isNext,isLeaf⟩ := Checked.bind_eq_ok isLeaf
  cases isLeaf
  obtain ⟨takes,whole,isHead⟩ := next_takes isNext
  rw [isTokens] at isHead
  cases isHead
  rw [isNode] at takes
  exact ⟨node,takes,whole⟩

theorem word_derives (derives : Derives floats (expr parenDepth) (.bin .or))
    (proper : input.Proper floats)
    (isTokens : input.tokens = token :: rest) (isKind : token.kind = .ident)
    (isParsed : (do
      let taken ← input.next
      parseNamed expr parenDepth taken.1 taken.2) = .ok (result,left)) :
    ∃ node : Cst .atom, Takes input (node.tokens floats) left ∧ left.Whole := by
  obtain ⟨⟨taken,behind⟩,isNext,isParsed⟩ := Checked.bind_eq_ok isParsed
  obtain ⟨takesName,whole,isHead⟩ := next_takes isNext
  have tokenProper := proper taken (List.mem_of_mem_head? isHead)
  rw [isTokens] at isHead
  cases isHead
  have isWord := tokenProper.word_eq (by rw [Token.bare_kind,isKind]; rfl)
    (by rw [Token.bare_kind,isKind]; decide) (by rw [Token.bare_kind,isKind]; decide)
  have isName : keywordKind token.text = .ident := (congrArg Token.kind isWord).symm.trans isKind
  obtain ⟨node,⟨more,isNode,takesMore⟩,isWhole⟩ :=
    parseNamed_derives derives (takesName.proper proper) isName isParsed whole
  refine ⟨node,?_,isWhole⟩
  rw [isWord] at takesName
  rw [isNode]
  exact takesName.trans takesMore

theorem parseAtom_derives (same : Derives floats (expr parenDepth) (.bin .or))
    (deeper : Derives floats (expr (parenDepth + 1)) (.bin .or)) :
    Derives floats (parseAtom texts expr parenDepth) .atom := by
  intro input result left proper isParsed
  rw [parseAtom] at isParsed
  cases isTokens : input.tokens with
  | nil =>
      rw [isTokens] at isParsed
      cases isParsed
  | cons token rest =>
      rw [isTokens] at isParsed
      dsimp only at isParsed
      have tokenProper : Proper floats token.bare :=
        proper token (by rw [isTokens]; exact List.mem_cons_self)
      have isPeek : input.peekKind = some token.kind := by
        rw [Lexed.peekKind,isTokens]
        rfl
      have keyword : ∀ {name : String} {kind : TokenKind}, token.kind = kind →
          (keywordKind token.text = kind → token.text = name) →
          (isPunctKind kind = false ∧ kind ≠ .intLit ∧ kind ≠ .floatLit ∧ kind ≠ .strLit) →
          [token.bare] = [Token.word name] := by
        intro name kind isKind isKeyword plain
        rw [tokenProper.keyword_eq isKind isKeyword plain]
      cases isKind : token.kind with
      | lParen =>
          rw [isKind] at isParsed isPeek
          obtain ⟨⟨taken,behind⟩,isNext,isParsed⟩ := Checked.bind_eq_ok isParsed
          have takesOpen := next_punct proper isPeek rfl isNext
          obtain ⟨inner,takesInner,whole⟩ :=
            parseParen_derives deeper (takesOpen.proper proper) isParsed
          exact ⟨.paren inner,takesOpen.trans takesInner,whole⟩
      | true =>
          rw [isKind] at isParsed
          exact leaf_derives isTokens (.constant true) (fun _ => .bool true)
            (keyword isKind keywordKind_eq.2.2.1 (by decide)) isParsed
      | false =>
          rw [isKind] at isParsed
          exact leaf_derives isTokens (.constant false) (fun _ => .bool false)
            (keyword isKind keywordKind_eq.2.2.2.1 (by decide)) isParsed
      | null =>
          rw [isKind] at isParsed
          exact leaf_derives isTokens .null (fun _ => .null)
            (keyword isKind keywordKind_eq.2.2.2.2.1 (by decide)) isParsed
      | ident =>
          rw [isKind] at isParsed
          exact word_derives same proper isTokens isKind isParsed
      | intLit =>
          rw [isKind] at isParsed
          exact leaf_derives isTokens (.int false token.text) (fun taken => .int taken.intVal)
            (by rw [tokenProper.int_eq isKind]; rfl) isParsed
      | floatLit =>
          rw [isKind] at isParsed
          exact leaf_derives isTokens (.float false token.text) (fun taken => .float taken.floatVal)
            (by rw [tokenProper.float_eq isKind]; rfl) isParsed
      | strLit =>
          rw [isKind] at isParsed
          exact leaf_derives isTokens (.string token.text) (fun taken => .str taken.text)
            (by rw [tokenProper.quoted_eq isKind]; rfl) isParsed
      | minus =>
          rw [isKind] at isParsed isPeek
          obtain ⟨⟨taken,behind⟩,isNext,isParsed⟩ := Checked.bind_eq_ok isParsed
          have takesMinus := next_punct proper isPeek rfl isNext
          obtain ⟨node,⟨more,isNode,takesMore⟩,isWhole⟩ :=
            parseNegative_derives (takesMinus.proper proper) isParsed
          refine ⟨node,?_,isWhole⟩
          rw [isNode]
          exact takesMinus.trans takesMore
      | and | or | not =>
          rw [isKind] at isParsed
          obtain ⟨taken,-,isParsed⟩ := Checked.bind_eq_ok isParsed
          cases isParsed
      | _ =>
          rw [isKind] at isParsed
          cases isParsed

end Atoms

theorem parseExpr_derives (floats : Floats) (texts : DebugTexts) (levels : Nat) :
    ∀ parenDepth, Derives floats (parseExpr texts levels parenDepth) (.bin .or) := by
  induction levels with
  | zero =>
      intro parenDepth input expr left _ isParsed
      cases isParsed
  | succ levels ih =>
      intro parenDepth
      exact parseOr_derives (parseAtom_derives (ih parenDepth) (ih (parenDepth + 1)))

end Beava.Core
