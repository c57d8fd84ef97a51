/-
The parser and its grammar.

A text of an expression in parentheses is parsed to the tree of the grammar
exactly when its numerals have values and every `not` stands where the parser
looks for it.  A text that is parsed is derived from the grammar, but its
identifiers may have any number of dots.
-/

import Beava.Core.ChainTyping
import Beava.Core.GrammarSound

namespace Beava.Core

section

variable {floats : Floats} {texts : DebugTexts} {chars : List Char}
variable {tokens : List Token}
variable {token : Token} {tree expr : Expr}

theorem Spelling.proper {text rest : List Char} (spelling : Spelling floats text token rest) :
    Proper floats token := by
  cases spelling with
  | punct isPunct _ => exact .punct isPunct
  | quoted _ => exact .quoted _
  | word _ _ _ => exact .word _
  | int _ _ _ => exact .int _
  | float _ _ _ => exact .float _

theorem tokenizeFrom_proper {sourceLen : Nat} :
    ∀ fuel pos chars, (tokenizeFrom floats texts sourceLen fuel pos chars).Proper floats := by
  intro fuel
  induction fuel with
  | zero =>
      intro pos chars token member
      cases member
  | succ fuel ih =>
      intro pos chars
      rw [tokenizeFrom]
      dsimp only
      split
      · intro token member
        cases member
      · rename_i ch rest _
        split
        · intro token member
          cases member
        · rename_i scanned more isScan
          obtain ⟨text,-,spelling,-⟩ := spelling_of_scan isScan
          intro token member
          rcases List.mem_cons.mp member with rfl | inLater
          · exact spelling.proper
          · exact ih _ _ token inLater

theorem tokenize_sourceLen : (tokenize floats texts chars).sourceLen = chars.length := by
  rw [tokenize,tokenizeFrom]
  dsimp only
  split
  · rfl
  · split <;> rfl

theorem tokenize_bare (spelled : SpelledBy floats chars tokens)
    (denote : ∀ token ∈ tokens, token.denotes floats = true) :
    (tokenize floats texts chars).bare = ⟨tokens,none,chars.length⟩ := by
  obtain ⟨isTokens,noFailure⟩ := (tokenize_spelled texts spelled).1 denote
  rw [Lexed.bare,isTokens,noFailure,tokenize_sourceLen]

theorem SpelledBy.bare {tokens : List Token} (spelled : SpelledBy floats chars tokens) :
    tokens.map Token.bare = tokens := by
  induction spelled with
  | done _ => rfl
  | next _ spelling _ ih =>
      rw [List.map_cons,ih]
      cases spelling <;> rfl

theorem parseTree_derived (isParsed : parseTree floats texts chars = .ok tree) :
    (tokenize floats texts chars).failure = none ∧ ∃ node : Derivation,
      node.tokens floats = (tokenize floats texts chars).tokens.map Token.bare := by
  have proper : (tokenize floats texts chars).Proper floats := tokenizeFrom_proper _ _ _
  rw [parseTree] at isParsed
  dsimp only at isParsed
  split at isParsed
  · cases isParsed
  · obtain ⟨⟨expr,left⟩,isExpr,isParsed⟩ := Checked.bind_eq_ok isParsed
    obtain ⟨node,takes,whole⟩ := parseExpr_derives floats texts _ _ _ _ _ proper isExpr
    dsimp only at isParsed
    split at isParsed
    · rename_i isEnd
      have isCut := takes.isCut
      rw [isEnd,List.map_nil,List.append_nil] at isCut
      exact ⟨takes.sameFailure.symm.trans (whole isEnd),node,isCut.symm⟩
    · cases isParsed

theorem parse_tree {source : String} (isParsed : parse floats texts source = .ok expr) :
    ∃ tree, parseTree floats texts (sourceChars source) = .ok tree ∧ expr = normalize tree := by
  obtain ⟨tree,isTree,isParsed⟩ := Checked.bind_eq_ok isParsed
  cases isParsed
  exact ⟨tree,isTree,rfl⟩

theorem parseTree_whole (noFailure : (tokenize floats texts chars).failure = none) {left : Lexed}
    (isExpr : parseExpr texts maxParseDepth 0 (tokenize floats texts chars) = .ok (tree,left))
    (isEnd : left.tokens = []) : parseTree floats texts chars = .ok tree := by
  obtain ⟨tokens,failure,eof⟩ := left
  obtain rfl : tokens = [] := isEnd
  rw [parseTree]
  dsimp only
  rw [noFailure,isExpr]
  split
  · rename_i never
    cases never
  · rfl

theorem parseTree_fails (noFailure : (tokenize floats texts chars).failure = none)
    {error : ParseError}
    (isError : parseExpr texts maxParseDepth 0 (tokenize floats texts chars) = .error error) :
    parseTree floats texts chars = .error error := by
  rw [parseTree]
  dsimp only
  rw [noFailure,isError]
  split
  · rename_i never
    cases never
  · rfl

theorem denotes_of_parsed (spelled : SpelledBy floats chars tokens)
    (noFailure : (tokenize floats texts chars).failure = none) :
    ∀ token ∈ tokens, token.denotes floats = true := by
  intro token member
  cases denotes : token.denotes floats with
  | true => rfl
  | false => exact absurd noFailure ((tokenize_spelled texts spelled).2 ⟨token,member,denotes⟩)

theorem parseTree_trailing (spelled : SpelledBy floats chars tokens)
    {rest : List Token}
    (outcome : parseExpr texts maxParseDepth 0 ⟨tokens,none,chars.length⟩ =
      .ok (expr,⟨token :: rest,none,chars.length⟩)) (tree : Expr) :
    parseTree floats texts chars ≠ .ok tree := by
  intro isTree
  have noFailure := (parseTree_derived isTree).1
  have denote := denotes_of_parsed spelled noFailure
  have sameBare : (tokenize floats texts chars).bare = (Lexed.mk tokens none chars.length).bare := by
    rw [tokenize_bare spelled denote,Lexed.bare,spelled.bare]
  have alike := parseExpr_respects texts maxParseDepth 0 _ _ sameBare
  rw [outcome] at alike
  rw [parseTree] at isTree
  dsimp only at isTree
  split at isTree
  · cases isTree
  · obtain ⟨⟨other,left⟩,isParsed,isTree⟩ := Checked.bind_eq_ok isTree
    rw [isParsed] at alike
    have sameTokens : left.tokens.map Token.bare = (token :: rest).map Token.bare :=
      congrArg Lexed.tokens alike.2
    dsimp only at isTree
    split at isTree
    · rename_i isEnd
      rw [isEnd] at sameTokens
      cases sameTokens
    · cases isTree

def TreeOf (outcome : Except ParseError Expr) : Option Expr → Prop
  | some expr => ∃ tree, outcome = .ok tree ∧ tree.bare = expr.bare
  | none => ∃ error, outcome = .error error

theorem parseTree_spelled (spelled : SpelledBy floats chars tokens)
    (denote : ∀ token ∈ tokens, token.denotes floats = true) {result : Option Expr}
    (gives : Gives (parseExpr texts maxParseDepth 0 ⟨tokens,none,chars.length⟩) result
      ⟨[],none,chars.length⟩) : TreeOf (parseTree floats texts chars) result := by
  have noFailure := ((tokenize_spelled texts spelled).1 denote).2
  have sameBare : (tokenize floats texts chars).bare =
      (Lexed.mk tokens none chars.length).bare := by
    rw [tokenize_bare spelled denote,Lexed.bare,spelled.bare]
  have alike := parseExpr_respects texts maxParseDepth 0 _ _ sameBare
  cases result with
  | none =>
      obtain ⟨error,isError⟩ := gives
      rw [isError] at alike
      cases isParsed : parseExpr texts maxParseDepth 0 (tokenize floats texts chars) with
      | ok pair =>
          rw [isParsed] at alike
          exact alike.elim
      | error other => exact ⟨other,parseTree_fails noFailure isParsed⟩
  | some expr =>
      rw [Gives] at gives
      rw [gives] at alike
      cases isParsed : parseExpr texts maxParseDepth 0 (tokenize floats texts chars) with
      | error other =>
          rw [isParsed] at alike
          exact alike.elim
      | ok pair =>
          rw [isParsed] at alike
          have isEnd : pair.2.tokens = [] :=
            List.map_eq_nil_iff.mp (congrArg Lexed.tokens alike.2)
          exact ⟨pair.1,parseTree_whole noFailure isParsed isEnd,alike.1⟩

theorem parseTree_paren_iff {content : Derivation}
    (spelled : SpelledBy floats chars ((Cst.paren content).tokens floats))
    (shallow : (Cst.paren content).nesting + 1 ≤ maxParseDepth) :
    (∃ tree, parseTree floats texts chars = .ok tree ∧
        tree.bare = (Cst.paren content).tree floats) ↔
      (Cst.paren content).notsPlaced false = true ∧
        ∀ token ∈ (Cst.paren content).tokens floats, token.denotes floats = true := by
  have gives : Gives
      (parseExpr texts maxParseDepth 0 ⟨(Cst.paren content).tokens floats,none,chars.length⟩)
      ((Cst.paren content).parsed floats false) ⟨[],none,chars.length⟩ :=
    parseExpr_plain (Cst.paren content) rfl (Nat.le_of_succ_le_succ shallow) chars.length
  rw [← @Cst.parsed_iff floats]
  constructor
  · rintro ⟨tree,isTree,isBare⟩
    have denote := denotes_of_parsed spelled (parseTree_derived isTree).1
    refine ⟨?_,denote⟩
    have outcome := parseTree_spelled spelled denote gives
    cases isParsed : (Cst.paren content).parsed floats false with
    | none =>
        rw [isParsed] at outcome
        obtain ⟨error,isError⟩ := outcome
        rw [isTree] at isError
        cases isError
    | some expr =>
        rw [isParsed] at outcome
        obtain ⟨other,isOther,sameBare⟩ := outcome
        rw [isTree] at isOther
        cases isOther
        rw [← isBare,sameBare,Cst.parsed_bare _ _ _ isParsed]
  · rintro ⟨isParsed,denote⟩
    have outcome := parseTree_spelled spelled denote gives
    rw [isParsed] at outcome
    obtain ⟨tree,isTree,isBare⟩ := outcome
    exact ⟨tree,isTree,by rw [isBare,Cst.parsed_bare _ _ _ isParsed]⟩

def Token.atMostOneDot (token : Token) : Bool :=
  token.kind ≠ .ident || token.text.toList.count '.' ≤ 1

theorem derived_iff (isTree : parseTree floats texts chars = .ok tree) :
    (∃ node : Derivation, SpelledBy floats chars (node.tokens floats) ∧
        ∀ token ∈ node.tokens floats, token.atMostOneDot = true) ↔
      ∀ token ∈ (tokenize floats texts chars).tokens, token.atMostOneDot = true := by
  obtain ⟨noFailure,node,isNode⟩ := parseTree_derived isTree
  obtain ⟨spelled,-⟩ := spelled_of_tokenize noFailure
  have bareDots : ∀ token : Token, token.bare.atMostOneDot = token.atMostOneDot := fun _ => rfl
  constructor
  · rintro ⟨other,isSpelled,dots⟩ token member
    have isRead := ((tokenize_spelled texts isSpelled).1 (denotes_of_parsed isSpelled noFailure)).1
    rw [← bareDots]
    refine dots token.bare ?_
    rw [← isRead]
    exact List.mem_map_of_mem member
  · intro dots
    refine ⟨node,by rw [isNode]; exact spelled,?_⟩
    rw [isNode]
    intro token member
    obtain ⟨original,isMember,rfl⟩ := List.mem_map.mp member
    rw [bareDots]
    exact dots original isMember

end

/-- `not a and b`. -/
def negatedHead : Derivation :=
  let field (name : String) (isName : keywordKind name = .ident) : Cst .not :=
    .plain (.single (.operand .add (.operand .mul (.ident name isName))))
  .operand .or (.chain .and (.operand .and (.notOp (field "a" rfl))) .and rfl (field "b" rfl))

end Beava.Core
