/-
Literals of the SDK.

The text of a literal is its `repr`.  The server reads a string byte by byte and
knows two escapes, an integer without its sign, and a float only with a decimal
point, so that some of these texts are read as another value or not at all.
-/

import Beava.Core.ParseTree
import Beava.Sdk.PyRepr

namespace Beava.Sdk

open Beava.Core

variable {chars digits : List Char} {ch : Char} {point : CodePoint}
variable {mark : Char}

/-- The value of a `_Literal`. -/
inductive PyLiteral where
  | none
  | bool (flag : Bool)
  | str (text : PyStr)
  | int (number : Int)
  | float (number : F64)

/-- `_Literal.to_expr_string`. -/
def PyLiteral.toExprString (python : Python) : PyLiteral → String
  | .none => "null"
  | .bool flag => if flag then "true" else "false"
  | .str text => reprStr python text
  | .int number => reprInt number
  | .float number => reprFloat python number

/-- A literal of the server has the value of one of the SDK. -/
def SameValue : PyLiteral → Literal → Prop
  | .none, .null => True
  | .bool flag, .bool other => flag = other
  | .str text, .str content => content.toList.map CodePoint.scalar = text
  | .int number, .int value => value.toInt = number
  | .float number, .float value => value = number
  | _, _ => False

def RoundTrips (floats : Floats) (texts : DebugTexts) (python : Python) (literal : PyLiteral) :
    Prop :=
  ∃ content span, parse floats texts (literal.toExprString python) = .ok (.literal content span) ∧
    SameValue literal content

def byteChars (chars : List Char) : List Char :=
  (chars.flatMap String.utf8EncodeChar).map Char.ofUInt8

theorem sourceChars_eq (chars : List Char) : sourceChars (String.ofList chars) = byteChars chars := by
  rw [sourceChars,String.toList_ofList,byteChars]

theorem byteChars_append (chars more : List Char) :
    byteChars (chars ++ more) = byteChars chars ++ byteChars more := by
  rw [byteChars,List.flatMap_append,List.map_append,byteChars,byteChars]

theorem byteChars_ascii (ascii : ∀ ch ∈ chars, ch.val.toNat < 128) : byteChars chars = chars := by
  rw [← sourceChars_eq,sourceChars_ofList ascii]

theorem byteChars_cons (ascii : ch.val.toNat < 128) (chars : List Char) :
    byteChars (ch :: chars) = ch :: byteChars chars := by
  have isByte : byteChars [ch] = [ch] :=
    byteChars_ascii fun other member => by
      rw [List.mem_singleton.mp member]
      exact ascii
  rw [← List.singleton_append,byteChars_append,isByte,List.singleton_append]

theorem ofUInt8_val (byte : UInt8) : (Char.ofUInt8 byte).val.toNat = byte.toNat := by
  show byte.toUInt32.toNat = byte.toNat
  rw [UInt8.toNat_toUInt32]

theorem byteChars_wide (wide : 128 ≤ ch.val.toNat) :
    2 ≤ (byteChars [ch]).length ∧ ∀ other ∈ byteChars [ch], 128 ≤ other.val.toNat := by
  have large : ∀ number low : Nat, 128 ≤ low → number + low < 256 →
      128 ≤ (UInt8.ofNat (number + low)).toNat := by
    intro number low isLow fits
    rw [UInt8.toNat_ofNat_of_lt' fits]
    omega
  rw [byteChars,List.flatMap_singleton,String.utf8EncodeChar]
  simp only [List.length_map,List.mem_map,forall_exists_index,and_imp,forall_apply_eq_imp_iff₂,
    ofUInt8_val]
  rw [if_neg (by omega)]
  split
  · refine ⟨by simp,?_⟩
    simp only [List.mem_cons,List.not_mem_nil,or_false,forall_eq_or_imp,forall_eq]
    exact ⟨large _ _ (by omega) (by omega),large _ _ (by omega) (by omega)⟩
  · split
    · refine ⟨by simp,?_⟩
      simp only [List.mem_cons,List.not_mem_nil,or_false,forall_eq_or_imp,forall_eq]
      exact ⟨large _ _ (by omega) (by omega),large _ _ (by omega) (by omega),
        large _ _ (by omega) (by omega)⟩
    · refine ⟨by simp,?_⟩
      simp only [List.mem_cons,List.not_mem_nil,or_false,forall_eq_or_imp,forall_eq]
      exact ⟨large _ _ (by omega) (by omega),large _ _ (by omega) (by omega),
        large _ _ (by omega) (by omega),large _ _ (by omega) (by omega)⟩

/-! ### Strings -/

theorem quoted_append {raw content more others : List Char} (first : Quoted raw content)
    (second : Quoted more others) : Quoted (raw ++ more) (content ++ others) := by
  induction first with
  | nil => exact second
  | plain notQuote notBackslash _ ih => exact .plain notQuote notBackslash ih
  | escaped isEscape _ ih => exact .escaped isEscape ih
  | kept notBackslash notQuote _ ih => exact .kept notBackslash notQuote ih

theorem quoted_plain (plain : ∀ ch ∈ chars, ch ≠ '\'' ∧ ch ≠ '\\') : Quoted chars chars := by
  induction chars with
  | nil => exact .nil
  | cons ch rest ih =>
      obtain ⟨notQuote,notBackslash⟩ := plain ch List.mem_cons_self
      exact .plain notQuote notBackslash (ih fun other member =>
        plain other (List.mem_cons_of_mem _ member))

/-- A printable ASCII character. -/
def CodePoint.isPlain : CodePoint → Bool
  | .scalar ch => ' ' ≤ ch && ch < '\x7f'
  | .surrogate _ => false

theorem hexDigits_alphanumeric : ∀ count code, ∀ ch ∈ hexDigits count code,
    ch.val.toNat < 128 ∧ ch ≠ '\'' ∧ ch ≠ '\\' := by
  have isDigit : ∀ digit < 16, (Nat.digitChar digit).val.toNat < 128 ∧ Nat.digitChar digit ≠ '\'' ∧
      Nat.digitChar digit ≠ '\\' := by
    decide
  intro count
  induction count with
  | zero =>
      intro code ch member
      cases member
  | succ count ih =>
      intro code ch member
      rcases List.mem_append.mp member with inFront | isLast
      · exact ih _ ch inFront
      · rw [List.mem_singleton.mp isLast]
        exact isDigit _ (Nat.mod_lt _ (by decide))

theorem kept_quoted (isMark : mark ≠ '\\' ∧ mark ≠ '\'') (ascii : mark.val.toNat < 128)
    (plain : ∀ ch ∈ chars, ch.val.toNat < 128 ∧ ch ≠ '\'' ∧ ch ≠ '\\') :
    Quoted (byteChars ('\\' :: mark :: chars)) ('\\' :: mark :: chars) := by
  rw [byteChars_cons (by decide),byteChars_cons ascii,
    byteChars_ascii fun ch member => (plain ch member).1]
  exact .kept isMark.1 isMark.2 (quoted_plain fun ch member => (plain ch member).2)

/-- The server reads a code point between single quotes from its text: a printable
ASCII character as itself, and any other as several characters. -/
def ReadsPoint (raw : List Char) (point : CodePoint) : Prop :=
  ∃ content, Quoted (byteChars raw) content ∧
    (point.isPlain = true → content.map CodePoint.scalar = [point]) ∧
    (point.isPlain = false → 2 ≤ content.length)

theorem readsPoint_several {raw content : List Char} (isQuoted : Quoted (byteChars raw) content)
    (several : 2 ≤ content.length) (notPlain : point.isPlain = false) : ReadsPoint raw point :=
  ⟨content,isQuoted,(fun isPlain => by rw [notPlain] at isPlain; cases isPlain),fun _ => several⟩

theorem readsPoint_escape (code : Nat) (notPlain : point.isPlain = false) :
    ReadsPoint (escapeCode code) point := by
  rw [escapeCode]
  split
  · exact readsPoint_several (kept_quoted (by decide) (by decide) (hexDigits_alphanumeric 2 code))
      (by simp) notPlain
  · split
    · exact readsPoint_several
        (kept_quoted (by decide) (by decide) (hexDigits_alphanumeric 4 code)) (by simp) notPlain
    · exact readsPoint_several
        (kept_quoted (by decide) (by decide) (hexDigits_alphanumeric 8 code)) (by simp) notPlain

theorem readsPoint_control (isMark : mark ≠ '\\' ∧ mark ≠ '\'') (ascii : mark.val.toNat < 128)
    (notPlain : point.isPlain = false) : ReadsPoint ['\\',mark] point :=
  readsPoint_several (kept_quoted isMark ascii (fun _ member => by cases member)) (by simp) notPlain

theorem readsPoint_quote (isEscape : ch = '\\' ∨ ch = '\'') :
    ReadsPoint ['\\',ch] (.scalar ch) := by
  have ascii : ch.val.toNat < 128 := by
    rcases isEscape with rfl | rfl <;> decide
  refine ⟨[ch],?_,(fun _ => rfl),?_⟩
  · rw [byteChars_cons (by decide),byteChars_cons ascii]
    exact .escaped isEscape .nil
  · intro notPlain
    rcases isEscape with rfl | rfl <;> cases notPlain

theorem readsPoint_plain (isPlain : (CodePoint.scalar ch).isPlain = true)
    (notEscape : ch ≠ '\'' ∧ ch ≠ '\\') : ReadsPoint [ch] (.scalar ch) := by
  have ascii : ch.val.toNat < 128 := by
    rw [CodePoint.isPlain,Bool.and_eq_true,decide_eq_true_eq,decide_eq_true_eq] at isPlain
    exact Nat.lt_trans (UInt32.lt_iff_toNat_lt.mp (Char.lt_def.mp isPlain.2)) (by decide)
  refine ⟨[ch],?_,(fun _ => rfl),?_⟩
  · rw [byteChars_ascii (by simpa using ascii)]
    exact .plain notEscape.1 notEscape.2 .nil
  · intro notPlain
    rw [isPlain] at notPlain
    cases notPlain

theorem readsPoint_wide (wide : 128 ≤ ch.val.toNat)
    (notPlain : (CodePoint.scalar ch).isPlain = false) : ReadsPoint [ch] (.scalar ch) := by
  obtain ⟨long,beyond⟩ := byteChars_wide wide
  refine readsPoint_several (quoted_plain ?_) long notPlain
  intro other member
  have isWide := beyond other member
  constructor
  · rintro rfl
    exact absurd isWide (by decide)
  · rintro rfl
    exact absurd isWide (by decide)

theorem readsPoint_repr (python : Python) (point : CodePoint) :
    ReadsPoint (reprPoint python '\'' point) point := by
  cases point with
  | surrogate offset => exact readsPoint_escape _ rfl
  | scalar ch =>
      rw [reprPoint]
      split
      · rename_i isEscape
        simp only [Bool.or_eq_true,decide_eq_true_eq] at isEscape
        exact readsPoint_quote isEscape.symm
      · rename_i notEscape
        simp only [Bool.or_eq_true,decide_eq_true_eq,not_or] at notEscape
        split
        · rename_i isTab
          subst isTab
          exact readsPoint_control (by decide) (by decide) rfl
        · split
          · rename_i isNewline
            subst isNewline
            exact readsPoint_control (by decide) (by decide) rfl
          · split
            · rename_i isReturn
              subst isReturn
              exact readsPoint_control (by decide) (by decide) rfl
            · split
              · rename_i isControl
                apply readsPoint_escape
                simp only [Bool.or_eq_true,decide_eq_true_eq] at isControl
                rw [CodePoint.isPlain,Bool.and_eq_false_iff]
                rcases isControl with isLow | rfl
                · exact .inl (decide_eq_false (Char.not_le.mpr isLow))
                · exact .inr rfl
              · rename_i notControl
                simp only [Bool.or_eq_true,decide_eq_true_eq,not_or] at notControl
                split
                · rename_i isLow
                  refine readsPoint_plain ?_ notEscape
                  rw [CodePoint.isPlain,Bool.and_eq_true,decide_eq_true_eq,decide_eq_true_eq]
                  exact ⟨Char.not_lt.mp notControl.1,isLow⟩
                · rename_i notAscii
                  have notPlain : (CodePoint.scalar ch).isPlain = false := by
                    rw [CodePoint.isPlain,Bool.and_eq_false_iff]
                    exact .inr (decide_eq_false notAscii)
                  have wide : 128 ≤ ch.val.toNat := by
                    have isHigh : '\x7f'.val.toNat ≤ ch.val.toNat :=
                      UInt32.le_iff_toNat_le.mp (Char.le_def.mp (Char.not_lt.mp notAscii))
                    have notDelete : ch.val.toNat ≠ '\x7f'.val.toNat := by
                      intro same
                      exact notControl.2 (Char.ext (UInt32.toNat.inj same))
                    have isDelete : '\x7f'.val.toNat = 127 := rfl
                    omega
                  split
                  · exact readsPoint_wide wide notPlain
                  · exact readsPoint_escape _ notPlain

/-- What the server reads for a text is no shorter, and is the text exactly when all its
characters are printable ASCII. -/
theorem reprPoints_quoted (python : Python) (text : PyStr) :
    ∃ content, Quoted (byteChars (text.flatMap (reprPoint python '\''))) content ∧
      text.length ≤ content.length ∧
      (content.map CodePoint.scalar = text ↔ ∀ point ∈ text, point.isPlain = true) := by
  induction text with
  | nil => exact ⟨[],.nil,Nat.le_refl _,by simp⟩
  | cons point rest ih =>
      obtain ⟨first,isFirst,plain,several⟩ := readsPoint_repr python point
      obtain ⟨others,areOthers,long,same⟩ := ih
      refine ⟨first ++ others,?_,?_,?_⟩
      · rw [List.flatMap_cons,byteChars_append]
        exact quoted_append isFirst areOthers
      · cases isPlain : point.isPlain with
        | true =>
            have one := congrArg List.length (plain isPlain)
            simp only [List.length_map,List.length_append,List.length_cons,List.length_nil] at *
            omega
        | false =>
            have two := several isPlain
            simp only [List.length_append,List.length_cons] at *
            omega
      · rw [List.forall_mem_cons]
        cases isPlain : point.isPlain with
        | true =>
            rw [List.map_append,plain isPlain,List.singleton_append,List.cons.injEq,same]
            simp
        | false =>
            have two := several isPlain
            constructor
            · intro whole
              have lengths := congrArg List.length whole
              simp only [List.length_map,List.length_append,List.length_cons] at lengths
              omega
            · rintro ⟨never,-⟩
              cases never

/-- What follows an operand in a text of the SDK. -/
def Separated (rest : List Char) : Prop :=
  ∀ ch ∈ rest.head?, ch = ' ' ∨ ch = ')' ∨ ch = ','

theorem Separated.ends {rest : List Char} (separated : Separated rest) :
    wordGoesOn rest = false ∧ digitGoesOn rest = false ∧ fractionFollows rest = false ∧
      Exponent [] rest := by
  cases rest with
  | nil => exact ⟨rfl,rfl,rfl,.missing (by simp) rfl⟩
  | cons ch others =>
      rcases separated ch rfl with rfl | rfl | rfl <;>
        exact ⟨rfl,rfl,rfl,.missing (by simp) rfl⟩

def Spells (floats : Floats) (source : List Char) (tokens : List Token) : Prop :=
  ∀ rest more, Separated rest → SpelledBy floats rest more →
    SpelledBy floats (source ++ rest) (tokens ++ more)

section Spells

variable {floats : Floats}
variable {source : List Char} {tokens : List Token}

theorem Spells.whole (spells : Spells floats source tokens) : SpelledBy floats source tokens := by
  have spelled := spells [] [] (fun _ never => by cases never)
    (.done fun _ member => by cases member)
  rw [List.append_nil,List.append_nil] at spelled
  exact spelled

theorem spells_quoted {raw content : List Char} (isQuoted : Quoted raw content) :
    Spells floats ('\'' :: (raw ++ ['\''])) [Token.quoted (String.ofList content)] :=
  fun _ _ _ spelled => SpelledBy.cons (.quoted isQuoted) spelled

theorem spells_word {ch : Char} {tail : List Char} (isStart : isWordStart ch = true)
    (isTail : WordTail tail) :
    Spells floats (ch :: tail) [Token.word (String.ofList (ch :: tail))] :=
  fun _ _ separated spelled => SpelledBy.cons (.word isStart isTail separated.ends.1) spelled

theorem spells_int {digits : List Char} (areDigits : Digits digits) :
    Spells floats digits [Token.int (String.ofList digits)] := by
  intro rest more separated spelled
  obtain ⟨-,ends,noFraction,-⟩ := separated.ends
  exact SpelledBy.cons (.int areDigits ends noFraction) spelled

theorem spells_sign (negative : Bool) (spells : Spells floats source tokens) :
    Spells floats (signText negative ++ source) (signTokens negative ++ tokens) := by
  cases negative with
  | false => exact spells
  | true =>
      intro rest more separated spelled
      have isSign : Spelling floats ['-'] (Token.punct .minus) (source ++ rest) :=
        .punct (by decide) (by intro never; simp at never)
      show SpelledBy floats (['-'] ++ (source ++ rest)) (Token.punct .minus :: (tokens ++ more))
      exact .cons isSign (spells rest more separated spelled)

end Spells

theorem parseDigits_value (areDigits : Digits digits) :
    parseDigits digits = some (Nat.ofDigitChars 10 digits 0) := by
  have fold : ∀ (digits : List Char) (start : Nat), (∀ ch ∈ digits, isAsciiDigit ch = true) →
      digits.foldlM (fun number ch =>
        if isAsciiDigit ch then some (number * 10 + (ch.toNat - '0'.toNat)) else none) start =
        some (Nat.ofDigitChars 10 digits start) := by
    intro digits
    induction digits with
    | nil =>
        intro start _
        rw [Nat.ofDigitChars_nil]
        rfl
    | cons ch rest ih =>
        intro start all
        rw [List.foldlM_cons,if_pos (all ch List.mem_cons_self),Nat.ofDigitChars_cons,
          Nat.mul_comm 10 start]
        exact ih _ fun other member => all other (List.mem_cons_of_mem _ member)
  rw [parseDigits,if_neg (by rw [List.isEmpty_iff]; exact areDigits.1)]
  exact fold digits 0 areDigits.2

theorem inRange_iff (value : Nat) :
    (decide (-2 ^ 63 ≤ (value : Int)) && decide ((value : Int) < 2 ^ 63)) =
      decide (value < 2 ^ 63) := by
  have low : decide (-2 ^ 63 ≤ (value : Int)) = true := decide_eq_true (by omega)
  rw [low,Bool.true_and]
  exact decide_eq_decide.mpr (by omega)

theorem parseI64_digits (areDigits : Digits digits) :
    parseI64 (String.ofList digits) =
      if Nat.ofDigitChars 10 digits 0 < 2 ^ 63 then
        some (Int64.ofInt (Nat.ofDigitChars 10 digits 0))
      else none := by
  obtain ⟨ch,rest,rfl⟩ := List.exists_cons_of_ne_nil areDigits.1
  have isDigit := areDigits.2 ch List.mem_cons_self
  have notMinus : ch ≠ '-' := by
    rintro rfl
    cases isDigit
  have notPlus : ch ≠ '+' := by
    rintro rfl
    cases isDigit
  have isNumber : parseI64 (String.ofList (ch :: rest)) =
      (parseDigits (ch :: rest)).bind fun number : Nat =>
        if -2 ^ 63 ≤ (number : Int) && (number : Int) < 2 ^ 63 then some (Int64.ofInt number)
        else none := by
    rw [parseI64,String.toList_ofList]
    split
    · rename_i same
      exact absurd (List.cons.inj same).1 notMinus
    · rename_i same
      exact absurd (List.cons.inj same).1 notPlus
    · cases parseDigits (ch :: rest) <;> rfl
  rw [isNumber,parseDigits_value areDigits]
  generalize Nat.ofDigitChars 10 (ch :: rest) 0 = value
  rw [Option.bind_some,inRange_iff]
  by_cases fits : value < 2 ^ 63
  · rw [decide_eq_true fits,if_pos rfl,if_pos fits]
  · rw [decide_eq_false fits,if_neg Bool.false_ne_true,if_neg fits]

theorem digits_ascii (areDigits : ∀ ch ∈ digits, isAsciiDigit ch = true) :
    ∀ ch ∈ digits, ch.val.toNat < 128 := by
  intro ch member
  have isDigit := areDigits ch member
  simp only [isAsciiDigit,Bool.and_eq_true,decide_eq_true_eq] at isDigit
  exact Nat.lt_of_le_of_lt (UInt32.le_iff_toNat_le.mp (Char.le_def.mp isDigit.2)) (by decide)

theorem signText_ascii (negative : Bool) : ∀ ch ∈ signText negative, ch.val.toNat < 128 := by
  cases negative with
  | false =>
      intro ch member
      cases member
  | true => exact List.forall_mem_singleton.mpr (by decide)

theorem sourceChars_reprInt (number : Int) : sourceChars (reprInt number) =
    signText (decide (number < 0)) ++ Nat.toDigits 10 number.natAbs := by
  apply sourceChars_ofList
  intro ch member
  rcases List.mem_append.mp member with inSign | inDigits
  · exact signText_ascii _ ch inSign
  · exact digits_ascii (toDigits_digits _).2 ch inDigits

/-- The numeral of an integer without its sign. -/
def intNumeral (number : Int) : String :=
  String.ofList (Nat.toDigits 10 number.natAbs)

theorem reprInt_spells {floats : Floats} (number : Int) :
    Spells floats (sourceChars (reprInt number))
      ((Cst.int (decide (number < 0)) (intNumeral number)).tokens floats) := by
  rw [sourceChars_reprInt]
  exact spells_sign _ (spells_int (toDigits_digits _))

theorem intNumeral_value (number : Int) :
    parseI64 (intNumeral number) =
      if number.natAbs < 2 ^ 63 then some (Int64.ofInt number.natAbs) else none := by
  rw [intNumeral,parseI64_digits (toDigits_digits _),Nat.ofDigitChars_ten_toDigits]

section Atoms

variable {floats : Floats} {texts : DebugTexts}

theorem parse_atom {source : String} {node : Cst .atom} {expr : Expr}
    (spelled : SpelledBy floats (sourceChars source) (node.tokens floats))
    (denote : ∀ token ∈ node.tokens floats, token.denotes floats = true)
    (isPlain : node.isPlain = true) (isParsed : node.parsed floats false = some expr)
    (shallow : node.nesting + 1 ≤ maxParseDepth) :
    ∃ tree, parse floats texts source = .ok (normalize tree) ∧ tree.bare = expr := by
  have gives := @parseExpr_plain texts floats _ node isPlain _ (Nat.le_of_succ_le_succ shallow)
    (sourceChars source).length
  rw [isParsed] at gives
  obtain ⟨tree,isTree,isBare⟩ := parseTree_spelled spelled denote gives
  refine ⟨tree,?_,isBare.trans (node.parsed_bare false expr isParsed)⟩
  rw [parse,isTree]
  rfl

theorem literal_of_bare {tree : Expr} {content : Literal} {span : Span}
    (isBare : tree.bare = .literal content span) : ∃ other, tree = .literal content other := by
  cases tree with
  | literal same other =>
      cases isBare
      exact ⟨other,rfl⟩
  | _ => cases isBare

theorem parse_literal {source : String} {node : Cst .atom} {content : Literal}
    (spelled : SpelledBy floats (sourceChars source) (node.tokens floats))
    (denote : ∀ token ∈ node.tokens floats, token.denotes floats = true)
    (isPlain : node.isPlain = true)
    (isParsed : node.parsed floats false = some (.literal content noSpan))
    (shallow : node.nesting + 1 ≤ maxParseDepth) :
    ∃ span, parse floats texts source = .ok (.literal content span) := by
  obtain ⟨tree,isTree,isBare⟩ := @parse_atom floats texts _ _ _ spelled denote isPlain isParsed
    shallow
  obtain ⟨span,rfl⟩ := literal_of_bare isBare
  exact ⟨span,isTree⟩

theorem not_parsed_of_undenoted {source : String} {tokens : List Token}
    (spelled : SpelledBy floats (sourceChars source) tokens) {token : Token} (member : token ∈ tokens)
    (undenoted : token.denotes floats = false) (expr : Expr) :
    parse floats texts source ≠ .ok expr := by
  intro isParsed
  obtain ⟨tree,isTree,-⟩ := parse_tree isParsed
  have denotes := denotes_of_parsed spelled (parseTree_derived isTree).1 token member
  rw [undenoted] at denotes
  cases denotes

end Atoms

section RoundTrips

variable {floats : Floats} {texts : DebugTexts} {python : Python}
variable {number : F64}

theorem int_same {number : Int} (low : -2 ^ 63 < number) (high : number < 2 ^ 63) :
    (if decide (number < 0) = true then -Int64.ofInt number.natAbs
      else Int64.ofInt number.natAbs).toInt = number := by
  have inRange : (Int64.ofInt (number.natAbs : Int)).toInt = number.natAbs :=
    Int64.toInt_ofInt_of_le (by omega) (by omega)
  by_cases isNegative : number < 0
  · rw [if_pos (decide_eq_true isNegative),Int64.toInt_neg,inRange,
      Int.bmod_eq_of_le (by omega) (by omega)]
    omega
  · rw [if_neg (by rw [decide_eq_false isNegative]; exact Bool.false_ne_true),inRange]
    omega

theorem int_roundTrips_iff {number : Int} (low : -2 ^ 63 ≤ number) (high : number < 2 ^ 63) :
    RoundTrips floats texts python (.int number) ↔ number ≠ -2 ^ 63 := by
  have spelled := (@reprInt_spells floats number).whole
  have isToken : Token.int (intNumeral number) ∈
      (Cst.int (decide (number < 0)) (intNumeral number)).tokens floats :=
    List.mem_append_right _ List.mem_cons_self
  have denotes : (Token.int (intNumeral number)).denotes floats =
      (parseI64 (intNumeral number)).isSome :=
    rfl
  rw [intNumeral_value] at denotes
  constructor
  · rintro ⟨content,span,isParsed,-⟩ rfl
    refine not_parsed_of_undenoted spelled isToken ?_ _ isParsed
    rw [denotes]
    rfl
  · intro notLowest
    have fits : number.natAbs < 2 ^ 63 := by omega
    rw [if_pos fits] at denotes
    have denote : ∀ token ∈ (Cst.int (decide (number < 0)) (intNumeral number)).tokens floats,
        token.denotes floats = true := by
      intro token member
      rcases List.mem_append.mp member with inSign | isNumeral
      · cases isNegative : decide (number < 0) with
        | true =>
            rw [isNegative] at inSign
            rw [List.mem_singleton.mp inSign]
            rfl
        | false =>
            rw [isNegative] at inSign
            cases inSign
      · rw [List.mem_singleton.mp isNumeral,denotes]
        rfl
    obtain ⟨span,isParsed⟩ := @parse_literal floats texts _ _ _ spelled denote rfl rfl
      (show 1 ≤ maxParseDepth by decide)
    refine ⟨_,span,isParsed,?_⟩
    have isValue : (Token.int (intNumeral number)).intVal = Int64.ofInt number.natAbs := by
      show (parseI64 (intNumeral number)).getD 0 = _
      rw [intNumeral_value,if_pos fits]
      rfl
    show (if decide (number < 0) = true then -(Token.int (intNumeral number)).intVal
      else (Token.int (intNumeral number)).intVal).toInt = number
    rw [isValue]
    exact int_same (by omega) high

theorem sourceChars_reprStr (text : PyStr) : sourceChars (reprStr python text) =
    reprQuote text :: (byteChars (text.flatMap (reprPoint python (reprQuote text))) ++
      [reprQuote text]) := by
  have ascii : (reprQuote text).val.toNat < 128 := by
    unfold reprQuote
    split <;> decide
  have isLast : byteChars [reprQuote text] = [reprQuote text] :=
    byteChars_ascii fun ch member => by
      rw [List.mem_singleton.mp member]
      exact ascii
  rw [reprStr,sourceChars_eq,byteChars_cons ascii,byteChars_append,isLast]

theorem doubleQuoted_not_parsed {source : String} {rest : List Char}
    (isSource : sourceChars source = '\"' :: rest) (expr : Expr) :
    parse floats texts source ≠ .ok expr := by
  intro isParsed
  obtain ⟨tree,isTree,-⟩ := parse_tree isParsed
  have noFailure := (parseTree_derived isTree).1
  rw [isSource] at noFailure
  cases noFailure

theorem str_parsed {text : PyStr} (isQuote : reprQuote text = '\'') :
    ∃ content, SpelledBy floats (sourceChars (reprStr python text))
        [Token.quoted (String.ofList content)] ∧
      (content.map CodePoint.scalar = text ↔ ∀ point ∈ text, point.isPlain = true) := by
  obtain ⟨content,isQuoted,-,same⟩ := reprPoints_quoted python text
  refine ⟨content,?_,same⟩
  rw [sourceChars_reprStr,isQuote]
  exact (spells_quoted isQuoted).whole

theorem str_roundTrips_iff (text : PyStr) :
    RoundTrips floats texts python (.str text) ↔
      (∀ point ∈ text, point.isPlain = true) ∧
        ¬ (.scalar '\'' ∈ text ∧ .scalar '\"' ∉ text) := by
  by_cases isDouble : .scalar '\'' ∈ text ∧ .scalar '\"' ∉ text
  · constructor
    · rintro ⟨content,span,isParsed,-⟩
      have isQuote : reprQuote text = '\"' := if_pos isDouble
      have isSource := @sourceChars_reprStr python text
      rw [isQuote] at isSource
      exact absurd isParsed (doubleQuoted_not_parsed isSource _)
    · rintro ⟨-,notDouble⟩
      exact absurd isDouble notDouble
  · obtain ⟨content,spelled,same⟩ := @str_parsed floats python text (if_neg isDouble)
    obtain ⟨span,isParsed⟩ := @parse_literal floats texts _ (.string (String.ofList content)) _
      spelled (by intro token member; cases List.mem_singleton.mp member; rfl) rfl rfl
      (show 1 ≤ maxParseDepth by decide)
    constructor
    · rintro ⟨other,otherSpan,isOther,sameValue⟩
      have sameLiteral := isParsed.symm.trans isOther
      cases sameLiteral
      have sameText : (String.ofList content).toList.map CodePoint.scalar = text := sameValue
      rw [String.toList_ofList] at sameText
      exact ⟨same.mp sameText,isDouble⟩
    · rintro ⟨plain,-⟩
      refine ⟨_,span,isParsed,?_⟩
      show (String.ofList content).toList.map CodePoint.scalar = text
      rw [String.toList_ofList]
      exact same.mpr plain

/-! ### Floats -/

def Decimal.lacksPoint (decimal : Decimal) : Bool :=
  decimal.usesExponent && decimal.digits.length = 1

theorem exponentText_cons (exponent : Int) : ∃ sign digits,
    Decimal.exponentText exponent = sign :: digits ∧ (sign = '+' ∨ sign = '-') ∧ Digits digits := by
  have isZero : isAsciiDigit '0' = true := rfl
  have areDigits := toDigits_digits exponent.natAbs
  rw [Decimal.exponentText]
  refine ⟨_,_,rfl,?_,?_⟩
  · split
    · exact .inr rfl
    · exact .inl rfl
  · split
    · exact ⟨List.cons_ne_nil _ _,by
        intro ch member
        rcases List.mem_cons.mp member with rfl | member
        · exact isZero
        · exact areDigits.2 ch member⟩
    · exact areDigits

theorem replicate_digits (count : Nat) : ∀ ch ∈ List.replicate count '0', isAsciiDigit ch = true := by
  intro ch member
  rw [List.eq_of_mem_replicate member]
  rfl

theorem digits_append {first second : List Char} (areDigits : Digits first)
    (others : ∀ ch ∈ second, isAsciiDigit ch = true) : Digits (first ++ second) := by
  refine ⟨List.append_ne_nil_of_left_ne_nil areDigits.1 _,?_⟩
  intro ch member
  rcases List.mem_append.mp member with inFirst | inSecond
  · exact areDigits.2 ch inFirst
  · exact others ch inSecond

/-- The shape of the text: digits on both sides of a point, perhaps with an exponent, or
a digit with an exponent. -/
theorem Decimal.text_cases (decimal : Decimal) :
    (decimal.lacksPoint = false ∧ ∃ whole fraction,
      Digits whole ∧ Digits fraction ∧
        (decimal.text = whole ++ '.' :: fraction ∨
          ∃ sign digits, (sign = '+' ∨ sign = '-') ∧ Digits digits ∧
            decimal.text = whole ++ '.' :: fraction ++ 'e' :: sign :: digits)) ∨
    (decimal.lacksPoint = true ∧ ∃ digit sign digits, isAsciiDigit digit = true ∧
      (sign = '+' ∨ sign = '-') ∧ Digits digits ∧
        decimal.text = digit :: 'e' :: sign :: digits) := by
  obtain ⟨digits,areDigits,point⟩ := decimal
  obtain ⟨first,rest,rfl⟩ := List.exists_cons_of_ne_nil areDigits.1
  have isDigit := areDigits.2 first List.mem_cons_self
  have one : Digits [first] := ⟨List.cons_ne_nil _ _,by
    intro ch member
    rw [List.mem_singleton.mp member]
    exact isDigit⟩
  have others : ∀ ch ∈ rest, isAsciiDigit ch = true :=
    fun ch member => areDigits.2 ch (List.mem_cons_of_mem _ member)
  have zero : Digits ['0'] := ⟨List.cons_ne_nil _ _,List.forall_mem_singleton.mpr (by decide)⟩
  rw [Decimal.text,Decimal.lacksPoint]
  cases usesExponent : Decimal.usesExponent ⟨first :: rest,areDigits,point⟩ with
  | true =>
      obtain ⟨sign,exponent,isText,isSign,areExponent⟩ := exponentText_cons (point - 1)
      rw [if_pos rfl]
      cases rest with
      | nil =>
          refine .inr ⟨rfl,first,sign,exponent,isDigit,isSign,areExponent,?_⟩
          rw [isText]
          rfl
      | cons second more =>
          refine .inl ⟨rfl,[first],second :: more,one,⟨List.cons_ne_nil _ _,others⟩,
            .inr ⟨sign,exponent,isSign,areExponent,?_⟩⟩
          rw [isText]
          rfl
  | false =>
      rw [if_neg Bool.false_ne_true]
      refine .inl ⟨rfl,?_⟩
      dsimp only
      split
      · refine ⟨['0'],List.replicate (-point).toNat '0' ++ first :: rest,zero,⟨by simp,?_⟩,
          .inl rfl⟩
        intro ch member
        rcases List.mem_append.mp member with inZeros | inDigits
        · exact replicate_digits _ ch inZeros
        · exact areDigits.2 ch inDigits
      · split
        · exact ⟨_,['0'],digits_append areDigits (replicate_digits
            (point.toNat - (first :: rest).length)),zero,.inl rfl⟩
        · rename_i positive shorter
          refine ⟨(first :: rest).take point.toNat,(first :: rest).drop point.toNat,⟨?_,?_⟩,
            ⟨?_,?_⟩,.inl rfl⟩
          · intro isNil
            rcases List.take_eq_nil_iff.mp isNil with isZero | never
            · omega
            · cases never
          · exact fun ch member => areDigits.2 ch (List.mem_of_mem_take member)
          · intro isNil
            exact shorter (List.drop_eq_nil_iff.mp isNil)
          · exact fun ch member => areDigits.2 ch (List.mem_of_mem_drop member)

theorem decimal_spells (decimal : Decimal) (hasPoint : decimal.lacksPoint = false) :
    Spells floats decimal.text [Token.float floats (String.ofList decimal.text)] := by
  intro rest more separated spelled
  rcases decimal.text_cases with ⟨-,whole,fraction,areWhole,areFraction,isText⟩ | ⟨lacks,-⟩
  · rcases isText with isText | ⟨sign,digits,isSign,areDigits,isText⟩
    · have spelling := @Spelling.float floats whole fraction [] rest areWhole areFraction
        separated.ends.2.2.2
      rw [List.append_nil,← isText] at spelling
      exact .cons spelling spelled
    · have isExponent : Exponent ('e' :: sign :: digits) rest :=
        .signed (.inl rfl) isSign areDigits.2 separated.ends.2.1
      have spelling := @Spelling.float floats whole fraction _ rest areWhole areFraction isExponent
      rw [← isText] at spelling
      exact .cons spelling spelled
  · rw [hasPoint] at lacks
    cases lacks

theorem decimal_ascii (decimal : Decimal) : ∀ ch ∈ decimal.text, ch.val.toNat < 128 := by
  have sign : ∀ {sign : Char}, sign = '+' ∨ sign = '-' → sign.val.toNat < 128 := by
    rintro sign (rfl | rfl) <;> decide
  intro ch member
  rcases decimal.text_cases with ⟨-,whole,fraction,areWhole,areFraction,isText⟩ |
    ⟨-,digit,mark,digits,isDigit,isSign,areDigits,isText⟩
  · have plain : ∀ ch ∈ whole ++ '.' :: fraction, ch.val.toNat < 128 := by
      intro other inText
      rcases List.mem_append.mp inText with inWhole | inRest
      · exact digits_ascii areWhole.2 other inWhole
      · rcases List.mem_cons.mp inRest with rfl | inFraction
        · decide
        · exact digits_ascii areFraction.2 other inFraction
    rcases isText with isText | ⟨mark,digits,isSign,areDigits,isText⟩
    · rw [isText] at member
      exact plain ch member
    · rw [isText] at member
      rcases List.mem_append.mp member with inFront | inExponent
      · exact plain ch inFront
      · rcases List.mem_cons.mp inExponent with rfl | inRest
        · decide
        · rcases List.mem_cons.mp inRest with rfl | inDigits
          · exact sign isSign
          · exact digits_ascii areDigits.2 ch inDigits
  · rw [isText] at member
    rcases List.mem_cons.mp member with rfl | member
    · exact digits_ascii (fun other inOne => by
        rw [List.mem_singleton.mp inOne]
        exact isDigit) ch (List.mem_singleton.mpr rfl)
    · rcases List.mem_cons.mp member with rfl | member
      · decide
      · rcases List.mem_cons.mp member with rfl | inDigits
        · exact sign isSign
        · exact digits_ascii areDigits.2 ch inDigits

theorem not_nan_of_finite (finite : isFinite number = true) : number.isNaN = false := by
  have below : number.bits &&& 0x7FFFFFFFFFFFFFFF < 0x7FF0000000000000 := of_decide_eq_true finite
  exact decide_eq_false (UInt64.not_lt.mpr (UInt64.le_of_lt below))

theorem sourceChars_reprFloat (finite : isFinite number = true) :
    sourceChars (reprFloat python number) =
      signText (isNegative number) ++ (python.shortest (magnitude number)).text := by
  rw [reprFloat,if_neg (by rw [not_nan_of_finite finite]; exact Bool.false_ne_true),if_pos finite]
  apply sourceChars_ofList
  intro ch member
  rcases List.mem_append.mp member with inSign | inText
  · exact signText_ascii _ ch inSign
  · exact decimal_ascii _ ch inText

theorem magnitude_positive (positive : isNegative number = false) : magnitude number = number := by
  have isMask : (0x7FFFFFFFFFFFFFFF : UInt64).toNat = 2 ^ 63 - 1 := by decide
  have isHigh : (0x8000000000000000 : UInt64).toNat = 2 ^ 63 := by decide
  have below : number.bits.toNat < 2 ^ 63 := by
    have notHigh := of_decide_eq_false positive
    rw [UInt64.le_iff_toNat_le,isHigh] at notHigh
    omega
  have sameBits : number.bits &&& 0x7FFFFFFFFFFFFFFF = number.bits := by
    apply UInt64.toNat.inj
    rw [UInt64.toNat_and,isMask,Nat.and_two_pow_sub_one_eq_mod,Nat.mod_eq_of_lt below]
  rw [magnitude,sameBits]

theorem magnitude_neg (negative : isNegative number = true) : (magnitude number).neg = number := by
  have isMask : (0x7FFFFFFFFFFFFFFF : UInt64).toNat = 2 ^ 63 - 1 := by decide
  have isHigh : (0x8000000000000000 : UInt64).toNat = 2 ^ 63 := by decide
  have above : 2 ^ 63 ≤ number.bits.toNat := by
    have high := of_decide_eq_true negative
    rw [UInt64.le_iff_toNat_le,isHigh] at high
    exact high
  have sameBits : (number.bits &&& 0x7FFFFFFFFFFFFFFF) ^^^ 0x8000000000000000 = number.bits := by
    have fits := number.bits.toNat_lt
    apply UInt64.toNat.inj
    rw [UInt64.toNat_xor,UInt64.toNat_and,isMask,isHigh,Nat.and_two_pow_sub_one_eq_mod]
    apply Nat.eq_of_testBit_eq
    intro index
    rw [Nat.testBit_xor,Nat.testBit_mod_two_pow,Nat.testBit_two_pow]
    rcases Nat.lt_trichotomy index 63 with isLow | rfl | isHigher
    · have notSign : ¬ 63 = index := by omega
      simp [isLow,notSign]
    · have isSet : number.bits.toNat.testBit 63 = true := by
        rw [Nat.testBit_eq_decide_div_mod_eq,decide_eq_true_eq]
        omega
      simp [isSet]
    · have isClear : number.bits.toNat.testBit index = false := by
        apply Nat.testBit_lt_two_pow
        exact Nat.lt_of_lt_of_le fits (Nat.pow_le_pow_right (by decide) (by omega))
      have notLow : ¬ index < 63 := by omega
      have notSign : ¬ 63 = index := by omega
      simp [isClear,notLow,notSign]
  rw [F64.neg,magnitude,sameBits]

theorem reprFloat_spells {number : F64} (finite : isFinite number = true)
    (hasPoint : (python.shortest (magnitude number)).lacksPoint = false) :
    Spells floats (sourceChars (reprFloat python number))
      ((Cst.float (isNegative number)
        (String.ofList (python.shortest (magnitude number)).text)).tokens floats) := by
  rw [sourceChars_reprFloat finite]
  exact spells_sign _ (decimal_spells _ hasPoint)

theorem pointless_not_parsed (finite : isFinite number = true)
    (lacks : (python.shortest (magnitude number)).lacksPoint = true) (expr : Expr) :
    parse floats texts (reprFloat python number) ≠ .ok expr := by
  intro isParsed
  rcases (python.shortest (magnitude number)).text_cases with ⟨hasPoint,-⟩ |
    ⟨-,digit,sign,digits,isDigit,isSign,areDigits,isText⟩
  · rw [lacks] at hasPoint
    cases hasPoint
  · have one : Digits [digit] := ⟨List.cons_ne_nil _ _,by
      intro ch member
      rw [List.mem_singleton.mp member]
      exact isDigit⟩
    obtain ⟨kind,isPunct⟩ : ∃ kind, ∀ rest, Spelling floats [sign] (Token.punct kind) rest := by
      rcases isSign with rfl | rfl
      · exact ⟨.plus,fun rest => .punct (by decide) (by intro never; simp at never)⟩
      · exact ⟨.minus,fun rest => .punct (by decide) (by intro never; simp at never)⟩
    have noWord : wordGoesOn (sign :: digits) = false := by
      rcases isSign with rfl | rfl <;> rfl
    have behind : SpelledBy floats ('e' :: sign :: digits)
        [Token.word "e",Token.punct kind,Token.int (String.ofList digits)] :=
      .cons (@Spelling.word floats 'e' [] (sign :: digits) rfl .nil noWord)
        (.cons (isPunct digits) (spells_int areDigits).whole)
    have numeral : SpelledBy floats (digit :: 'e' :: sign :: digits)
        (Token.int (String.ofList [digit]) :: [Token.word "e",Token.punct kind,
          Token.int (String.ofList digits)]) :=
      .cons (@Spelling.int floats [digit] _ one rfl rfl) behind
    have spelled : SpelledBy floats (sourceChars (reprFloat python number))
        (signTokens (isNegative number) ++ [Token.int (String.ofList [digit])] ++
          [Token.word "e",Token.punct kind,Token.int (String.ofList digits)]) := by
      rw [sourceChars_reprFloat finite,isText]
      cases isNegative number with
      | false => exact numeral
      | true =>
          exact .cons (@Spelling.punct floats .minus ['-'] _ (by decide)
            (by intro never; simp at never)) numeral
    have outcome : parseExpr texts maxParseDepth 0
        ⟨signTokens (isNegative number) ++ [Token.int (String.ofList [digit])] ++
          [Token.word "e",Token.punct kind,Token.int (String.ofList digits)],none,
          (sourceChars (reprFloat python number)).length⟩ =
        .ok ((Cst.int (isNegative number) (String.ofList [digit])).tree floats,
          ⟨[Token.word "e",Token.punct kind,Token.int (String.ofList digits)],none,
          (sourceChars (reprFloat python number)).length⟩) := by
      show parseExpr texts (511 + 1) 0 _ = _
      rw [parseExpr_succ,parserOf_zero]
      exact @int_reads texts floats _ _ _ _ _ _ (Ends.cons rfl)
    obtain ⟨tree,isTree,-⟩ := parse_tree isParsed
    exact parseTree_trailing spelled outcome tree isTree

theorem float_roundTrips_iff (finite : isFinite number = true)
    (denoted : floats.parse (String.ofList (python.shortest (magnitude number)).text) =
      some (magnitude number)) :
    RoundTrips floats texts python (.float number) ↔
      (python.shortest (magnitude number)).lacksPoint = false := by
  constructor
  · rintro ⟨content,span,isParsed,-⟩
    cases lacks : (python.shortest (magnitude number)).lacksPoint with
    | false => rfl
    | true => exact absurd isParsed (pointless_not_parsed finite lacks _)
  · intro hasPoint
    have spelled := (@reprFloat_spells floats python number finite hasPoint).whole
    have denote : ∀ token ∈ (Cst.float (isNegative number)
        (String.ofList (python.shortest (magnitude number)).text)).tokens floats,
          token.denotes floats = true := by
      intro token member
      rcases List.mem_append.mp member with inSign | isNumeral
      · cases sign : isNegative number with
        | true =>
            rw [sign] at inSign
            rw [List.mem_singleton.mp inSign]
            rfl
        | false =>
            rw [sign] at inSign
            cases inSign
      · rw [List.mem_singleton.mp isNumeral]
        show (floats.parse (String.ofList (python.shortest (magnitude number)).text)).isSome = true
        rw [denoted]
        rfl
    obtain ⟨span,isParsed⟩ := @parse_literal floats texts _ _ _ spelled denote rfl rfl
      (show 1 ≤ maxParseDepth by decide)
    refine ⟨_,span,isParsed,?_⟩
    show (if isNegative number = true then ((floats.parse _).getD F64.zero).neg
      else (floats.parse _).getD F64.zero) = number
    rw [denoted]
    cases sign : isNegative number with
    | true => exact magnitude_neg sign
    | false => exact magnitude_positive sign

end RoundTrips

/-- The literals that the server reads with their values: strings of printable ASCII
that are written in single quotes, integers above the smallest one, and floats whose
text has a decimal point. -/
theorem literal_roundTrips_iff (floats : Floats) (texts : DebugTexts) (python : Python) :
    (∀ text : PyStr, RoundTrips floats texts python (.str text) ↔
      (∀ point ∈ text, point.isPlain = true) ∧
        ¬ (.scalar '\'' ∈ text ∧ .scalar '\"' ∉ text)) ∧
    (∀ number : Int, -2 ^ 63 ≤ number → number < 2 ^ 63 →
      (RoundTrips floats texts python (.int number) ↔ number ≠ -2 ^ 63)) ∧
    (∀ number : F64, isFinite number = true →
      floats.parse (String.ofList (python.shortest (magnitude number)).text) =
        some (magnitude number) →
      (RoundTrips floats texts python (.float number) ↔
        (python.shortest (magnitude number)).lacksPoint = false)) :=
  ⟨str_roundTrips_iff,fun _ low high => int_roundTrips_iff low high,
    fun _ finite denoted => float_roundTrips_iff finite denoted⟩

def samplePython : Python :=
  { isPrintable := fun _ => true
    shortest := fun _ => ⟨['0'],⟨List.cons_ne_nil _ _,List.forall_mem_singleton.mpr (by decide)⟩,1⟩ }

theorem accented_misread :
    (∃ span, parse sampleHost.floats sampleHost.texts
      ((PyLiteral.str [.scalar 'é']).toExprString samplePython) =
        .ok (.literal (.str "Ã©") span)) ∧
    ¬ RoundTrips sampleHost.floats sampleHost.texts samplePython (.str [.scalar 'é']) ∧
    ¬ RoundTrips sampleHost.floats sampleHost.texts samplePython (.int (-2 ^ 63)) := by
  refine ⟨⟨⟨0,4⟩,rfl⟩,?_,?_⟩
  · rw [str_roundTrips_iff]
    decide
  · rw [int_roundTrips_iff (by decide) (by decide)]
    exact fun differs => differs rfl

end Beava.Sdk
