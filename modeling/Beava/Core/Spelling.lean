/-
Texts of tokens.

What the tokenizer reads as one token is said without it: a text is a word, a
number, a string, a bracket or an operator, and what follows does not continue it.
A source is spelled by a list of tokens when their texts stand in it in this order
with nothing but blanks between them.
-/

import Beava.Core.Lexer
import Mathlib.Data.List.TakeWhile

namespace Beava.Core

variable {chars rest : List Char} {ch : Char} {floats : Floats} {token : Token}
variable {digits tail text : List Char} {kind : TokenKind} {texts : DebugTexts} {sourceLen : Nat}
variable {tokens : List Token}

/-! ### Tokens without positions -/

def noSpan : Span := ⟨0,0⟩

def Token.bare (token : Token) : Token :=
  { token with span := noSpan }

@[simp] theorem Token.bare_kind (token : Token) : token.bare.kind = token.kind := rfl

/-- A bracket, the comma or an operator. -/
def Token.punct (kind : TokenKind) : Token := ⟨kind,noSpan,"",0,F64.zero⟩

/-- An identifier or a keyword. -/
def Token.word (name : String) : Token := ⟨keywordKind name,noSpan,name,0,F64.zero⟩

def Token.quoted (content : String) : Token := ⟨.strLit,noSpan,content,0,F64.zero⟩

/-- An integer; one that is out of range has no value. -/
def Token.int (text : String) : Token :=
  ⟨.intLit,noSpan,text,(parseI64 text).getD 0,F64.zero⟩

def Token.float (floats : Floats) (text : String) : Token :=
  ⟨.floatLit,noSpan,text,0,(floats.parse text).getD F64.zero⟩

def Token.number (floats : Floats) (isFloat : Bool) (text : String) : Token :=
  if isFloat then Token.float floats text else Token.int text

/-- A number has a value of its type. -/
def Token.denotes (floats : Floats) (token : Token) : Bool :=
  match token.kind with
  | .intLit => (parseI64 token.text).isSome
  | .floatLit => (floats.parse token.text).isSome
  | _ => true

/-! ### Lexical classes -/

def punctTexts : List (TokenKind × List Char) :=
  [(.lParen,['(']),(.rParen,[')']),(.comma,[',']),(.plus,['+']),(.minus,['-']),
    (.star,['*']),(.slash,['/']),(.gtEq,['>','=']),(.gt,['>']),(.ltEq,['<','=']),
    (.lt,['<']),(.eqEq,['=','=']),(.bangEq,['!','='])]

/-- The text between the quotes and what it stands for. -/
inductive Quoted : List Char → List Char → Prop
  | nil : Quoted [] []
  | plain {ch : Char} {raw content : List Char} (notQuote : ch ≠ '\'') (notBackslash : ch ≠ '\\')
      (rest : Quoted raw content) : Quoted (ch :: raw) (ch :: content)
  | escaped {ch : Char} {raw content : List Char} (isEscape : ch = '\\' ∨ ch = '\'')
      (rest : Quoted raw content) : Quoted ('\\' :: ch :: raw) (ch :: content)
  | kept {ch : Char} {raw content : List Char} (notBackslash : ch ≠ '\\') (notQuote : ch ≠ '\'')
      (rest : Quoted raw content) : Quoted ('\\' :: ch :: raw) ('\\' :: ch :: content)

/-- What may stand behind the first character of a word. -/
inductive WordTail : List Char → Prop
  | nil : WordTail []
  | char {ch : Char} {tail : List Char} (isChar : isWordChar ch = true) (rest : WordTail tail) :
      WordTail (ch :: tail)
  | dot {ch : Char} {tail : List Char} (isStart : isWordStart ch = true) (rest : WordTail tail) :
      WordTail ('.' :: ch :: tail)

def wordGoesOn : List Char → Bool
  | [] => false
  | ch :: rest => isWordChar ch || (ch = '.' && rest.head?.any isWordStart)

def digitGoesOn (rest : List Char) : Bool :=
  rest.head?.any isAsciiDigit

def fractionFollows : List Char → Bool
  | '.' :: rest => digitGoesOn rest
  | _ => false

/-- A run of digits. -/
def Digits (digits : List Char) : Prop :=
  digits ≠ [] ∧ ∀ ch ∈ digits, isAsciiDigit ch = true

theorem toDigits_digits (number : Nat) : Digits (Nat.toDigits 10 number) := by
  refine ⟨Nat.toDigits_ne_nil,?_⟩
  intro ch member
  have isDigit := Nat.isDigit_of_mem_toDigits (by decide) (by decide) member
  rw [Char.isDigit,Bool.and_eq_true,decide_eq_true_eq,decide_eq_true_eq] at isDigit
  rw [isAsciiDigit,Bool.and_eq_true,decide_eq_true_eq,decide_eq_true_eq]
  exact isDigit

/-- The exponent of a float, which may be missing, and what follows it. -/
inductive Exponent : List Char → List Char → Prop
  | missing {rest : List Char} (noMark : rest.head? ≠ some 'e' ∧ rest.head? ≠ some 'E')
      (ends : digitGoesOn rest = false) : Exponent [] rest
  | signed {mark sign : Char} {digits rest : List Char} (isMark : mark = 'e' ∨ mark = 'E')
      (isSign : sign = '+' ∨ sign = '-') (isDigits : ∀ ch ∈ digits, isAsciiDigit ch = true)
      (ends : digitGoesOn rest = false) : Exponent (mark :: sign :: digits) rest
  | unsigned {mark : Char} {digits rest : List Char} (isMark : mark = 'e' ∨ mark = 'E')
      (isDigits : ∀ ch ∈ digits, isAsciiDigit ch = true) (ends : digitGoesOn rest = false)
      (noSign : digits = [] → rest.head? ≠ some '+' ∧ rest.head? ≠ some '-') :
      Exponent (mark :: digits) rest

/-- A text is the whole of a token in front of what follows. -/
inductive Spelling (floats : Floats) : List Char → Token → List Char → Prop
  | punct {kind : TokenKind} {text rest : List Char} (isPunct : (kind,text) ∈ punctTexts)
      (ends : kind = .gt ∨ kind = .lt → rest.head? ≠ some '=') :
      Spelling floats text (Token.punct kind) rest
  | quoted {raw content rest : List Char} (isQuoted : Quoted raw content) :
      Spelling floats ('\'' :: raw ++ ['\'']) (Token.quoted (String.ofList content)) rest
  | word {ch : Char} {tail rest : List Char} (isStart : isWordStart ch = true)
      (isTail : WordTail tail) (ends : wordGoesOn rest = false) :
      Spelling floats (ch :: tail) (Token.word (String.ofList (ch :: tail))) rest
  | int {digits rest : List Char} (isDigits : Digits digits) (ends : digitGoesOn rest = false)
      (noFraction : fractionFollows rest = false) :
      Spelling floats digits (Token.int (String.ofList digits)) rest
  | float {whole fraction exponent rest : List Char} (isWhole : Digits whole)
      (isFraction : Digits fraction) (isExponent : Exponent exponent rest) :
      Spelling floats (whole ++ '.' :: fraction ++ exponent)
        (Token.float floats (String.ofList (whole ++ '.' :: fraction ++ exponent))) rest

/-- The source is blanks and the texts of the tokens. -/
inductive SpelledBy (floats : Floats) : List Char → List Token → Prop
  | done {blanks : List Char} (isBlank : ∀ ch ∈ blanks, isBlank ch = true) :
      SpelledBy floats blanks []
  | next {blanks text rest : List Char} {token : Token} {tokens : List Token}
      (isBlank : ∀ ch ∈ blanks, isBlank ch = true) (spelling : Spelling floats text token rest)
      (later : SpelledBy floats rest tokens) :
      SpelledBy floats (blanks ++ (text ++ rest)) (token :: tokens)

section

variable {floats : Floats}

theorem SpelledBy.cons {text rest : List Char} {token : Token} {tokens : List Token}
    (spelling : Spelling floats text token rest) (later : SpelledBy floats rest tokens) :
    SpelledBy floats (text ++ rest) (token :: tokens) :=
  @SpelledBy.next floats [] text rest token tokens (fun _ member => by cases member) spelling later

end

theorem sourceChars_ofList (ascii : ∀ ch ∈ chars, ch.val.toNat < 128) :
    sourceChars (String.ofList chars) = chars := by
  rw [sourceChars,String.toList_ofList]
  induction chars with
  | nil => rfl
  | cons ch rest ih =>
      have isByte := ascii ch List.mem_cons_self
      have encoded : String.utf8EncodeChar ch = [UInt8.ofNat ch.val.toNat] := by
        rw [String.utf8EncodeChar,if_pos (by omega)]
      have same : Char.ofUInt8 (UInt8.ofNat ch.val.toNat) = ch := by
        apply Char.ext
        apply UInt32.toNat.inj
        show (UInt8.ofNat ch.val.toNat).toUInt32.toNat = ch.val.toNat
        rw [UInt8.toNat_toUInt32,
          UInt8.toNat_ofNat_of_lt' (Nat.lt_trans isByte (by decide))]
      rw [List.flatMap_cons,encoded,List.map_append,List.map_singleton,same,
        ih fun other member => ascii other (List.mem_cons_of_mem _ member)]
      rfl

theorem not_blank_of_wordStart (isStart : isWordStart ch = true) : isBlank ch = false := by
  rw [Bool.eq_false_iff]
  intro blank
  simp only [isBlank,Bool.or_eq_true,decide_eq_true_eq] at blank
  rcases blank with ((rfl | rfl) | rfl) | rfl
  all_goals revert isStart
  all_goals decide

theorem not_blank_of_digit (isDigit : isAsciiDigit ch = true) : isBlank ch = false := by
  rw [Bool.eq_false_iff]
  intro blank
  simp only [isBlank,Bool.or_eq_true,decide_eq_true_eq] at blank
  rcases blank with ((rfl | rfl) | rfl) | rfl
  all_goals revert isDigit
  all_goals decide

theorem isWordChar_of_start (isStart : isWordStart ch = true) : isWordChar ch = true := by
  simp only [isWordStart,isWordChar,Bool.or_eq_true] at isStart ⊢
  rcases isStart with isAlpha | isUnderscore
  · exact .inl (.inl isAlpha)
  · exact .inr isUnderscore

theorem not_digit_of_start (isStart : isWordStart ch = true) : isAsciiDigit ch = false := by
  rw [Bool.eq_false_iff]
  intro isDigit
  simp only [isWordStart,isAsciiAlphabetic,isAsciiDigit,Bool.or_eq_true,Bool.and_eq_true,
    decide_eq_true_eq] at isStart isDigit
  rcases isStart with (isLower | isUpper) | rfl
  · exact absurd (Char.le_trans isLower.1 isDigit.2) (by decide)
  · exact absurd (Char.le_trans isUpper.1 isDigit.2) (by decide)
  · exact absurd isDigit.2 (by decide)

theorem lexPunct_none (rest : List Char) (plain : isWordStart ch = true ∨ isAsciiDigit ch = true) :
    lexPunct (ch :: rest) = none := by
  unfold lexPunct
  split
  case h_14 => rfl
  all_goals
    rename_i same
    cases same
    exact absurd plain (by decide)

theorem takeWhile_digits (isDigits : ∀ ch ∈ digits, isAsciiDigit ch = true)
    (ends : digitGoesOn rest = false) :
    (digits ++ rest).takeWhile isAsciiDigit = digits ∧
      (digits ++ rest).dropWhile isAsciiDigit = rest := by
  have stops : rest.takeWhile isAsciiDigit = [] ∧ rest.dropWhile isAsciiDigit = rest := by
    cases rest with
    | nil => exact ⟨rfl,rfl⟩
    | cons ch others =>
        have notDigit : isAsciiDigit ch = false := ends
        simp only [List.takeWhile_cons,List.dropWhile_cons,notDigit,Bool.false_eq_true,if_false,
          and_self]
  rw [List.takeWhile_append_of_pos isDigits,List.dropWhile_append_of_pos isDigits,stops.1,stops.2,
    List.append_nil]
  exact ⟨rfl,rfl⟩

theorem lexString_quoted {raw content : List Char} (isQuoted : Quoted raw content)
    (rest : List Char) : lexString (raw ++ '\'' :: rest) = some (content,rest) := by
  induction isQuoted with
  | nil => rfl
  | @plain ch raw content notQuote notBackslash _ ih =>
      rw [List.cons_append,lexString]
      · rw [ih]
        rfl
      · intro isEscape
        exact absurd isEscape notBackslash
      · exact notQuote
      · intro escaped others isEscape
        exact absurd isEscape notBackslash
  | @escaped ch raw content isEscape _ ih =>
      rw [List.cons_append,List.cons_append,lexString,ih]
      rcases isEscape with rfl | rfl
      · rfl
      · rfl
  | @kept ch raw content notBackslash notQuote _ ih =>
      rw [List.cons_append,List.cons_append,lexString,ih]
      simp [notBackslash,notQuote]

theorem lexWord_tail (isTail : WordTail tail) (ends : wordGoesOn rest = false) :
    lexWord (tail ++ rest) = (tail,rest) := by
  induction isTail with
  | nil =>
      cases rest with
      | nil => rfl
      | cons ch others =>
          have stops : (isWordChar ch || (ch = '.' && others.head?.any isWordStart)) = false := ends
          rw [List.nil_append,lexWord,stops]
          rfl
  | @char ch tail isChar _ ih =>
      rw [List.cons_append,lexWord,isChar,Bool.true_or,if_pos rfl,ih]
  | @dot ch tail isStart _ ih =>
      rw [List.cons_append,List.cons_append,lexWord]
      have goesOn : ('.' = '.' && (ch :: (tail ++ rest)).head?.any isWordStart) = true := by
        simp [isStart]
      rw [goesOn,Bool.or_true,if_pos rfl,lexWord,isWordChar_of_start isStart,Bool.true_or,
        if_pos rfl,ih]

theorem lexExponent_of {exponent : List Char} (isExponent : Exponent exponent rest) :
    lexExponent (exponent ++ rest) = (exponent,rest) := by
  cases isExponent with
  | missing noMark ends =>
      cases rest with
      | nil => rfl
      | cons ch others =>
          have notMark : ¬ ((ch = 'e' || ch = 'E') = true) := by
            simpa using noMark
          rw [List.nil_append,lexExponent,if_neg notMark]
  | @signed mark sign digits _ isMark isSign isDigits ends =>
      have marked : (mark = 'e' || mark = 'E') = true := by
        simpa using isMark
      have isSigned : (sign = '+' || sign = '-') = true := by
        simpa using isSign
      obtain ⟨taken,left⟩ := takeWhile_digits isDigits ends
      rw [List.cons_append,List.cons_append,lexExponent,if_pos marked,lexSign,if_pos isSigned]
      simp only [taken,left,List.cons_append,List.nil_append]
  | @unsigned mark digits _ isMark isDigits ends noSign =>
      have marked : (mark = 'e' || mark = 'E') = true := by
        simpa using isMark
      obtain ⟨taken,left⟩ := takeWhile_digits isDigits ends
      have unsignedHead : lexSign (digits ++ rest) = ([],digits ++ rest) := by
        cases isList : digits ++ rest with
        | nil => rfl
        | cons sign more =>
            have notSign : ¬ ((sign = '+' || sign = '-') = true) := by
              cases digits with
              | nil =>
                  rw [List.nil_append] at isList
                  have := noSign rfl
                  rw [isList] at this
                  simpa using this
              | cons digit others =>
                  rw [List.cons_append] at isList
                  cases isList
                  have isDigit := isDigits sign List.mem_cons_self
                  intro isSign
                  simp only [Bool.or_eq_true,decide_eq_true_eq] at isSign
                  rcases isSign with rfl | rfl
                  · exact absurd isDigit (by decide)
                  · exact absurd isDigit (by decide)
            rw [lexSign,if_neg notSign]
      rw [List.cons_append,lexExponent,if_pos marked,unsignedHead]
      simp only [taken,left,List.cons_append,List.nil_append]

theorem lexNumberText_int (isDigits : Digits digits) (ends : digitGoesOn rest = false)
    (noFraction : fractionFollows rest = false) :
    lexNumberText (digits ++ rest) = (digits,.false,rest) := by
  obtain ⟨taken,left⟩ := takeWhile_digits isDigits.2 ends
  rw [lexNumberText,taken,left]
  dsimp only
  split
  · rename_i fraction
    have noDigit : ¬ (fraction.head?.any isAsciiDigit = true) := by
      rw [Bool.not_eq_true]
      exact noFraction
    rw [if_neg noDigit]
  · rfl

theorem lexNumberText_float {whole fraction exponent : List Char} (isWhole : Digits whole)
    (isFraction : Digits fraction) (isExponent : Exponent exponent rest) :
    lexNumberText ((whole ++ '.' :: fraction ++ exponent) ++ rest) =
      (whole ++ '.' :: fraction ++ exponent,.true,rest) := by
  have noDigit : digitGoesOn (exponent ++ rest) = false := by
    cases isExponent with
    | missing _ ends => exact ends
    | signed isMark | unsigned isMark => rcases isMark with rfl | rfl <;> rfl
  have isFractionHead : (fraction ++ (exponent ++ rest)).head?.any isAsciiDigit = true := by
    obtain ⟨nonempty,isDigits⟩ := isFraction
    cases fraction with
    | nil => exact absurd rfl nonempty
    | cons digit others => exact isDigits digit List.mem_cons_self
  have noDigitHead : digitGoesOn ('.' :: (fraction ++ (exponent ++ rest))) = false := rfl
  obtain ⟨taken,left⟩ := takeWhile_digits isWhole.2 noDigitHead
  obtain ⟨fractionTaken,fractionLeft⟩ := takeWhile_digits isFraction.2 noDigit
  rw [List.append_assoc,List.append_assoc,List.cons_append,lexNumberText,taken,left]
  show (if (fraction ++ (exponent ++ rest)).head?.any isAsciiDigit then _ else _) = _
  rw [if_pos isFractionHead,fractionTaken,fractionLeft,lexExponent_of isExponent]

/-! ### The branches of the scanner -/

section Scan

variable {floats : Floats} {texts : DebugTexts} {start : Nat} {ch : Char} {rest : List Char}

theorem scanToken_punct {kind : TokenKind} {more : List Char}
    (isPunct : lexPunct (ch :: rest) = some (kind,more)) :
    ∃ scanned, scanToken floats texts start ch rest = .ok (scanned,more) ∧
      scanned.bare = Token.punct kind := by
  rw [scanToken,isPunct]
  exact ⟨_,rfl,rfl⟩

theorem scanToken_quote {content more : List Char} (isString : lexString rest = some (content,more)) :
    ∃ scanned, scanToken floats texts start '\'' rest = .ok (scanned,more) ∧
      scanned.bare = Token.quoted (String.ofList content) := by
  have noPunct : lexPunct ('\'' :: rest) = none := rfl
  rw [scanToken,noPunct]
  simp only [Char.reduceEq,if_false,if_true,isString]
  exact ⟨_,rfl,rfl⟩

theorem scanToken_number (isDigit : isAsciiDigit ch = true) :
    scanToken floats texts start ch rest = lexNumber floats texts start (ch :: rest) := by
  have notEq : ch ≠ '=' := by
    intro same
    rw [same] at isDigit
    exact absurd isDigit (by decide)
  have notBang : ch ≠ '!' := by
    intro same
    rw [same] at isDigit
    exact absurd isDigit (by decide)
  have notQuote : ch ≠ '\'' := by
    intro same
    rw [same] at isDigit
    exact absurd isDigit (by decide)
  rw [scanToken,lexPunct_none rest (.inr isDigit)]
  simp only [if_neg notEq,if_neg notBang,if_neg notQuote,isDigit,if_true]

theorem scanToken_word (isStart : isWordStart ch = true) :
    ∃ scanned, scanToken floats texts start ch rest = .ok (scanned,(lexWord (ch :: rest)).2) ∧
      scanned.bare = Token.word (String.ofList (lexWord (ch :: rest)).1) := by
  have notEq : ch ≠ '=' := by
    intro same
    rw [same] at isStart
    exact absurd isStart (by decide)
  have notBang : ch ≠ '!' := by
    intro same
    rw [same] at isStart
    exact absurd isStart (by decide)
  have notQuote : ch ≠ '\'' := by
    intro same
    rw [same] at isStart
    exact absurd isStart (by decide)
  rw [scanToken,lexPunct_none rest (.inl isStart)]
  simp only [if_neg notEq,if_neg notBang,if_neg notQuote,not_digit_of_start isStart,
    Bool.false_eq_true,if_false,isStart,if_true]
  exact ⟨_,rfl,rfl⟩

theorem lexNumber_cases {chars text more : List Char} {isFloat : Bool}
    (isNumber : lexNumberText chars = (text,isFloat,more)) :
    ((Token.number floats isFloat (String.ofList text)).denotes floats = true →
      ∃ scanned, lexNumber floats texts start chars = .ok (scanned,more) ∧
        scanned.bare = Token.number floats isFloat (String.ofList text)) ∧
    ((Token.number floats isFloat (String.ofList text)).denotes floats = false →
      ∃ error, lexNumber floats texts start chars = .error error) := by
  rw [lexNumber,isNumber]
  cases isFloat with
  | true =>
      simp only [if_true,Token.number,Token.denotes,Token.float]
      cases floats.parse (String.ofList text) with
      | none => exact ⟨(by intro denotes; cases denotes),fun _ => ⟨_,rfl⟩⟩
      | some value => exact ⟨fun _ => ⟨_,rfl,rfl⟩,(by intro fails; cases fails)⟩
  | false =>
      simp only [Bool.false_eq_true,if_false,Token.number,Token.denotes,Token.int]
      cases parseI64 (String.ofList text) with
      | none => exact ⟨(by intro denotes; cases denotes),fun _ => ⟨_,rfl⟩⟩
      | some value => exact ⟨fun _ => ⟨_,rfl,rfl⟩,(by intro fails; cases fails)⟩

end Scan

theorem Token.denotes_of_kind (notInt : token.kind ≠ .intLit) (notFloat : token.kind ≠ .floatLit) :
    token.denotes floats = true := by
  unfold Token.denotes
  split
  · exact absurd ‹_› notInt
  · exact absurd ‹_› notFloat
  · rfl

theorem keywordKind_word (name : String) :
    keywordKind name ≠ .intLit ∧ keywordKind name ≠ .floatLit := by
  unfold keywordKind
  repeat' split
  all_goals decide

theorem lexPunct_gt (ends : rest.head? ≠ some '=') : lexPunct ('>' :: rest) = some (.gt,rest) := by
  unfold lexPunct
  split <;> simp_all

theorem lexPunct_lt (ends : rest.head? ≠ some '=') : lexPunct ('<' :: rest) = some (.lt,rest) := by
  unfold lexPunct
  split <;> simp_all

theorem lexPunct_spelled (isPunct : (kind,text) ∈ punctTexts)
    (ends : kind = .gt ∨ kind = .lt → rest.head? ≠ some '=') :
    lexPunct (text ++ rest) = some (kind,rest) := by
  simp only [punctTexts,List.mem_cons,Prod.mk.injEq,List.not_mem_nil,or_false] at isPunct
  rcases isPunct with ⟨rfl,rfl⟩ | ⟨rfl,rfl⟩ | ⟨rfl,rfl⟩ | ⟨rfl,rfl⟩ | ⟨rfl,rfl⟩ | ⟨rfl,rfl⟩ |
    ⟨rfl,rfl⟩ | ⟨rfl,rfl⟩ | ⟨rfl,rfl⟩ | ⟨rfl,rfl⟩ | ⟨rfl,rfl⟩ | ⟨rfl,rfl⟩ | ⟨rfl,rfl⟩
  all_goals first
    | rfl
    | exact lexPunct_gt (ends (.inl rfl))
    | exact lexPunct_lt (ends (.inr rfl))

theorem punct_head : ∀ pair ∈ punctTexts, pair.2.head?.any (fun ch => !isBlank ch) = true ∧
    pair.1 ≠ .intLit ∧ pair.1 ≠ .floatLit := by
  decide

theorem Spelling.text_ne_nil (spelling : Spelling floats text token rest) : text ≠ [] := by
  cases spelling with
  | punct isPunct ends =>
      intro isNil
      obtain ⟨notBlank,-⟩ := punct_head _ isPunct
      rw [isNil] at notBlank
      cases notBlank
  | quoted isQuoted => simp
  | word isStart isTail ends => simp
  | int isDigits ends noFraction => exact isDigits.1
  | float isWhole isFraction isExponent => simp

theorem scan_of_spelling (texts : DebugTexts) (spelling : Spelling floats text token rest)
    (start : Nat) :
    ∃ ch more, text ++ rest = ch :: more ∧ isBlank ch = false ∧
      (token.denotes floats = true →
        ∃ scanned, scanToken floats texts start ch more = .ok (scanned,rest) ∧
          scanned.bare = token) ∧
      (token.denotes floats = false →
        ∃ error, scanToken floats texts start ch more = .error error) := by
  cases spelling with
  | @punct kind _ _ isPunct ends =>
      have isRead := lexPunct_spelled isPunct ends
      obtain ⟨notBlank,notInt,notFloat⟩ := punct_head _ isPunct
      have denotes : (Token.punct kind).denotes floats = true :=
        Token.denotes_of_kind notInt notFloat
      cases text with
      | nil => cases notBlank
      | cons ch tail =>
          refine ⟨ch,tail ++ rest,rfl,by simpa using notBlank,?_,?_⟩
          · intro _
            exact scanToken_punct isRead
          · rw [denotes]
            intro fails
            cases fails
  | @quoted raw content _ isQuoted =>
      refine ⟨'\'',raw ++ '\'' :: rest,by simp,by decide,?_,by intro fails; cases fails⟩
      intro _
      exact scanToken_quote (lexString_quoted isQuoted rest)
  | @word ch tail _ isStart isTail ends =>
      refine ⟨ch,tail ++ rest,rfl,not_blank_of_wordStart isStart,?_,?_⟩
      · intro _
        have isWord : lexWord (ch :: (tail ++ rest)) = (ch :: tail,rest) :=
          lexWord_tail (.char (isWordChar_of_start isStart) isTail) ends
        have scanned := @scanToken_word floats texts start ch (tail ++ rest) isStart
        rw [isWord] at scanned
        exact scanned
      · obtain ⟨notInt,notFloat⟩ := keywordKind_word (String.ofList (ch :: tail))
        rw [Token.denotes_of_kind notInt notFloat]
        intro fails
        cases fails
  | @int _ _ isDigits ends noFraction =>
      have isNumber := lexNumberText_int isDigits ends noFraction
      cases text with
      | nil => exact absurd rfl isDigits.1
      | cons ch tail =>
          have isDigit := isDigits.2 ch List.mem_cons_self
          refine ⟨ch,tail ++ rest,rfl,not_blank_of_digit isDigit,?_⟩
          rw [scanToken_number isDigit]
          exact lexNumber_cases isNumber
  | @float whole fraction exponent _ isWhole isFraction isExponent =>
      have isNumber := lexNumberText_float isWhole isFraction isExponent
      cases whole with
      | nil => exact absurd rfl isWhole.1
      | cons ch tail =>
          have isDigit := isWhole.2 ch List.mem_cons_self
          refine ⟨ch,_,rfl,not_blank_of_digit isDigit,?_⟩
          rw [scanToken_number isDigit]
          exact lexNumber_cases isNumber

/-! ### What is read is a text -/

def TokenKind.spelling (kind : TokenKind) : List Char :=
  (punctTexts.lookup kind).getD []

theorem head_ne (notEq : ∀ others, rest = '=' :: others → False) : rest.head? ≠ some '=' := by
  intro isEq
  obtain ⟨others,isCons⟩ := List.head?_eq_some_iff.mp isEq
  exact notEq others isCons

theorem lexPunct_sound (isPunct : lexPunct chars = some (kind,rest)) :
    chars = kind.spelling ++ rest ∧ (kind,kind.spelling) ∈ punctTexts ∧
      (kind = .gt ∨ kind = .lt → rest.head? ≠ some '=') := by
  unfold lexPunct at isPunct
  split at isPunct
  case h_14 => cases isPunct
  all_goals cases isPunct
  case h_9 notEq => exact ⟨rfl,by decide,fun _ => head_ne notEq⟩
  case h_11 notEq => exact ⟨rfl,by decide,fun _ => head_ne notEq⟩
  all_goals
    refine ⟨rfl,by decide,?_⟩
    intro isAngle
    rcases isAngle with isGt | isLt
    · cases isGt
    · cases isLt

theorem lexString_sound {content : List Char} (isString : lexString chars = some (content,rest)) :
    ∃ raw, chars = raw ++ '\'' :: rest ∧ Quoted raw content := by
  fun_induction lexString chars generalizing content with
  | case1 => cases isString
  | case2 => cases isString
  | case3 rest =>
      cases isString
      exact ⟨[],rfl,.nil⟩
  | case4 escaped rest ih =>
      obtain ⟨⟨inner,left⟩,isClosed,same⟩ := Option.map_eq_some_iff.mp isString
      cases same
      obtain ⟨raw,isRaw,isQuoted⟩ := ih isClosed
      refine ⟨'\\' :: escaped :: raw,by rw [isRaw]; rfl,?_⟩
      by_cases isBackslash : escaped = '\\'
      · subst isBackslash
        exact .escaped (.inl rfl) isQuoted
      · by_cases isQuote : escaped = '\''
        · subst isQuote
          exact .escaped (.inr rfl) isQuoted
        · simp only [isBackslash,isQuote,decide_false,Bool.or_self,Bool.false_eq_true,if_false]
          exact .kept isBackslash isQuote isQuoted
  | case5 ch rest notLone notQuote notEscape ih =>
      obtain ⟨⟨inner,left⟩,isClosed,same⟩ := Option.map_eq_some_iff.mp isString
      cases same
      obtain ⟨raw,isRaw,isQuoted⟩ := ih isClosed
      refine ⟨ch :: raw,by rw [isRaw]; rfl,?_⟩
      apply Quoted.plain notQuote _ isQuoted
      intro isBackslash
      cases rest with
      | nil => exact notLone isBackslash rfl
      | cons escaped others => exact notEscape escaped others isBackslash rfl

theorem WordTail.behind (isTail : WordTail (ch :: tail)) (isStart : isWordStart ch = true) :
    WordTail tail := by
  cases isTail with
  | char _ rest => exact rest
  | dot _ _ => exact absurd isStart (by decide)

theorem lexWord_sound (chars : List Char) :
    WordTail (lexWord chars).1 ∧ wordGoesOn (lexWord chars).2 = false := by
  fun_induction lexWord chars with
  | case1 => exact ⟨.nil,rfl⟩
  | case2 ch rest goesOn taken left isWord ih =>
      rw [isWord] at ih
      refine ⟨?_,ih.2⟩
      rw [Bool.or_eq_true] at goesOn
      rcases goesOn with isChar | isDot
      · exact .char isChar ih.1
      · rw [Bool.and_eq_true,decide_eq_true_eq] at isDot
        obtain ⟨rfl,isStart⟩ := isDot
        cases rest with
        | nil => cases isStart
        | cons next others =>
            have isNext : isWordStart next = true := isStart
            rw [lexWord,isWordChar_of_start isNext,Bool.true_or,if_pos rfl] at isWord
            cases isWord
            exact .dot isNext (ih.1.behind isNext)
  | case3 ch rest stops => exact ⟨.nil,by simpa [wordGoesOn] using stops⟩

theorem dropWhile_digits (chars : List Char) :
    digitGoesOn (chars.dropWhile isAsciiDigit) = false := by
  induction chars with
  | nil => rfl
  | cons ch rest ih =>
      rw [List.dropWhile_cons]
      split
      · exact ih
      · rename_i notDigit
        rw [Bool.not_eq_true] at notDigit
        exact notDigit

theorem takeWhile_isDigit : ∀ ch ∈ chars.takeWhile isAsciiDigit, isAsciiDigit ch = true :=
  fun _ member => (List.mem_takeWhile_imp member)

theorem digits_takeWhile (isDigit : digitGoesOn chars = true) :
    Digits (chars.takeWhile isAsciiDigit) := by
  refine ⟨?_,takeWhile_isDigit⟩
  cases chars with
  | nil => cases isDigit
  | cons ch rest =>
      have first : isAsciiDigit ch = true := isDigit
      rw [List.takeWhile_cons,if_pos first]
      exact List.cons_ne_nil _ _

theorem lexExponent_sound (ends : digitGoesOn chars = false) :
    Exponent (lexExponent chars).1 (lexExponent chars).2 := by
  unfold lexExponent
  split
  · exact .missing ⟨by simp,by simp⟩ rfl
  · rename_i mark rest
    split
    · rename_i isMark
      have marked : mark = 'e' ∨ mark = 'E' := by
        simpa using isMark
      unfold lexSign
      split
      · exact .unsigned marked (by simp) rfl (by simp)
      · rename_i sign digits
        split
        · rename_i isSign
          exact .signed marked (by simpa using isSign) takeWhile_isDigit (dropWhile_digits _)
        · rename_i notSign
          refine .unsigned marked takeWhile_isDigit (dropWhile_digits _) ?_
          intro noDigits
          have nothing : (sign :: digits).takeWhile isAsciiDigit = [] := noDigits
          have whole := @List.takeWhile_append_dropWhile _ isAsciiDigit (sign :: digits)
          rw [nothing,List.nil_append] at whole
          dsimp only
          rw [whole]
          simpa using notSign
    · rename_i notMark
      exact .missing (by simpa using notMark) ends

theorem lexNumberText_sound {isFloat : Bool} (isDigit : isAsciiDigit ch = true)
    (isNumber : lexNumberText (ch :: chars) = (text,isFloat,rest)) :
    Spelling floats text (Token.number floats isFloat (String.ofList text)) rest := by
  have isWhole : Digits ((ch :: chars).takeWhile isAsciiDigit) := digits_takeWhile isDigit
  have ends := dropWhile_digits (ch :: chars)
  unfold lexNumberText at isNumber
  dsimp only at isNumber
  split at isNumber
  · rename_i fraction isDot
    split at isNumber
    · rename_i isFraction
      cases isNumber
      exact .float isWhole (digits_takeWhile isFraction)
        (lexExponent_sound (dropWhile_digits fraction))
    · rename_i noFraction
      cases isNumber
      refine .int isWhole ends ?_
      rw [isDot]
      rw [Bool.not_eq_true] at noFraction
      exact noFraction
  · rename_i notDot
    cases isNumber
    refine .int isWhole ends ?_
    unfold fractionFollows
    split
    · rename_i fraction isDot
      exact absurd isDot (notDot fraction)
    · rfl

theorem spelling_of_scan {start : Nat} {scanned : Token}
    (isRead : scanToken floats texts start ch chars = .ok (scanned,rest)) :
    ∃ text, ch :: chars = text ++ rest ∧ Spelling floats text scanned.bare rest ∧
      scanned.bare.denotes floats = true := by
  cases isPunct : lexPunct (ch :: chars) with
  | some pair =>
      obtain ⟨kind,more⟩ := pair
      obtain ⟨same,member,ends⟩ := lexPunct_sound isPunct
      obtain ⟨-,notInt,notFloat⟩ := punct_head _ member
      obtain ⟨other,isOther,isBare⟩ := @scanToken_punct floats texts start ch chars kind more isPunct
      rw [isRead] at isOther
      cases isOther
      rw [isBare]
      exact ⟨kind.spelling,same,.punct member ends,Token.denotes_of_kind notInt notFloat⟩
  | none =>
      by_cases isDigit : isAsciiDigit ch = true
      · rw [scanToken_number isDigit] at isRead
        obtain ⟨⟨text,isFloat,more⟩,isNumber⟩ :
            ∃ number, lexNumberText (ch :: chars) = number := ⟨_,rfl⟩
        have whole := lexNumberText_append (ch :: chars)
        rw [isNumber] at whole
        obtain ⟨reads,fails⟩ := @lexNumber_cases floats texts start _ _ _ _ isNumber
        cases denotes : (Token.number floats isFloat (String.ofList text)).denotes floats with
        | true =>
            obtain ⟨other,isOther,isBare⟩ := reads denotes
            rw [isRead] at isOther
            cases isOther
            rw [isBare]
            exact ⟨text,whole.symm,lexNumberText_sound isDigit isNumber,denotes⟩
        | false =>
            obtain ⟨error,isError⟩ := fails denotes
            rw [isRead] at isError
            cases isError
      · by_cases isStart : isWordStart ch = true
        · obtain ⟨isTail,ends⟩ := lexWord_sound chars
          have whole := lexWord_append chars
          have isWord : lexWord (ch :: chars) = (ch :: (lexWord chars).1,(lexWord chars).2) := by
            rw [lexWord,isWordChar_of_start isStart,Bool.true_or,if_pos rfl]
          obtain ⟨other,isOther,isBare⟩ := @scanToken_word floats texts start ch chars isStart
          rw [isRead,isWord] at isOther
          cases isOther
          rw [isBare,isWord]
          obtain ⟨notInt,notFloat⟩ := keywordKind_word (String.ofList (ch :: (lexWord chars).1))
          refine ⟨ch :: (lexWord chars).1,by rw [List.cons_append,whole],
            .word isStart isTail ends,Token.denotes_of_kind notInt notFloat⟩
        · by_cases isQuote : ch = '\''
          · subst isQuote
            cases isString : lexString chars with
            | none =>
                rw [scanToken,isPunct] at isRead
                simp [isString] at isRead
            | some pair =>
                obtain ⟨content,more⟩ := pair
                obtain ⟨raw,same,isQuoted⟩ := lexString_sound isString
                obtain ⟨other,isOther,isBare⟩ := @scanToken_quote floats texts start _ _ _ isString
                rw [isRead] at isOther
                cases isOther
                rw [isBare]
                exact ⟨'\'' :: raw ++ ['\''],by simp [same],.quoted isQuoted,rfl⟩
          · rw [scanToken,isPunct] at isRead
            simp only [isDigit,isStart,isQuote,if_false] at isRead
            split at isRead
            · cases isRead
            · split at isRead
              · cases isRead
              · cases isRead

theorem dropWhile_blanks {blanks : List Char} (areBlank : ∀ ch ∈ blanks, isBlank ch = true)
    (notBlank : isBlank ch = false) (more : List Char) :
    (blanks ++ ch :: more).dropWhile isBlank = ch :: more := by
  rw [List.dropWhile_append_of_pos areBlank,List.dropWhile_cons,notBlank]
  rfl

theorem tokenizeFrom_spelled (texts : DebugTexts) (spelled : SpelledBy floats chars tokens) :
    ∀ fuel pos, chars.length < fuel →
      ((∀ token ∈ tokens, token.denotes floats = true) →
        (tokenizeFrom floats texts sourceLen fuel pos chars).tokens.map Token.bare = tokens ∧
          (tokenizeFrom floats texts sourceLen fuel pos chars).failure = none) ∧
      ((∃ token ∈ tokens, token.denotes floats = false) →
        (tokenizeFrom floats texts sourceLen fuel pos chars).failure ≠ none) := by
  induction spelled with
  | @done blanks areBlank =>
      intro fuel pos enough
      cases fuel with
      | zero => exact absurd enough (Nat.not_lt_zero _)
      | succ fuel =>
          have nothing : blanks.dropWhile isBlank = [] := by
            rw [List.dropWhile_eq_nil_iff]
            exact areBlank
          rw [tokenizeFrom,nothing]
          exact ⟨fun _ => ⟨rfl,rfl⟩,by rintro ⟨token,member,-⟩; cases member⟩
  | @next blanks text rest token tokens areBlank spelling later ih =>
      intro fuel pos enough
      cases fuel with
      | zero => exact absurd enough (Nat.not_lt_zero _)
      | succ fuel =>
          obtain ⟨ch,more,isCons,notBlank,reads,fails⟩ := scan_of_spelling texts spelling
            (pos + ((blanks ++ (text ++ rest)).takeWhile isBlank).length)
          have shorter : rest.length < fuel := by
            have := List.length_pos_iff.mpr spelling.text_ne_nil
            simp only [List.length_append] at enough
            omega
          have dropped : (blanks ++ (text ++ rest)).dropWhile isBlank = ch :: more := by
            rw [isCons]
            exact dropWhile_blanks areBlank notBlank more
          rw [tokenizeFrom,dropped]
          constructor
          · intro denote
            obtain ⟨scanned,isRead,isBare⟩ := reads (denote token List.mem_cons_self)
            obtain ⟨same,noFailure⟩ := (ih fuel scanned.span.stop shorter).1
              fun other member => denote other (List.mem_cons_of_mem _ member)
            dsimp only
            rw [isRead]
            exact ⟨by rw [List.map_cons,isBare,same],noFailure⟩
          · rintro ⟨bad,member,notDenotes⟩
            dsimp only
            cases denotes : token.denotes floats with
            | false =>
                obtain ⟨error,isError⟩ := fails denotes
                rw [isError]
                simp
            | true =>
                obtain ⟨scanned,isRead,-⟩ := reads denotes
                rw [isRead]
                rcases List.mem_cons.mp member with rfl | inLater
                · rw [denotes] at notDenotes
                  cases notDenotes
                · exact (ih fuel scanned.span.stop shorter).2 ⟨bad,inLater,notDenotes⟩

theorem tokenize_spelled (texts : DebugTexts) (spelled : SpelledBy floats chars tokens) :
    ((∀ token ∈ tokens, token.denotes floats = true) →
      (tokenize floats texts chars).tokens.map Token.bare = tokens ∧
        (tokenize floats texts chars).failure = none) ∧
    ((∃ token ∈ tokens, token.denotes floats = false) →
      (tokenize floats texts chars).failure ≠ none) :=
  tokenizeFrom_spelled texts spelled _ _ (Nat.lt_succ_self _)

theorem spelled_of_tokenizeFrom :
    ∀ fuel pos chars, chars.length < fuel →
      (tokenizeFrom floats texts sourceLen fuel pos chars).failure = none →
        SpelledBy floats chars
            ((tokenizeFrom floats texts sourceLen fuel pos chars).tokens.map Token.bare) ∧
          ∀ token ∈ (tokenizeFrom floats texts sourceLen fuel pos chars).tokens,
            token.bare.denotes floats = true := by
  intro fuel
  induction fuel with
  | zero =>
      intro pos chars enough
      exact absurd enough (Nat.not_lt_zero _)
  | succ fuel ih =>
      intro pos chars enough noFailure
      have blanks : ∀ ch ∈ chars.takeWhile isBlank, isBlank ch = true :=
        fun ch member => List.mem_takeWhile_imp member
      have whole := @List.takeWhile_append_dropWhile _ isBlank chars
      rw [tokenizeFrom] at noFailure ⊢
      dsimp only at noFailure ⊢
      cases isRest : chars.dropWhile isBlank with
      | nil =>
          rw [isRest,List.append_nil] at whole
          rw [whole] at blanks
          exact ⟨.done blanks,by intro token member; cases member⟩
      | cons ch rest =>
          rw [isRest] at noFailure whole
          dsimp only at noFailure ⊢
          cases isScan : scanToken floats texts (pos + (chars.takeWhile isBlank).length) ch rest with
          | error error =>
              rw [isScan] at noFailure
              cases noFailure
          | ok pair =>
              obtain ⟨scanned,more⟩ := pair
              rw [isScan] at noFailure
              obtain ⟨text,isText,spelling,denotes⟩ := spelling_of_scan isScan
              have shorter : more.length < fuel := by
                have := List.length_pos_iff.mpr spelling.text_ne_nil
                rw [← whole,isText] at enough
                simp only [List.length_append] at enough
                omega
              obtain ⟨later,others⟩ := ih scanned.span.stop more shorter noFailure
              constructor
              · have spelled := SpelledBy.next blanks spelling later
                rw [← isText,whole] at spelled
                exact spelled
              · intro token member
                rcases List.mem_cons.mp member with rfl | inLater
                · exact denotes
                · exact others token inLater

theorem spelled_of_tokenize {floats : Floats} {texts : DebugTexts} {chars : List Char}
    (noFailure : (tokenize floats texts chars).failure = none) :
    SpelledBy floats chars ((tokenize floats texts chars).tokens.map Token.bare) ∧
      ∀ token ∈ (tokenize floats texts chars).tokens, token.bare.denotes floats = true :=
  spelled_of_tokenizeFrom _ _ chars (Nat.lt_succ_self _) noFailure

end Beava.Core
