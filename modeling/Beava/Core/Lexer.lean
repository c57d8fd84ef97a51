/-
The tokens of an expression.

The source text is read byte by byte, each byte as the character with its code,
so that a position is an index into the list of these characters.  The code reads
one token ahead of the parser; here all tokens are read at once, and the error
that ends the text early is kept behind them.
-/

import Beava.Core.Expr

namespace Beava.Core

def sourceChars (source : String) : List Char :=
  (source.toList.flatMap String.utf8EncodeChar).map Char.ofUInt8

def isBlank (ch : Char) : Bool :=
  ch = ' ' || ch = '\t' || ch = '\n' || ch = '\r'

def isWordStart (ch : Char) : Bool :=
  isAsciiAlphabetic ch || ch = '_'

def isWordChar (ch : Char) : Bool :=
  isAsciiAlphabetic ch || isAsciiDigit ch || ch = '_'

inductive TokenKind where
  | lParen
  | rParen
  | comma
  | plus
  | minus
  | star
  | slash
  | gt
  | gtEq
  | lt
  | ltEq
  | eqEq
  | bangEq
  | and
  | or
  | not
  | true
  | false
  | null
  | ident
  | intLit
  | floatLit
  | strLit
  deriving DecidableEq, Repr

structure Token where
  kind : TokenKind
  span : Span
  text : String
  intVal : Int64
  floatVal : F64
  deriving DecidableEq, Repr

def ParseError.at (col : Nat) (message : String) : ParseError :=
  ⟨col,"col " ++ toString col ++ ": " ++ message⟩

def lexPunct : List Char → Option (TokenKind × List Char)
  | '(' :: rest => some (.lParen,rest)
  | ')' :: rest => some (.rParen,rest)
  | ',' :: rest => some (.comma,rest)
  | '+' :: rest => some (.plus,rest)
  | '-' :: rest => some (.minus,rest)
  | '*' :: rest => some (.star,rest)
  | '/' :: rest => some (.slash,rest)
  | '>' :: '=' :: rest => some (.gtEq,rest)
  | '>' :: rest => some (.gt,rest)
  | '<' :: '=' :: rest => some (.ltEq,rest)
  | '<' :: rest => some (.lt,rest)
  | '=' :: '=' :: rest => some (.eqEq,rest)
  | '!' :: '=' :: rest => some (.bangEq,rest)
  | _ => none

/-- A string behind its opening quote: the content and what follows the closing
one. -/
def lexString : List Char → Option (List Char × List Char)
  | [] => none
  | ['\\'] => none
  | '\'' :: rest => some ([],rest)
  | '\\' :: escaped :: rest =>
      (lexString rest).map fun closed =>
        ((if escaped = '\\' || escaped = '\'' then [escaped] else ['\\',escaped]) ++ closed.1,
          closed.2)
  | ch :: rest => (lexString rest).map fun closed => (ch :: closed.1,closed.2)

/-- The characters of a word; a dot belongs to it when another word follows. -/
def lexWord : List Char → List Char × List Char
  | [] => ([],[])
  | ch :: rest =>
      if isWordChar ch || (ch = '.' && rest.head?.any isWordStart) then
        match lexWord rest with
        | (taken,left) => (ch :: taken,left)
      else ([],ch :: rest)

def keywordKind (name : String) : TokenKind :=
  if name = "and" then .and
  else if name = "or" then .or
  else if name = "not" then .not
  else if name = "true" then .true
  else if name = "false" then .false
  else if name = "null" then .null
  else .ident

def lexSign : List Char → List Char × List Char
  | [] => ([],[])
  | sign :: rest => if sign = '+' || sign = '-' then ([sign],rest) else ([],sign :: rest)

/-- `e` or `E`, a sign and digits. -/
def lexExponent : List Char → List Char × List Char
  | [] => ([],[])
  | mark :: rest =>
      if mark = 'e' || mark = 'E' then
        let signed := lexSign rest
        (mark :: signed.1 ++ signed.2.takeWhile isAsciiDigit,signed.2.dropWhile isAsciiDigit)
      else ([],mark :: rest)

def lexNumberText (chars : List Char) : List Char × Bool × List Char :=
  let whole := chars.takeWhile isAsciiDigit
  let rest := chars.dropWhile isAsciiDigit
  match rest with
  | '.' :: fraction =>
      if fraction.head?.any isAsciiDigit then
        let exponent := lexExponent (fraction.dropWhile isAsciiDigit)
        (whole ++ '.' :: fraction.takeWhile isAsciiDigit ++ exponent.1,.true,exponent.2)
      else (whole,.false,rest)
  | _ => (whole,.false,rest)

section Scan

variable (floats : Floats) (texts : DebugTexts)

/-- `lex_number`. -/
def lexNumber (start : Nat) (chars : List Char) : Except ParseError (Token × List Char) :=
  let number := lexNumberText chars
  let text := String.ofList number.1
  let span : Span := ⟨start,start + number.1.length⟩
  if number.2.1 then
    match floats.parse text with
    | some value => .ok (⟨.floatLit,span,text,0,value⟩,number.2.2)
    | none => .error (ParseError.at (start + 1) ("invalid float literal " ++ texts.str text))
  else
    match parseI64 text with
    | some value => .ok (⟨.intLit,span,text,value,F64.zero⟩,number.2.2)
    | none => .error (ParseError.at (start + 1) ("invalid integer literal " ++ texts.str text))

/-- `advance_lookahead` at a character that is not blank. -/
def scanToken (start : Nat) (ch : Char) (rest : List Char) :
    Except ParseError (Token × List Char) :=
  match lexPunct (ch :: rest) with
  | some (kind,more) =>
      .ok (⟨kind,⟨start,start + (rest.length + 1 - more.length)⟩,"",0,F64.zero⟩,more)
  | none =>
      if ch = '=' then
        .error (ParseError.at (start + 1) "unexpected character '='; use '==' for equality")
      else if ch = '!' then .error (ParseError.at (start + 1) "unexpected character '!'")
      else if ch = '\'' then
        match lexString rest with
        | some (content,more) =>
            .ok (⟨.strLit,⟨start,start + (rest.length + 1 - more.length)⟩,String.ofList content,
              0,F64.zero⟩,more)
        | none =>
            .error (ParseError.at (start + rest.length + 2) "unterminated string literal")
      else if isAsciiDigit ch then lexNumber floats texts start (ch :: rest)
      else if isWordStart ch then
        match lexWord (ch :: rest) with
        | (taken,more) =>
            let name := String.ofList taken
            .ok (⟨keywordKind name,⟨start,start + taken.length⟩,name,0,F64.zero⟩,more)
      else .error (ParseError.at (start + 1) ("unknown character '" ++ String.singleton ch ++ "'"))

/-- The tokens that are left, the error that ends them when the text does not,
and the length of the source. -/
structure Lexed where
  tokens : List Token
  failure : Option ParseError
  sourceLen : Nat
  deriving DecidableEq, Repr

def tokenizeFrom (sourceLen : Nat) : Nat → Nat → List Char → Lexed
  | 0, _, _ => ⟨[],none,sourceLen⟩
  | fuel + 1, pos, chars =>
      let start := pos + (chars.takeWhile isBlank).length
      match chars.dropWhile isBlank with
      | [] => ⟨[],none,sourceLen⟩
      | ch :: rest =>
          match scanToken floats texts start ch rest with
          | .error error => ⟨[],some error,sourceLen⟩
          | .ok (token,more) =>
              let later := tokenizeFrom sourceLen fuel token.span.stop more
              ⟨token :: later.tokens,later.failure,sourceLen⟩

def tokenize (chars : List Char) : Lexed :=
  tokenizeFrom floats texts chars.length (chars.length + 1) 0 chars

end Scan

theorem lexWord_append (chars : List Char) : (lexWord chars).1 ++ (lexWord chars).2 = chars := by
  fun_induction lexWord chars with
  | case1 => rfl
  | case2 ch rest _ taken left isWord ih =>
      rw [isWord] at ih
      rw [List.cons_append,ih]
  | case3 => rfl

theorem lexSign_append (chars : List Char) : (lexSign chars).1 ++ (lexSign chars).2 = chars := by
  unfold lexSign
  split
  · rfl
  · split <;> rfl

theorem lexExponent_append (chars : List Char) :
    (lexExponent chars).1 ++ (lexExponent chars).2 = chars := by
  unfold lexExponent
  split
  · rfl
  · split
    · dsimp only
      rw [List.cons_append,List.cons_append,List.append_assoc,List.takeWhile_append_dropWhile,
        lexSign_append]
    · rfl

theorem lexNumberText_append (chars : List Char) :
    (lexNumberText chars).1 ++ (lexNumberText chars).2.2 = chars := by
  unfold lexNumberText
  dsimp only
  split
  · rename_i fraction isDot
    split
    · simp only [List.append_assoc,List.cons_append,lexExponent_append,
        List.takeWhile_append_dropWhile,← isDot]
    · rw [List.takeWhile_append_dropWhile]
  · rw [List.takeWhile_append_dropWhile]

end Beava.Core
