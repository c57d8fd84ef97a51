/-
Bodies written in chunks.

A size line is a number in hexadecimal with blanks and extensions behind it; a
chunk is as long as its line says.  A body of this form is read exactly, and not
before it is complete, when its size lines are texts.
-/

import Beava.Server.ChunkedBodies
import Mathlib.Data.List.TakeWhile

namespace Beava.Server

open Beava.Core Beava.Wal Checked Delimiter

variable {byte : UInt8}

/-! ### Size lines -/

section Texts

theorem trim_append_blanks {word blanks : List Char} (wordIs : ∀ ch ∈ word, isWhitespace ch = false)
    (areBlanks : ∀ ch ∈ blanks, isWhitespace ch = true) : trim (word ++ blanks) = word := by
  have keeps : ∀ {text : List Char}, (∀ ch ∈ text, isWhitespace ch = false) →
      text.dropWhile isWhitespace = text := by
    intro text holds
    cases text with
    | nil => rfl
    | cons ch rest =>
        rw [List.dropWhile_cons_of_neg]
        rw [holds ch List.mem_cons_self]
        exact Bool.false_ne_true
  cases word with
  | nil =>
      have none : blanks.dropWhile isWhitespace = [] := List.dropWhile_eq_nil_iff.mpr areBlanks
      rw [trim,List.nil_append,none]
      rfl
  | cons ch word =>
      have front : (ch :: word ++ blanks).dropWhile isWhitespace = ch :: word ++ blanks := by
        rw [List.cons_append,List.dropWhile_cons_of_neg]
        rw [wordIs ch List.mem_cons_self]
        exact Bool.false_ne_true
      have back : ∀ other ∈ blanks.reverse, isWhitespace other = true :=
        fun other member => areBlanks other (List.mem_reverse.mp member)
      have reversed : ∀ other ∈ (ch :: word).reverse, isWhitespace other = false :=
        fun other member => wordIs other (List.mem_reverse.mp member)
      rw [trim,front,List.reverse_append,List.dropWhile_append_of_pos back,keeps reversed,
        List.reverse_reverse]

theorem trim_semicolon {first : Char} (before after : List Char)
    (notBlank : isWhitespace first = false) :
    ∃ others, trim (first :: before ++ ';' :: after) = first :: before ++ ';' :: others := by
  have front : (first :: before ++ ';' :: after).dropWhile isWhitespace =
      first :: before ++ ';' :: after := by
    rw [List.cons_append,List.dropWhile_cons_of_neg]
    rw [notBlank]
    exact Bool.false_ne_true
  have reversed : (first :: before ++ ';' :: after).reverse =
      after.reverse ++ ';' :: (first :: before).reverse := by
    rw [List.reverse_append,List.reverse_cons,List.append_assoc]
    rfl
  have stops : (';' :: (first :: before).reverse).dropWhile isWhitespace =
      ';' :: (first :: before).reverse := by
    rw [List.dropWhile_cons_of_neg]
    decide
  rw [trim,front,reversed,List.dropWhile_append]
  split
  · refine ⟨[],?_⟩
    rw [stops,List.reverse_cons,List.reverse_reverse]
  · refine ⟨(after.reverse.dropWhile isWhitespace).reverse,?_⟩
    rw [List.reverse_append,List.reverse_cons,List.reverse_reverse,List.append_assoc]
    rfl

theorem beforeSemicolon_append {before : List Char} (none : ';' ∉ before) (after : List Char) :
    beforeSemicolon (before ++ ';' :: after) = before := by
  rw [beforeSemicolon,List.takeWhile_append_of_pos]
  · rw [List.takeWhile_cons_of_neg,List.append_nil]
    decide
  · intro ch member
    refine decide_eq_true ?_
    intro same
    rw [same] at member
    exact none member

theorem beforeSemicolon_eq {text : List Char} (none : ';' ∉ text) :
    beforeSemicolon text = text := by
  rw [beforeSemicolon,List.takeWhile_eq_self_iff]
  intro ch member
  refine decide_eq_true ?_
  intro same
  rw [same] at member
  exact none member

end Texts

def space : UInt8 := 0x20

def tab : UInt8 := 0x09

def semicolon : UInt8 := 0x3B

def hexDigit (byte : UInt8) : Option Nat := toDigit 16 (Char.ofUInt8 byte)

/-- The number that digits are. -/
def hexValue (digits : List UInt8) : Nat :=
  digits.foldl (fun value byte => value * 16 + (hexDigit byte).getD 0) 0

/-- A line with a size and perhaps extensions. -/
structure SizeLine where
  digits : List UInt8
  blanks : List UInt8
  extension : List UInt8
  someDigits : digits ≠ []
  areDigits : ∀ byte ∈ digits, (hexDigit byte).isSome = true
  areBlanks : ∀ byte ∈ blanks, byte = space ∨ byte = tab
  isExtension : extension = [] ∨ extension.head? = some semicolon
  oneLine : ¬ [cr,lf] <:+: digits ++ (blanks ++ extension)

namespace SizeLine

variable (line : SizeLine)

def bytes : List UInt8 := line.digits ++ (line.blanks ++ line.extension)

def size : Nat := hexValue line.digits

/-- The line can be read as a text. -/
def IsText : Prop := strFromUtf8 line.bytes ≠ none

end SizeLine

theorem hexDigit_code (isDigit : (hexDigit byte).isSome = true) :
    (0x30 ≤ byte.toNat ∧ byte.toNat ≤ 0x39) ∨ (0x61 ≤ byte.toNat ∧ byte.toNat ≤ 0x7A) ∨
      (0x41 ≤ byte.toNat ∧ byte.toNat ≤ 0x5A) := by
  have code : (Char.ofUInt8 byte).val.toNat = byte.toNat := UInt8.toNat_toUInt32 byte
  unfold hexDigit toDigit at isDigit
  rw [code] at isDigit
  by_contra other
  have notDecimal : ¬ (0x30 ≤ byte.toNat ∧ byte.toNat ≤ 0x39) := by omega
  have notLower : ¬ (0x61 ≤ byte.toNat ∧ byte.toNat ≤ 0x7A) := by omega
  have notUpper : ¬ (0x41 ≤ byte.toNat ∧ byte.toNat ≤ 0x5A) := by omega
  dsimp only at isDigit
  rw [if_neg notDecimal,if_neg notLower,if_neg notUpper] at isDigit
  cases isDigit

theorem hexDigit_notBlank (isDigit : (hexDigit byte).isSome = true) :
    byte.toNat < 128 ∧ isWhitespace (Char.ofUInt8 byte) = false ∧ Char.ofUInt8 byte ≠ ';' ∧
      Char.ofUInt8 byte ≠ '+' := by
  have code : (Char.ofUInt8 byte).val.toNat = byte.toNat := UInt8.toNat_toUInt32 byte
  have range := hexDigit_code isDigit
  refine ⟨by omega,?_,?_,?_⟩
  · unfold isWhitespace
    rw [code]
    simp only [Bool.or_eq_false_iff,Bool.and_eq_false_iff,decide_eq_false_iff_not]
    omega
  · intro same
    rw [same] at code
    have isSemicolon : (';' : Char).val.toNat = 0x3B := by decide
    omega
  · intro same
    rw [same] at code
    have isPlus : ('+' : Char).val.toNat = 0x2B := by decide
    omega

theorem hexValue_le (digits : List UInt8) (value : Nat) :
    value ≤ digits.foldl (fun value byte => value * 16 + (hexDigit byte).getD 0) value := by
  induction digits generalizing value with
  | nil => exact le_rfl
  | cons byte rest ih =>
      have later := ih (value * 16 + (hexDigit byte).getD 0)
      rw [List.foldl_cons]
      omega

theorem digitsValue_hex {digits : List UInt8}
    (areDigits : ∀ byte ∈ digits, (hexDigit byte).isSome = true) {value : Nat}
    (fits : digits.foldl (fun value byte => value * 16 + (hexDigit byte).getD 0) value < 2 ^ 64) :
    digitsValue 16 value (digits.map Char.ofUInt8) =
      .ok (digits.foldl (fun value byte => value * 16 + (hexDigit byte).getD 0) value) := by
  induction digits generalizing value with
  | nil => rfl
  | cons byte rest ih =>
      obtain ⟨digit,isDigit⟩ := Option.isSome_iff_exists.mp (areDigits byte List.mem_cons_self)
      have isValue : (hexDigit byte).getD 0 = digit := by rw [isDigit,Option.getD_some]
      rw [List.foldl_cons] at fits ⊢
      have small := hexValue_le rest (value * 16 + (hexDigit byte).getD 0)
      rw [isValue] at fits small ⊢
      have restDigits : ∀ other ∈ rest, (hexDigit other).isSome = true :=
        fun other member => areDigits other (List.mem_cons_of_mem byte member)
      have read : toDigit 16 (Char.ofUInt8 byte) = some digit := isDigit
      rw [List.map_cons,digitsValue]
      simp only [read]
      rw [if_neg (by omega)]
      exact ih restDigits fits

namespace SizeLine

variable {line : SizeLine}
variable {text : String}

theorem toList_eq (isText : strFromUtf8 line.bytes = some text) :
    ∃ extension : List Char,
      text.toList =
        line.digits.map Char.ofUInt8 ++ (line.blanks.map Char.ofUInt8 ++ extension) ∧
      (extension = [] ∨ ∃ others, extension = ';' :: others) := by
  have encoded := strAsBytes_of_strFromUtf8 isText
  rw [strAsBytes_eq,bytes] at encoded
  have digitsAscii : ∀ byte ∈ line.digits, byte.toNat < 128 :=
    fun byte member => (hexDigit_notBlank (line.areDigits byte member)).1
  have blanksAscii : ∀ byte ∈ line.blanks, byte.toNat < 128 := by
    intro byte member
    rcases line.areBlanks byte member with rfl | rfl
    · decide
    · decide
  obtain ⟨others,isChars,restSame⟩ := ascii_prefix digitsAscii encoded
  obtain ⟨extension,isOthers,extensionSame⟩ := ascii_prefix blanksAscii restSame
  refine ⟨extension,by rw [isChars,isOthers],?_⟩
  cases extension with
  | nil => exact .inl rfl
  | cons ch rest =>
      refine .inr ⟨rest,?_⟩
      rw [List.flatMap_cons] at extensionSame
      rcases line.isExtension with none | starts
      · rw [none,List.append_eq_nil_iff] at extensionSame
        exact absurd extensionSame.1 String.utf8EncodeChar_ne_nil
      · cases isExtension : line.extension with
        | nil =>
            rw [isExtension] at starts
            cases starts
        | cons byte rest =>
            rw [isExtension] at starts extensionSame
            cases starts
            rw [(ascii_front (by decide) extensionSame).1]
            rfl

theorem sizeText_eq (isText : strFromUtf8 line.bytes = some text) :
    sizeText text = line.digits.map Char.ofUInt8 := by
  obtain ⟨extension,isChars,isExtension⟩ := toList_eq isText
  have digitsPlain : ∀ ch ∈ line.digits.map Char.ofUInt8, isWhitespace ch = false ∧ ch ≠ ';' := by
    intro ch member
    obtain ⟨byte,isByte,rfl⟩ := List.mem_map.mp member
    have facts := hexDigit_notBlank (line.areDigits byte isByte)
    exact ⟨facts.2.1,facts.2.2.1⟩
  have blanksBlank : ∀ ch ∈ line.blanks.map Char.ofUInt8, isWhitespace ch = true ∧ ch ≠ ';' := by
    intro ch member
    obtain ⟨byte,isByte,rfl⟩ := List.mem_map.mp member
    rcases line.areBlanks byte isByte with rfl | rfl
    · decide
    · decide
  have noSemicolon : ';' ∉ line.digits.map Char.ofUInt8 ++ line.blanks.map Char.ofUInt8 := by
    intro member
    rcases List.mem_append.mp member with inDigits | inBlanks
    · exact (digitsPlain ';' inDigits).2 rfl
    · exact (blanksBlank ';' inBlanks).2 rfl
  have wordIs := fun ch member => (digitsPlain ch member).1
  have trimmed := trim_append_blanks wordIs fun ch member => (blanksBlank ch member).1
  rw [sizeText,isChars,← List.append_assoc]
  rcases isExtension with rfl | ⟨others,rfl⟩
  · have again := trim_append_blanks wordIs fun _ member => (List.not_mem_nil member).elim
    have noneInDigits : ';' ∉ line.digits.map Char.ofUInt8 :=
      fun member => noSemicolon (List.mem_append_left _ member)
    rw [List.append_nil] at again
    rw [List.append_nil,trimmed,beforeSemicolon_eq noneInDigits,again]
  · cases isDigits : line.digits.map Char.ofUInt8 with
    | nil => exact absurd (List.map_eq_nil_iff.mp isDigits) line.someDigits
    | cons first rest =>
        rw [isDigits] at wordIs noSemicolon trimmed
        obtain ⟨after,isTrimmed⟩ := trim_semicolon
          (rest ++ line.blanks.map Char.ofUInt8) others (wordIs first List.mem_cons_self)
        rw [List.cons_append,isTrimmed,← List.cons_append,
          beforeSemicolon_append noSemicolon,trimmed]

theorem readSizeLine_eq (isText : line.IsText) (fits : line.size < 2 ^ 64) :
    readSizeLine line.bytes = .ok line.size := by
  obtain ⟨text,decoded⟩ := Option.ne_none_iff_exists'.mp isText
  have digits := digitsValue_hex line.areDigits fits
  have number : usizeFromStrRadix 16 (line.digits.map Char.ofUInt8) = .ok line.size := by
    cases isDigits : line.digits with
    | nil => exact absurd isDigits line.someDigits
    | cons byte rest =>
        have isDigit := line.areDigits byte (by rw [isDigits]; exact List.mem_cons_self)
        have notPlus := (hexDigit_notBlank isDigit).2.2.2
        rw [isDigits,List.map_cons] at digits
        rw [List.map_cons]
        unfold usizeFromStrRadix
        split
        · rename_i impossible
          cases impossible
        · rename_i isPlus
          exact absurd (List.cons.inj isPlus).1 notPlus
        · rename_i isPlus
          exact absurd (List.cons.inj isPlus).1 notPlus
        · rw [digits,size,hexValue,isDigits]
  simp only [readSizeLine,decoded,sizeText_eq decoded,number]

theorem readSizeLine_notText (notText : ¬ line.IsText) :
    readSizeLine line.bytes = .error "non-UTF8 chunk size line" := by
  simp only [readSizeLine,not_not.mp notText]

end SizeLine

/-! ### Bodies in chunks -/

/-- Data behind a line with their length. -/
structure Chunk where
  line : SizeLine
  data : List UInt8
  someData : data ≠ []
  isSize : line.size = data.length

structure ChunkedBody where
  chunks : List Chunk
  last : SizeLine
  isLast : last.size = 0

def encodeChunks (last : SizeLine) : List Chunk → List UInt8
  | [] => last.bytes ++ cr :: lf :: [cr,lf]
  | chunk :: rest =>
      chunk.line.bytes ++ cr :: lf :: (chunk.data ++ cr :: lf :: encodeChunks last rest)

namespace ChunkedBody

variable (body : ChunkedBody)

def bytes : List UInt8 := encodeChunks body.last body.chunks

def data : List UInt8 := body.chunks.flatMap Chunk.data

/-- All size lines can be read as texts. -/
def LinesAreText : Prop := (∀ chunk ∈ body.chunks, chunk.line.IsText) ∧ body.last.IsText

end ChunkedBody

section Reading

variable {overflowChecks : Bool} {data rest : List UInt8} {last : SizeLine} {fuel pos : Nat}
  {body : List UInt8}
variable {cut : Nat}
variable {front : List UInt8}

theorem inside_of_drop (isFront : data.drop pos = front) (some : front ≠ []) :
    pos ≤ data.length ∧ data.length = pos + front.length := by
  have length := congrArg List.length isFront
  have positive := List.length_pos_iff.mpr some
  rw [List.length_drop] at length
  omega

theorem crlf_differ : cr ≠ lf := by decide

theorem drop_behind {start : Nat} {bytes : List UInt8}
    (isHere : data.drop start = bytes ++ cr :: lf :: rest) :
    data.drop (start + bytes.length + 2) = rest := by
  rw [Nat.add_assoc,← List.drop_drop,isHere,← List.drop_drop,List.drop_left]
  rfl

variable {line : SizeLine}

theorem firstPair_at (isLine : data.drop pos = line.bytes ++ cr :: lf :: rest) :
    firstPair cr lf (data.drop pos) = some line.bytes.length ∧
      (data.drop pos).take line.bytes.length = line.bytes ∧
      data.drop (pos + line.bytes.length + 2) = rest := by
  refine ⟨?_,?_,?_⟩
  · rw [isLine]
    exact firstPair_line crlf_differ line.oneLine rest
  · rw [isLine,List.take_left]
  · exact drop_behind isLine

theorem chunkLoop_passes {chunk : Chunk} (isText : chunk.line.IsText)
    (isChunk : data.drop pos = chunk.line.bytes ++ cr :: lf :: rest)
    (fits : pos + chunk.line.bytes.length + 2 + chunk.data.length + 2 < 2 ^ 64) :
    chunkLoop overflowChecks data (fuel + 1) pos body =
      if data.length < pos + chunk.line.bytes.length + 2 + chunk.data.length + 2 then
        .ok .incomplete
      else chunkLoop overflowChecks data fuel
        (pos + chunk.line.bytes.length + 2 + chunk.data.length + 2)
        (body ++ rest.take chunk.data.length) := by
  have inside := (inside_of_drop isChunk (by simp)).1
  obtain ⟨isLine,isBytes,behind⟩ := firstPair_at isChunk
  have isSize := chunk.line.readSizeLine_eq isText (by rw [chunk.isSize]; omega)
  have someData := List.length_pos_iff.mpr chunk.someData
  rw [← isBytes,chunk.isSize] at isSize
  rw [chunkLoop_chunk inside isLine isSize (by omega) fits,behind]

theorem length_encodeChunks (last : SizeLine) (chunk : Chunk) (chunks : List Chunk) :
    (encodeChunks last (chunk :: chunks)).length =
      chunk.line.bytes.length + 2 + chunk.data.length + 2 +
        (encodeChunks last chunks).length := by
  simp only [encodeChunks,List.length_append,List.length_cons]
  omega

theorem chunkLoop_whole (chunks : List Chunk) (areTexts : ∀ chunk ∈ chunks, chunk.line.IsText)
    (lastIsText : last.IsText) (isLast : last.size = 0)
    (isBody : data.drop pos = encodeChunks last chunks ++ rest) (enough : chunks.length < fuel)
    (fits : pos + (encodeChunks last chunks).length < 2 ^ 63) :
    chunkLoop overflowChecks data fuel pos body =
      .ok (.complete (body ++ chunks.flatMap Chunk.data)
        (pos + (encodeChunks last chunks).length)) := by
  induction chunks generalizing fuel pos body with
  | nil =>
      obtain ⟨fuel,rfl⟩ : ∃ others, fuel = others + 1 := ⟨fuel - 1,by omega⟩
      have isEnd : data.drop pos = last.bytes ++ cr :: lf :: ([cr,lf] ++ rest) := by
        rw [isBody,encodeChunks,List.append_assoc]
        rfl
      have inside := inside_of_drop isBody (by simp [encodeChunks])
      obtain ⟨isLine,isBytes,-⟩ := firstPair_at isEnd
      have isSize := last.readSizeLine_eq lastIsText (by rw [isLast]; decide)
      rw [← isBytes,isLast] at isSize
      have length : (encodeChunks last []).length = last.bytes.length + 4 := by
        rw [encodeChunks,List.length_append]
        rfl
      rw [List.length_append,length] at inside
      rw [chunkLoop_last inside.1 isLine isSize,if_neg (by omega),length,List.flatMap_nil,
        List.append_nil]
      rfl
  | cons chunk chunks ih =>
      obtain ⟨fuel,rfl⟩ : ∃ others, fuel = others + 1 := ⟨fuel - 1,by omega⟩
      have isChunk : data.drop pos = chunk.line.bytes ++ cr :: lf ::
          (chunk.data ++ cr :: lf :: (encodeChunks last chunks ++ rest)) := by
        rw [isBody,encodeChunks]
        simp only [List.append_assoc,List.cons_append]
      have length := length_encodeChunks last chunk chunks
      have inside := inside_of_drop isBody (by simp [encodeChunks])
      rw [List.length_append,length] at inside
      rw [length] at fits
      have behind := (firstPair_at isChunk).2.2
      have next : data.drop (pos + chunk.line.bytes.length + 2 + chunk.data.length + 2) =
          encodeChunks last chunks ++ rest := drop_behind behind
      rw [chunkLoop_passes (areTexts chunk List.mem_cons_self) isChunk (by omega),
        if_neg (by omega),List.take_left,ih _ next (by rw [List.length_cons] at enough; omega)
          (by omega),List.flatMap_cons,List.append_assoc,length]
      · congr 2
        omega
      · exact fun other member => areTexts other (List.mem_cons_of_mem chunk member)

theorem chunkLoop_inLine (inside : pos ≤ data.length)
    (isFront : data.drop pos = (line.bytes ++ cr :: lf :: rest).take cut)
    (inLine : cut < line.bytes.length + 2) :
    chunkLoop overflowChecks data (fuel + 1) pos body = .ok .incomplete := by
  apply chunkLoop_noLine inside
  have short : (line.bytes ++ cr :: lf :: rest).take cut = (line.bytes ++ [cr,lf]).take cut := by
    have split : line.bytes ++ cr :: lf :: rest = line.bytes ++ [cr,lf] ++ rest := by
      rw [List.append_assoc]
      rfl
    rw [split,List.take_append_of_le_length]
    rw [List.length_append]
    exact Nat.le_of_lt_succ (Nat.lt_succ_of_lt inLine)
  rw [isFront,short]
  exact firstPair_take_line crlf_differ line.oneLine inLine

theorem take_behindLine (behind : line.bytes.length + 2 ≤ cut) :
    (line.bytes ++ cr :: lf :: rest).take cut =
      line.bytes ++ cr :: lf :: rest.take (cut - (line.bytes.length + 2)) := by
  obtain ⟨more,rfl⟩ := Nat.exists_eq_add_of_le behind
  rw [Nat.add_sub_cancel_left,Nat.add_assoc,List.take_length_add_append,Nat.add_comm 2 more]
  rfl

theorem length_of_front (inside : pos ≤ data.length) (isFront : data.drop pos = front.take cut)
    (short : cut < front.length) : data.length = pos + cut := by
  have length := congrArg List.length isFront
  rw [List.length_drop,List.length_take] at length
  omega

theorem chunkLoop_front (chunks : List Chunk) (areTexts : ∀ chunk ∈ chunks, chunk.line.IsText)
    (lastIsText : last.IsText) (isLast : last.size = 0) (inside : pos ≤ data.length)
    (isFront : data.drop pos = (encodeChunks last chunks).take cut)
    (short : cut < (encodeChunks last chunks).length) (enough : data.length < fuel + pos)
    (fits : pos + (encodeChunks last chunks).length < 2 ^ 63) :
    chunkLoop overflowChecks data fuel pos body = .ok .incomplete := by
  induction chunks generalizing fuel pos body cut with
  | nil =>
      obtain ⟨fuel,rfl⟩ : ∃ others, fuel = others + 1 := ⟨fuel - 1,by omega⟩
      have dataLength := length_of_front inside isFront short
      have length : (encodeChunks last []).length = last.bytes.length + 4 := by
        rw [encodeChunks,List.length_append]
        rfl
      by_cases inLine : cut < last.bytes.length + 2
      · exact chunkLoop_inLine inside isFront inLine
      · rw [encodeChunks,take_behindLine (Nat.not_lt.mp inLine)] at isFront
        obtain ⟨isLine,isBytes,-⟩ := firstPair_at isFront
        have isSize := last.readSizeLine_eq lastIsText (by rw [isLast]; decide)
        rw [← isBytes,isLast] at isSize
        rw [chunkLoop_last inside isLine isSize,if_pos (by omega)]
  | cons chunk chunks ih =>
      obtain ⟨fuel,rfl⟩ : ∃ others, fuel = others + 1 := ⟨fuel - 1,by omega⟩
      have dataLength := length_of_front inside isFront short
      have length := length_encodeChunks last chunk chunks
      by_cases inLine : cut < chunk.line.bytes.length + 2
      · exact chunkLoop_inLine inside isFront inLine
      · rw [encodeChunks,take_behindLine (Nat.not_lt.mp inLine)] at isFront
        rw [chunkLoop_passes (areTexts chunk List.mem_cons_self) isFront (by omega)]
        split
        · rfl
        · rename_i isThere
          obtain ⟨-,-,behind⟩ := firstPair_at isFront
          obtain ⟨more,isCut⟩ := Nat.exists_eq_add_of_le
            (show chunk.line.bytes.length + 2 + (chunk.data.length + 2) ≤ cut by omega)
          have remaining : cut - (chunk.line.bytes.length + 2) = chunk.data.length + (more + 2) := by
            omega
          rw [remaining,List.take_length_add_append] at behind
          have next : data.drop (pos + chunk.line.bytes.length + 2 + chunk.data.length + 2) =
              (encodeChunks last chunks).take more := drop_behind behind
          have restTexts : ∀ other ∈ chunks, other.line.IsText :=
            fun other member => areTexts other (List.mem_cons_of_mem chunk member)
          apply ih restTexts _ next
          · omega
          · omega
          · omega
          · omega

theorem chunkLoop_stops (notText : ¬ line.IsText)
    (isLine : data.drop pos = line.bytes ++ cr :: lf :: rest) :
    ∃ reason, chunkLoop overflowChecks data (fuel + 1) pos body = .ok (.error reason) := by
  obtain ⟨found,isBytes,-⟩ := firstPair_at isLine
  have bad := line.readSizeLine_notText notText
  rw [← isBytes] at bad
  exact ⟨_,chunkLoop_badLine (inside_of_drop isLine (by simp)).1 found bad⟩

theorem chunkLoop_notText (chunks : List Chunk)
    (notText : ¬ ((∀ chunk ∈ chunks, chunk.line.IsText) ∧ last.IsText))
    (isBody : data.drop pos = encodeChunks last chunks ++ rest) (enough : chunks.length < fuel)
    (fits : pos + (encodeChunks last chunks).length < 2 ^ 63) :
    ∃ reason, chunkLoop overflowChecks data fuel pos body = .ok (.error reason) := by
  induction chunks generalizing fuel pos body with
  | nil =>
      obtain ⟨fuel,rfl⟩ : ∃ others, fuel = others + 1 := ⟨fuel - 1,by omega⟩
      have lastNone : ¬ last.IsText := fun isText =>
        notText ⟨fun _ member => (List.not_mem_nil member).elim,isText⟩
      rw [encodeChunks,List.append_assoc] at isBody
      exact chunkLoop_stops lastNone isBody
  | cons chunk chunks ih =>
      obtain ⟨fuel,rfl⟩ : ∃ others, fuel = others + 1 := ⟨fuel - 1,by omega⟩
      have length := length_encodeChunks last chunk chunks
      have isChunk : data.drop pos = chunk.line.bytes ++ cr :: lf ::
          (chunk.data ++ cr :: lf :: (encodeChunks last chunks ++ rest)) := by
        rw [isBody,encodeChunks]
        simp only [List.append_assoc,List.cons_append]
      by_cases isText : chunk.line.IsText
      · have inside := inside_of_drop isBody (by simp [encodeChunks])
        rw [List.length_append,length] at inside
        have restNone : ¬ ((∀ other ∈ chunks, other.line.IsText) ∧ last.IsText) := by
          rintro ⟨areTexts,lastIsText⟩
          exact notText ⟨List.forall_mem_cons.mpr ⟨isText,areTexts⟩,lastIsText⟩
        have behind := (firstPair_at isChunk).2.2
        have next : data.drop (pos + chunk.line.bytes.length + 2 + chunk.data.length + 2) =
            encodeChunks last chunks ++ rest := drop_behind behind
        rw [List.length_cons] at enough
        rw [chunkLoop_passes isText isChunk (by omega),if_neg (by omega)]
        exact ih restNone next (by omega) (by omega)
      · exact chunkLoop_stops isText isChunk

theorem length_le_encodeChunks (last : SizeLine) (chunks : List Chunk) :
    chunks.length ≤ (encodeChunks last chunks).length := by
  induction chunks with
  | nil => exact Nat.zero_le _
  | cons chunk chunks ih =>
      rw [length_encodeChunks,List.length_cons]
      omega

section Whole

variable {chunked : ChunkedBody} (fits : chunked.bytes.length < 2 ^ 63)

include fits

theorem parseChunkedBody_whole (areTexts : chunked.LinesAreText) (rest : List UInt8) :
    parseChunkedBody overflowChecks (chunked.bytes ++ rest) =
      .ok (.complete chunked.data chunked.bytes.length) := by
  have enough := length_le_encodeChunks chunked.last chunked.chunks
  have whole := @chunkLoop_whole overflowChecks (chunked.bytes ++ rest) rest chunked.last
    ((chunked.bytes ++ rest).length + 1) 0 [] chunked.chunks areTexts.1 areTexts.2 chunked.isLast
    rfl (by rw [List.length_append]; exact Nat.lt_succ_of_le (enough.trans (Nat.le_add_right _ _)))
    (by rw [Nat.zero_add]; exact fits)
  rw [Nat.zero_add] at whole
  exact whole

theorem parseChunkedBody_front (areTexts : chunked.LinesAreText) {cut : Nat}
    (short : cut < chunked.bytes.length) :
    parseChunkedBody overflowChecks (chunked.bytes.take cut) = .ok .incomplete := by
  apply chunkLoop_front chunked.chunks areTexts.1 areTexts.2 chunked.isLast (Nat.zero_le _) rfl
    short
  · exact Nat.lt_succ_self _
  · rw [Nat.zero_add]
    exact fits

theorem parseChunkedBody_notText (notText : ¬ chunked.LinesAreText) (rest : List UInt8) :
    ∃ reason, parseChunkedBody overflowChecks (chunked.bytes ++ rest) = .ok (.error reason) := by
  have enough := length_le_encodeChunks chunked.last chunked.chunks
  apply chunkLoop_notText chunked.chunks notText rfl
  · rw [List.length_append]
    exact Nat.lt_succ_of_le (enough.trans (Nat.le_add_right _ _))
  · rw [Nat.zero_add]
    exact fits

end Whole

end Reading

end Beava.Server
