/-
What the parser makes of a body that comes in chunks.

The loop walks from size line to size line.  Where it is, which chunks it has
passed and what the line there says are facts about the bytes; the loop panics
when a size does not fit behind its line in a `usize`, and otherwise it ends with
the chunks that it passed.
-/

import Beava.Server.HttpFraming

namespace Beava.Server

open Beava.Core Beava.Wal Checked Delimiter

/-! ### One round of the loop -/

section Rounds

variable {overflowChecks : Bool} {data : List UInt8} {fuel pos : Nat} {body : List UInt8}

theorem sliced_eq {start stop : Nat} (ordered : start ≤ stop) (inside : stop ≤ data.length) :
    sliced data start stop = .ok ((data.drop start).take (stop - start)) := by
  rw [sliced,slice,if_pos ⟨ordered,inside⟩]
  rfl

theorem sliced_toEnd {start : Nat} (inside : start ≤ data.length) :
    sliced data start data.length = .ok (data.drop start) := by
  rw [sliced_eq inside le_rfl,List.take_of_length_le]
  rw [List.length_drop]

theorem sliced_outside {start stop : Nat} (outside : stop < start ∨ data.length < stop) :
    ∃ panic, sliced data start stop = .error panic := by
  refine ⟨.fault .outOfBounds,?_⟩
  rw [sliced,slice,if_neg (by omega)]
  rfl

theorem addUsize_fits {left right : Nat} (fits : left + right < 2 ^ 64) :
    addUsize overflowChecks left right = .ok (left + right) :=
  if_neg (Nat.not_le.mpr fits)

theorem findCrlf_eq (inside : pos ≤ data.length) :
    findCrlf data pos = .ok ((firstPair cr lf (data.drop pos)).map (pos + ·)) := by
  rw [findCrlf,sliced_toEnd inside]
  rfl

theorem chunkLoop_noLine (inside : pos ≤ data.length)
    (noLine : firstPair cr lf (data.drop pos) = none) :
    chunkLoop overflowChecks data (fuel + 1) pos body = .ok .incomplete := by
  rw [chunkLoop,findCrlf_eq inside,noLine]
  rfl

section Line

variable {length : Nat} (inside : pos ≤ data.length)
  (isLine : firstPair cr lf (data.drop pos) = some length)

include inside isLine

theorem line_inside : pos + length + 2 ≤ data.length := by
  have fits := firstPair_le isLine
  rw [List.length_drop] at fits
  omega

theorem sliced_line : sliced data pos (pos + length) = .ok ((data.drop pos).take length) := by
  have fits := line_inside inside isLine
  rw [sliced_eq (by omega) (by omega),Nat.add_sub_cancel_left]

theorem chunkLoop_badLine {reason : String}
    (bad : readSizeLine ((data.drop pos).take length) = .error reason) :
    chunkLoop overflowChecks data (fuel + 1) pos body = .ok (.error reason) := by
  simp only [chunkLoop,findCrlf_eq inside,isLine,Option.map_some,bind,Except.bind,
    sliced_line inside isLine,bad]
  rfl

theorem chunkLoop_last (isLast : readSizeLine ((data.drop pos).take length) = .ok 0) :
    chunkLoop overflowChecks data (fuel + 1) pos body =
      if data.length < pos + length + 4 then .ok .incomplete
      else .ok (.complete body (pos + length + 4)) := by
  simp only [chunkLoop,findCrlf_eq inside,isLine,Option.map_some,bind,Except.bind,
    sliced_line inside isLine,isLast,if_true]
  split
  · rfl
  · rfl

section Chunk

variable {size : Nat} (isSize : readSizeLine ((data.drop pos).take length) = .ok size)
  (isChunk : size ≠ 0)

include isSize isChunk

theorem chunkLoop_chunk (fits : pos + length + 2 + size + 2 < 2 ^ 64) :
    chunkLoop overflowChecks data (fuel + 1) pos body =
      if data.length < pos + length + 2 + size + 2 then .ok .incomplete
      else chunkLoop overflowChecks data fuel (pos + length + 2 + size + 2)
        (body ++ (data.drop (pos + length + 2)).take size) := by
  have dataFits : pos + length + 2 + size < 2 ^ 64 := by omega
  simp only [chunkLoop,findCrlf_eq inside,isLine,Option.map_some,bind,Except.bind,
    sliced_line inside isLine,isSize,if_neg isChunk,addUsize_fits dataFits,addUsize_fits fits]
  split
  · rfl
  · rename_i enough
    rw [sliced_eq (by omega) (by omega),Nat.add_sub_cancel_left]

theorem chunkLoop_checked (large : 2 ^ 64 ≤ pos + length + 2 + size + 2) :
    chunkLoop true data (fuel + 1) pos body = .error .arithmeticOverflow := by
  by_cases dataFits : pos + length + 2 + size < 2 ^ 64
  · have overflows : addUsize true (pos + length + 2 + size) 2 = .error .arithmeticOverflow :=
      if_pos large
    simp only [chunkLoop,findCrlf_eq inside,isLine,Option.map_some,bind,Except.bind,
      sliced_line inside isLine,isSize,if_neg isChunk,addUsize_fits dataFits,overflows]
  · have overflows : addUsize true (pos + length + 2) size = .error .arithmeticOverflow :=
      if_pos (Nat.not_lt.mp dataFits)
    simp only [chunkLoop,findCrlf_eq inside,isLine,Option.map_some,bind,Except.bind,
      sliced_line inside isLine,isSize,if_neg isChunk,overflows]

theorem chunkLoop_wrapped (large : 2 ^ 64 ≤ pos + length + 2 + size + 2)
    (sizeFits : size < 2 ^ 64) (allocated : data.length < 2 ^ 63) :
    (∃ panic, chunkLoop false data (fuel + 1) pos body = .error panic) ∨
      chunkLoop false data (fuel + 1) pos body = .ok .incomplete := by
  have lineFits := line_inside inside isLine
  obtain ⟨dataEnd,isEnd,outside⟩ : ∃ dataEnd,
      addUsize false (pos + length + 2) size = .ok dataEnd ∧
        (dataEnd < pos + length + 2 ∨ data.length < dataEnd) := by
    by_cases dataFits : pos + length + 2 + size < 2 ^ 64
    · exact ⟨_,addUsize_fits dataFits,.inr (by omega)⟩
    · refine ⟨(pos + length + 2 + size) % 2 ^ 64,if_pos (Nat.not_lt.mp dataFits),.inl ?_⟩
      omega
  obtain ⟨next,isNext⟩ : ∃ next, addUsize false dataEnd 2 = .ok next := by
    unfold addUsize
    split
    · exact ⟨_,rfl⟩
    · exact ⟨_,rfl⟩
  obtain ⟨panic,panics⟩ := @sliced_outside data _ _ outside
  simp only [chunkLoop,findCrlf_eq inside,isLine,Option.map_some,bind,Except.bind,
    sliced_line inside isLine,isSize,if_neg isChunk,isEnd,isNext]
  split
  · exact .inr rfl
  · refine .inl ⟨panic,?_⟩
    rw [panics]

end Chunk

end Line

end Rounds

/-! ### Where the loop gets -/

inductive Reaches (data : List UInt8) : Nat → List (List UInt8) → Prop where
  | start : Reaches data 0 []
  | chunk {pos length size : Nat} {chunks : List (List UInt8)} (before : Reaches data pos chunks)
      (isLine : firstPair cr lf (data.drop pos) = some length)
      (isSize : readSizeLine ((data.drop pos).take length) = .ok size) (isChunk : size ≠ 0)
      (isThere : pos + length + 2 + size + 2 ≤ data.length)
      (fits : pos + length + 2 + size + 2 < 2 ^ 64) :
      Reaches data (pos + length + 2 + size + 2)
        (chunks ++ [(data.drop (pos + length + 2)).take size])

/-- A size line that is reached says more than fits a `usize` behind it. -/
def SizeOverflows (data : List UInt8) : Prop :=
  ∃ pos chunks length size, Reaches data pos chunks ∧
    firstPair cr lf (data.drop pos) = some length ∧
    readSizeLine ((data.drop pos).take length) = .ok size ∧ size ≠ 0 ∧
    2 ^ 64 ≤ pos + length + 2 + size + 2

/-- The bytes up to a position are chunks with a last line. -/
def EncodesChunks (data : List UInt8) (chunks : List (List UInt8)) (consumed : Nat) : Prop :=
  ∃ pos length, Reaches data pos chunks ∧ firstPair cr lf (data.drop pos) = some length ∧
    readSizeLine ((data.drop pos).take length) = .ok 0 ∧ consumed = pos + length + 4 ∧
    consumed ≤ data.length

section Walk

variable {overflowChecks : Bool} {data : List UInt8} {fuel pos : Nat}
  {chunks : List (List UInt8)}

theorem Reaches.inside (reaches : Reaches data pos chunks) :
    pos ≤ data.length ∧ chunks.length ≤ pos := by
  induction reaches with
  | start => exact ⟨Nat.zero_le _,le_rfl⟩
  | chunk before _ _ _ isThere _ ih =>
      rw [List.length_append,List.length_singleton]
      omega

theorem digitsValue_lt {radix result value : Nat} {text : List Char} (small : result < 2 ^ 64)
    (isValue : digitsValue radix result text = .ok value) : value < 2 ^ 64 := by
  induction text generalizing result with
  | nil =>
      cases isValue
      exact small
  | cons ch rest ih =>
      unfold digitsValue at isValue
      split at isValue
      · cases isValue
      · split at isValue
        · cases isValue
        · exact ih (by omega) isValue

theorem readSizeLine_lt {line : List UInt8} {size : Nat} (isSize : readSizeLine line = .ok size) :
    size < 2 ^ 64 := by
  unfold readSizeLine usizeFromStrRadix at isSize
  split at isSize
  · cases isSize
  · split at isSize
    · cases isSize
    · rename_i parsed
      cases isSize
      split at parsed
      · cases parsed
      · cases parsed
      · exact digitsValue_lt (by decide) parsed
      · exact digitsValue_lt (by decide) parsed

theorem chunkLoop_reaches (reaches : Reaches data pos chunks) :
    chunkLoop overflowChecks data (chunks.length + fuel) 0 [] =
      chunkLoop overflowChecks data fuel pos chunks.flatten := by
  induction reaches generalizing fuel with
  | start => rw [List.length_nil,Nat.zero_add,List.flatten_nil]
  | @chunk pos length size chunks before isLine isSize isChunk isThere fits ih =>
      have rounds : (chunks ++ [(data.drop (pos + length + 2)).take size]).length + fuel =
          chunks.length + (fuel + 1) := by
        rw [List.length_append,List.length_singleton]
        omega
      rw [rounds,ih,chunkLoop_chunk before.inside.1 isLine isSize isChunk fits,
        if_neg (by omega),List.flatten_append,List.flatten_singleton]

theorem parseChunkedBody_reaches (reaches : Reaches data pos chunks) :
    ∃ fuel, parseChunkedBody overflowChecks data =
      chunkLoop overflowChecks data (fuel + 1) pos chunks.flatten := by
  have inside := reaches.inside
  refine ⟨data.length - chunks.length,?_⟩
  rw [← chunkLoop_reaches reaches,parseChunkedBody]
  congr 1
  omega

theorem chunkLoop_complete (allocated : data.length < 2 ^ 63) (reaches : Reaches data pos chunks)
    {body : List UInt8} {consumed : Nat}
    (completed : chunkLoop overflowChecks data fuel pos chunks.flatten =
      .ok (.complete body consumed)) :
    ∃ all, EncodesChunks data all consumed ∧ body = all.flatten := by
  induction fuel generalizing pos chunks with
  | zero => cases completed
  | succ fuel ih =>
      have inside := reaches.inside.1
      cases isLine : firstPair cr lf (data.drop pos) with
      | none =>
          rw [chunkLoop_noLine inside isLine] at completed
          cases completed
      | some length =>
          cases isSize : readSizeLine ((data.drop pos).take length) with
          | error reason =>
              rw [chunkLoop_badLine inside isLine isSize] at completed
              cases completed
          | ok size =>
              by_cases isLast : size = 0
              · rw [isLast] at isSize
                rw [chunkLoop_last inside isLine isSize] at completed
                split at completed
                · cases completed
                · rename_i enough
                  cases completed
                  exact ⟨chunks,⟨pos,length,reaches,isLine,isSize,rfl,by omega⟩,rfl⟩
              · by_cases fits : pos + length + 2 + size + 2 < 2 ^ 64
                · rw [chunkLoop_chunk inside isLine isSize isLast fits] at completed
                  split at completed
                  · cases completed
                  · rename_i isThere
                    have further := Reaches.chunk reaches isLine isSize isLast (by omega) fits
                    apply ih further
                    rw [List.flatten_append,List.flatten_singleton]
                    exact completed
                · have large := Nat.not_lt.mp fits
                  cases overflowChecks with
                  | true =>
                      rw [chunkLoop_checked inside isLine isSize isLast large] at completed
                      cases completed
                  | false =>
                      rcases chunkLoop_wrapped inside isLine isSize isLast large
                        (readSizeLine_lt isSize) allocated with ⟨panic,panics⟩ | incomplete
                      · rw [panics] at completed
                        cases completed
                      · rw [incomplete] at completed
                        cases completed

theorem chunkLoop_returns (noOverflow : ¬ SizeOverflows data) (reaches : Reaches data pos chunks)
    (enough : data.length < fuel + pos) :
    ∃ result, chunkLoop overflowChecks data fuel pos chunks.flatten = .ok result := by
  induction fuel generalizing pos chunks with
  | zero =>
      have inside := reaches.inside.1
      omega
  | succ fuel ih =>
      have inside := reaches.inside.1
      cases isLine : firstPair cr lf (data.drop pos) with
      | none => exact ⟨_,chunkLoop_noLine inside isLine⟩
      | some length =>
          cases isSize : readSizeLine ((data.drop pos).take length) with
          | error reason => exact ⟨_,chunkLoop_badLine inside isLine isSize⟩
          | ok size =>
              by_cases isLast : size = 0
              · rw [isLast] at isSize
                rw [chunkLoop_last inside isLine isSize]
                split
                · exact ⟨_,rfl⟩
                · exact ⟨_,rfl⟩
              · have fits : pos + length + 2 + size + 2 < 2 ^ 64 := by
                  by_contra large
                  exact noOverflow ⟨pos,chunks,length,size,reaches,isLine,isSize,isLast,
                    Nat.not_lt.mp large⟩
                rw [chunkLoop_chunk inside isLine isSize isLast fits]
                split
                · exact ⟨_,rfl⟩
                · rename_i isThere
                  have further := Reaches.chunk reaches isLine isSize isLast (by omega) fits
                  have later := ih further (by omega)
                  rw [List.flatten_append,List.flatten_singleton] at later
                  exact later

/-- The loop of `parse_chunked_body` panics in the dev profile exactly on an overflow. -/
theorem parseChunkedBody_returns_iff :
    (∀ overflowChecks, ∃ result, parseChunkedBody overflowChecks data = .ok result) ↔
      ¬ SizeOverflows data := by
  constructor
  · rintro returns ⟨pos,chunks,length,size,reaches,isLine,isSize,isChunk,large⟩
    obtain ⟨fuel,rounds⟩ := @parseChunkedBody_reaches true data pos chunks reaches
    obtain ⟨result,returned⟩ := returns true
    rw [rounds,chunkLoop_checked reaches.inside.1 isLine isSize isChunk large] at returned
    cases returned
  · intro noOverflow overflowChecks
    exact chunkLoop_returns noOverflow .start (by omega)

theorem parseChunkedBody_complete (allocated : data.length < 2 ^ 63) {body : List UInt8}
    {consumed : Nat} :
    parseChunkedBody overflowChecks data = .ok (.complete body consumed) ↔
      ∃ all, EncodesChunks data all consumed ∧ body = all.flatten := by
  constructor
  · exact chunkLoop_complete allocated .start
  · rintro ⟨all,⟨pos,length,reaches,isLine,isLast,rfl,isThere⟩,rfl⟩
    obtain ⟨fuel,rounds⟩ := @parseChunkedBody_reaches overflowChecks data pos all reaches
    rw [rounds,chunkLoop_last reaches.inside.1 isLine isLast,if_neg (by omega)]

end Walk

end Beava.Server
