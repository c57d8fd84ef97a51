/-
The labels of a histogram.

A cell is reported under the texts of its edges.  A whole number is written as an
integer of 64 bits, so that all the edges beyond the range of these have one text.
Otherwise two edges have the same text only when they are equal, and only inner cells
share a label.
-/

import Beava.Agg.Buffer
import Beava.Apply.EntityKeys
import Beava.Core.Spelling
import Beava.Sketch.RealLogs

namespace Beava.Agg

open Beava.Core Beava.Sketch

def DecimalText (text : List Char) : Prop :=
  ∃ sign whole fraction, (sign = [] ∨ sign = ['-']) ∧ Digits whole ∧ Digits fraction ∧
    text = sign ++ whole ++ '.' :: fraction

structure ReadsBinary (kernel : Kernel) : Prop where
  less : ∀ {first second : F64}, first.isFinite = true → second.isFinite = true →
    (kernel.lt (kernel.ofF64 first) (kernel.ofF64 second) = true ↔
      first.rational < second.rational)
  finite : ∀ number : F64, kernel.isFinite (kernel.ofF64 number) = number.isFinite
  whole : ∀ {number : F64}, number.isFinite = true →
    (kernel.eq (kernel.fract (kernel.ofF64 number)) kernel.zero = true ↔
      ∃ units : Int, number.rational = units)
  /-- `as i64` saturates. -/
  truncated : ∀ {number : F64} {units : Int}, number.isFinite = true →
    number.rational = units → kernel.toInt64 (kernel.ofF64 number) = saturate units
  /-- `as f64` does not pass a number that is representable. -/
  rounded : ∀ number : Int64, ∃ nearest : F64, nearest.isFinite = true ∧
    kernel.ofInt number.toInt = kernel.ofF64 nearest ∧
    ∀ bound : F64, bound.isFinite = true →
      (bound.rational ≤ number.toInt → bound.rational ≤ nearest.rational) ∧
        ((number.toInt : ℚ) ≤ bound.rational → nearest.rational ≤ bound.rational)
  display : ∀ {number : F64}, number.isFinite = true →
    (∀ units : Int, number.rational ≠ units) →
      DecimalText (kernel.display (kernel.ofF64 number)).toList
  readBack : ∀ {first second : F64}, first.isFinite = true → second.isFinite = true →
    (∀ units : Int, first.rational ≠ units) → (∀ units : Int, second.rational ≠ units) →
      kernel.display (kernel.ofF64 first) = kernel.display (kernel.ofF64 second) →
        first.rational = second.rational

theorem units_even {bits limit : Nat} (many : 2 ^ 62 * 2 ^ limit ≤ F64.units bits) :
    ∃ half, F64.units bits = 2 * half * 2 ^ limit := by
  unfold F64.units at many ⊢
  have fraction := Nat.mod_lt bits (show 0 < 2 ^ 52 by decide)
  have one : 0 < 2 ^ limit := Nat.two_pow_pos limit
  generalize bits / 2 ^ 52 = exponent at *
  generalize bits % 2 ^ 52 = rest at *
  split at many
  · exfalso
    have above : 2 ^ 62 ≤ 2 ^ 62 * 2 ^ limit := Nat.le_mul_of_pos_right _ one
    omega
  · rename_i notZero
    have high : limit + 1 ≤ exponent - 1 := by
      by_contra low
      have atMost : 2 ^ (exponent - 1) ≤ 2 ^ limit :=
        Nat.pow_le_pow_right (by decide) (by omega)
      have small : (2 ^ 52 + rest) * 2 ^ (exponent - 1) ≤ 2 ^ 53 * 2 ^ limit :=
        Nat.mul_le_mul (by omega) atMost
      have order : 2 ^ 53 * 2 ^ limit < 2 ^ 62 * 2 ^ limit :=
        Nat.mul_lt_mul_of_pos_right (by decide) one
      exact absurd (Nat.lt_of_le_of_lt small order) (Nat.not_lt.mpr many)
    obtain ⟨more,isMore⟩ : ∃ more, exponent - 1 = more + 1 + limit :=
      ⟨exponent - 1 - (limit + 1),by omega⟩
    refine ⟨(2 ^ 52 + rest) * 2 ^ more,?_⟩
    rw [if_neg notZero,isMore,Nat.pow_add,Nat.pow_succ]
    ring

theorem even_of_large {number : F64} (large : (2 : ℚ) ^ 62 ≤ |number.rational|) :
    ∃ half : Int, number.rational = (2 * half : Int) := by
  have power : (0 : ℚ) < 2 ^ 1074 := pow_pos zero_lt_two 1074
  have size : |number.rational| = (F64.units number.abs.bits.toNat : ℚ) / 2 ^ 1074 := by
    rw [F64.rational,abs_div,← Int.cast_abs,abs_signedUnits,abs_of_pos power,
      Int.cast_natCast]
  have many : 2 ^ 62 * 2 ^ 1074 ≤ F64.units number.abs.bits.toNat := by
    rw [size,le_div_iff₀ power] at large
    exact_mod_cast large
  obtain ⟨half,isHalf⟩ := units_even many
  have cancelled : ∀ sign : Int, number.signedUnits = sign * (F64.units number.abs.bits.toNat : Int) →
      number.rational = (2 * (sign * half) : Int) := by
    intro sign signed
    rw [F64.rational,signed,isHalf,div_eq_iff power.ne']
    push_cast
    ring
  rcases signedUnits_cases number with negative | positive
  · exact ⟨_,cancelled (-1) (by rw [negative,neg_one_mul])⟩
  · exact ⟨_,cancelled 1 (by rw [positive,one_mul])⟩

/-- `fmt_edge`. -/
def edgeText (kernel : Kernel) (edge : F64) : String :=
  HistogramState.fmtEdge (kernel.ofF64 edge)

def EdgeChars (text : List Char) : Prop :=
  ∃ first rest, text = first :: rest ∧ first ≠ '<' ∧ first ≠ '>' ∧ '-' ∉ rest

theorem append_sign_inj {first second rest more : List Char} (noSign : '-' ∉ first)
    (noSignSecond : '-' ∉ second) (same : first ++ '-' :: rest = second ++ '-' :: more) :
    first = second ∧ rest = more := by
  induction first generalizing second with
  | nil =>
      cases second with
      | nil => exact ⟨rfl,(List.cons.inj same).2⟩
      | cons ch others =>
          have isSign : '-' = ch := (List.cons.inj same).1
          exact absurd (isSign ▸ List.mem_cons_self) noSignSecond
  | cons ch others ih =>
      cases second with
      | nil =>
          have isSign : ch = '-' := (List.cons.inj same).1
          exact absurd (isSign ▸ List.mem_cons_self) noSign
      | cons chSecond othersSecond =>
          obtain ⟨sameChar,sameTail⟩ := List.cons.inj same
          obtain ⟨sameOthers,sameRest⟩ := ih (fun member => noSign (List.mem_cons_of_mem _ member))
            (fun member => noSignSecond (List.mem_cons_of_mem _ member)) sameTail
          exact ⟨by rw [sameChar,sameOthers],sameRest⟩

theorem digit_ne {ch other : Char} (isDigit : isAsciiDigit ch = true)
    (notDigit : isAsciiDigit other = false) : ch ≠ other := by
  intro same
  rw [same,notDigit] at isDigit
  cases isDigit

theorem edgeChars_of_digits {sign digits rest : List Char} (isSign : sign = [] ∨ sign = ['-'])
    (areDigits : Digits digits) (noSign : '-' ∉ rest) : EdgeChars (sign ++ digits ++ rest) := by
  obtain ⟨notEmpty,all⟩ := areDigits
  have noneInDigits : '-' ∉ digits := by
    intro member
    exact digit_ne (all _ member) (by decide) rfl
  rcases isSign with rfl | rfl
  · cases digits with
    | nil => exact absurd rfl notEmpty
    | cons first more =>
        have isDigit := all first List.mem_cons_self
        refine ⟨first,more ++ rest,rfl,digit_ne isDigit (by decide),
          digit_ne isDigit (by decide),?_⟩
        rw [List.mem_append,not_or]
        exact ⟨fun member => noneInDigits (List.mem_cons_of_mem first member),noSign⟩
  · refine ⟨'-',digits ++ rest,rfl,by decide,by decide,?_⟩
    rw [List.mem_append,not_or]
    exact ⟨noneInDigits,noSign⟩

theorem toString_chars (number : Int64) : ∃ sign digits, (sign = [] ∨ sign = ['-']) ∧
    Digits digits ∧ (toString number).toList = sign ++ digits := by
  have isText : toString number = number.toInt.repr := rfl
  rw [isText]
  cases number.toInt with
  | ofNat size =>
      refine ⟨[],Nat.toDigits 10 size,.inl rfl,toDigits_digits size,?_⟩
      rw [Int.repr,Nat.toList_repr]
      rfl
  | negSucc size =>
      refine ⟨['-'],Nat.toDigits 10 (size + 1),.inr rfl,toDigits_digits (size + 1),?_⟩
      rw [Int.repr,String.toList_append,Nat.toList_repr]
      rfl

section Texts

variable {kernel : Kernel} (reads : ReadsBinary kernel) {edge other : F64}
  (finite : edge.isFinite = true)

include reads finite

theorem edgeText_whole {units : Int} (isWhole : edge.rational = units) :
    edgeText kernel edge = toString (saturate units) := by
  have noFraction := (reads.whole finite).mpr ⟨units,isWhole⟩
  rw [edgeText,HistogramState.fmtEdge,reads.finite,finite,noFraction,Bool.and_true,if_pos rfl,
    reads.truncated finite isWhole]

theorem edgeText_fraction (notWhole : ∀ units : Int, edge.rational ≠ units) :
    edgeText kernel edge = kernel.display (kernel.ofF64 edge) := by
  have hasFraction : ¬ kernel.eq (kernel.fract (kernel.ofF64 edge)) kernel.zero = true := by
    intro noFraction
    obtain ⟨units,isWhole⟩ := (reads.whole finite).mp noFraction
    exact notWhole units isWhole
  rw [edgeText,HistogramState.fmtEdge,if_neg]
  intro both
  rw [Bool.and_eq_true] at both
  exact hasFraction both.1

theorem edgeText_chars : EdgeChars (edgeText kernel edge).toList := by
  by_cases isWhole : ∃ units : Int, edge.rational = units
  · obtain ⟨units,isUnits⟩ := isWhole
    obtain ⟨sign,digits,isSign,areDigits,text⟩ := toString_chars (saturate units)
    rw [edgeText_whole reads finite isUnits,text,← List.append_nil (sign ++ digits)]
    exact edgeChars_of_digits isSign areDigits List.not_mem_nil
  · have notWhole : ∀ units : Int, edge.rational ≠ units := by
      intro units same
      exact isWhole ⟨units,same⟩
    obtain ⟨sign,digits,fraction,isSign,areDigits,areMore,text⟩ :=
      reads.display finite notWhole
    rw [edgeText_fraction reads finite notWhole,text]
    apply edgeChars_of_digits isSign areDigits
    rw [List.mem_cons,not_or]
    refine ⟨by decide,?_⟩
    intro member
    exact digit_ne (areMore.2 _ member) (by decide) rfl

/-- Beyond the range of `i64`, edges have one text. -/
theorem edgeText_high (high : (2 : ℚ) ^ 63 ≤ edge.rational) :
    edgeText kernel edge = toString Int64.maxValue := by
  have positive : (0 : ℚ) ≤ edge.rational := (pow_nonneg zero_le_two 63).trans high
  have large : (2 : ℚ) ^ 62 ≤ |edge.rational| := by
    rw [abs_of_nonneg positive]
    exact (pow_le_pow_right₀ one_le_two (by decide)).trans high
  obtain ⟨half,isWhole⟩ := even_of_large large
  have above : (2 ^ 63 : Int) ≤ 2 * half := by
    rw [isWhole] at high
    exact_mod_cast high
  rw [edgeText_whole reads finite isWhole,saturate,if_neg (by omega),if_pos above]

theorem edgeText_low (low : edge.rational ≤ -(2 : ℚ) ^ 63) :
    edgeText kernel edge = toString Int64.minValue := by
  have negative : edge.rational ≤ 0 := low.trans (neg_nonpos.mpr (pow_nonneg zero_le_two 63))
  have large : (2 : ℚ) ^ 62 ≤ |edge.rational| := by
    rw [abs_of_nonpos negative]
    exact (pow_le_pow_right₀ one_le_two (by decide)).trans (le_neg_of_le_neg low)
  obtain ⟨half,isWhole⟩ := even_of_large large
  have below : 2 * half ≤ -(2 ^ 63 : Int) := by
    rw [isWhole] at low
    exact_mod_cast low
  rw [edgeText_whole reads finite isWhole,saturate]
  by_cases least : 2 * half = -2 ^ 63
  · rw [if_neg (by omega),if_neg (by omega),least]
    rfl
  · rw [if_pos (by omega)]

end Texts

theorem saturate_eq {first second : Int} (same : saturate first = saturate second) :
    first = second ∨ (2 ^ 63 - 1 ≤ first ∧ 2 ^ 63 - 1 ≤ second) ∨
      (first ≤ -2 ^ 63 ∧ second ≤ -2 ^ 63) := by
  have values : ∀ number : Int, (saturate number).toInt =
      if number < -2 ^ 63 then -2 ^ 63 else if 2 ^ 63 ≤ number then 2 ^ 63 - 1 else number := by
    intro number
    unfold saturate
    split
    · rfl
    · split
      · rfl
      · rename_i notLow notHigh
        exact Int64.toInt_ofInt_of_le (by omega) (by omega)
  have sameValue := congrArg Int64.toInt same
  rw [values,values] at sameValue
  split at sameValue <;> split at sameValue <;> omega

/-- Edges with one text are equal, or beyond the same end of the range of `i64`. -/
theorem edgeText_eq {kernel : Kernel} (reads : ReadsBinary kernel) {edge other : F64}
    (finite : edge.isFinite = true) (otherFinite : other.isFinite = true)
    (same : edgeText kernel edge = edgeText kernel other) :
    edge.rational = other.rational ∨
      ((2 : ℚ) ^ 63 ≤ edge.rational ∧ (2 : ℚ) ^ 63 ≤ other.rational) ∨
      (edge.rational ≤ -(2 : ℚ) ^ 63 ∧ other.rational ≤ -(2 : ℚ) ^ 63) := by
  have points : ∀ {whole fraction : F64} {units : Int}, whole.isFinite = true →
      fraction.isFinite = true → whole.rational = units →
      (∀ units : Int, fraction.rational ≠ units) →
        edgeText kernel whole ≠ edgeText kernel fraction := by
    intro whole fraction units wholeFinite fractionFinite isWhole notWhole equal
    obtain ⟨sign,digits,more,-,-,-,text⟩ := reads.display fractionFinite notWhole
    obtain ⟨wholeSign,wholeDigits,isSign,areDigits,wholeText⟩ := toString_chars (saturate units)
    rw [edgeText_whole reads wholeFinite isWhole,
      edgeText_fraction reads fractionFinite notWhole] at equal
    have member : '.' ∈ (kernel.display (kernel.ofF64 fraction)).toList := by
      rw [text]
      exact List.mem_append_right _ List.mem_cons_self
    rw [← equal,wholeText] at member
    rcases List.mem_append.mp member with inSign | inDigits
    · rcases isSign with rfl | rfl
      · cases inSign
      · exact absurd (List.mem_singleton.mp inSign) (by decide)
    · exact digit_ne (areDigits.2 _ inDigits) (by decide) rfl
  have beyond : ∀ {number : F64} {units : Int}, number.rational = units → 2 ^ 63 - 1 ≤ units →
      (2 : ℚ) ^ 63 ≤ number.rational := by
    intro number units isWhole above
    have large : (2 : ℚ) ^ 62 ≤ |number.rational| := by
      rw [isWhole]
      have enough : (2 ^ 62 : Int) ≤ |units| := by
        rw [abs_of_nonneg (by omega)]
        omega
      exact_mod_cast enough
    obtain ⟨half,isEven⟩ := even_of_large large
    have even : units = 2 * half := by
      rw [isWhole] at isEven
      exact_mod_cast isEven
    have atLeast : (2 ^ 63 : Int) ≤ units := by omega
    rw [isWhole]
    exact_mod_cast atLeast
  by_cases isWhole : ∃ units : Int, edge.rational = units
  · obtain ⟨units,isUnits⟩ := isWhole
    by_cases otherWhole : ∃ units : Int, other.rational = units
    · obtain ⟨others,isOthers⟩ := otherWhole
      rw [edgeText_whole reads finite isUnits,edgeText_whole reads otherFinite isOthers,
        Apply.toString_int64_inj] at same
      rcases saturate_eq same with equal | ⟨high,otherHigh⟩ | ⟨low,otherLow⟩
      · exact .inl (by rw [isUnits,isOthers,equal])
      · exact .inr (.inl ⟨beyond isUnits high,beyond isOthers otherHigh⟩)
      · refine .inr (.inr ⟨?_,?_⟩)
        · rw [isUnits]
          exact_mod_cast low
        · rw [isOthers]
          exact_mod_cast otherLow
    · refine absurd same (points finite otherFinite isUnits ?_)
      intro others equal
      exact otherWhole ⟨others,equal⟩
  · have notWhole : ∀ units : Int, edge.rational ≠ units := by
      intro units equal
      exact isWhole ⟨units,equal⟩
    by_cases otherWhole : ∃ units : Int, other.rational = units
    · obtain ⟨others,isOthers⟩ := otherWhole
      exact absurd same.symm (points otherFinite finite isOthers notWhole)
    · have otherNotWhole : ∀ units : Int, other.rational ≠ units := by
        intro units equal
        exact otherWhole ⟨units,equal⟩
      rw [edgeText_fraction reads finite notWhole,
        edgeText_fraction reads otherFinite otherNotWhole] at same
      exact .inl (reads.readBack finite otherFinite notWhole otherNotWhole same)

section Labels

variable {kernel : Kernel} {edges : List F64} {state : HistogramState kernel}
  (hasEdges : state.buckets = edges.map kernel.ofF64)
variable {edge : F64} {before : Nat}

include hasEdges

theorem edgeAt_eq {position : Nat} (found : edges[position]? = some edge) :
    state.edgeAt position = edgeText kernel edge := by
  rw [HistogramState.edgeAt,hasEdges,List.getD_eq_getElem?_getD,List.getElem?_map,found,
    Option.map_some,Option.getD_some,edgeText]

theorem label_first (found : edges[0]? = some edge) :
    (state.label 0).toList = '<' :: (edgeText kernel edge).toList := by
  have notEmpty : state.buckets.isEmpty = false := by
    rw [hasEdges,List.isEmpty_map]
    cases edges with
    | nil => cases found
    | cons first rest => rfl
  rw [HistogramState.label,notEmpty,if_neg Bool.false_ne_true,if_pos rfl,
    edgeAt_eq hasEdges found,String.toList_append]
  rfl

theorem label_last (length : edges.length = before + 1) (found : edges[before]? = some edge) :
    (state.label (before + 1)).toList = '>' :: '=' :: (edgeText kernel edge).toList := by
  have count : state.buckets.length = before + 1 := by rw [hasEdges,List.length_map,length]
  have notEmpty : state.buckets.isEmpty = false := by
    rw [List.isEmpty_eq_false_iff_exists_mem]
    exact List.exists_mem_of_length_pos (by omega)
  rw [HistogramState.label,notEmpty,if_neg Bool.false_ne_true,if_neg (Nat.succ_ne_zero before),
    if_pos count.symm,Nat.add_sub_cancel,edgeAt_eq hasEdges found,String.toList_append]
  rfl

theorem label_middle {low high : F64} (foundLow : edges[before]? = some low)
    (foundHigh : edges[before + 1]? = some high) :
    (state.label (before + 1)).toList =
      (edgeText kernel low).toList ++ '-' :: (edgeText kernel high).toList := by
  obtain ⟨inside,-⟩ := List.getElem?_eq_some_iff.mp foundHigh
  have count : state.buckets.length = edges.length := by rw [hasEdges,List.length_map]
  have notEmpty : state.buckets.isEmpty = false := by
    rw [List.isEmpty_eq_false_iff_exists_mem]
    exact List.exists_mem_of_length_pos (by omega)
  rw [HistogramState.label,notEmpty,if_neg Bool.false_ne_true,if_neg (Nat.succ_ne_zero before),
    if_neg (by omega),Nat.add_sub_cancel,edgeAt_eq hasEdges foundLow,edgeAt_eq hasEdges foundHigh,
    String.toList_append,String.toList_append,List.append_assoc]
  rfl

theorem label_eq (reads : ReadsBinary kernel) (finite : ∀ edge ∈ edges, edge.isFinite = true)
    {first second : Nat} (order : first < second) (atMost : second ≤ edges.length)
    (same : state.label first = state.label second) :
    ∃ front back low high lowest highest, first = front + 1 ∧ second = back + 1 ∧
      edges[front]? = some low ∧ edges[front + 1]? = some high ∧
      edges[back]? = some lowest ∧ edges[back + 1]? = some highest ∧
      edgeText kernel low = edgeText kernel lowest ∧
      edgeText kernel high = edgeText kernel highest := by
  obtain ⟨back,rfl⟩ : ∃ back, second = back + 1 := ⟨second - 1,by omega⟩
  have chars : ∀ {position : Nat} {edge : F64}, edges[position]? = some edge →
      EdgeChars (edgeText kernel edge).toList := by
    intro position edge found
    exact edgeText_chars reads (finite edge (List.mem_of_getElem? found))
  have backListed : back < edges.length := atMost
  have firstListed : first < edges.length := by omega
  have foundBack := List.getElem?_eq_getElem backListed
  have foundFirst := List.getElem?_eq_getElem firstListed
  obtain ⟨opener,rest,isLowest,notLess,notGreater,noSign⟩ := chars foundBack
  have texts := congrArg String.toList same
  by_cases isLast : edges.length = back + 1
  · exfalso
    rw [label_last hasEdges isLast foundBack] at texts
    cases first with
    | zero =>
        rw [label_first hasEdges foundFirst] at texts
        exact absurd (List.cons.inj texts).1 (by decide)
    | succ front =>
        have foundFront : edges[front]? = some edges[front] :=
          List.getElem?_eq_getElem (by omega)
        obtain ⟨opens,more,isLow,-,notOuter,-⟩ := chars foundFront
        rw [label_middle hasEdges foundFront foundFirst,isLow,List.cons_append] at texts
        exact notOuter (List.cons.inj texts).1
  · have behindListed : back + 1 < edges.length := by omega
    have foundBehind := List.getElem?_eq_getElem behindListed
    rw [label_middle hasEdges foundBack foundBehind,isLowest,List.cons_append] at texts
    cases first with
    | zero =>
        exfalso
        rw [label_first hasEdges foundFirst] at texts
        exact notLess (List.cons.inj texts).1.symm
    | succ front =>
        have foundFront : edges[front]? = some edges[front] :=
          List.getElem?_eq_getElem (by omega)
        obtain ⟨opens,more,isLow,-,-,noSignFront⟩ := chars foundFront
        rw [label_middle hasEdges foundFront foundFirst,isLow,List.cons_append] at texts
        obtain ⟨sameOpener,tails⟩ := List.cons.inj texts
        have parts := append_sign_inj noSignFront noSign tails
        refine ⟨front,back,_,_,_,_,rfl,rfl,foundFront,foundFirst,foundBack,foundBehind,
          ?_,?_⟩
        · apply String.toList_injective
          rw [isLow,isLowest,sameOpener,parts.1]
        · apply String.toList_injective
          exact parts.2

end Labels

end Beava.Agg
