/-
Lines that end in a pair of symbols.

A line does not contain the pair, and the two symbols differ, so that the pair
cannot lie across the end of the line.  The search for the first pair finds the
end of the line as soon as both symbols are there, whatever follows.
-/

import Mathlib.Data.List.Basic
import Mathlib.Data.List.Infix

namespace Delimiter

variable {α : Type} [DecidableEq α]
variable {symbol : α} {symbols line : List α} {index : Nat}

/-- Where the first pair starts. -/
def firstPair (first second : α) : List α → Option Nat
  | symbol :: next :: rest =>
      if symbol = first ∧ next = second then some 0
      else (firstPair first second (next :: rest)).map (· + 1)
  | _ => none

variable {first second : α}

theorem firstPair_cons_of_not {rest : List α}
    (noPair : ¬ (symbol = first ∧ rest.head? = some second)) :
    firstPair first second (symbol :: rest) = (firstPair first second rest).map (· + 1) := by
  cases rest with
  | nil => rfl
  | cons next rest =>
      rw [List.head?_cons,Option.some.injEq] at noPair
      rw [firstPair,if_neg noPair]

theorem firstPair_some (found : firstPair first second symbols = some index) :
    symbols.drop index = first :: second :: symbols.drop (index + 2) := by
  induction symbols generalizing index with
  | nil => cases found
  | cons symbol rest ih =>
      by_cases isPair : symbol = first ∧ rest.head? = some second
      · obtain ⟨isFirst,isSecond⟩ := isPair
        cases rest with
        | nil => cases isSecond
        | cons next rest =>
            rw [List.head?_cons,Option.some.injEq] at isSecond
            rw [firstPair,if_pos ⟨isFirst,isSecond⟩] at found
            cases found
            rw [isFirst,isSecond]
            rfl
      · rw [firstPair_cons_of_not isPair,Option.map_eq_some_iff] at found
        obtain ⟨before,found,rfl⟩ := found
        exact ih found

theorem firstPair_le (found : firstPair first second symbols = some index) :
    index + 2 ≤ symbols.length := by
  have pair := congrArg List.length (firstPair_some found)
  simp only [List.length_drop,List.length_cons] at pair
  omega

omit [DecidableEq α] in
theorem not_pair_of_line {rest : List α} (differ : first ≠ second)
    (whole : ¬ [first,second] <:+: symbol :: line) :
    ¬ (symbol = first ∧ (line ++ first :: rest).head? = some second) := by
  rintro ⟨isFirst,isSecond⟩
  cases line with
  | nil =>
      rw [List.nil_append,List.head?_cons,Option.some.injEq] at isSecond
      exact differ isSecond
  | cons next line =>
      rw [List.cons_append,List.head?_cons,Option.some.injEq] at isSecond
      refine whole ⟨[],line,?_⟩
      rw [isFirst,isSecond]
      rfl

theorem firstPair_line (differ : first ≠ second) (whole : ¬ [first,second] <:+: line)
    (rest : List α) :
    firstPair first second (line ++ first :: second :: rest) = some line.length := by
  induction line with
  | nil => rw [List.nil_append,firstPair,if_pos ⟨rfl,rfl⟩,List.length_nil]
  | cons symbol line ih =>
      have shorter : ¬ [first,second] <:+: line :=
        fun inLine => whole (inLine.trans (List.suffix_cons symbol line).isInfix)
      rw [List.cons_append,firstPair_cons_of_not (not_pair_of_line differ whole),ih shorter]
      rfl

theorem firstPair_take_line (differ : first ≠ second) (whole : ¬ [first,second] <:+: line)
    {cut : Nat} (short : cut < line.length + 2) :
    firstPair first second ((line ++ [first,second]).take cut) = none := by
  induction line generalizing cut with
  | nil =>
      rw [List.length_nil] at short
      rcases cut with _ | _ | cut
      · rfl
      · rfl
      · omega
  | cons symbol line ih =>
      have shorter : ¬ [first,second] <:+: line :=
        fun inLine => whole (inLine.trans (List.suffix_cons symbol line).isInfix)
      cases cut with
      | zero => rfl
      | succ cut =>
          rw [List.length_cons] at short
          have noPair : ¬ (symbol = first ∧
              ((line ++ [first,second]).take cut).head? = some second) := by
            rintro ⟨isFirst,isSecond⟩
            have inFull : (line ++ first :: [second]).head? = some second := by
              cases cut with
              | zero => cases isSecond
              | succ cut => rwa [List.head?_take,if_neg (by omega)] at isSecond
            exact not_pair_of_line differ whole ⟨isFirst,inFull⟩
          rw [List.cons_append,List.take_succ_cons,firstPair_cons_of_not noPair,
            ih shorter (by omega)]
          rfl

end Delimiter
