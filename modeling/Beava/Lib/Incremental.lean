/-
Decoding a stream of which only a front part is there.

A decoder looks at the bytes that have arrived and asks for more, yields one item
with the number of bytes it took, or fails.  It reads an item when it asks for
more on every proper front part of the item's encoding and yields the item as
soon as the encoding is complete, whatever follows.

A front part may grow, as a buffer does, or end for good, as a torn file does.
In both cases the items that lie wholly within it are read, and no others.
-/

import Mathlib.Data.List.Basic

namespace Incremental

variable {α β ε : Type}

inductive Step (α ε : Type) where
  | needMore
  | item (value : α) (size : Nat)
  | failed (error : ε)
  deriving DecidableEq, Repr

structure Reads (decode : List β → Step α ε) (encode : α → List β) (value : α) : Prop where
  nonempty : 0 < (encode value).length
  whole : ∀ rest, decode (encode value ++ rest) = .item value (encode value).length
  short : ∀ cut < (encode value).length, decode ((encode value).take cut) = .needMore

/-- What is still expected, split into what is there and what is not. -/
def Pending (encode : α → List β) (expected : List α) (buffer missing : List β) : Prop :=
  buffer ++ missing = expected.flatMap encode

section Steps

variable {decode : List β → Step α ε} {encode : α → List β}

theorem Pending.append {expected : List α} {buffer chunk missing : List β}
    (pending : Pending encode expected buffer (chunk ++ missing)) :
    Pending encode expected (buffer ++ chunk) missing := by
  unfold Pending at pending ⊢
  rw [List.append_assoc]
  exact pending

theorem Pending.step {expected : List α} {buffer missing : List β}
    (pending : Pending encode expected buffer missing) (none : decode [] = .needMore)
    (reads : ∀ value ∈ expected, Reads decode encode value) :
    (decode buffer = .needMore ∧
      (∀ value rest, expected = value :: rest → buffer.length < (encode value).length) ∧
      (expected = [] → buffer = [])) ∨
    ∃ value rest, expected = value :: rest ∧
      decode buffer = .item value (encode value).length ∧
      (encode value).length ≤ buffer.length ∧
      Pending encode rest (buffer.drop (encode value).length) missing := by
  cases expected with
  | nil =>
      have empty : buffer = [] := (List.append_eq_nil_iff.mp pending).1
      refine .inl ⟨by rw [empty,none],?_,fun _ => empty⟩
      intro value rest isCons
      cases isCons
  | cons value rest =>
      have reading := reads value List.mem_cons_self
      rw [Pending,List.flatMap_cons] at pending
      by_cases isShort : buffer.length < (encode value).length
      · have front : buffer = (encode value).take buffer.length := by
          have taken := congrArg (List.take buffer.length) pending
          rwa [List.take_left,List.take_append_of_le_length (by omega)] at taken
        refine .inl ⟨?_,?_,?_⟩
        · rw [front]
          exact reading.short buffer.length isShort
        · intro first others isCons
          cases isCons
          exact isShort
        · intro isNil
          cases isNil
      · have longer : (encode value).length ≤ buffer.length := by omega
        have whole : buffer =
            encode value ++ buffer.drop (encode value).length := by
          have taken := congrArg (List.take (encode value).length) pending
          rw [List.take_left,List.take_append_of_le_length longer] at taken
          have split := (List.take_append_drop (encode value).length buffer).symm
          rwa [taken] at split
        refine .inr ⟨value,rest,rfl,?_,longer,?_⟩
        · rw [whole]
          exact reading.whole _
        · have dropped := congrArg (List.drop (encode value).length) pending
          rwa [List.drop_left,List.drop_append_of_le_length longer] at dropped

end Steps

def readAll (decode : List β → Step α ε) : Nat → List β → Except ε (List α)
  | 0, _ => .ok []
  | fuel + 1, data =>
      match decode data with
      | .needMore => .ok []
      | .failed error => .error error
      | .item value size => (readAll decode fuel (data.drop size)).map (value :: ·)

/-- The items whose encodings end within the first `cut` elements. -/
def wholeItems (encode : α → List β) : List α → Nat → List α
  | [], _ => []
  | value :: rest, cut =>
      if (encode value).length ≤ cut then
        value :: wholeItems encode rest (cut - (encode value).length)
      else []

section Reading

variable {decode : List β → Step α ε} {encode : α → List β}
variable {fuel : Nat}

theorem readAll_pending (none : decode [] = .needMore) {expected : List α}
    (reads : ∀ value ∈ expected, Reads decode encode value) {buffer missing : List β}
    (pending : Pending encode expected buffer missing) (enough : buffer.length < fuel) :
    readAll decode fuel buffer = .ok (wholeItems encode expected buffer.length) := by
  induction fuel generalizing expected buffer with
  | zero => omega
  | succ fuel ih =>
      rw [readAll]
      rcases pending.step none reads with
        ⟨needsMore,isShort,-⟩ | ⟨value,rest,rfl,isItem,longer,later⟩
      · rw [needsMore]
        cases expected with
        | nil => rfl
        | cons value rest =>
            have := isShort value rest rfl
            rw [wholeItems,if_neg (by omega)]
      · have positive := (reads value List.mem_cons_self).nonempty
        have shorter : (buffer.drop (encode value).length).length < fuel := by
          rw [List.length_drop]
          omega
        rw [isItem]
        simp only
        rw [ih (fun other member => reads other (List.mem_cons_of_mem _ member)) later shorter,
          List.length_drop,wholeItems,if_pos longer]
        rfl

theorem readAll_take (none : decode [] = .needMore) {items : List α}
    (reads : ∀ value ∈ items, Reads decode encode value) (cut : Nat)
    (enough : ((items.flatMap encode).take cut).length < fuel) :
    readAll decode fuel ((items.flatMap encode).take cut) =
      .ok (wholeItems encode items ((items.flatMap encode).take cut).length) :=
  readAll_pending none reads (List.take_append_drop cut _) enough

theorem wholeItems_length_take (items : List α) (cut : Nat) :
    wholeItems encode items ((items.flatMap encode).take cut).length =
      wholeItems encode items cut := by
  induction items generalizing cut with
  | nil => rfl
  | cons value rest ih =>
      rw [List.flatMap_cons,List.length_take,List.length_append,wholeItems,wholeItems]
      by_cases isWhole : (encode value).length ≤ cut
      · have here := ih (cut - (encode value).length)
        rw [List.length_take] at here
        rw [if_pos (by omega),if_pos isWhole,← here]
        congr 2
        omega
      · rw [if_neg (by omega),if_neg isWhole]

theorem wholeItems_all (items : List α) {cut : Nat}
    (enough : (items.flatMap encode).length ≤ cut) : wholeItems encode items cut = items := by
  induction items generalizing cut with
  | nil => rfl
  | cons value rest ih =>
      rw [List.flatMap_cons,List.length_append] at enough
      rw [wholeItems,if_pos (by omega),ih (by omega)]

end Reading

end Incremental
