/-
Checked access to byte lists.

A read outside the list is not given a default: it is a fault of the program
that performed it.  A loop that exhausts its iteration budget is a fault as
well, so a faultless result is evidence of both bounded indexing and
termination.
-/

import Mathlib.Algebra.Order.Ring.Int
import Mathlib.Data.List.Basic

namespace Checked

variable {data : List UInt8}
variable {width offset : Nat} {front : List UInt8}

inductive Fault where
  | outOfBounds
  | outOfFuel
  deriving DecidableEq, Repr

theorem bind_eq_ok {ε α β : Type} {first : Except ε α} {next : α → Except ε β} {result : β}
    (succeeded : first >>= next = .ok result) :
    ∃ value, first = .ok value ∧ next value = .ok result := by
  cases first with
  | error failure => cases succeeded
  | ok value => exact ⟨value,rfl,succeeded⟩

theorem bind_eq_error {ε α β : Type} {first : Except ε α} {next : α → Except ε β} {failure : ε}
    (failed : first >>= next = .error failure) :
    first = .error failure ∨ ∃ value, first = .ok value ∧ next value = .error failure := by
  cases first with
  | error early =>
      cases failed
      exact .inl rfl
  | ok value => exact .inr ⟨value,rfl,failed⟩

/-- The element at `index`, as an indexing expression computes it. -/
def byteAt (data : List UInt8) (index : Nat) : Except Fault UInt8 :=
  match data[index]? with
  | some byte => .ok byte
  | none => .error .outOfBounds

/-- The bytes in `start..stop`, as a slicing expression computes them. -/
def slice (data : List UInt8) (start stop : Nat) : Except Fault (List UInt8) :=
  if start ≤ stop ∧ stop ≤ data.length then
    .ok ((data.drop start).take (stop - start))
  else
    .error .outOfBounds

/-- The `width` bytes after `offset`; shorter when the list ends early. -/
def window (data : List UInt8) (offset width : Nat) : List UInt8 :=
  (data.drop offset).take width

theorem byteAt_eq_ok {index : Nat} (inBounds : index < data.length) :
    byteAt data index = .ok data[index] := by
  simp only [byteAt,List.getElem?_eq_getElem inBounds]

theorem slice_eq_ok {start : Nat} (inBounds : start + width ≤ data.length) :
    slice data start (start + width) = .ok (window data start width) := by
  have ordered : start ≤ start + width ∧ start + width ≤ data.length :=
    ⟨Nat.le_add_right start width,inBounds⟩
  have widthEq : start + width - start = width := by omega
  simp only [slice,window,if_pos ordered,widthEq]

theorem length_window (inBounds : offset + width ≤ data.length) :
    (window data offset width).length = width := by
  simp only [window,List.length_take,List.length_drop]
  omega

theorem window_drop (data : List UInt8) (skipped offset width : Nat) :
    window (data.drop skipped) offset width = window data (skipped + offset) width := by
  simp only [window,List.drop_drop]

theorem window_append (data : List UInt8) (offset first second : Nat) :
    window data offset first ++ window data (offset + first) second =
      window data offset (first + second) := by
  rw [window,window,window,List.take_add,List.drop_drop]

theorem window_behind (rest : List UInt8) (width : Nat) (behind : front.length ≤ offset) :
    window (front ++ rest) offset width = window rest (offset - front.length) width := by
  obtain ⟨more,rfl⟩ := Nat.exists_eq_add_of_le behind
  rw [Nat.add_sub_cancel_left,window,window,← List.drop_drop,List.drop_left]

theorem window_front (rest : List UInt8) (isWidth : front.length = width) :
    window (front ++ rest) 0 width = front := by
  rw [window,List.drop_zero,List.take_left' isWidth]

theorem window_isInfix (data : List UInt8) (offset width : Nat) :
    window data offset width <:+: data :=
  (List.take_prefix _ _).isInfix.trans (List.drop_suffix _ _).isInfix

theorem window_take_append (data rest : List UInt8) {cut : Nat} (beforeCut : offset + width ≤ cut)
    (cutInBounds : cut ≤ data.length) :
    window (data.take cut ++ rest) offset width = window data offset width := by
  have cutLength : (data.take cut).length = cut := by
    simp only [List.length_take]
    omega
  have offsetLe : offset ≤ (data.take cut).length := by omega
  have widthLe : width ≤ ((data.take cut).drop offset).length := by
    simp only [List.length_drop]
    omega
  have dropped : (data.take cut).drop offset = (data.drop offset).take (cut - offset) := by
    rw [List.drop_take]
  have narrowed : min width (cut - offset) = width := by omega
  simp only [window]
  rw [List.drop_append_of_le_length offsetLe,List.take_append_of_le_length widthLe,dropped,
    List.take_take,narrowed]

theorem window_middle (before middle after : List UInt8) (atStart : offset = before.length)
    (allOf : width = middle.length) :
    window (before ++ (middle ++ after)) offset width = middle := by
  subst atStart
  subst allOf
  simp only [window,List.drop_left,List.take_left]

end Checked
