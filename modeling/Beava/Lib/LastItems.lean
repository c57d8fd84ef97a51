/-
Buffers that keep the last items.

A queue drops its front when it is full.  A ring overwrites the cell at its head,
which is the oldest one, and moves the head on.  Both hold the last items of what
was pushed: the queue in order, the ring in order from its head.
-/

import Mathlib.Data.List.DropRight
import Mathlib.Data.List.Rotate

namespace LastItems

variable {α : Type} {bound : Nat} {items : List α} {item : α}

theorem length_rtake (bound : Nat) (items : List α) :
    (items.rtake bound).length = min bound items.length := by
  rw [List.rtake,List.length_drop]
  omega

theorem rtake_of_length_le (within : items.length ≤ bound) : items.rtake bound = items := by
  rw [List.rtake,Nat.sub_eq_zero_of_le within,List.drop_zero]

theorem rtake_concat (full : bound ≤ items.length) (positive : 0 < bound) (item : α) :
    (items ++ [item]).rtake bound = (items.rtake bound).tail ++ [item] := by
  obtain ⟨rest,rfl⟩ : ∃ rest, bound = rest + 1 := ⟨bound - 1,by omega⟩
  rw [List.rtake_concat_succ,List.rtake,List.rtake,List.tail_drop]
  congr 2
  omega

theorem head?_rtake (bound : Nat) (items : List α) :
    (items.rtake bound).head? = items[items.length - bound]? := by
  rw [List.rtake,List.head?_drop]

theorem queue_push (positive : 0 < bound) (items : List α) (item : α) :
    (if (items.rtake bound).length = bound then (items.rtake bound).tail
      else items.rtake bound) ++ [item] = (items ++ [item]).rtake bound := by
  rw [length_rtake]
  by_cases full : bound ≤ items.length
  · rw [if_pos (Nat.min_eq_left full),rtake_concat full positive]
  · have roomy : (items ++ [item]).length ≤ bound := by
      rw [List.length_append,List.length_singleton]
      omega
    rw [if_neg (by omega),rtake_of_length_le (by omega),rtake_of_length_le roomy]

/-- The cells, the one that is written next, and whether all cells are in use. -/
structure RingBuffer (α : Type) where
  cells : List α
  head : Nat
  filled : Bool

namespace RingBuffer

def empty : RingBuffer α := ⟨[],0,false⟩

def push (bound : Nat) (ring : RingBuffer α) (item : α) : RingBuffer α :=
  if ring.filled then ⟨ring.cells.set ring.head item,(ring.head + 1) % bound,true⟩
  else if (ring.cells ++ [item]).length = bound then ⟨ring.cells ++ [item],0,true⟩
  else ⟨ring.cells ++ [item],ring.head,false⟩

/-- From the oldest cell on. -/
def contents (ring : RingBuffer α) : List α :=
  if ring.filled then ring.cells.rotate ring.head else ring.cells

theorem contents_perm (ring : RingBuffer α) : ring.contents.Perm ring.cells := by
  unfold contents
  split
  · exact List.rotate_perm ring.cells ring.head
  · exact List.Perm.refl _

structure Holds (bound : Nat) (items : List α) (ring : RingBuffer α) : Prop where
  contents : ring.contents = items.rtake bound
  filled : ring.filled = true ↔ bound ≤ items.length
  length : ring.cells.length = min bound items.length
  head : ring.filled = true → ring.head < bound

theorem holds_empty (positive : 0 < bound) : Holds bound ([] : List α) empty where
  contents := List.rtake_nil bound |>.symm
  filled := by
    rw [List.length_nil]
    constructor
    · intro impossible
      cases impossible
    · intro impossible
      omega
  length := Nat.min_zero bound |>.symm
  head := by
    intro impossible
    cases impossible

theorem rotate_set (cells : List α) {head : Nat} (inside : head < cells.length) (item : α) :
    (cells.set head item).rotate (head + 1) = (cells.rotate head).tail ++ [item] := by
  obtain ⟨older,oldest,newer,rfl,rfl⟩ :
      ∃ older oldest newer, cells = older ++ oldest :: newer ∧ head = older.length := by
    refine ⟨cells.take head,cells[head],cells.drop (head + 1),?_,?_⟩
    · rw [← List.drop_eq_getElem_cons inside,List.take_append_drop]
    · rw [List.length_take,Nat.min_eq_left (Nat.le_of_lt inside)]
  have written : (older ++ oldest :: newer).set older.length item =
      (older ++ [item]) ++ newer := by
    rw [List.set_append_right _ _ (Nat.le_refl _),Nat.sub_self,List.set_cons_zero,
      List.append_assoc]
    rfl
  have next : older.length + 1 = (older ++ [item]).length := by
    rw [List.length_append,List.length_singleton]
  rw [written,next,List.rotate_append_length_eq,List.rotate_append_length_eq,
    List.cons_append,List.tail_cons,List.append_assoc]

theorem Holds.push {ring : RingBuffer α} (holds : Holds bound items ring) (positive : 0 < bound)
    (item : α) : Holds bound (items ++ [item]) (ring.push bound item) := by
  have longer : (items ++ [item]).length = items.length + 1 := by
    rw [List.length_append,List.length_singleton]
  by_cases full : ring.filled = true
  · have enough := holds.filled.mp full
    have size : ring.cells.length = bound := by
      rw [holds.length,Nat.min_eq_left enough]
    have inside : ring.head < ring.cells.length := by
      rw [size]
      exact holds.head full
    have pushed : ring.push bound item =
        ⟨ring.cells.set ring.head item,(ring.head + 1) % bound,true⟩ := by
      rw [RingBuffer.push,if_pos full]
    have before : ring.cells.rotate ring.head = items.rtake bound := by
      rw [← holds.contents,RingBuffer.contents,if_pos full]
    rw [pushed]
    constructor
    · rw [RingBuffer.contents,if_pos rfl]
      have turned := List.rotate_mod (ring.cells.set ring.head item) (ring.head + 1)
      rw [List.length_set,size] at turned
      rw [turned,rotate_set ring.cells inside,before,rtake_concat enough positive]
    · rw [longer]
      exact iff_of_true rfl (by omega)
    · rw [List.length_set,size,longer]
      omega
    · intro _
      exact Nat.mod_lt _ positive
  · have notFilled : ring.filled = false := Bool.eq_false_iff.mpr full
    have short : items.length < bound := by
      rw [← Nat.not_le]
      exact fun enough => full (holds.filled.mpr enough)
    have cells : ring.cells = items := by
      have same := holds.contents
      rwa [RingBuffer.contents,if_neg full,rtake_of_length_le (Nat.le_of_lt short)] at same
    have kept : (items ++ [item]).rtake bound = items ++ [item] :=
      rtake_of_length_le (by omega)
    have length : (items ++ [item]).length = min bound (items ++ [item]).length := by
      omega
    rw [RingBuffer.push,if_neg full,cells]
    by_cases last : (items ++ [item]).length = bound
    · rw [if_pos last]
      constructor
      · rw [RingBuffer.contents,if_pos rfl,List.rotate_zero,kept]
      · exact iff_of_true rfl (by omega)
      · exact length
      · intro _
        exact positive
    · rw [if_neg last]
      constructor
      · exact kept.symm
      · refine iff_of_false ?_ (by omega)
        intro impossible
        cases impossible
      · exact length
      · intro impossible
        cases impossible

theorem holds_foldl (positive : 0 < bound) (items : List α) :
    Holds bound items (items.foldl (RingBuffer.push bound) empty) := by
  induction items using List.reverseRecOn with
  | nil => exact holds_empty positive
  | append_singleton items item ih =>
      rw [List.foldl_concat]
      exact ih.push positive item

end RingBuffer

end LastItems
