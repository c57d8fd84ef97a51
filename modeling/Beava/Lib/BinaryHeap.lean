/-
Binary heaps.

The keys stand at positions; the parent of a position is `(position - 1) / 2`.  A heap
that is wrong at one position only is repaired by exchanges, upwards or downwards,
and one exchange moves the wrong position by one level.
-/

import Mathlib.Order.Lattice

namespace BinaryHeap

variable {κ : Type} [LinearOrder κ]

def parent (position : Nat) : Nat := (position - 1) / 2

/-- No key is below that of its parent. -/
def IsHeap (size : Nat) (keys : Nat → κ) : Prop :=
  ∀ child, 0 < child → child < size → keys (parent child) ≤ keys child

def exchanged (keys : Nat → κ) (first second position : Nat) : κ :=
  if position = first then keys second
  else if position = second then keys first
  else keys position

/-- The key of the position may be below that of its parent. -/
structure RisingAt (size : Nat) (keys : Nat → κ) (position : Nat) : Prop where
  elsewhere : ∀ child, 0 < child → child < size → child ≠ position →
    keys (parent child) ≤ keys child
  around : ∀ child, 0 < position → 0 < child → child < size → parent child = position →
    keys (parent position) ≤ keys child

/-- The key of the position may be above those of its children. -/
structure SinkingAt (size : Nat) (keys : Nat → κ) (position : Nat) : Prop where
  elsewhere : ∀ child, 0 < child → child < size → parent child ≠ position →
    keys (parent child) ≤ keys child
  around : ∀ child, 0 < position → 0 < child → child < size → parent child = position →
    keys (parent position) ≤ keys child

variable {size position : Nat} {keys other : Nat → κ}

theorem parent_lt {position : Nat} (above : 0 < position) : parent position < position := by
  unfold parent
  omega

omit [LinearOrder κ] in
theorem exchanged_first (keys : Nat → κ) (first second : Nat) :
    exchanged keys first second first = keys second :=
  if_pos rfl

omit [LinearOrder κ] in
theorem exchanged_second (keys : Nat → κ) (first second : Nat) :
    exchanged keys first second second = keys first := by
  unfold exchanged
  split
  · rename_i same
    rw [same]
  · exact if_pos rfl

omit [LinearOrder κ] in
theorem exchanged_other (keys : Nat → κ) {first second position : Nat} (notFirst : position ≠ first)
    (notSecond : position ≠ second) : exchanged keys first second position = keys position := by
  rw [exchanged,if_neg notFirst,if_neg notSecond]

theorem IsHeap.root_le (isHeap : IsHeap size keys) (inside : position < size) :
    keys 0 ≤ keys position := by
  induction position using Nat.strongRecOn with
  | ind position ih =>
      rcases Nat.eq_zero_or_pos position with rfl | above
      · exact le_rfl
      · have below := parent_lt above
        exact le_trans (ih (parent position) below (Nat.lt_trans below inside))
          (isHeap position above inside)

theorem RisingAt.isHeap (rising : RisingAt size keys position)
    (done : 0 < position → keys (parent position) ≤ keys position) : IsHeap size keys := by
  intro child above inside
  by_cases same : child = position
  · rw [same] at above ⊢
    exact done above
  · exact rising.elsewhere child above inside same

theorem RisingAt.exchange (rising : RisingAt size keys position) (above : 0 < position)
    (inside : position < size) (less : keys position < keys (parent position)) :
    RisingAt size (exchanged keys position (parent position)) (parent position) := by
  have below := parent_lt above
  constructor
  · intro child childAbove childInside notParent
    have childBelow := parent_lt childAbove
    by_cases same : child = position
    · rw [same,exchanged_first,exchanged_second]
      exact le_of_lt less
    · rw [exchanged_other keys same notParent]
      by_cases ofPosition : parent child = position
      · rw [ofPosition,exchanged_first]
        exact rising.around child above childAbove childInside ofPosition
      · by_cases sibling : parent child = parent position
        · rw [sibling,exchanged_second]
          have kept := rising.elsewhere child childAbove childInside same
          rw [sibling] at kept
          exact le_trans (le_of_lt less) kept
        · rw [exchanged_other keys ofPosition sibling]
          exact rising.elsewhere child childAbove childInside same
  · intro child parentAbove childAbove childInside ofParent
    have grandBelow := parent_lt parentAbove
    have notPosition : parent (parent position) ≠ position := by omega
    have notParent : parent (parent position) ≠ parent position := Nat.ne_of_lt grandBelow
    have grand := rising.elsewhere (parent position) parentAbove (by omega) (Nat.ne_of_lt below)
    rw [exchanged_other keys notPosition notParent]
    by_cases same : child = position
    · rw [same,exchanged_first]
      exact grand
    · have childBelow := parent_lt childAbove
      rw [exchanged_other keys same (by omega)]
      have kept := rising.elsewhere child childAbove childInside same
      rw [ofParent] at kept
      exact le_trans grand kept

theorem SinkingAt.isHeap (sinking : SinkingAt size keys position)
    (done : ∀ child, 0 < child → child < size → parent child = position →
      keys position ≤ keys child) : IsHeap size keys := by
  intro child above inside
  by_cases ofPosition : parent child = position
  · rw [ofPosition]
    exact done child above inside ofPosition
  · exact sinking.elsewhere child above inside ofPosition

theorem SinkingAt.exchange (sinking : SinkingAt size keys position) {least : Nat}
    (above : 0 < least) (inside : least < size) (ofPosition : parent least = position)
    (less : keys least < keys position)
    (isLeast : ∀ child, 0 < child → child < size → parent child = position →
      keys least ≤ keys child) :
    SinkingAt size (exchanged keys position least) least := by
  have below := parent_lt above
  rw [ofPosition] at below
  constructor
  · intro child childAbove childInside notOfLeast
    have childBelow := parent_lt childAbove
    by_cases ofSame : parent child = position
    · rw [ofSame,exchanged_first]
      by_cases same : child = least
      · rw [same,exchanged_second]
        exact le_of_lt less
      · rw [exchanged_other keys (by omega) same]
        exact isLeast child childAbove childInside ofSame
    · rw [exchanged_other keys ofSame notOfLeast]
      by_cases same : child = position
      · rw [same] at childAbove
        rw [same,exchanged_first]
        exact sinking.around least childAbove above inside ofPosition
      · have notLeast : child ≠ least := by
          intro isChild
          rw [isChild] at ofSame
          exact ofSame ofPosition
        rw [exchanged_other keys same notLeast]
        exact sinking.elsewhere child childAbove childInside ofSame
  · intro child _ childAbove childInside ofLeast
    have childBelow := parent_lt childAbove
    rw [ofPosition,exchanged_first,exchanged_other keys (by omega) (by omega)]
    have kept := sinking.elsewhere child childAbove childInside (by omega)
    rw [ofLeast] at kept
    exact kept

theorem IsHeap.rising (isHeap : IsHeap size keys)
    (same : ∀ index, index ≠ position → other index = keys index)
    (smaller : other position ≤ keys position) : RisingAt size other position := by
  constructor
  · intro child above inside different
    have below := parent_lt above
    have kept := isHeap child above inside
    rw [same child different]
    by_cases ofPosition : parent child = position
    · rw [ofPosition] at kept ⊢
      exact le_trans smaller kept
    · rw [same _ ofPosition]
      exact kept
  · intro child positionAbove above inside ofPosition
    have below := parent_lt above
    have positionBelow := parent_lt positionAbove
    have kept := isHeap child above inside
    rw [ofPosition] at kept
    rw [same child (by omega),same _ (Nat.ne_of_lt positionBelow)]
    exact le_trans (isHeap position positionAbove (by omega)) kept

theorem IsHeap.sinking (isHeap : IsHeap size keys)
    (same : ∀ index, index ≠ position → other index = keys index)
    (larger : keys position ≤ other position) : SinkingAt size other position := by
  constructor
  · intro child above inside notOfPosition
    have kept := isHeap child above inside
    rw [same _ notOfPosition]
    by_cases isPosition : child = position
    · rw [isPosition] at kept ⊢
      exact le_trans kept larger
    · rw [same child isPosition]
      exact kept
  · intro child positionAbove above inside ofPosition
    have below := parent_lt above
    have positionBelow := parent_lt positionAbove
    have kept := isHeap child above inside
    rw [ofPosition] at kept
    rw [same child (by omega),same _ (Nat.ne_of_lt positionBelow)]
    exact le_trans (isHeap position positionAbove (by omega)) kept

theorem IsHeap.push (isHeap : IsHeap size keys)
    (same : ∀ index < size, other index = keys index) : RisingAt (size + 1) other size := by
  constructor
  · intro child above inside different
    have below := parent_lt above
    rw [same child (by omega),same _ (by omega)]
    exact isHeap child above (by omega)
  · intro child _ above inside ofLast
    have below := parent_lt above
    omega

end BinaryHeap
