/-
The order of the bounded heap.

The heap of candidates is a binary heap by its counts, so that its root has the least
one.  An insertion changes a count, adds an entry, replaces the root by a larger entry,
or leaves the heap as it is.
-/

import Beava.Lib.BinaryHeap
import Beava.Sketch.TopKHeap
import Mathlib.Data.List.Perm.Basic

namespace Beava.Sketch

open Beava.Core BinaryHeap

namespace TopKHeap

variable {heap : TopKHeap} {position : Nat} {value : TopKValue} {count : Nat}
variable {entry : Nat × TopKValue}
variable {rounds : Nat}

/-- The counts are those of a binary heap. -/
def Ordered (heap : TopKHeap) : Prop := IsHeap heap.heap.length heap.countAt

theorem ordered_new (k : Nat) : (new k).Ordered := by
  intro child _ inside
  exact absurd inside (Nat.not_lt_zero child)

theorem countAt_of_getElem? (found : heap.heap[position]? = some entry) :
    heap.countAt position = entry.1 := by
  rw [countAt,found,Option.map_some,Option.getD_some]

theorem perm_swap (heap : TopKHeap) (first second : Nat) :
    (heap.swap first second).heap.Perm heap.heap := by
  unfold swap
  split
  · exact List.Perm.refl _
  · split
    · rename_i atFirst atSecond foundFirst foundSecond
      obtain ⟨firstInside,firstEq⟩ := List.getElem?_eq_some_iff.mp foundFirst
      obtain ⟨secondInside,secondEq⟩ := List.getElem?_eq_some_iff.mp foundSecond
      rw [← firstEq,← secondEq]
      exact List.set_set_perm firstInside secondInside
    · exact List.Perm.refl _

theorem countAt_swap {first second : Nat} (firstInside : first < heap.heap.length)
    (secondInside : second < heap.heap.length) :
    (heap.swap first second).countAt = exchanged heap.countAt first second := by
  funext position
  unfold swap
  split
  · rename_i same
    rw [same,exchanged]
    split
    · rename_i here
      rw [here]
    · rfl
  · rw [List.getElem?_eq_getElem firstInside,List.getElem?_eq_getElem secondInside]
    rw [countAt,List.getElem?_set,List.getElem?_set,List.length_set,exchanged]
    by_cases isSecond : second = position
    · subst isSecond
      rename_i different
      rw [if_pos rfl,if_pos secondInside,Option.map_some,Option.getD_some,
        if_neg (Ne.symm different),if_pos rfl,countAt_of_getElem?
          (List.getElem?_eq_getElem firstInside)]
    · by_cases isFirst : first = position
      · subst isFirst
        rw [if_neg isSecond,if_pos rfl,if_pos firstInside,Option.map_some,Option.getD_some,
          if_pos rfl,countAt_of_getElem? (List.getElem?_eq_getElem secondInside)]
      · rw [if_neg isSecond,if_neg isFirst,if_neg (Ne.symm isFirst),if_neg (Ne.symm isSecond),
          countAt]

theorem perm_siftUpFor (rounds : Nat) (heap : TopKHeap) (position : Nat) :
    (siftUpFor rounds heap position).heap.Perm heap.heap := by
  induction rounds generalizing heap position with
  | zero => exact List.Perm.refl _
  | succ rounds ih =>
      unfold siftUpFor
      split
      · exact List.Perm.refl _
      · dsimp only
        split
        · exact (ih _ _).trans (heap.perm_swap position _)
        · exact List.Perm.refl _

theorem perm_siftDownFor (rounds : Nat) (heap : TopKHeap) (position : Nat) :
    (siftDownFor rounds heap position).heap.Perm heap.heap := by
  induction rounds generalizing heap position with
  | zero => exact List.Perm.refl _
  | succ rounds ih =>
      unfold siftDownFor
      dsimp only
      split
      · exact List.Perm.refl _
      · exact (ih _ _).trans (heap.perm_swap position _)

theorem ordered_siftUpFor (rising : RisingAt heap.heap.length heap.countAt position)
    (inside : position < heap.heap.length) (enough : position ≤ rounds) :
    (siftUpFor rounds heap position).Ordered := by
  induction rounds generalizing heap position with
  | zero =>
      apply rising.isHeap
      intro above
      omega
  | succ rounds ih =>
      unfold siftUpFor
      split
      · rename_i atRoot
        apply rising.isHeap
        intro above
        omega
      · rename_i notRoot
        have above := Nat.pos_of_ne_zero notRoot
        have below := parent_lt above
        dsimp only
        split
        · rename_i less
          have length := (heap.perm_swap position ((position - 1) / 2)).length_eq
          have moved := rising.exchange above inside less
          have counts : (heap.swap position ((position - 1) / 2)).countAt =
              exchanged heap.countAt position (parent position) :=
            countAt_swap inside (Nat.lt_trans below inside)
          apply ih
          · rw [length,counts]
            exact moved
          · rw [length]
            exact Nat.lt_trans below inside
          · exact Nat.le_of_lt_succ (Nat.lt_of_lt_of_le below enough)
        · rename_i notLess
          apply rising.isHeap
          intro _
          exact Nat.le_of_not_lt notLess

theorem smallestOf_cases (heap : TopKHeap) (position : Nat) :
    (heap.smallestOf position = position ∧
        ∀ child, 0 < child → child < heap.heap.length → parent child = position →
          heap.countAt position ≤ heap.countAt child) ∨
      (0 < heap.smallestOf position ∧ heap.smallestOf position < heap.heap.length ∧
        parent (heap.smallestOf position) = position ∧
        heap.countAt (heap.smallestOf position) < heap.countAt position ∧
        ∀ child, 0 < child → child < heap.heap.length → parent child = position →
          heap.countAt (heap.smallestOf position) ≤ heap.countAt child) := by
  have children : ∀ child, 0 < child → parent child = position →
      child = 2 * position + 1 ∨ child = 2 * position + 2 := by
    intro child above ofPosition
    unfold parent at ofPosition
    omega
  unfold smallestOf parent
  dsimp only
  simp only [Bool.and_eq_true,decide_eq_true_iff]
  by_cases leftLess : 2 * position + 1 < heap.heap.length ∧
      heap.countAt (2 * position + 1) < heap.countAt position
  · rw [if_pos leftLess]
    by_cases rightLess : 2 * position + 2 < heap.heap.length ∧
        heap.countAt (2 * position + 2) < heap.countAt (2 * position + 1)
    · rw [if_pos rightLess]
      right
      refine ⟨by omega,rightLess.1,by omega,by omega,?_⟩
      intro child above inside ofPosition
      rcases children child above ofPosition with rfl | rfl <;> omega
    · rw [if_neg rightLess]
      right
      refine ⟨by omega,leftLess.1,by omega,leftLess.2,?_⟩
      intro child above inside ofPosition
      rcases children child above ofPosition with rfl | rfl <;> omega
  · rw [if_neg leftLess]
    by_cases rightLess : 2 * position + 2 < heap.heap.length ∧
        heap.countAt (2 * position + 2) < heap.countAt position
    · rw [if_pos rightLess]
      right
      refine ⟨by omega,rightLess.1,by omega,rightLess.2,?_⟩
      intro child above inside ofPosition
      rcases children child above ofPosition with rfl | rfl <;> omega
    · rw [if_neg rightLess]
      left
      refine ⟨rfl,?_⟩
      intro child above inside ofPosition
      rcases children child above ofPosition with rfl | rfl <;> omega

theorem ordered_siftDownFor (sinking : SinkingAt heap.heap.length heap.countAt position)
    (inside : position < heap.heap.length) (enough : heap.heap.length ≤ position + rounds) :
    (siftDownFor rounds heap position).Ordered := by
  induction rounds generalizing heap position with
  | zero => omega
  | succ rounds ih =>
      unfold siftDownFor
      dsimp only
      rcases heap.smallestOf_cases position with
        ⟨same,done⟩ | ⟨above,childInside,ofPosition,less,least⟩
      · rw [if_pos same]
        exact sinking.isHeap done
      · have below := parent_lt above
        rw [ofPosition] at below
        rw [if_neg (Nat.ne_of_gt below)]
        have length := (heap.perm_swap position (heap.smallestOf position)).length_eq
        have moved := sinking.exchange above childInside ofPosition less least
        apply ih
        · rw [length,countAt_swap inside childInside]
          exact moved
        · rw [length]
          exact childInside
        · rw [length]
          omega

inductive Inserted (before after : TopKHeap) (value : TopKValue) (count : Nat) : Prop
  | bumped (old : Nat) (rest : List (Nat × TopKValue))
      (start : before.heap.Perm ((old,value) :: rest))
      (result : after.heap.Perm ((count,value) :: rest))
  | pushed (absent : value ∉ before.heap.map Prod.snd) (room : before.heap.length < before.k)
      (result : after.heap.Perm ((count,value) :: before.heap))
  | replaced (root : Nat × TopKValue) (rest : List (Nat × TopKValue))
      (absent : value ∉ before.heap.map Prod.snd) (full : before.k ≤ before.heap.length)
      (least : ∀ entry ∈ before.heap, root.1 ≤ entry.1) (above : root.1 < count)
      (start : before.heap.Perm (root :: rest)) (result : after.heap.Perm ((count,value) :: rest))
  | dropped (absent : value ∉ before.heap.map Prod.snd) (full : before.k ≤ before.heap.length)
      (least : ∀ entry ∈ before.heap, count ≤ entry.1) (unchanged : after.heap = before.heap)

theorem perm_eraseIdx {entries : List (Nat × TopKValue)} (found : entries[position]? = some entry) :
    entries.Perm (entry :: entries.eraseIdx position) := by
  obtain ⟨inside,rfl⟩ := List.getElem?_eq_some_iff.mp found
  exact (List.getElem_cons_eraseIdx_perm inside).symm

theorem countAt_set (entry : Nat × TopKValue) (inside : position < heap.heap.length) :
    ∀ index, ({ heap with heap := heap.heap.set position entry } : TopKHeap).countAt index =
      if index = position then entry.1 else heap.countAt index := by
  intro index
  simp only [countAt,List.getElem?_set]
  by_cases here : position = index
  · subst here
    rw [if_pos rfl,if_pos inside,if_pos rfl,Option.map_some,Option.getD_some]
  · rw [if_neg here,if_neg (Ne.symm here)]

theorem Ordered.root_least (ordered : heap.Ordered) {root : Nat × TopKValue}
    (isRoot : heap.heap.head? = some root) (member : entry ∈ heap.heap) : root.1 ≤ entry.1 := by
  obtain ⟨index,inside,rfl⟩ := List.getElem_of_mem member
  have atRoot : heap.heap[0]? = some root := List.head?_eq_getElem?.symm.trans isRoot
  have least := ordered.root_le inside
  rwa [countAt_of_getElem? atRoot,countAt_of_getElem? (List.getElem?_eq_getElem inside)] at least

theorem ordered_bumpAt (ordered : heap.Ordered)
    (isAt : heap.heap[position]?.map Prod.snd = some value) :
    (heap.bumpAt position count).Ordered := by
  obtain ⟨entry,found,-⟩ := Option.map_eq_some_iff.mp isAt
  obtain ⟨inside,-⟩ := List.getElem?_eq_some_iff.mp found
  have counts := countAt_set (count,value) inside
  have here : ({ heap with heap := heap.heap.set position (count,value) } : TopKHeap).countAt
      position = count := by
    rw [counts,if_pos rfl]
  have elsewhere : ∀ index, index ≠ position →
      ({ heap with heap := heap.heap.set position (count,value) } : TopKHeap).countAt index =
        heap.countAt index := by
    intro index different
    rw [counts,if_neg different]
  have length : (heap.heap.set position (count,value)).length = heap.heap.length :=
    List.length_set
  unfold bumpAt
  rw [setCount_eq isAt]
  dsimp only
  split
  · rename_i less
    apply ordered_siftUpFor
    · rw [length]
      exact ordered.rising elsewhere (here.trans_le less.le)
    · rwa [length]
    · exact Nat.le_refl position
  · split
    · rename_i more
      apply ordered_siftDownFor
      · rw [length]
        exact ordered.sinking elsewhere (more.le.trans_eq here.symm)
      · rwa [length]
      · exact Nat.le_add_left _ position
    · have same : heap.countAt position = count := by omega
      intro child above childInside
      rw [length] at childInside
      have kept := ordered child above childInside
      rw [counts,counts]
      split <;> split <;> simp_all

theorem ordered_push (ordered : heap.Ordered) : (heap.push value count).Ordered := by
  have length : (heap.heap ++ [(count,value)]).length = heap.heap.length + 1 :=
    List.length_append
  apply ordered_siftUpFor
  · rw [length]
    apply ordered.push
    intro index inside
    rw [countAt,List.getElem?_append_left inside,countAt]
  · rw [length]
    exact Nat.lt_succ_self _
  · exact Nat.le_refl _

theorem ordered_replaceRoot (ordered : heap.Ordered) (inside : 0 < heap.heap.length)
    (larger : heap.countAt 0 ≤ count) (evicted : TopKValue) :
    (heap.replaceRoot evicted value count).Ordered := by
  have counts := countAt_set (count,value) inside
  have length : (heap.heap.set 0 (count,value)).length = heap.heap.length := List.length_set
  apply ordered_siftDownFor
  · rw [length]
    apply ordered.sinking
    · intro index different
      exact (counts index).trans (if_neg different)
    · exact larger.trans_eq ((counts 0).trans (if_pos rfl)).symm
  · rwa [length]
  · exact Nat.le_add_left _ 0

theorem perm_bumpAt (isAt : heap.heap[position]?.map Prod.snd = some value) (count : Nat) :
    (heap.bumpAt position count).heap.Perm (heap.heap.set position (count,value)) := by
  unfold bumpAt
  rw [setCount_eq isAt]
  dsimp only
  split
  · exact perm_siftUpFor ..
  · split
    · exact perm_siftDownFor ..
    · exact List.Perm.refl _

theorem ordered_ensureIndex (ordered : heap.Ordered) : heap.ensureIndex.Ordered := by
  have counts : heap.ensureIndex.countAt = heap.countAt := by
    funext index
    rw [countAt,ensureIndex_heap,countAt]
  rw [Ordered,ensureIndex_heap,counts]
  exact ordered

theorem insertOrBump_inserted (indexed : heap.Indexed) (ordered : heap.Ordered)
    (kPos : 0 < heap.k) (value : TopKValue) (count : Nat) :
    (heap.insertOrBump value count).Ordered ∧
      Inserted heap (heap.insertOrBump value count) value count := by
  have ready := ensureIndex_ready heap
  have indexedHere := indexed_ensureIndex indexed
  have orderedHere := ordered_ensureIndex ordered
  have sameHeap := ensureIndex_heap heap
  have sameK := ensureIndex_k heap
  unfold insertOrBump
  dsimp only
  cases found : heap.ensureIndex.index[value]? with
  | some position =>
      have here := (indexedHere.synced ready value position).mp found
      obtain ⟨entry,atPosition,sameValue⟩ := Option.map_eq_some_iff.mp here
      obtain ⟨inside,-⟩ := List.getElem?_eq_some_iff.mp atPosition
      refine ⟨ordered_bumpAt orderedHere here,.bumped entry.1 (heap.heap.eraseIdx position) ?_ ?_⟩
      · rw [← sameValue]
        exact perm_eraseIdx (sameHeap ▸ atPosition)
      · refine (perm_bumpAt here count).trans ?_
        rw [sameHeap] at inside ⊢
        exact List.set_perm_cons_eraseIdx inside _
  | none =>
      have absent := absent_of_notFound ready indexedHere found
      rw [sameHeap] at absent
      dsimp only
      split
      · rename_i room
        rw [sameHeap,sameK] at room
        refine ⟨ordered_push orderedHere,.pushed absent room ?_⟩
        refine (perm_siftUpFor ..).trans ?_
        rw [sameHeap]
        exact List.perm_append_singleton (count,value) heap.heap
      · rename_i notRoom
        have full : heap.k ≤ heap.heap.length := by
          rw [sameHeap,sameK] at notRoom
          exact Nat.le_of_not_lt notRoom
        cases isRoot : heap.ensureIndex.heap.head? with
        | none =>
            rw [List.head?_eq_none_iff,sameHeap] at isRoot
            rw [isRoot] at full
            exact absurd kPos (Nat.not_lt.mpr full)
        | some root =>
            have least : ∀ entry ∈ heap.heap, root.1 ≤ entry.1 := by
              intro entry member
              rw [← sameHeap] at member
              exact orderedHere.root_least isRoot member
            have atRoot : heap.ensureIndex.heap[0]? = some root :=
              List.head?_eq_getElem?.symm.trans isRoot
            obtain ⟨inside,-⟩ := List.getElem?_eq_some_iff.mp atRoot
            dsimp only
            split
            · rename_i above
              have larger : heap.ensureIndex.countAt 0 ≤ count := by
                rw [countAt_of_getElem? atRoot]
                exact above.le
              refine ⟨ordered_replaceRoot orderedHere inside larger root.2,
                .replaced root (heap.heap.eraseIdx 0) absent full least above ?_ ?_⟩
              · exact perm_eraseIdx (sameHeap ▸ atRoot)
              · refine (perm_siftDownFor ..).trans ?_
                rw [sameHeap] at inside ⊢
                exact List.set_perm_cons_eraseIdx inside _
            · rename_i notAbove
              refine ⟨orderedHere,.dropped absent full ?_ sameHeap⟩
              intro entry member
              exact (Nat.le_of_not_lt notAbove).trans (least entry member)

end TopKHeap

end Beava.Sketch
