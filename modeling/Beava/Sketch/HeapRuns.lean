/-
Runs of the bounded heap.

Heaps are copied, stored and loaded again between the insertions.  A loaded heap has no
index until its next insertion, which makes it from the entries; from then on a swap of
two entries also swaps their positions.
-/

import Beava.Sketch.HeapOrder

namespace Beava.Sketch

open Beava.Core

namespace TopKHeap

variable {heaps : List TopKHeap}

/-- What a heap keeps: the order of the counts, the bound, each value once, and the index. -/
structure WellFormed (heap : TopKHeap) : Prop where
  kPos : 0 < heap.k
  ordered : heap.Ordered
  bounded : heap.heap.length ≤ heap.k
  indexed : heap.Indexed

variable {heap : TopKHeap} {value : TopKValue}

theorem wellFormed_new (k : Nat) : (new k).WellFormed where
  kPos := Nat.le_max_right k 1
  ordered := ordered_new k
  bounded := Nat.zero_le _
  indexed := indexed_new k

theorem WellFormed.loaded (wellFormed : heap.WellFormed) : heap.loaded.WellFormed where
  kPos := wellFormed.kPos
  ordered := wellFormed.ordered
  bounded := wellFormed.bounded
  indexed := indexed_loaded wellFormed.indexed

/-- An insertion never makes more than `k` entries. -/
theorem Inserted.bounded {after : TopKHeap} {count : Nat}
    (inserted : Inserted heap after value count) (bounded : heap.heap.length ≤ heap.k) :
    after.heap.length ≤ heap.k := by
  cases inserted with
  | bumped old rest start result =>
      rw [result.length_eq]
      exact start.length_eq ▸ bounded
  | pushed absent room result =>
      rw [result.length_eq]
      exact room
  | replaced root rest absent full least above start result =>
      rw [result.length_eq]
      exact start.length_eq ▸ bounded
  | dropped absent full least unchanged =>
      rw [unchanged]
      exact bounded

theorem WellFormed.insertOrBump (wellFormed : heap.WellFormed) (value : TopKValue) (count : Nat) :
    (heap.insertOrBump value count).WellFormed ∧ (heap.insertOrBump value count).k = heap.k := by
  obtain ⟨indexed,sameK,-⟩ :=
    insertOrBump_cases wellFormed.indexed wellFormed.kPos value count
  obtain ⟨ordered,inserted⟩ :=
    insertOrBump_inserted wellFormed.indexed wellFormed.ordered wellFormed.kPos value count
  have bounded := inserted.bounded wellFormed.bounded
  exact ⟨⟨sameK ▸ wellFormed.kPos,ordered,sameK ▸ bounded,indexed⟩,sameK⟩

/-- The value has the count, and the other entries are the same as before. -/
structure Bumped (before after : TopKHeap) (value : TopKValue) (count : Nat) : Prop where
  length : after.heap.length = before.heap.length
  own : (count,value) ∈ after.heap
  others : ∀ entry, entry.2 ≠ value → (entry ∈ after.heap ↔ entry ∈ before.heap)

theorem WellFormed.bumped (wellFormed : heap.WellFormed)
    (stored : value ∈ heap.heap.map Prod.snd) (count : Nat) :
    Bumped heap (heap.insertOrBump value count) value count := by
  obtain ⟨-,inserted⟩ :=
    insertOrBump_inserted wellFormed.indexed wellFormed.ordered wellFormed.kPos value count
  cases inserted with
  | bumped old rest start result =>
      constructor
      · exact result.length_eq.trans start.length_eq.symm
      · exact result.mem_iff.mpr List.mem_cons_self
      · intro entry other
        have notOld : entry ≠ (old,value) := by
          rintro rfl
          exact other rfl
        have notNew : entry ≠ (count,value) := by
          rintro rfl
          exact other rfl
        rw [result.mem_iff,start.mem_iff,List.mem_cons,List.mem_cons]
        exact ⟨fun member => .inr (member.resolve_left notNew),
          fun member => .inr (member.resolve_left notOld)⟩
  | pushed absent | replaced root rest absent | dropped absent => exact absurd stored absent

inductive Call where
  | insertOrBump (which : Nat) (value : TopKValue) (count : Nat)
  | clone (which : Nat)
  | reload (which : Nat)

def call (heaps : List TopKHeap) : Call → List TopKHeap
  | .insertOrBump which value count =>
      heaps.modify which fun heap => heap.insertOrBump value count
  | .clone which => heaps ++ heaps[which]?.toList
  | .reload which => heaps ++ (heaps[which]?.map loaded).toList

def run (heaps : List TopKHeap) (calls : List Call) : List TopKHeap := calls.foldl call heaps

theorem mem_call {step : Call} (member : heap ∈ call heaps step) :
    heap ∈ heaps ∨ ∃ before ∈ heaps, heap = before.loaded ∨
      ∃ value count, heap = before.insertOrBump value count := by
  cases step with
  | insertOrBump which value count =>
      obtain ⟨index,found⟩ := List.getElem?_of_mem member
      rw [call,List.getElem?_modify] at found
      obtain ⟨before,isThere,same⟩ := Option.map_eq_some_iff.mp found
      have there := List.mem_of_getElem? isThere
      split at same
      · exact .inr ⟨before,there,.inr ⟨value,count,same.symm⟩⟩
      · exact .inl (same ▸ there)
  | clone which =>
      rcases List.mem_append.mp member with isThere | copied
      · exact .inl isThere
      · exact .inl (List.mem_of_getElem? (Option.mem_toList.mp copied))
  | reload which =>
      rcases List.mem_append.mp member with isThere | copied
      · exact .inl isThere
      · obtain ⟨before,found,same⟩ := Option.map_eq_some_iff.mp (Option.mem_toList.mp copied)
        exact .inr ⟨before,List.mem_of_getElem? found,.inl same.symm⟩

theorem wellFormed_run {k : Nat} (calls : List Call)
    (wellFormed : ∀ heap ∈ heaps, heap.WellFormed ∧ heap.k = k) :
    ∀ heap ∈ run heaps calls, heap.WellFormed ∧ heap.k = k := by
  induction calls generalizing heaps with
  | nil => exact wellFormed
  | cons step calls ih =>
      apply ih
      intro heap member
      rcases mem_call member with isThere | ⟨before,isThere,rfl | ⟨value,count,rfl⟩⟩
      · exact wellFormed heap isThere
      · obtain ⟨beforeHolds,sameK⟩ := wellFormed before isThere
        exact ⟨beforeHolds.loaded,sameK⟩
      · obtain ⟨beforeHolds,sameK⟩ := wellFormed before isThere
        obtain ⟨holds,kept⟩ := beforeHolds.insertOrBump value count
        exact ⟨holds,kept.trans sameK⟩

/-- Through any insertions, copies and reloads, each heap is a heap by its counts with at most `k`
entries and each value once, a ready index maps exactly the stored values to their positions, and
a bump changes the entry of its own value only. -/
theorem heaps_represent (k : Nat) (calls : List Call) {heap : TopKHeap}
    (reached : heap ∈ run [new k] calls) :
    (∀ child entry above, 0 < child → heap.heap[child]? = some entry →
      heap.heap[(child - 1) / 2]? = some above → above.1 ≤ entry.1) ∧
    heap.k = max k 1 ∧ heap.heap.length ≤ heap.k ∧ (heap.heap.map Prod.snd).Nodup ∧
    (heap.indexReady = true → ∀ (value : TopKValue) (position : Nat),
      heap.index[value]? = some position ↔ heap.heap[position]?.map Prod.snd = some value) ∧
    ∀ value ∈ heap.heap.map Prod.snd, ∀ count,
      Bumped heap (heap.insertOrBump value count) value count := by
  have start : ∀ heap ∈ [new k], heap.WellFormed ∧ heap.k = max k 1 := by
    intro heap member
    rw [List.mem_singleton.mp member]
    exact ⟨wellFormed_new k,rfl⟩
  obtain ⟨wellFormed,isK⟩ := wellFormed_run calls start heap reached
  refine ⟨?_,isK,wellFormed.bounded,wellFormed.indexed.distinct,wellFormed.indexed.synced,
    fun value stored count => wellFormed.bumped stored count⟩
  intro child entry above isBelow found foundAbove
  obtain ⟨inside,-⟩ := List.getElem?_eq_some_iff.mp found
  have ordered := wellFormed.ordered child isBelow inside
  rwa [BinaryHeap.parent,countAt_of_getElem? found,countAt_of_getElem? foundAbove] at ordered

def reloadedSample : TopKHeap :=
  (((new 2).insertOrBump (.int 5) 3).insertOrBump (.bool true) 1).loaded.insertOrBump (.int 5) 0

theorem heaps_represent_sample :
    reloadedSample.heap.length ≤ reloadedSample.k ∧
      Bumped reloadedSample (reloadedSample.insertOrBump (.int 5) 4) (.int 5) 4 := by
  have reached : reloadedSample ∈ run [new 2] [.insertOrBump 0 (.int 5) 3,
      .insertOrBump 0 (.bool true) 1,.clone 0,.reload 1,.insertOrBump 2 (.int 5) 0] :=
    List.mem_cons_of_mem _ (List.mem_cons_of_mem _ List.mem_cons_self)
  obtain ⟨-,-,bounded,-,-,bumped⟩ := heaps_represent 2 _ reached
  exact ⟨bounded,bumped (.int 5) (by decide +kernel) 4⟩

end TopKHeap

end Beava.Sketch
