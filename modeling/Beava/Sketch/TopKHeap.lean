/-
The bounded heap of candidates.

The heap keeps at most `k` values with their counts, and an index of the
positions that is rebuilt after a load.  Moving an entry up or down only swaps
entries, so that what the heap holds after an insertion follows from where the
value was found.
-/

import Beava.Core.Row
import Beava.Lib.KeyMap
import Mathlib.Data.List.Nodup

namespace Beava.Sketch

open Beava.Core

/-! ### Values -/

/-- `OrderedFloat<f64>` by its place in the order: the sign and the magnitude, so
that the two zeros are one value, and all NaNs one value above the others. -/
structure OrderedFloat where
  place : Int
  deriving DecidableEq, Repr

def OrderedFloat.ofF64 (number : F64) : OrderedFloat :=
  if number.isNaN then ⟨2 ^ 63⟩
  else if number.bits.toNat < 2 ^ 63 then ⟨number.bits.toNat⟩
  else ⟨2 ^ 63 - number.bits.toNat⟩

inductive TopKValue where
  | str (text : String)
  | int (number : Int64)
  | float (number : OrderedFloat)
  | bool (flag : Bool)
  deriving DecidableEq, Repr

namespace TopKValue

def variant : TopKValue → Nat
  | .str _ => 0
  | .int _ => 1
  | .float _ => 2
  | .bool _ => 3

def text : TopKValue → String
  | .str text => text
  | _ => ""

def number : TopKValue → Int
  | .str _ => 0
  | .int number => number.toInt
  | .float number => number.place
  | .bool flag => if flag then 1 else 0

/-- The derived order: the variant first, then what it holds. -/
instance : Ord TopKValue :=
  ⟨compareLex (compareOn variant) (compareLex (compareOn text) (compareOn number))⟩

instance : Std.TransOrd TopKValue :=
  inferInstanceAs
    (Std.TransCmp (compareLex (compareOn variant) (compareLex (compareOn text) (compareOn number))))

theorem eq_of_parts {first second : TopKValue} (sameVariant : first.variant = second.variant)
    (sameText : first.text = second.text) (sameNumber : first.number = second.number) :
    first = second := by
  cases first <;> cases second <;> simp only [variant,reduceCtorEq] at sameVariant
  case str.str first second => exact congrArg TopKValue.str sameText
  case int.int first second => exact congrArg TopKValue.int (Int64.toInt_inj.mp sameNumber)
  case float.float first second =>
      cases first
      cases second
      exact congrArg (fun place => TopKValue.float ⟨place⟩) sameNumber
  case bool.bool first second =>
      cases first <;> cases second <;> simp [number] at sameNumber ⊢
  all_goals contradiction

instance : Std.LawfulEqOrd TopKValue where
  eq_of_compare {first second} same := by
    have parts : compareLex (compareOn variant) (compareLex (compareOn text) (compareOn number))
        first second = .eq := same
    simp only [compareLex,Ordering.then_eq_eq,compareOn,Std.LawfulEqOrd.compare_eq_iff_eq]
      at parts
    exact eq_of_parts parts.1 parts.2.1 parts.2.2

end TopKValue

/-! ### The heap -/

structure TopKHeap where
  k : Nat
  heap : List (Nat × TopKValue)
  index : Std.ExtTreeMap TopKValue Nat
  indexReady : Bool

namespace TopKHeap

variable {count : Nat}

def new (k : Nat) : TopKHeap :=
  { k := max k 1
    heap := []
    index := ∅
    indexReady := true }

def loaded (heap : TopKHeap) : TopKHeap :=
  { heap with index := ∅, indexReady := false }

/-- The positions of the values; a later entry replaces an earlier one. -/
def positions (entries : List (Nat × TopKValue)) : Std.ExtTreeMap TopKValue Nat :=
  KeyMap.insertAll ∅ (entries.zipIdx.map fun entry => (entry.1.2,entry.2))

def ensureIndex (heap : TopKHeap) : TopKHeap :=
  if heap.indexReady then heap
  else { heap with index := positions heap.heap, indexReady := true }

def swap (heap : TopKHeap) (first second : Nat) : TopKHeap :=
  if first = second then heap
  else
    match heap.heap[first]?, heap.heap[second]? with
    | some atFirst, some atSecond =>
        { heap with
          heap := (heap.heap.set first atSecond).set second atFirst
          index := (heap.index.insert atSecond.2 first).insert atFirst.2 second }
    | _, _ => heap

def countAt (heap : TopKHeap) (position : Nat) : Nat :=
  (heap.heap[position]?.map Prod.fst).getD 0

/-- `sift_up`; each round moves to the parent. -/
def siftUpFor : Nat → TopKHeap → Nat → TopKHeap
  | 0, heap, _ => heap
  | rounds + 1, heap, position =>
      if position = 0 then heap
      else
        let parent := (position - 1) / 2
        if heap.countAt position < heap.countAt parent then
          siftUpFor rounds (heap.swap position parent) parent
        else heap

def siftUp (heap : TopKHeap) (position : Nat) : TopKHeap :=
  siftUpFor position heap position

/-- The position of the smallest among an entry and its children. -/
def smallestOf (heap : TopKHeap) (position : Nat) : Nat :=
  let left := 2 * position + 1
  let right := 2 * position + 2
  let smallest :=
    if left < heap.heap.length && heap.countAt left < heap.countAt position then left
    else position
  if right < heap.heap.length && heap.countAt right < heap.countAt smallest then right
  else smallest

/-- `sift_down`; each round moves to a child. -/
def siftDownFor : Nat → TopKHeap → Nat → TopKHeap
  | 0, heap, _ => heap
  | rounds + 1, heap, position =>
      let smallest := heap.smallestOf position
      if smallest = position then heap
      else siftDownFor rounds (heap.swap position smallest) smallest

def siftDown (heap : TopKHeap) (position : Nat) : TopKHeap :=
  siftDownFor heap.heap.length heap position

/-- `self.heap[pos].0 = count`. -/
def setCount (heap : TopKHeap) (position count : Nat) : TopKHeap :=
  { heap with heap := heap.heap.modify position fun entry => (count,entry.2) }

/-- The branch of `insert_or_bump` for a position of the index. -/
def bumpAt (heap : TopKHeap) (position count : Nat) : TopKHeap :=
  let old := heap.countAt position
  let bumped := heap.setCount position count
  if count < old then bumped.siftUp position
  else if old < count then bumped.siftDown position
  else bumped

def push (heap : TopKHeap) (value : TopKValue) (count : Nat) : TopKHeap :=
  siftUp
    { heap with
      heap := heap.heap ++ [(count,value)]
      index := heap.index.insert value heap.heap.length }
    heap.heap.length

/-- The branch at the capacity, for a count above the one of the root. -/
def replaceRoot (heap : TopKHeap) (evicted value : TopKValue) (count : Nat) : TopKHeap :=
  siftDown
    { heap with
      heap := heap.heap.set 0 (count,value)
      index := (heap.index.erase evicted).insert value 0 }
    0

def insertOrBump (heap : TopKHeap) (value : TopKValue) (count : Nat) : TopKHeap :=
  let heap := heap.ensureIndex
  match heap.index[value]? with
  | some position => heap.bumpAt position count
  | none =>
      if heap.heap.length < heap.k then heap.push value count
      else
        match heap.heap.head? with
        | some root =>
            if root.1 < count then heap.replaceRoot root.2 value count
            else heap
        | none => heap

def reportOrder (first second : TopKValue × Nat) : Bool :=
  second.2 < first.2 || (first.2 = second.2 && (compare first.1 second.1).isLE)

def top (heap : TopKHeap) : List (TopKValue × Nat) :=
  (heap.heap.map fun entry => (entry.2,entry.1)).mergeSort reportOrder

/-- No value stands twice, and the index, when it is ready, knows all positions. -/
structure Indexed (heap : TopKHeap) : Prop where
  distinct : (heap.heap.map Prod.snd).Nodup
  synced : heap.indexReady = true → ∀ (value : TopKValue) (position : Nat),
    heap.index[value]? = some position ↔ heap.heap[position]?.map Prod.snd = some value

theorem indexed_new (k : Nat) : (new k).Indexed := by
  refine ⟨List.nodup_nil,fun _ value position => ?_⟩
  simp [new]

variable {heap : TopKHeap}

theorem indexed_loaded (indexed : heap.Indexed) : heap.loaded.Indexed :=
  ⟨indexed.distinct,fun ready => by cases ready⟩

theorem positions_eq_some {entries : List (Nat × TopKValue)}
    (distinct : (entries.map Prod.snd).Nodup) (value : TopKValue) (position : Nat) :
    (positions entries)[value]? = some position ↔
      entries[position]?.map Prod.snd = some value := by
  have keys : (entries.zipIdx.map fun entry => (entry.1.2,entry.2)).map Prod.fst =
      entries.map Prod.snd := by
    rw [List.map_map,← List.zipIdx_map_fst 0 entries,List.map_map]
    rw [List.zipIdx_map_fst]
    rfl
  have isEntry : (value,position) ∈ entries.zipIdx.map (fun entry => (entry.1.2,entry.2)) ↔
      entries[position]?.map Prod.snd = some value := by
    simp only [List.mem_map,Prod.mk.injEq,Option.map_eq_some_iff]
    constructor
    · rintro ⟨⟨entry,place⟩,member,rfl,rfl⟩
      exact ⟨entry,List.mem_zipIdx_iff_getElem?.mp member,rfl⟩
    · rintro ⟨entry,found,rfl⟩
      exact ⟨(entry,position),List.mem_zipIdx_iff_getElem?.mpr found,rfl,rfl⟩
  rw [← isEntry]
  constructor
  · intro found
    rcases KeyMap.insertAll_eq_some found with member | ⟨-,inEmpty⟩
    · exact member
    · simp at inEmpty
  · intro member
    exact KeyMap.insertAll_of_mem (keys ▸ distinct) member

theorem ensureIndex_heap (heap : TopKHeap) : heap.ensureIndex.heap = heap.heap := by
  unfold ensureIndex
  split <;> rfl

theorem ensureIndex_k (heap : TopKHeap) : heap.ensureIndex.k = heap.k := by
  unfold ensureIndex
  split <;> rfl

theorem ensureIndex_ready (heap : TopKHeap) : heap.ensureIndex.indexReady = true := by
  unfold ensureIndex
  split
  · assumption
  · rfl

theorem indexed_ensureIndex (indexed : heap.Indexed) : heap.ensureIndex.Indexed := by
  refine ⟨ensureIndex_heap heap ▸ indexed.distinct,fun _ value position => ?_⟩
  unfold ensureIndex
  split
  · rename_i ready
    exact indexed.synced ready value position
  · exact positions_eq_some indexed.distinct value position

/-- A heap with the same entries in another order, and a ready index. -/
structure Shuffled (before after : TopKHeap) : Prop where
  k : after.k = before.k
  perm : after.heap.Perm before.heap
  ready : after.indexReady = true
  indexed : after.Indexed

theorem shuffled_refl (ready : heap.indexReady = true) (indexed : heap.Indexed) :
    Shuffled heap heap :=
  ⟨rfl,List.Perm.refl _,ready,indexed⟩

theorem Shuffled.trans {first second third : TopKHeap} (earlier : Shuffled first second)
    (later : Shuffled second third) : Shuffled first third :=
  ⟨later.k.trans earlier.k,later.perm.trans earlier.perm,later.ready,later.indexed⟩

theorem shuffled_swap (ready : heap.indexReady = true) (indexed : heap.Indexed) (first second : Nat) :
    Shuffled heap (heap.swap first second) := by
  unfold swap
  split
  · exact shuffled_refl ready indexed
  · rename_i different
    split
    · rename_i atFirst atSecond foundFirst foundSecond
      obtain ⟨firstInside,firstEq⟩ := List.getElem?_eq_some_iff.mp foundFirst
      obtain ⟨secondInside,secondEq⟩ := List.getElem?_eq_some_iff.mp foundSecond
      have perm : ((heap.heap.set first atSecond).set second atFirst).Perm heap.heap := by
        rw [← firstEq,← secondEq]
        exact List.set_set_perm firstInside secondInside
      refine ⟨rfl,perm,ready,(perm.map Prod.snd).nodup_iff.mpr indexed.distinct,?_⟩
      intro _ value position
      have synced := indexed.synced ready
      have firstHere := (synced atFirst.2 first).mpr (by rw [foundFirst]; rfl)
      have secondHere := (synced atSecond.2 second).mpr (by rw [foundSecond]; rfl)
      simp only [KeyMap.lookup_insert,List.getElem?_set,List.length_set]
      by_cases isSecond : second = position
      · subst isSecond
        simp only [secondInside,if_true,Option.map_some,Option.some.injEq]
        constructor
        · intro found
          split at found
          · assumption
          · split at found
            · exact absurd (Option.some.inj found) different
            · rename_i notFirst notSecond
              have stays := (synced value second).mp found
              rw [foundSecond,Option.map_some,Option.some.injEq] at stays
              exact absurd stays notSecond
        · rintro rfl
          rw [if_pos rfl]
      · rw [if_neg isSecond]
        by_cases isFirst : first = position
        · subst isFirst
          simp only [firstInside,if_true,Option.map_some,Option.some.injEq]
          constructor
          · intro found
            split at found
            · exact absurd (Option.some.inj found) isSecond
            · split at found
              · assumption
              · rename_i notFirst notSecond
                have stays := (synced value first).mp found
                rw [foundFirst,Option.map_some,Option.some.injEq] at stays
                exact absurd stays notFirst
          · rintro rfl
            rw [if_neg,if_pos rfl]
            intro same
            rw [same,secondHere] at firstHere
            exact different (Option.some.inj firstHere).symm
        · rw [if_neg isFirst,← synced value position]
          constructor
          · intro found
            split at found
            · exact absurd (Option.some.inj found) isSecond
            · split at found
              · exact absurd (Option.some.inj found) isFirst
              · exact found
          · intro found
            rw [if_neg,if_neg]
            · exact found
            · rintro rfl
              rw [found] at secondHere
              exact isSecond (Option.some.inj secondHere).symm
            · rintro rfl
              rw [found] at firstHere
              exact isFirst (Option.some.inj firstHere).symm
    · exact shuffled_refl ready indexed

theorem shuffled_siftUpFor (rounds : Nat) (ready : heap.indexReady = true) (indexed : heap.Indexed)
    (position : Nat) : Shuffled heap (siftUpFor rounds heap position) := by
  induction rounds generalizing heap position with
  | zero => exact shuffled_refl ready indexed
  | succ rounds ih =>
      unfold siftUpFor
      split
      · exact shuffled_refl ready indexed
      · simp only
        split
        · have swapped := shuffled_swap ready indexed position ((position - 1) / 2)
          exact swapped.trans (ih swapped.ready swapped.indexed _)
        · exact shuffled_refl ready indexed

theorem shuffled_siftDownFor (rounds : Nat) (ready : heap.indexReady = true)
    (indexed : heap.Indexed) (position : Nat) :
    Shuffled heap (siftDownFor rounds heap position) := by
  induction rounds generalizing heap position with
  | zero => exact shuffled_refl ready indexed
  | succ rounds ih =>
      unfold siftDownFor
      simp only
      split
      · exact shuffled_refl ready indexed
      · have swapped := shuffled_swap ready indexed position (heap.smallestOf position)
        exact swapped.trans (ih swapped.ready swapped.indexed _)

/-! ### Insertions -/

structure Taken (before after : TopKHeap) (value : TopKValue) (count : Nat) : Prop where
  present : (count,value) ∈ after.heap
  others : ∀ entry ∈ after.heap, entry ≠ (count,value) →
    entry ∈ before.heap ∧ entry.2 ≠ value

/-- The heap is full of counts that are not smaller, and stays as it is. -/
structure Dropped (before after : TopKHeap) (value : TopKValue) (count : Nat) : Prop where
  absent : value ∉ before.heap.map Prod.snd
  root : ∃ root ∈ before.heap, count ≤ root.1
  unchanged : after.heap = before.heap

variable {value : TopKValue}

theorem Indexed.other_value (indexed : heap.Indexed) {entry : Nat × TopKValue}
    (member : entry ∈ heap.heap) (holds : (count,value) ∈ heap.heap)
    (different : entry ≠ (count,value)) : entry.2 ≠ value := by
  intro sameValue
  exact different (List.inj_on_of_nodup_map indexed.distinct member holds sameValue)

theorem taken_of_shuffled {before between after : TopKHeap} (shuffled : Shuffled between after)
    (present : (count,value) ∈ between.heap)
    (others : ∀ entry ∈ between.heap, entry ≠ (count,value) → entry ∈ before.heap) :
    Taken before after value count := by
  have presentAfter := shuffled.perm.mem_iff.mpr present
  refine ⟨presentAfter,fun entry member different => ⟨?_,?_⟩⟩
  · exact others entry (shuffled.perm.mem_iff.mp member) different
  · exact shuffled.indexed.other_value member presentAfter different

theorem setCount_eq {position : Nat} (here : heap.heap[position]?.map Prod.snd = some value)
    (count : Nat) :
    heap.setCount position count =
      { heap with heap := heap.heap.set position (count,value) } := by
  obtain ⟨entry,found,rfl⟩ := Option.map_eq_some_iff.mp here
  obtain ⟨inside,rfl⟩ := List.getElem?_eq_some_iff.mp found
  rw [setCount,List.modify_eq_set_getElem?,found]
  rfl

section Branches

variable {heap : TopKHeap} (ready : heap.indexReady = true) (indexed : heap.Indexed)
  {value : TopKValue}

include ready indexed

theorem bumpAt_taken {position : Nat} (found : heap.index[value]? = some position) (count : Nat) :
    (heap.bumpAt position count).Indexed ∧ (heap.bumpAt position count).k = heap.k ∧
      Taken heap (heap.bumpAt position count) value count := by
  have here := (indexed.synced ready value position).mp found
  obtain ⟨entry,atPosition,sameValue⟩ := Option.map_eq_some_iff.mp here
  obtain ⟨inside,-⟩ := List.getElem?_eq_some_iff.mp atPosition
  let bumped := { heap with heap := heap.heap.set position (count,value) }
  have sameValues : bumped.heap.map Prod.snd = heap.heap.map Prod.snd := by
    show (heap.heap.set position (count,value)).map Prod.snd = _
    rw [List.map_set]
    refine List.ext_getElem? fun other => ?_
    rw [List.getElem?_set]
    split
    · rename_i same
      subst same
      rw [if_pos (by rw [List.length_map]; exact inside),List.getElem?_map,atPosition,
        Option.map_some,sameValue]
    · rfl
  have bumpedIndexed : bumped.Indexed := by
    refine ⟨sameValues ▸ indexed.distinct,fun _ other place => ?_⟩
    rw [← List.getElem?_map,sameValues,List.getElem?_map]
    exact indexed.synced ready other place
  have bumpedReady : bumped.indexReady = true := ready
  have shuffled : Shuffled bumped (heap.bumpAt position count) := by
    unfold bumpAt
    rw [setCount_eq here]
    simp only
    split
    · exact shuffled_siftUpFor _ bumpedReady bumpedIndexed position
    · split
      · exact shuffled_siftDownFor _ bumpedReady bumpedIndexed position
      · exact shuffled_refl bumpedReady bumpedIndexed
  refine ⟨shuffled.indexed,shuffled.k,taken_of_shuffled shuffled ?_ ?_⟩
  · exact List.mem_set inside (count,value)
  · intro other member different
    exact (List.mem_or_eq_of_mem_set member).resolve_right different

theorem absent_of_notFound (notFound : heap.index[value]? = none) :
    value ∉ heap.heap.map Prod.snd := by
  intro member
  obtain ⟨position,atPosition⟩ := List.getElem?_of_mem member
  rw [List.getElem?_map] at atPosition
  have found := (indexed.synced ready value position).mpr atPosition
  rw [notFound] at found
  cases found

theorem push_taken (notFound : heap.index[value]? = none) (count : Nat) :
    (heap.push value count).Indexed ∧ (heap.push value count).k = heap.k ∧
      Taken heap (heap.push value count) value count := by
  have absent := absent_of_notFound ready indexed notFound
  let pushed : TopKHeap :=
    { heap with
      heap := heap.heap ++ [(count,value)]
      index := heap.index.insert value heap.heap.length }
  have pushedIndexed : pushed.Indexed := by
    constructor
    · show ((heap.heap ++ [(count,value)]).map Prod.snd).Nodup
      rw [List.map_append,List.nodup_append]
      refine ⟨indexed.distinct,List.nodup_singleton value,?_⟩
      intro other member last inLast same
      rw [List.map_singleton,List.mem_singleton] at inLast
      rw [same,inLast] at member
      exact absent member
    · intro _ other position
      show (heap.index.insert value heap.heap.length)[other]? = some position ↔
        (heap.heap ++ [(count,value)])[position]?.map Prod.snd = some other
      rw [KeyMap.lookup_insert,List.getElem?_append]
      by_cases inside : position < heap.heap.length
      · rw [if_pos inside,← indexed.synced ready other position]
        split
        · rename_i same
          subst same
          rw [notFound,Option.some.injEq]
          constructor
          · intro atEnd
            omega
          · intro impossible
            cases impossible
        · rfl
      · rw [if_neg inside]
        have notThere : heap.index[other]? ≠ some position := by
          intro found
          have there := (indexed.synced ready other position).mp found
          rw [List.getElem?_eq_none (by omega)] at there
          cases there
        rw [List.getElem?_singleton]
        split
        · rename_i same
          subst same
          rw [Option.some.injEq]
          constructor
          · rintro rfl
            simp
          · intro atEnd
            by_contra beyond
            rw [if_neg (by omega)] at atEnd
            cases atEnd
        · rename_i different
          constructor
          · intro found
            exact absurd found notThere
          · intro atEnd
            split at atEnd
            · exact absurd (Option.some.inj atEnd) different
            · cases atEnd
  have pushedReady : pushed.indexReady = true := ready
  have shuffled : Shuffled pushed (heap.push value count) :=
    shuffled_siftUpFor _ pushedReady pushedIndexed _
  refine ⟨shuffled.indexed,shuffled.k,taken_of_shuffled shuffled ?_ ?_⟩
  · exact List.mem_append_right _ (List.mem_singleton_self _)
  · intro other member different
    rcases List.mem_append.mp member with earlier | last
    · exact earlier
    · exact absurd (List.mem_singleton.mp last) different

theorem replaceRoot_taken (notFound : heap.index[value]? = none) {root : Nat × TopKValue}
    (isRoot : heap.heap.head? = some root) (count : Nat) :
    (heap.replaceRoot root.2 value count).Indexed ∧
      (heap.replaceRoot root.2 value count).k = heap.k ∧
      Taken heap (heap.replaceRoot root.2 value count) value count := by
  have absent := absent_of_notFound ready indexed notFound
  have atRoot : heap.heap[0]? = some root := List.head?_eq_getElem?.symm.trans isRoot
  obtain ⟨inside,rootEq⟩ := List.getElem?_eq_some_iff.mp atRoot
  let replaced : TopKHeap :=
    { heap with
      heap := heap.heap.set 0 (count,value)
      index := (heap.index.erase root.2).insert value 0 }
  have rootHere : heap.index[root.2]? = some 0 :=
    (indexed.synced ready root.2 0).mpr (by rw [atRoot]; rfl)
  have replacedIndexed : replaced.Indexed := by
    constructor
    · show ((heap.heap.set 0 (count,value)).map Prod.snd).Nodup
      rw [List.map_set]
      exact List.Nodup.set indexed.distinct absent
    · intro _ other position
      show ((heap.index.erase root.2).insert value 0)[other]? = some position ↔
        (heap.heap.set 0 (count,value))[position]?.map Prod.snd = some other
      rw [KeyMap.lookup_insert,KeyMap.lookup_erase,List.getElem?_set]
      by_cases atStart : 0 = position
      · subst atStart
        simp only [inside,if_true,Option.map_some,Option.some.injEq]
        constructor
        · intro found
          split at found
          · assumption
          · split at found
            · cases found
            · rename_i notRoot
              have there := (indexed.synced ready other 0).mp found
              rw [atRoot,Option.map_some,Option.some.injEq] at there
              exact absurd there notRoot
        · rintro rfl
          rw [if_pos rfl]
      · rw [if_neg atStart,← indexed.synced ready other position]
        constructor
        · intro found
          split at found
          · exact absurd (Option.some.inj found) atStart
          · split at found
            · cases found
            · exact found
        · intro found
          rw [if_neg,if_neg]
          · exact found
          · rintro rfl
            rw [rootHere] at found
            exact atStart (Option.some.inj found)
          · rintro rfl
            rw [notFound] at found
            cases found
  have replacedReady : replaced.indexReady = true := ready
  have shuffled : Shuffled replaced (heap.replaceRoot root.2 value count) :=
    shuffled_siftDownFor _ replacedReady replacedIndexed _
  refine ⟨shuffled.indexed,shuffled.k,taken_of_shuffled shuffled ?_ ?_⟩
  · exact List.mem_set inside (count,value)
  · intro other member different
    exact (List.mem_or_eq_of_mem_set member).resolve_right different

end Branches

/-- What an insertion does: it takes the value with the count, or it drops the
value because the heap is full of counts that are not smaller. -/
theorem insertOrBump_cases (indexed : heap.Indexed) (kPos : 0 < heap.k) (value : TopKValue)
    (count : Nat) :
    (heap.insertOrBump value count).Indexed ∧ (heap.insertOrBump value count).k = heap.k ∧
      (Taken heap (heap.insertOrBump value count) value count ∨
        Dropped heap (heap.insertOrBump value count) value count) := by
  have ready := ensureIndex_ready heap
  have indexedHere := indexed_ensureIndex indexed
  have sameHeap := ensureIndex_heap heap
  have sameK := ensureIndex_k heap
  have fromHere : ∀ {after : TopKHeap}, Taken heap.ensureIndex after value count →
      Taken heap after value count := by
    intro after taken
    refine ⟨taken.present,fun entry member different => ?_⟩
    rw [← sameHeap]
    exact taken.others entry member different
  unfold insertOrBump
  simp only
  cases found : heap.ensureIndex.index[value]? with
  | some position =>
      obtain ⟨indexedAfter,kAfter,taken⟩ := bumpAt_taken ready indexedHere found count
      exact ⟨indexedAfter,kAfter.trans sameK,.inl (fromHere taken)⟩
  | none =>
      simp only
      split
      · obtain ⟨indexedAfter,kAfter,taken⟩ := push_taken ready indexedHere found count
        exact ⟨indexedAfter,kAfter.trans sameK,.inl (fromHere taken)⟩
      · rename_i full
        cases isRoot : heap.ensureIndex.heap.head? with
        | none =>
            rw [List.head?_eq_none_iff] at isRoot
            rw [isRoot,sameK] at full
            exact absurd kPos full
        | some root =>
            simp only
            split
            · obtain ⟨indexedAfter,kAfter,taken⟩ :=
                replaceRoot_taken ready indexedHere found isRoot count
              exact ⟨indexedAfter,kAfter.trans sameK,.inl (fromHere taken)⟩
            · rename_i notAbove
              have absent := absent_of_notFound ready indexedHere found
              rw [sameHeap] at absent
              have member := List.mem_of_mem_head? isRoot
              rw [sameHeap] at member
              exact ⟨indexedHere,sameK,.inr ⟨absent,⟨root,member,by omega⟩,sameHeap⟩⟩

end TopKHeap

end Beava.Sketch
