/-
What a top-k state reports.

The root of the heap has the least count, and it only grows: an insertion raises a
count, or replaces the root by a larger entry.  A value that was offered and is not in
the heap was below the root when it was dropped or evicted, so that no value above the
least reported count is missing.
-/

import Beava.Sketch.HeapOrder
import Beava.Sketch.TopK
import Mathlib.Data.List.Dedup

namespace Beava.Sketch

open Beava.Core

variable {shape : Shape} {hash64 : TopKValue → UInt64}
variable {cms : CountMinSketch shape} {heap : TopKHeap} {stream : List TopKValue}
variable {counts : Std.ExtTreeMap TopKValue Nat}
variable {larger : CountMinSketch shape}

/-- No count is too small, and an offered value outside of the heap is not above any entry. -/
structure Covers (times : TopKValue → Nat) (offered : TopKValue → Prop) (heap : TopKHeap) :
    Prop where
  indexed : heap.Indexed
  ordered : heap.Ordered
  kPos : 0 < heap.k
  atMost : heap.heap.length ≤ heap.k
  atLeast : ∀ entry ∈ heap.heap, times entry.2 ≤ entry.1
  full : ∀ value, offered value → value ∉ heap.heap.map Prod.snd → heap.k ≤ heap.heap.length
  outside : ∀ value, offered value → value ∉ heap.heap.map Prod.snd →
    ∀ entry ∈ heap.heap, times value ≤ entry.1

theorem covers_new (times : TopKValue → Nat) (k : Nat) :
    Covers times (fun _ => False) (TopKHeap.new k) where
  indexed := TopKHeap.indexed_new k
  ordered := TopKHeap.ordered_new k
  kPos := Nat.le_max_right k 1
  atMost := Nat.zero_le _
  atLeast := by
    intro entry member
    cases member
  full := by
    intro value offered
    exact offered.elim
  outside := by
    intro value offered
    exact offered.elim

section Insertion

variable {times after : TopKValue → Nat} {offered : TopKValue → Prop} {heap : TopKHeap}
  {value : TopKValue} {count : Nat}

/-- Entries of the heap and one for `value` are not too small. -/
theorem Covers.atLeast_cons (covers : Covers times offered heap)
    (others : ∀ other, other ≠ value → after other = times other) (enough : after value ≤ count)
    {rest : List (Nat × TopKValue)} (older : ∀ entry ∈ rest, entry ∈ heap.heap)
    (absent : value ∉ rest.map Prod.snd) {entry : Nat × TopKValue}
    (member : entry ∈ (count,value) :: rest) : after entry.2 ≤ entry.1 := by
  rcases List.mem_cons.mp member with rfl | isOld
  · exact enough
  · rw [others entry.2 fun same => absent (same ▸ List.mem_map_of_mem isOld)]
    exact covers.atLeast entry (older entry isOld)

section Cases

variable (covers : Covers times offered heap)
  (others : ∀ other, other ≠ value → after other = times other) (enough : after value ≤ count)
  {result : TopKHeap} (indexed : result.Indexed) (ordered : result.Ordered)
  (sameK : result.k = heap.k) {rest : List (Nat × TopKValue)}

include covers others enough indexed ordered sameK

theorem Covers.bumped {old : Nat} (raised : old ≤ count)
    (start : heap.heap.Perm ((old,value) :: rest))
    (final : result.heap.Perm ((count,value) :: rest)) :
    Covers after (fun other => offered other ∨ other = value) result := by
  have length : result.heap.length = heap.heap.length :=
    final.length_eq.trans start.length_eq.symm
  have isEntry : ∀ entry ∈ rest, entry ∈ heap.heap := fun entry member =>
    start.mem_iff.mpr (List.mem_cons_of_mem _ member)
  have distinct : value ∉ rest.map Prod.snd := by
    have nodup := (final.map Prod.snd).nodup_iff.mp indexed.distinct
    exact (List.nodup_cons.mp nodup).1
  have values : ∀ other, other ∉ result.heap.map Prod.snd → other ≠ value ∧
      other ∉ heap.heap.map Prod.snd := by
    intro other absent
    rw [(final.map Prod.snd).mem_iff,List.map_cons,List.mem_cons,not_or] at absent
    rw [(start.map Prod.snd).mem_iff,List.map_cons,List.mem_cons,not_or]
    exact ⟨absent.1,absent⟩
  refine ⟨indexed,ordered,sameK ▸ covers.kPos,by rw [length,sameK]; exact covers.atMost,?_,?_,?_⟩
  · intro entry member
    exact covers.atLeast_cons others enough isEntry distinct (final.mem_iff.mp member)
  · intro other isOffered absent
    obtain ⟨different,before⟩ := values other absent
    rw [length,sameK]
    exact covers.full other (isOffered.resolve_right different) before
  · intro other isOffered absent entry member
    obtain ⟨different,before⟩ := values other absent
    have below := covers.outside other (isOffered.resolve_right different) before
    rw [others other different]
    rcases List.mem_cons.mp (final.mem_iff.mp member) with rfl | isOld
    · exact (below (old,value) (start.mem_iff.mpr List.mem_cons_self)).trans raised
    · exact below entry (isEntry entry isOld)

theorem Covers.pushed (isNew : value ∉ heap.heap.map Prod.snd)
    (room : heap.heap.length < heap.k) (final : result.heap.Perm ((count,value) :: heap.heap)) :
    Covers after (fun other => offered other ∨ other = value) result := by
  have length : result.heap.length = heap.heap.length + 1 := final.length_eq
  have noneAbsent : ∀ other, offered other ∨ other = value →
      other ∈ result.heap.map Prod.snd := by
    intro other isOffered
    rw [(final.map Prod.snd).mem_iff,List.map_cons,List.mem_cons]
    rcases isOffered with earlier | same
    · right
      by_contra absent
      exact absurd (covers.full other earlier absent) (Nat.not_le.mpr room)
    · exact .inl same
  refine ⟨indexed,ordered,sameK ▸ covers.kPos,by rw [length,sameK]; exact room,?_,?_,?_⟩
  · intro entry member
    exact covers.atLeast_cons others enough (fun _ inHeap => inHeap) isNew (final.mem_iff.mp member)
  · intro other isOffered absent
    exact absurd (noneAbsent other isOffered) absent
  · intro other isOffered absent
    exact absurd (noneAbsent other isOffered) absent

theorem Covers.replaced {root : Nat × TopKValue} (isNew : value ∉ heap.heap.map Prod.snd)
    (isFull : heap.k ≤ heap.heap.length) (least : ∀ entry ∈ heap.heap, root.1 ≤ entry.1)
    (above : root.1 < count) (start : heap.heap.Perm (root :: rest))
    (final : result.heap.Perm ((count,value) :: rest)) :
    Covers after (fun other => offered other ∨ other = value) result := by
  have length : result.heap.length = heap.heap.length :=
    final.length_eq.trans start.length_eq.symm
  have isRoot : root ∈ heap.heap := start.mem_iff.mpr List.mem_cons_self
  have isEntry : ∀ entry ∈ rest, entry ∈ heap.heap := fun entry member =>
    start.mem_iff.mpr (List.mem_cons_of_mem _ member)
  have notKept : value ∉ rest.map Prod.snd := fun inRest =>
    isNew ((start.map Prod.snd).mem_iff.mpr (List.mem_cons_of_mem _ inRest))
  have belowRoot : ∀ other, offered other ∨ other = value →
      other ∉ result.heap.map Prod.snd → after other ≤ root.1 := by
    intro other isOffered absent
    rw [(final.map Prod.snd).mem_iff,List.map_cons,List.mem_cons,not_or] at absent
    rw [others other absent.1]
    by_cases isEvicted : other = root.2
    · rw [isEvicted]
      exact covers.atLeast root isRoot
    · refine covers.outside other (isOffered.resolve_right absent.1) ?_ root isRoot
      rw [(start.map Prod.snd).mem_iff,List.map_cons,List.mem_cons,not_or]
      exact ⟨isEvicted,absent.2⟩
  refine ⟨indexed,ordered,sameK ▸ covers.kPos,by rw [length,sameK]; exact covers.atMost,?_,?_,?_⟩
  · intro entry member
    exact covers.atLeast_cons others enough isEntry notKept (final.mem_iff.mp member)
  · intro other _ _
    rw [length,sameK]
    exact isFull
  · intro other isOffered absent entry member
    refine (belowRoot other isOffered absent).trans ?_
    rcases List.mem_cons.mp (final.mem_iff.mp member) with rfl | isOld
    · exact above.le
    · exact least entry (isEntry entry isOld)

theorem Covers.dropped (isNew : value ∉ heap.heap.map Prod.snd)
    (isFull : heap.k ≤ heap.heap.length) (least : ∀ entry ∈ heap.heap, count ≤ entry.1)
    (unchanged : result.heap = heap.heap) :
    Covers after (fun other => offered other ∨ other = value) result := by
  refine ⟨indexed,ordered,sameK ▸ covers.kPos,by rw [unchanged,sameK]; exact covers.atMost,
    ?_,?_,?_⟩ <;> rw [unchanged]
  · intro entry member
    rw [others entry.2 fun same => isNew (same ▸ List.mem_map_of_mem member)]
    exact covers.atLeast entry member
  · intro other _ _
    rw [sameK]
    exact isFull
  · intro other isOffered absent entry member
    by_cases same : other = value
    · rw [same]
      exact enough.trans (least entry member)
    · rw [others other same]
      exact covers.outside other (isOffered.resolve_right same) absent entry member

end Cases

theorem Covers.insertOrBump (covers : Covers times offered heap)
    (others : ∀ other, other ≠ value → after other = times other) (enough : after value ≤ count)
    (grown : ∀ old, (old,value) ∈ heap.heap → old ≤ count) :
    Covers after (fun other => offered other ∨ other = value) (heap.insertOrBump value count) := by
  obtain ⟨indexed,sameK,-⟩ := heap.insertOrBump_cases covers.indexed covers.kPos value count
  obtain ⟨ordered,inserted⟩ :=
    TopKHeap.insertOrBump_inserted covers.indexed covers.ordered covers.kPos value count
  cases inserted with
  | bumped old rest start final =>
      exact covers.bumped others enough indexed ordered sameK
        (grown old (start.mem_iff.mpr List.mem_cons_self)) start final
  | pushed isNew room final =>
      exact covers.pushed others enough indexed ordered sameK isNew room final
  | replaced root rest isNew isFull least above start final =>
      exact covers.replaced others enough indexed ordered sameK isNew isFull least above start final
  | dropped isNew isFull least unchanged =>
      exact covers.dropped others enough indexed ordered sameK isNew isFull least unchanged

end Insertion

/-- No entry is above what the table estimates for its value. -/
def Estimated (hash64 : TopKValue → UInt64) (cms : CountMinSketch shape) (heap : TopKHeap) :
    Prop :=
  ∀ entry ∈ heap.heap, entry.1 ≤ reportedEstimate cms (hash64 entry.2)

theorem reportedEstimate_mono {hashes more : List UInt64} (tallies : cms.Tallies hashes)
    (tallied : larger.Tallies more) (sublist : hashes.Sublist more)
    (bounded : (more.length : Int) < i64Max) (hash : UInt64) :
    reportedEstimate cms hash ≤ reportedEstimate larger hash := by
  apply le_reportedEstimate
  apply tallied.le_estimate bounded
  intro row inTable
  refine (reportedEstimate_le (tallies.estimate_le hash inTable)).trans ?_
  exact sublist.countP_le

theorem Estimated.mono (estimated : Estimated hash64 cms heap)
    (grows : ∀ hash, reportedEstimate cms hash ≤ reportedEstimate larger hash) :
    Estimated hash64 larger heap := by
  intro entry member
  exact (estimated entry member).trans (grows (hash64 entry.2))

theorem Estimated.insertOrBump (estimated : Estimated hash64 cms heap) (indexed : heap.Indexed)
    (kPos : 0 < heap.k) (value : TopKValue) :
    Estimated hash64 cms (heap.insertOrBump value (reportedEstimate cms (hash64 value))) := by
  intro entry member
  obtain ⟨-,-,taken | dropped⟩ :=
    heap.insertOrBump_cases indexed kPos value (reportedEstimate cms (hash64 value))
  · by_cases isNew : entry = (reportedEstimate cms (hash64 value),value)
    · rw [isNew]
    · exact estimated entry (taken.others entry member isNew).1
  · rw [dropped.unchanged] at member
    exact estimated entry member

theorem Covers.offerAll {times : TopKValue → Nat}
    (enough : ∀ value, times value ≤ reportedEstimate cms (hash64 value))
    {offered : TopKValue → Prop} (covers : Covers times offered heap)
    (estimated : Estimated hash64 cms heap) (entries : List (TopKValue × Nat)) :
    let seeded := entries.foldl
      (fun heap entry => heap.insertOrBump entry.1 (reportedEstimate cms (hash64 entry.1))) heap
    Covers times (fun value => offered value ∨ value ∈ entries.map Prod.fst) seeded ∧
      Estimated hash64 cms seeded ∧ seeded.k = heap.k := by
  induction entries generalizing heap offered with
  | nil =>
      simp only [List.map_nil,List.not_mem_nil,or_false]
      exact ⟨covers,estimated,rfl⟩
  | cons entry rest ih =>
      have step := covers.insertOrBump (fun _ _ => rfl) (enough entry.1)
        fun old member => estimated (old,entry.1) member
      have kept := estimated.insertOrBump covers.indexed covers.kPos entry.1
      obtain ⟨coversAll,estimatedAll,sameK⟩ := ih step kept
      refine ⟨?_,estimatedAll,sameK.trans ?_⟩
      · simp only [List.map_cons,List.mem_cons]
        simp only [or_assoc] at coversAll
        exact coversAll
      · exact (heap.insertOrBump_cases covers.indexed covers.kPos entry.1 _).2.1

/-- What a state of the process reports beyond its counts. -/
def Heavy (hash64 : TopKValue → UInt64) (history : History) (k : Nat) : TopKState shape → Prop
  | .exact _ own _ => own = k
  | .hybrid cms heap _ =>
      Covers history.count (· ∈ history.map Prod.fst) heap ∧ Estimated hash64 cms heap ∧ heap.k = k

section Process

variable {history : History} {k : Nat}

theorem heavy_promote {counts : Std.ExtTreeMap TopKValue Nat} (holds : Counts history counts)
    (bounded : (history.length : Int) < i64Max) (hashed : HashedBy hash64 history)
    (kPos : 0 < k) :
    Heavy hash64 history k (TopKState.promote hash64 counts k : TopKState shape) := by
  have promoted : Represents history (TopKState.promote hash64 counts k : TopKState shape) :=
    (promote_spec holds bounded hashed k).1
  have tallies := promoted.1
  have enough : ∀ value, history.count value ≤
      reportedEstimate (TopKState.countedTable hash64 counts.toList : CountMinSketch shape)
        (hash64 value) := by
    intro value
    exact count_le_reported tallies bounded (hashed.sameCells value)
  have none : Estimated hash64
      (TopKState.countedTable hash64 counts.toList : CountMinSketch shape) (TopKHeap.new k) := by
    intro entry member
    cases member
  obtain ⟨covers,estimated,sameK⟩ :=
    (covers_new history.count k).offerAll enough none counts.toList
  refine ⟨?_,estimated,sameK.trans (Nat.max_eq_left kPos)⟩
  have offered : ∀ value, value ∈ counts.toList.map Prod.fst ↔ value ∈ history.map Prod.fst := by
    intro value
    rw [Std.ExtTreeMap.map_fst_toList_eq_keys,Std.ExtTreeMap.mem_keys,holds.keys]
  simp only [false_or,offered] at covers
  exact covers

theorem heavy_insert {state : TopKState shape} (represents : Represents history state)
    (hashed : HashedBy hash64 history) (bounded : ((history.length + 1 : Nat) : Int) < i64Max)
    (kPos : 0 < k) (heavy : Heavy hash64 history k state) (value : TopKValue) :
    Heavy hash64 ((value,hash64 value) :: history) k (state.insert hash64 value) := by
  have hashedHere := hashed.record [value]
  cases state with
  | exact counts own threshold =>
      have sameK : own = k := heavy
      subst sameK
      unfold TopKState.insert
      dsimp only
      split
      · exact heavy_promote (represents.1.insert bounded.le value (hash64 value)) bounded
          hashedHere kPos
      · rfl
  | hybrid cms heap own =>
      obtain ⟨covers,estimated,sameK⟩ := heavy
      have counted := tallies_insert represents.1 bounded.le value (hash64 value)
      have grows := reportedEstimate_mono represents.1 counted
        (List.sublist_cons_self _ _) (by rwa [List.length_map])
      have raised := estimated.mono grows
      refine ⟨?_,raised.insertOrBump covers.indexed covers.kPos value,?_⟩
      · have step := covers.insertOrBump (fun other different => count_cons_of_ne different _)
          (count_le_reported counted bounded (hashedHere.sameCells value))
          fun old member => raised (old,value) member
        have offered : ∀ other, (other ∈ history.map Prod.fst ∨ other = value) ↔
            other ∈ ((value,hash64 value) :: history).map Prod.fst := by
          intro other
          rw [List.map_cons,List.mem_cons,or_comm]
        simp only [offered] at step
        exact step
      · exact (heap.insertOrBump_cases covers.indexed covers.kPos value _).2.1.trans sameK

theorem heavy_insertAll {state : TopKState shape} (represents : Represents history state)
    (guarantees : Guarantees history state) (hashed : HashedBy hash64 history) (kPos : 0 < k)
    (heavy : Heavy hash64 history k state) {stream : List TopKValue}
    (bounded : ((history.length + stream.length : Nat) : Int) < i64Max) :
    Heavy hash64 (record hash64 history stream) k (state.insertAll hash64 stream) := by
  induction stream generalizing history state with
  | nil => exact heavy
  | cons value rest ih =>
      rw [List.length_cons] at bounded
      have boundedHere : ((history.length + 1 : Nat) : Int) < i64Max := by
        push_cast at bounded ⊢
        omega
      obtain ⟨representsHere,guaranteesHere⟩ :=
        insert_spec represents guarantees hashed boundedHere value
      apply ih representsHere guaranteesHere (hashed.record [value])
        (heavy_insert represents hashed boundedHere kPos heavy value)
      rw [List.length_cons]
      push_cast at bounded ⊢
      omega

end Process

/-! ### Exact counts -/

/-- The distinct values with their counts, the most frequent first and equally frequent
ones by value. -/
def mostFrequent (k : Nat) (stream : List TopKValue) : List (TopKValue × Nat) :=
  ((stream.dedup.map fun value => (value,stream.count value)).mergeSort
    TopKHeap.reportOrder).take k

theorem reportOrder_iff (first second : TopKValue × Nat) :
    TopKHeap.reportOrder first second = true ↔
      second.2 < first.2 ∨ first.2 = second.2 ∧ (compare first.1 second.1).isLE := by
  rw [TopKHeap.reportOrder,Bool.or_eq_true,Bool.and_eq_true,decide_eq_true_iff,
    decide_eq_true_iff]

theorem reportOrder_trans (first second third : TopKValue × Nat)
    (earlier : TopKHeap.reportOrder first second = true)
    (later : TopKHeap.reportOrder second third = true) :
    TopKHeap.reportOrder first third = true := by
  rw [reportOrder_iff] at earlier later ⊢
  rcases earlier with above | ⟨same,earlierValue⟩
  · left
    rcases later with aboveAgain | ⟨sameAgain,-⟩ <;> omega
  · rcases later with above | ⟨sameAgain,laterValue⟩
    · left
      omega
    · exact .inr ⟨same.trans sameAgain,Std.TransCmp.isLE_trans earlierValue laterValue⟩

theorem reportOrder_total (first second : TopKValue × Nat) :
    (TopKHeap.reportOrder first second || TopKHeap.reportOrder second first) = true := by
  rw [Bool.or_eq_true,reportOrder_iff,reportOrder_iff]
  rcases Nat.lt_trichotomy first.2 second.2 with below | same | above
  · exact .inr (.inl below)
  · have comparable : (compare first.1 second.1).isLE ∨ (compare second.1 first.1).isLE := by
      have swapped : compare second.1 first.1 = (compare first.1 second.1).swap :=
        Std.OrientedCmp.eq_swap
      rw [swapped]
      cases compare first.1 second.1
      · exact .inl rfl
      · exact .inl rfl
      · exact .inr rfl
    rcases comparable with firstLe | secondLe
    · exact .inl (.inr ⟨same,firstLe⟩)
    · exact .inr (.inr ⟨same.symm,secondLe⟩)
  · exact .inl (.inl above)

theorem reportOrder_antisymm {first second : TopKValue × Nat}
    (one : TopKHeap.reportOrder first second = true)
    (other : TopKHeap.reportOrder second first = true) : first = second := by
  rw [reportOrder_iff] at one other
  have sameCount : first.2 = second.2 := by
    rcases one with above | ⟨same,-⟩
    · rcases other with below | ⟨same,-⟩ <;> omega
    · exact same
  have firstLe := (one.resolve_left (by omega)).2
  have secondLe := (other.resolve_left (by omega)).2
  have sameValue := Std.LawfulEqCmp.eq_of_compare (Std.OrientedCmp.isLE_antisymm firstLe secondLe)
  exact Prod.ext sameValue sameCount

theorem reportSorted_eq {entries others : List (TopKValue × Nat)} (same : entries.Perm others) :
    entries.mergeSort TopKHeap.reportOrder = others.mergeSort TopKHeap.reportOrder := by
  have perm : (entries.mergeSort TopKHeap.reportOrder).Perm
      (others.mergeSort TopKHeap.reportOrder) :=
    (List.mergeSort_perm entries _).trans (same.trans (List.mergeSort_perm others _).symm)
  apply perm.eq_of_pairwise
  · intro first second _ _ one other
    exact reportOrder_antisymm one other
  · exact List.pairwise_mergeSort reportOrder_trans reportOrder_total entries
  · exact List.pairwise_mergeSort reportOrder_trans reportOrder_total others

theorem nodup_toList (counts : Std.ExtTreeMap TopKValue Nat) : counts.toList.Nodup :=
  List.Nodup.of_map Prod.fst (nodup_keys counts)

theorem mem_toList_iff (holds : Counts (record hash64 [] stream) counts) (entry : TopKValue × Nat) :
    entry ∈ counts.toList ↔ entry.1 ∈ stream ∧ entry.2 = stream.count entry.1 := by
  have count : counts.getD entry.1 0 = stream.count entry.1 := by
    rw [holds.count,record_count]
    rfl
  have present : entry.1 ∈ counts ↔ entry.1 ∈ stream := by
    rw [holds.keys,← List.count_pos_iff,← List.count_pos_iff]
    have counted := record_count hash64 [] stream entry.1
    rw [History.count] at counted
    rw [counted]
    rfl
  rw [← present,← count,Std.ExtTreeMap.getD_eq_getD_getElem?]
  rw [show entry = (entry.1,entry.2) from rfl,Std.ExtTreeMap.mem_toList_iff_getElem?_eq_some]
  cases found : counts[entry.1]? with
  | none =>
      have absent := KeyMap.notMem_of_lookup found
      constructor
      · intro impossible
        cases impossible
      · intro both
        exact absurd both.1 absent
  | some held =>
      have inside : entry.1 ∈ counts := KeyMap.mem_of_lookup found
      rw [Option.some.injEq,Option.getD_some]
      constructor
      · intro same
        exact ⟨inside,same.symm⟩
      · intro both
        exact both.2.symm

theorem exact_top (holds : Counts (record hash64 [] stream) counts) (k threshold : Nat) :
    (.exact counts k threshold : TopKState shape).top = mostFrequent k stream := by
  have perm : counts.toList.Perm (stream.dedup.map fun value => (value,stream.count value)) := by
    apply (List.perm_ext_iff_of_nodup (nodup_toList counts) ?_).mpr
    · intro entry
      rw [mem_toList_iff holds,List.mem_map]
      constructor
      · intro both
        exact ⟨entry.1,List.mem_dedup.mpr both.1,Prod.ext rfl both.2.symm⟩
      · intro listed
        obtain ⟨value,member,rfl⟩ := listed
        exact ⟨List.mem_dedup.mp member,rfl⟩
    · exact (List.nodup_dedup stream).map fun first second same => congrArg Prod.fst same
  rw [TopKState.top,mostFrequent,reportSorted_eq perm]

theorem mostFrequent_complete {k : Nat} {entry : TopKValue × Nat}
    (reported : entry ∈ mostFrequent k stream) {value : TopKValue}
    (above : entry.2 < stream.count value) : value ∈ (mostFrequent k stream).map Prod.fst := by
  have sorted := List.pairwise_mergeSort reportOrder_trans reportOrder_total
    (stream.dedup.map fun value => (value,stream.count value))
  have listed : (value,stream.count value) ∈
      (stream.dedup.map fun value => (value,stream.count value)).mergeSort
        TopKHeap.reportOrder := by
    rw [List.mem_mergeSort]
    have occurs : value ∈ stream := List.count_pos_iff.mp (by omega)
    exact List.mem_map_of_mem (f := fun value => (value,stream.count value))
      (List.mem_dedup.mpr occurs)
  unfold mostFrequent at reported ⊢
  rw [← List.take_append_drop k (List.mergeSort _ _)] at sorted listed
  rcases List.mem_append.mp listed with inside | dropped
  · exact List.mem_map_of_mem inside
  · have order := (List.pairwise_append.mp sorted).2.2 entry reported _ dropped
    rw [reportOrder_iff] at order
    rcases order with below | ⟨same,-⟩
    · exact absurd above (by omega)
    · exact absurd above (by omega)

section Merge

variable {history theirs : History} {cms other : CountMinSketch shape}
variable {heap : TopKHeap}

theorem cell_merge (cms other : CountMinSketch shape) {row col : Nat} (inTable : row < shape.depth)
    (inRow : col < shape.width) :
    (cms.merge other).cell row col =
      max (saturatingAdd (cms.cell row col) (other.cell row col)) 0 := by
  have inOwn := cms.place_lt inTable inRow
  have inOther := other.place_lt inTable inRow
  simp only [CountMinSketch.cell,CountMinSketch.merge,List.getD_eq_getElem?_getD,
    List.getElem?_zipWith,List.getElem?_eq_getElem inOwn,List.getElem?_eq_getElem inOther,
    Option.getD_some]

theorem tallies_merge {hashes others : List UInt64} (tallies : cms.Tallies hashes)
    (tallied : other.Tallies others)
    (bounded : ((hashes.length + others.length : Nat) : Int) ≤ i64Max) :
    (cms.merge other).Tallies (hashes ++ others) := by
  intro row inTable col inRow
  rw [cell_merge cms other inTable inRow,tallies row inTable col inRow,
    tallied row inTable col inRow,List.countP_append]
  have own : hashes.countP (fun hash => shape.col hash row = col) ≤ hashes.length :=
    List.countP_le_length
  have their : others.countP (fun hash => shape.col hash row = col) ≤ others.length :=
    List.countP_le_length
  push_cast at bounded ⊢
  rw [CountMinSketch.saturatingAdd_of_bounds (by omega) (by omega)]
  exact max_eq_left (by omega)

theorem refreshed_spec (tallies : cms.Tallies (history.map Prod.snd))
    (bounded : (history.length : Int) < i64Max) (hashed : HashedBy hash64 history)
    (values : List TopKValue) (bounds : Bounds history heap)
    (pending : ∀ entry ∈ heap.heap, history.count entry.2 ≤ entry.1 ∨ entry.2 ∈ values) :
    Bounds history (TopKState.refreshed hash64 cms heap values) ∧
      AtLeast history (TopKState.refreshed hash64 cms heap values) := by
  induction values generalizing heap with
  | nil =>
      refine ⟨bounds,?_⟩
      intro entry member
      exact (pending entry member).resolve_right List.not_mem_nil
  | cons value rest ih =>
      have lower : history.count value ≤ reportedEstimate cms (hash64 value) :=
        count_le_reported tallies bounded (hashed.sameCells value)
      have upper : reportedEstimate cms (hash64 value) ≤ history.length :=
        reported_le_length tallies
      obtain ⟨indexed,sameK,taken | dropped⟩ := heap.insertOrBump_cases bounds.indexed
        bounds.kPos value (reportedEstimate cms (hash64 value))
      · apply ih
        · refine ⟨indexed,sameK ▸ bounds.kPos,?_⟩
          intro entry member
          by_cases isNew : entry = (reportedEstimate cms (hash64 value),value)
          · rw [isNew]
            exact upper
          · exact bounds.atMost entry (taken.others entry member isNew).1
        · intro entry member
          by_cases isNew : entry = (reportedEstimate cms (hash64 value),value)
          · rw [isNew]
            exact .inl lower
          · obtain ⟨before,different⟩ := taken.others entry member isNew
            rcases pending entry before with enough | listed
            · exact .inl enough
            · exact .inr ((List.mem_cons.mp listed).resolve_left different)
      · apply ih
        · refine ⟨indexed,sameK ▸ bounds.kPos,?_⟩
          intro entry member
          exact bounds.atMost entry (dropped.unchanged ▸ member)
        · intro entry member
          rw [dropped.unchanged] at member
          rcases pending entry member with enough | listed
          · exact .inl enough
          · rcases List.mem_cons.mp listed with same | later
            · exact absurd (same ▸ List.mem_map_of_mem member) dropped.absent
            · exact .inr later

theorem refreshed_both (tallies : cms.Tallies (history.map Prod.snd))
    (bounded : (history.length : Int) < i64Max) (hashed : HashedBy hash64 history)
    (bounds : Bounds history heap) (values : List TopKValue) (k : Nat) :
    let own := TopKState.refreshed hash64 cms heap (heap.top.map Prod.fst)
    let state := TopKState.hybrid cms (TopKState.refreshed hash64 cms own values) k
    Represents history state ∧ Guarantees history state := by
  have pending : ∀ entry ∈ heap.heap,
      history.count entry.2 ≤ entry.1 ∨ entry.2 ∈ heap.top.map Prod.fst := by
    intro entry member
    right
    rw [TopKHeap.top,List.mem_map]
    exact ⟨(entry.2,entry.1),List.mem_mergeSort.mpr (List.mem_map.mpr ⟨entry,member,rfl⟩),rfl⟩
  obtain ⟨ownBounds,ownAtLeast⟩ := refreshed_spec tallies bounded hashed _ bounds pending
  obtain ⟨allBounds,allAtLeast⟩ := refreshed_spec tallies bounded hashed values ownBounds
    fun entry member => .inl (ownAtLeast entry member)
  exact ⟨⟨tallies,allBounds⟩,guarantees_hybrid_iff.mpr allAtLeast⟩

theorem Bounds.append {heap : TopKHeap} (bounds : Bounds history heap) (theirs : History) :
    Bounds (history ++ theirs) heap := by
  refine ⟨bounds.indexed,bounds.kPos,?_⟩
  intro entry member
  rw [List.length_append]
  exact (bounds.atMost entry member).trans (Nat.le_add_right _ _)

theorem HashedBy.append (hashed : HashedBy hash64 history) (others : HashedBy hash64 theirs) :
    HashedBy hash64 (history ++ theirs) := by
  intro entry member
  rcases List.mem_append.mp member with own | their
  · exact hashed entry own
  · exact others entry their

theorem counts_iff_tallies {counts : Std.ExtTreeMap TopKValue Nat}
    (bounded : (history.length : Int) < i64Max) :
    Counts history counts ↔ Tally.Tallies (2 ^ 64) (history.map Prod.fst) counts := by
  have small : ∀ value, (history.map Prod.fst).count value % 2 ^ 64 = history.count value := by
    intro value
    have atMost := history_count_le history value
    unfold i64Max at bounded
    exact Nat.mod_eq_of_lt (by unfold History.count at *; omega)
  constructor
  · intro holds value
    have count := holds.count value
    rw [small,← count,Std.ExtTreeMap.getD_eq_getD_getElem?]
    cases found : counts[value]? with
    | none =>
        have absent := KeyMap.notMem_of_lookup found
        rw [holds.keys] at absent
        rw [if_neg absent]
    | some held =>
        have present := KeyMap.mem_of_lookup found
        rw [holds.keys] at present
        rw [if_pos present,Option.getD_some]
  · intro tallies
    constructor
    · intro value
      rw [Std.ExtTreeMap.getD_eq_getD_getElem?,tallies value,small]
      by_cases present : value ∈ history.map Prod.fst
      · rw [if_pos present,Option.getD_some]
      · rw [if_neg present,History.count,List.count_eq_zero_of_not_mem present]
        rfl
    · intro value
      exact tallies.contains_iff value

theorem merge_hybrid_spec {k : Nat} {state : TopKState shape}
    (represents : Represents history (.hybrid cms heap k))
    (representsOther : Represents theirs state) (hashed : HashedBy hash64 history)
    (hashedOther : HashedBy hash64 theirs)
    (bounded : ((history.length + theirs.length : Nat) : Int) < i64Max) :
    Represents (history ++ theirs) (TopKState.mergeHybrid hash64 cms heap k state) ∧
      Guarantees (history ++ theirs) (TopKState.mergeHybrid hash64 cms heap k state) := by
  have boundedBoth : ((history ++ theirs).length : Int) < i64Max := by
    rwa [List.length_append]
  have bounds := represents.2.append theirs
  cases state with
  | exact counts _ _ =>
      have length : (spread counts.toList).length = theirs.length := by
        rw [representsOther.1.spread_perm.length_eq,List.length_map]
      have atMost : (((spread counts.toList).length + (history.map Prod.snd).length : Nat) : Int) ≤
          i64Max := by
        rw [length,List.length_map,Nat.add_comm]
        exact bounded.le
      have counted := tallies_countedTable hash64 represents.1 atMost
      refine refreshed_both (counted.perm ?_) boundedBoth (hashed.append hashedOther) bounds _ k
      rw [List.map_append,← hashedOther.hashes]
      exact List.perm_append_comm.trans
        ((representsOther.1.spread_perm.map hash64).append_left (history.map Prod.snd))
  | hybrid otherCms otherHeap _ =>
      have counted := tallies_merge represents.1 representsOther.1
        (by rw [List.length_map,List.length_map]; exact bounded.le)
      rw [← List.map_append] at counted
      exact refreshed_both counted boundedBoth (hashed.append hashedOther) bounds _ k

theorem merge_spec {state otherState : TopKState shape} (represents : Represents history state)
    (representsOther : Represents theirs otherState) (hashed : HashedBy hash64 history)
    (hashedOther : HashedBy hash64 theirs)
    (bounded : ((history.length + theirs.length : Nat) : Int) < i64Max) :
    Represents (history ++ theirs) (state.merge hash64 otherState) ∧
      Guarantees (history ++ theirs) (state.merge hash64 otherState) := by
  have boundedOwn : (history.length : Int) < i64Max := by
    push_cast at bounded
    omega
  have boundedOther : (theirs.length : Int) < i64Max := by
    push_cast at bounded
    omega
  have boundedBoth : ((history ++ theirs).length : Int) < i64Max := by
    rwa [List.length_append]
  cases state with
  | hybrid cms heap k => exact merge_hybrid_spec represents representsOther hashed hashedOther bounded
  | exact counts k threshold =>
      cases otherState with
      | hybrid otherCms otherHeap otherK =>
          have promoted :
              Represents history (TopKState.promote hash64 counts k : TopKState shape) :=
            (promote_spec represents.1 boundedOwn hashed k).1
          exact merge_hybrid_spec promoted representsOther hashed hashedOther bounded
      | exact others _ _ =>
          have own := (counts_iff_tallies boundedOwn).mp represents.1
          have their := (counts_iff_tallies boundedOther).mp representsOther.1
          have both := own.merge their
          rw [← List.map_append] at both
          have holds := (counts_iff_tallies boundedBoth).mpr both
          unfold TopKState.merge
          dsimp only
          split
          · exact promote_spec holds boundedBoth (hashed.append hashedOther) k
          · rename_i below
            exact ⟨⟨holds,Nat.le_of_not_lt below⟩,guarantees_exact holds⟩

end Merge

/-! ### States -/

theorem new_spec (k threshold : Nat) :
    Represents [] (TopKState.new shape k threshold) ∧
      Guarantees [] (TopKState.new shape k threshold) := by
  have holds : Counts [] (∅ : Std.ExtTreeMap TopKValue Nat) := by
    constructor
    · intro value
      rw [Std.ExtTreeMap.getD_empty]
      rfl
    · intro value
      rw [List.map_nil]
      exact iff_of_false Std.ExtTreeMap.not_mem_empty List.not_mem_nil
  exact ⟨⟨holds,Std.ExtTreeMap.size_empty.trans_le (Nat.zero_le _)⟩,guarantees_exact holds⟩

/-- The states that insertions and merges lead to. -/
inductive TopKTree where
  | new (k threshold : Nat)
  | insert (value : TopKValue) (tree : TopKTree)
  | merge (tree other : TopKTree)

namespace TopKTree

def state (shape : Shape) (hash64 : TopKValue → UInt64) : TopKTree → TopKState shape
  | .new k threshold => .new shape k threshold
  | .insert value tree => (tree.state shape hash64).insert hash64 value
  | .merge tree other => (tree.state shape hash64).merge hash64 (other.state shape hash64)

def values : TopKTree → List TopKValue
  | .new _ _ => []
  | .insert value tree => value :: tree.values
  | .merge tree other => tree.values ++ other.values

def history (hash64 : TopKValue → UInt64) (tree : TopKTree) : History :=
  tree.values.map fun value => (value,hash64 value)

theorem hashedBy (hash64 : TopKValue → UInt64) (tree : TopKTree) :
    HashedBy hash64 (tree.history hash64) := by
  intro entry member
  obtain ⟨value,-,rfl⟩ := List.mem_map.mp member
  rfl

theorem history_count (hash64 : TopKValue → UInt64) (tree : TopKTree) (value : TopKValue) :
    (tree.history hash64).count value = tree.values.count value := by
  rw [History.count,history,List.map_map]
  exact congrArg (List.count value) (List.map_id _)

theorem history_merge (hash64 : TopKValue → UInt64) (tree other : TopKTree) :
    (merge tree other).history hash64 = tree.history hash64 ++ other.history hash64 :=
  List.map_append

theorem spec (hash64 : TopKValue → UInt64) {tree : TopKTree}
    (bounded : (tree.values.length : Int) < i64Max) :
    Represents (tree.history hash64) (tree.state shape hash64) ∧
      Guarantees (tree.history hash64) (tree.state shape hash64) := by
  induction tree with
  | new k threshold => exact new_spec k threshold
  | insert value tree ih =>
      rw [values,List.length_cons] at bounded
      have before : (tree.values.length : Int) < i64Max := by
        push_cast at bounded
        omega
      obtain ⟨represents,guarantees⟩ := ih before
      refine insert_spec represents guarantees (tree.hashedBy hash64) ?_ value
      rwa [history,List.length_map]
  | merge tree other ih ihOther =>
      rw [values,List.length_append] at bounded
      have own : (tree.values.length : Int) < i64Max := by
        push_cast at bounded
        omega
      have their : (other.values.length : Int) < i64Max := by
        push_cast at bounded
        omega
      rw [history_merge]
      refine merge_spec (ih own).1 (ihOther their).1 (tree.hashedBy hash64)
        (other.hashedBy hash64) ?_
      rwa [history,history,List.length_map,List.length_map]

end TopKTree

section Stream

variable (hash64) (k threshold : Nat) {stream : List TopKValue}

def topKAfter (shape : Shape) (stream : List TopKValue) : TopKState shape :=
  (TopKState.new shape k threshold).insertAll hash64 stream

theorem topKAfter_spec (bounded : (stream.length : Int) < i64Max) :
    Represents (record hash64 [] stream) (topKAfter hash64 k threshold shape stream) ∧
      Guarantees (record hash64 [] stream) (topKAfter hash64 k threshold shape stream) ∧
      Heavy hash64 (record hash64 [] stream) (max k 1)
        (topKAfter hash64 k threshold shape stream) := by
  have initial : Represents [] (TopKState.new shape k threshold) ∧
      Guarantees [] (TopKState.new shape k threshold) := new_spec k threshold
  obtain ⟨represents,guarantees⟩ := initial
  have boundedHere : ((([] : History).length + stream.length : Nat) : Int) < i64Max := by
    rwa [List.length_nil,Nat.zero_add]
  have run := insertAll_spec represents guarantees (hashedBy_nil hash64) boundedHere
  exact ⟨run.1,run.2,heavy_insertAll represents guarantees (hashedBy_nil hash64)
    (Nat.le_max_right k 1) rfl boundedHere⟩

theorem record_values (stream : List TopKValue) :
    (record hash64 [] stream).map Prod.fst = stream.reverse := by
  rw [record_eq_append,List.append_nil,List.map_reverse,List.map_map]
  exact congrArg List.reverse (List.map_id _)

theorem size_eq_distinct {counts : Std.ExtTreeMap TopKValue Nat}
    (holds : Counts (record hash64 [] stream) counts) :
    counts.size = stream.dedup.length := by
  rw [← Std.ExtTreeMap.length_keys]
  apply List.Perm.length_eq
  apply (List.perm_ext_iff_of_nodup Std.ExtTreeMap.nodup_keys (List.nodup_dedup stream)).mpr
  intro value
  rw [Std.ExtTreeMap.mem_keys,holds.keys,record_values,List.mem_reverse,List.mem_dedup]

theorem topKAfter_append (stream : List TopKValue) (value : TopKValue) :
    topKAfter hash64 k threshold shape (stream ++ [value]) =
      (topKAfter hash64 k threshold shape stream).insert hash64 value :=
  List.foldl_concat ..

theorem topKAfter_exact (bounded : (stream.length : Int) < i64Max)
    (few : stream.dedup.length ≤ max threshold 2) :
    ∃ counts, topKAfter hash64 k threshold shape stream =
      .exact counts (max k 1) (max threshold 2) := by
  induction stream using List.reverseRecOn with
  | nil => exact ⟨∅,rfl⟩
  | append_singleton stream value ih =>
      have boundedBefore : (stream.length : Int) < i64Max := by
        rw [List.length_append] at bounded
        push_cast at bounded
        omega
      have fewer : stream.dedup.length ≤ (stream ++ [value]).dedup.length := by
        apply (List.Nodup.subperm (List.nodup_dedup stream) ?_).length_le
        intro other member
        exact List.mem_dedup.mpr (List.mem_append_left _ (List.mem_dedup.mp member))
      obtain ⟨counts,isExact⟩ := ih boundedBefore (fewer.trans few)
      have spec : Represents (record hash64 [] stream)
          (topKAfter hash64 k threshold shape stream) :=
        (topKAfter_spec hash64 k threshold boundedBefore).1
      rw [isExact] at spec
      have boundedRecord : (((record hash64 [] stream).length + 1 : Nat) : Int) ≤ i64Max := by
        rw [record_length,List.length_nil,Nat.zero_add]
        rw [List.length_append,List.length_singleton] at bounded
        exact bounded.le
      have holds := spec.1.insert boundedRecord value (hash64 value)
      have recorded : (value,hash64 value) :: record hash64 [] stream =
          record hash64 [] (stream ++ [value]) := by
        rw [record_append]
        rfl
      rw [recorded] at holds
      have small := size_eq_distinct hash64 holds
      refine ⟨counts.insert value ((counts.getD value 0 + 1) % 2 ^ 64),?_⟩
      rw [topKAfter_append,isExact,TopKState.insert]
      exact if_neg (Nat.not_lt.mpr (small.trans_le few))

theorem topKAfter_reports (bounded : (stream.length : Int) < i64Max) :
    (topKAfter hash64 k threshold shape stream).top.length ≤ max k 1 ∧
      ∀ entry ∈ (topKAfter hash64 k threshold shape stream).top, ∀ value,
        entry.2 < stream.count value →
          value ∈ (topKAfter hash64 k threshold shape stream).top.map Prod.fst := by
  have spec : Represents (record hash64 [] stream) (topKAfter hash64 k threshold shape stream) ∧
      Guarantees (record hash64 [] stream) (topKAfter hash64 k threshold shape stream) ∧
      Heavy hash64 (record hash64 [] stream) (max k 1)
        (topKAfter hash64 k threshold shape stream) := topKAfter_spec hash64 k threshold bounded
  obtain ⟨represents,-,heavy⟩ := spec
  generalize topKAfter hash64 k threshold shape stream = state at *
  cases state with
  | exact counts own limit =>
      have sameK : own = max k 1 := heavy
      rw [exact_top represents.1,sameK]
      constructor
      · exact List.length_take_le _ _
      · intro entry reported value above
        exact mostFrequent_complete reported above
  | hybrid cms heap own =>
      obtain ⟨covers,-,sameK⟩ := heavy
      constructor
      · rw [TopKState.top,TopKHeap.top,List.length_mergeSort,List.length_map,← sameK]
        exact covers.atMost
      · intro entry reported value above
        rw [TopKState.top,TopKHeap.top,List.mem_mergeSort,List.mem_map] at reported
        obtain ⟨held,member,rfl⟩ := reported
        have inHeap : value ∈ heap.heap.map Prod.snd := by
          by_contra absent
          have occurs : value ∈ (record hash64 [] stream).map Prod.fst := by
            rw [record_values,List.mem_reverse,← List.count_pos_iff]
            omega
          have below := covers.outside value occurs absent held member
          rw [record_count] at below
          omega
        obtain ⟨found,isFound,rfl⟩ := List.mem_map.mp inHeap
        rw [TopKState.top,TopKHeap.top,List.mem_map]
        exact ⟨(found.2,found.1),
          List.mem_mergeSort.mpr (List.mem_map.mpr ⟨found,isFound,rfl⟩),rfl⟩

theorem topKAfter_few (bounded : (stream.length : Int) < i64Max)
    (few : stream.dedup.length ≤ max threshold 2) :
    (topKAfter hash64 k threshold shape stream).top = mostFrequent (max k 1) stream := by
  have exactly : ∃ counts, topKAfter hash64 k threshold shape stream =
      .exact counts (max k 1) (max threshold 2) := topKAfter_exact hash64 k threshold bounded few
  have spec : Represents (record hash64 [] stream) (topKAfter hash64 k threshold shape stream) :=
    (topKAfter_spec hash64 k threshold bounded).1
  obtain ⟨counts,isExact⟩ := exactly
  rw [isExact] at spec ⊢
  exact exact_top spec.1 _ _

theorem topKAfter_atLeast (bounded : (stream.length : Int) < i64Max) :
    ∀ entry ∈ (topKAfter hash64 k threshold shape stream).top,
      stream.count entry.1 ≤ entry.2 := by
  intro entry reported
  have enough := (topKAfter_spec hash64 k threshold bounded).2.1 entry reported
  rw [record_count] at enough
  exact (Nat.le_add_right _ _).trans enough

end Stream

theorem TopKTree.atLeast {tree : TopKTree} (bounded : (tree.values.length : Int) < i64Max) :
    ∀ entry ∈ (tree.state shape hash64).top, tree.values.count entry.1 ≤ entry.2 := by
  intro entry reported
  have enough := (spec hash64 bounded).2 entry reported
  rwa [history_count] at enough

/-- A state counts exactly up to its threshold; beyond it no count is too small, at most
`k` values are reported, and no value above a reported one is missing.  The counts stay
large enough under merges. -/
theorem reports_heavy (shape : Shape) (hash64 : TopKValue → UInt64) :
    (∀ (k threshold : Nat) (stream : List TopKValue), (stream.length : Int) < i64Max →
      let top := (topKAfter hash64 k threshold shape stream).top
      (stream.dedup.length ≤ threshold → top = mostFrequent (max k 1) stream) ∧
        (∀ entry ∈ top, stream.count entry.1 ≤ entry.2) ∧
        top.length ≤ max k 1 ∧
        (top.length = max k 1 → ∀ value, (∃ entry ∈ top, entry.2 < stream.count value) →
          value ∈ top.map Prod.fst)) ∧
      ∀ tree : TopKTree, (tree.values.length : Int) < i64Max →
        ∀ entry ∈ (tree.state shape hash64).top, tree.values.count entry.1 ≤ entry.2 := by
  constructor
  · intro k threshold stream bounded
    have reports : (topKAfter hash64 k threshold shape stream).top.length ≤ max k 1 ∧ _ :=
      topKAfter_reports hash64 k threshold bounded
    obtain ⟨atMost,complete⟩ := reports
    refine ⟨?_,topKAfter_atLeast hash64 k threshold bounded,atMost,?_⟩
    · intro few
      exact topKAfter_few hash64 k threshold bounded (few.trans (Nat.le_max_left threshold 2))
    · intro _ value above
      obtain ⟨entry,reported,more⟩ := above
      exact complete entry reported value more
  · intro tree bounded
    exact TopKTree.atLeast bounded

theorem reports_heavy_letters :
    (topKAfter (fun _ => 0) 1 2 defaultShape [.str "a",.str "b",.str "a"]).top =
        mostFrequent 1 [.str "a",.str "b",.str "a"] ∧
      ∀ entry ∈ (TopKTree.state defaultShape (fun _ => 0)
          (.merge (.insert (.str "a") (.new 1 2)) (.insert (.str "a") (.new 1 2)))).top,
        [TopKValue.str "a",.str "a"].count entry.1 ≤ entry.2 := by
  have reports := reports_heavy defaultShape fun _ => 0
  constructor
  · have bounded : (([.str "a",.str "b",.str "a"] : List TopKValue).length : Int) < i64Max := by
      unfold i64Max
      decide
    exact (reports.1 1 2 [.str "a",.str "b",.str "a"] bounded).1 (by decide)
  · apply reports.2
    unfold i64Max
    decide

/-- A state for no value at all reports one. -/
theorem reports_one_for_none :
    (topKAfter (fun _ => 0) 0 1024 defaultShape [.str "a"]).top ≠ mostFrequent 0 [.str "a"] ∧
      ¬ (topKAfter (fun _ => 0) 0 1024 defaultShape [.str "a"]).top.length ≤ 0 := by
  have bounded : (([.str "a"] : List TopKValue).length : Int) < i64Max := by
    unfold i64Max
    decide
  have top : (topKAfter (fun _ => 0) 0 1024 defaultShape [.str "a"]).top =
      mostFrequent 1 [.str "a"] :=
    topKAfter_few (fun _ => 0) 0 1024 bounded (by decide)
  have one : (mostFrequent 1 [.str "a"]).length = 1 := by
    rw [mostFrequent,List.length_take,List.length_mergeSort]
    decide
  have none : mostFrequent 0 [.str "a"] = [] := List.take_zero
  rw [top,none]
  constructor
  · intro same
    rw [same] at one
    cases one
  · rw [one]
    exact Nat.not_succ_le_zero 0

end Beava.Sketch
