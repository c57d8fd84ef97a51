/-
The state of a `top_k` feature and its guarantee.

Up to a threshold the state counts every value exactly; beyond it, a count-min
table estimates the counts of the candidates in a heap.  A snapshot holds the
table and the heap, but the hash function that addresses the table belongs to
the process.  A reported count stays an upper bound after a restart exactly when
the new process addresses the cells that the old one counted on.
-/

import Beava.Lib.Tally
import Beava.Sketch.CountMin
import Beava.Sketch.TopKHeap
import Mathlib.Data.List.Perm.Subperm

namespace Beava.Sketch

open Beava.Core

variable {shape : Shape}
variable {counts : Std.ExtTreeMap TopKValue Nat}

inductive TopKState (shape : Shape) where
  | exact (counts : Std.ExtTreeMap TopKValue Nat) (k threshold : Nat)
  | hybrid (cms : CountMinSketch shape) (heap : TopKHeap) (k : Nat)

/-- `u64 as i64`. -/
def asI64 (count : Nat) : Int :=
  Int.bmod count (2 ^ 64)

/-- `(estimate).max(0) as u64`. -/
def reportedEstimate (cms : CountMinSketch shape) (hash : UInt64) : Nat :=
  (max (cms.estimate hash) 0).toNat

namespace TopKState

def new (shape : Shape) (k exactThreshold : Nat) : TopKState shape :=
  .exact ∅ (max k 1) (max exactThreshold 2)

section Insert

variable (hash64 : TopKValue → UInt64)

def countedTable (counts : List (TopKValue × Nat)) : CountMinSketch shape :=
  counts.foldl (fun cms entry => cms.update (hash64 entry.1) (asI64 entry.2)) (.new shape)

/-- The heap after every value is offered with its estimate. -/
def seededHeap (cms : CountMinSketch shape) (k : Nat) (counts : List (TopKValue × Nat)) :
    TopKHeap :=
  counts.foldl
    (fun heap entry => heap.insertOrBump entry.1 (reportedEstimate cms (hash64 entry.1)))
    (.new k)

def promote (counts : Std.ExtTreeMap TopKValue Nat) (k : Nat) : TopKState shape :=
  let cms := countedTable hash64 counts.toList
  .hybrid cms (seededHeap hash64 cms k counts.toList) k

def insert (state : TopKState shape) (value : TopKValue) : TopKState shape :=
  match state with
  | .exact counts k threshold =>
      let counted := counts.insert value ((counts.getD value 0 + 1) % 2 ^ 64)
      if threshold < counted.size then promote hash64 counted k
      else .exact counted k threshold
  | .hybrid cms heap k =>
      let counted := cms.insert (hash64 value)
      .hybrid counted (heap.insertOrBump value (reportedEstimate counted (hash64 value))) k

def insertAll (state : TopKState shape) (stream : List TopKValue) : TopKState shape :=
  stream.foldl (insert hash64) state

def refreshed (cms : CountMinSketch shape) (heap : TopKHeap) (values : List TopKValue) : TopKHeap :=
  values.foldl (fun heap value => heap.insertOrBump value (reportedEstimate cms (hash64 value))) heap

/-- The merge into a table: the candidates of both sides are offered to the heap
with what the merged table estimates. -/
def mergeHybrid (cms : CountMinSketch shape) (heap : TopKHeap) (k : Nat) (other : TopKState shape) :
    TopKState shape :=
  match other with
  | .exact counts _ _ =>
      let counted := counts.toList.foldl
        (fun cms entry => cms.update (hash64 entry.1) (asI64 entry.2)) cms
      let own := refreshed hash64 counted heap (heap.top.map Prod.fst)
      .hybrid counted (refreshed hash64 counted own (counts.toList.map Prod.fst)) k
  | .hybrid otherCms otherHeap _ =>
      let counted := cms.merge otherCms
      let own := refreshed hash64 counted heap (heap.top.map Prod.fst)
      .hybrid counted (refreshed hash64 counted own (otherHeap.top.map Prod.fst)) k

def merge (state other : TopKState shape) : TopKState shape :=
  match state, other with
  | .exact counts k threshold, .exact theirs _ _ =>
      let counted := Tally.addAll (2 ^ 64) counts theirs.toList
      if threshold < counted.size then promote hash64 counted k else .exact counted k threshold
  | .exact counts k _, .hybrid theirs heap theirK =>
      let cms := countedTable hash64 counts.toList
      mergeHybrid hash64 cms (seededHeap hash64 cms k counts.toList) k (.hybrid theirs heap theirK)
  | .hybrid cms heap k, other => mergeHybrid hash64 cms heap k other

end Insert

def top : TopKState shape → List (TopKValue × Nat)
  | .exact counts k _ => (counts.toList.mergeSort TopKHeap.reportOrder).take k
  | .hybrid _ heap _ => heap.top

/-- The state as a snapshot brings it back. -/
def loaded : TopKState shape → TopKState shape
  | .exact counts k threshold => .exact counts k threshold
  | .hybrid cms heap k => .hybrid cms heap.loaded k

def isHybrid : TopKState shape → Bool
  | .exact .. => false
  | .hybrid .. => true

end TopKState

/-! ### What a state counts -/

/-- The values inserted so far, each with the hash it was counted under. -/
abbrev History := List (TopKValue × UInt64)

def History.count (history : History) (value : TopKValue) : Nat :=
  (history.map Prod.fst).count value

/-- Every count in the heap is at least the true count, and at most the number of
all insertions. -/
structure Bounds (history : History) (heap : TopKHeap) : Prop where
  indexed : heap.Indexed
  kPos : 0 < heap.k
  atMost : ∀ entry ∈ heap.heap, entry.1 ≤ history.length

def AtLeast (history : History) (heap : TopKHeap) : Prop :=
  ∀ entry ∈ heap.heap, history.count entry.2 ≤ entry.1

def SameCells (shape : Shape) (history : History) (value : TopKValue) (hash : UInt64) : Prop :=
  ∀ entry ∈ history, entry.1 = value → ∀ row < shape.depth,
    shape.col entry.2 row = shape.col hash row

section Estimates

variable {cms : CountMinSketch shape} {history : History} {value : TopKValue} {hash : UInt64}
variable {times row : Nat}

theorem le_reportedEstimate (lower : (times : Int) ≤ cms.estimate hash) :
    times ≤ reportedEstimate cms hash :=
  (Int.le_toNat (le_max_right _ _)).mpr (lower.trans (le_max_left _ _))

theorem reportedEstimate_le (upper : cms.estimate hash ≤ (times : Int)) :
    reportedEstimate cms hash ≤ times :=
  Int.toNat_le.mpr (max_le upper (Int.natCast_nonneg times))

theorem History.count_eq_countP (history : History) (value : TopKValue) :
    history.count value = history.countP fun entry => entry.1 == value := by
  rw [History.count,List.count_eq_countP,List.countP_map]
  rfl

theorem countP_hashes (history : History) (row col : Nat) :
    ((history.map Prod.snd).countP fun other => shape.col other row = col) =
      history.countP fun entry => shape.col entry.2 row = col := by
  rw [List.countP_map]
  rfl

theorem count_le_countP (sameCells : SameCells shape history value hash)
    (inTable : row < shape.depth) :
    history.count value ≤
      (history.map Prod.snd).countP fun other => shape.col other row = shape.col hash row := by
  rw [History.count_eq_countP,countP_hashes]
  refine List.countP_mono_left fun entry member isValue => ?_
  exact decide_eq_true (sameCells entry member (eq_of_beq isValue) row inTable)

theorem count_le_reported (tallies : cms.Tallies (history.map Prod.snd))
    (bounded : (history.length : Int) < i64Max)
    (sameCells : SameCells shape history value hash) :
    history.count value ≤ reportedEstimate cms hash := by
  have lower := tallies.le_estimate (by rwa [List.length_map]) hash
    fun row inTable => count_le_countP sameCells inTable
  exact le_reportedEstimate lower

theorem reported_le_countP (tallies : cms.Tallies (history.map Prod.snd)) (hash : UInt64)
    (inTable : row < shape.depth) :
    reportedEstimate cms hash ≤
      (history.map Prod.snd).countP fun other => shape.col other row = shape.col hash row := by
  exact reportedEstimate_le (tallies.estimate_le hash inTable)

theorem hash_count_le_reported (tallies : cms.Tallies (history.map Prod.snd))
    (bounded : (history.length : Int) < i64Max) (hash : UInt64) :
    (history.map Prod.snd).count hash ≤ reportedEstimate cms hash := by
  refine le_reportedEstimate (tallies.le_estimate (by rwa [List.length_map]) hash ?_)
  intro row _
  rw [List.count_eq_countP]
  refine List.countP_mono_left fun other _ isHash => ?_
  exact decide_eq_true (by rw [eq_of_beq isHash])

theorem reported_le_length (tallies : cms.Tallies (history.map Prod.snd)) :
    reportedEstimate cms hash ≤ history.length := by
  refine (reported_le_countP tallies hash shape.depthPos).trans ?_
  refine List.countP_le_length.trans ?_
  rw [List.length_map]

end Estimates

section Step

variable {cms : CountMinSketch shape} {heap : TopKHeap} {history : History}
variable {value : TopKValue} {hash : UInt64}

theorem tallies_insert (tallies : cms.Tallies (history.map Prod.snd))
    (bounded : ((history.length + 1 : Nat) : Int) ≤ i64Max) (value : TopKValue) (hash : UInt64) :
    (cms.insert hash).Tallies (((value,hash) :: history : History).map Prod.snd) := by
  have atMost : ((1 + (history.map Prod.snd).length : Nat) : Int) ≤ i64Max := by
    rwa [List.length_map,Nat.add_comm]
  exact tallies.update hash atMost

theorem bounds_insertOrBump (bounds : Bounds history heap) {count : Nat}
    (atMost : count ≤ history.length + 1) :
    Bounds ((value,hash) :: history) (heap.insertOrBump value count) := by
  obtain ⟨indexed,sameK,taken | dropped⟩ :=
    heap.insertOrBump_cases bounds.indexed bounds.kPos value count
  · refine ⟨indexed,sameK ▸ bounds.kPos,fun entry member => ?_⟩
    rw [List.length_cons]
    by_cases isNew : entry = (count,value)
    · rw [isNew]
      exact atMost
    · have old := bounds.atMost entry (taken.others entry member isNew).1
      omega
  · refine ⟨indexed,sameK ▸ bounds.kPos,fun entry member => ?_⟩
    rw [dropped.unchanged] at member
    have old := bounds.atMost entry member
    rw [List.length_cons]
    omega

theorem count_cons_of_ne {other : TopKValue} (different : other ≠ value) (hash : UInt64) :
    History.count ((value,hash) :: history) other = History.count history other := by
  rw [History.count,List.map_cons,List.count_cons_of_ne (Ne.symm different),History.count]

/-- An insertion with a count that is large enough keeps every count large
enough. -/
theorem atLeast_insertOrBump (bounds : Bounds history heap) (atLeast : AtLeast history heap)
    {count : Nat} (enough : History.count ((value,hash) :: history) value ≤ count) :
    AtLeast ((value,hash) :: history) (heap.insertOrBump value count) := by
  intro entry member
  obtain ⟨-,-,taken | dropped⟩ :=
    heap.insertOrBump_cases bounds.indexed bounds.kPos value count
  · by_cases isNew : entry = (count,value)
    · rw [isNew]
      exact enough
    · obtain ⟨before,different⟩ := taken.others entry member isNew
      rw [count_cons_of_ne different]
      exact atLeast entry before
  · rw [dropped.unchanged] at member
    have different : entry.2 ≠ value := by
      intro same
      exact dropped.absent (same ▸ List.mem_map_of_mem member)
    rw [count_cons_of_ne different]
    exact atLeast entry member

end Step

theorem asI64_of_le {count : Nat} (bounded : (count : Int) ≤ i64Max) : asI64 count = count := by
  unfold i64Max at bounded
  unfold asI64
  exact Int.bmod_eq_of_le (by omega) (by omega)

section Promotion

variable {hash64 : TopKValue → UInt64}
variable {entries : List (TopKValue × Nat)}
variable {cms : CountMinSketch shape} {value : TopKValue}

/-- Every value of the counts as often as it was counted. -/
def spread (entries : List (TopKValue × Nat)) : List TopKValue :=
  entries.flatMap fun entry => List.replicate entry.2 entry.1

theorem spread_cons (entry : TopKValue × Nat) (rest : List (TopKValue × Nat)) :
    spread (entry :: rest) = List.replicate entry.2 entry.1 ++ spread rest :=
  List.flatMap_cons

theorem tallies_countedTable (hash64 : TopKValue → UInt64) {hashes : List UInt64}
    (tallies : cms.Tallies hashes)
    (bounded : (((spread entries).length + hashes.length : Nat) : Int) ≤ i64Max) :
    (entries.foldl (fun cms entry => cms.update (hash64 entry.1) (asI64 entry.2)) cms).Tallies
      ((spread entries).map hash64 ++ hashes) := by
  induction entries generalizing cms hashes with
  | nil => exact tallies
  | cons entry rest ih =>
      rw [spread_cons,List.length_append,List.length_replicate] at bounded
      have here : ((entry.2 + hashes.length : Nat) : Int) ≤ i64Max := by
        push_cast at bounded ⊢
        omega
      have alone : (entry.2 : Int) ≤ i64Max := by
        push_cast at bounded
        omega
      have counted := tallies.update (hash64 entry.1) here
      rw [List.foldl_cons,asI64_of_le alone,spread_cons,List.map_append,List.map_replicate]
      refine (ih counted ?_).perm ?_
      · rw [List.length_append,List.length_replicate]
        push_cast at bounded ⊢
        omega
      · rw [← List.append_assoc]
        exact List.perm_append_comm.append_right hashes

theorem count_spread_of_notMem (absent : value ∉ entries.map Prod.fst) :
    (spread entries).count value = 0 := by
  rw [List.count_eq_zero]
  intro member
  obtain ⟨entry,isEntry,inCopies⟩ := List.mem_flatMap.mp member
  rw [List.eq_of_mem_replicate inCopies] at absent
  exact absent (List.mem_map_of_mem isEntry)

theorem count_spread_of_mem (distinct : (entries.map Prod.fst).Nodup) {count : Nat}
    (member : (value,count) ∈ entries) : (spread entries).count value = count := by
  induction entries with
  | nil => cases member
  | cons entry rest ih =>
      rw [List.map_cons,List.nodup_cons] at distinct
      rw [spread_cons,List.count_append]
      rcases List.mem_cons.mp member with rfl | later
      · rw [List.count_replicate_self,count_spread_of_notMem distinct.1,Nat.add_zero]
      · have different : entry.1 ≠ value := by
          intro same
          exact distinct.1 (same ▸ List.mem_map_of_mem later)
        rw [List.count_replicate,if_neg (by simpa using different),Nat.zero_add,
          ih distinct.2 later]

/-- The counts of the exact mode. -/
structure Counts (history : History) (counts : Std.ExtTreeMap TopKValue Nat) : Prop where
  count : ∀ value : TopKValue, counts.getD value 0 = history.count value
  keys : ∀ value : TopKValue, value ∈ counts ↔ value ∈ history.map Prod.fst

theorem nodup_keys (counts : Std.ExtTreeMap TopKValue Nat) :
    (counts.toList.map Prod.fst).Nodup := by
  rw [Std.ExtTreeMap.map_fst_toList_eq_keys]
  exact Std.ExtTreeMap.distinct_keys.imp fun different same =>
    different (by rw [same]; exact Std.ReflCmp.compare_self)

variable {history : History}

theorem Counts.spread_perm {counts : Std.ExtTreeMap TopKValue Nat} (holds : Counts history counts) :
    (spread counts.toList).Perm (history.map Prod.fst) := by
  rw [List.perm_iff_count]
  intro value
  have atValue := holds.count value
  rw [Std.ExtTreeMap.getD_eq_getD_getElem?] at atValue
  rw [History.count] at atValue
  cases found : counts[value]? with
  | some count =>
      rw [found,Option.getD_some] at atValue
      rw [← atValue]
      exact count_spread_of_mem (nodup_keys counts)
        (Std.ExtTreeMap.mem_toList_iff_getElem?_eq_some.mpr found)
  | none =>
      rw [found,Option.getD_none] at atValue
      rw [← atValue]
      refine count_spread_of_notMem fun listed => ?_
      rw [Std.ExtTreeMap.map_fst_toList_eq_keys,Std.ExtTreeMap.mem_keys] at listed
      exact KeyMap.notMem_of_lookup found listed

/-- Every value is counted under the hash of the process. -/
def HashedBy (hash64 : TopKValue → UInt64) (history : History) : Prop :=
  ∀ entry ∈ history, entry.2 = hash64 entry.1

theorem hashedBy_nil (hash64 : TopKValue → UInt64) : HashedBy hash64 [] := by
  intro entry member
  cases member

theorem HashedBy.sameCells (hashed : HashedBy hash64 history) (value : TopKValue) :
    SameCells shape history value (hash64 value) := by
  intro entry member sameValue row _
  rw [hashed entry member,sameValue]

theorem HashedBy.hashes (hashed : HashedBy hash64 history) :
    (history.map Prod.fst).map hash64 = history.map Prod.snd := by
  rw [List.map_map]
  exact List.map_congr_left fun entry member => (hashed entry member).symm

theorem seededHeap_spec (tallies : cms.Tallies (history.map Prod.snd))
    (bounded : (history.length : Int) < i64Max) (hashed : HashedBy hash64 history)
    (entries : List (TopKValue × Nat)) {heap : TopKHeap} (bounds : Bounds history heap)
    (atLeast : AtLeast history heap) :
    let seeded := entries.foldl
      (fun heap entry => heap.insertOrBump entry.1 (reportedEstimate cms (hash64 entry.1))) heap
    Bounds history seeded ∧ AtLeast history seeded := by
  induction entries generalizing heap with
  | nil => exact ⟨bounds,atLeast⟩
  | cons entry rest ih =>
      have lower : history.count entry.1 ≤ reportedEstimate cms (hash64 entry.1) :=
        count_le_reported tallies bounded (hashed.sameCells entry.1)
      have upper : reportedEstimate cms (hash64 entry.1) ≤ history.length :=
        reported_le_length tallies
      obtain ⟨indexed,sameK,taken | dropped⟩ := heap.insertOrBump_cases bounds.indexed
        bounds.kPos entry.1 (reportedEstimate cms (hash64 entry.1))
      · refine ih ⟨indexed,sameK ▸ bounds.kPos,fun other member => ?_⟩ fun other member => ?_
        · by_cases isNew : other = (reportedEstimate cms (hash64 entry.1),entry.1)
          · rw [isNew]
            exact upper
          · exact bounds.atMost other (taken.others other member isNew).1
        · by_cases isNew : other = (reportedEstimate cms (hash64 entry.1),entry.1)
          · rw [isNew]
            exact lower
          · exact atLeast other (taken.others other member isNew).1
      · refine ih ⟨indexed,sameK ▸ bounds.kPos,fun other member => ?_⟩ fun other member => ?_
        · exact bounds.atMost other (dropped.unchanged ▸ member)
        · exact atLeast other (dropped.unchanged ▸ member)

end Promotion

/-! ### Runs of one process -/

def Represents (history : History) : TopKState shape → Prop
  | .exact counts _ threshold => Counts history counts ∧ counts.size ≤ threshold
  | .hybrid cms heap _ => cms.Tallies (history.map Prod.snd) ∧ Bounds history heap

/-- No reported count is below the true one. -/
def Guarantees (history : History) (state : TopKState shape) : Prop :=
  ∀ entry ∈ state.top, history.count entry.1 ≤ entry.2

variable {history : History}

theorem guarantees_hybrid_iff {cms : CountMinSketch shape} {heap : TopKHeap} {k : Nat} :
    Guarantees history (.hybrid cms heap k) ↔ AtLeast history heap := by
  simp only [Guarantees,TopKState.top,TopKHeap.top,List.mem_mergeSort,List.mem_map,
    AtLeast]
  constructor
  · intro guarantees entry member
    exact guarantees (entry.2,entry.1) ⟨entry,member,rfl⟩
  · rintro atLeast entry ⟨held,member,rfl⟩
    exact atLeast held member

theorem guarantees_exact {k threshold : Nat} (holds : Counts history counts) :
    Guarantees history (.exact counts k threshold : TopKState shape) := by
  intro entry member
  have inCounts := List.mem_mergeSort.mp (List.mem_of_mem_take member)
  have found := Std.ExtTreeMap.mem_toList_iff_getElem?_eq_some.mp inCounts
  have count := holds.count entry.1
  rw [Std.ExtTreeMap.getD_eq_getD_getElem?,found,Option.getD_some] at count
  exact count.ge

theorem history_count_le (history : History) (value : TopKValue) :
    history.count value ≤ history.length := by
  rw [History.count_eq_countP]
  exact List.countP_le_length

theorem Counts.insert (holds : Counts history counts)
    (bounded : ((history.length + 1 : Nat) : Int) ≤ i64Max) (value : TopKValue) (hash : UInt64) :
    Counts ((value,hash) :: history)
      (counts.insert value ((counts.getD value 0 + 1) % 2 ^ 64)) := by
  have noWrap : (counts.getD value 0 + 1) % 2 ^ 64 = history.count value + 1 := by
    have atMost := history_count_le history value
    rw [holds.count]
    refine Nat.mod_eq_of_lt ?_
    unfold i64Max at bounded
    omega
  rw [noWrap]
  constructor
  · intro other
    rw [Std.ExtTreeMap.getD_eq_getD_getElem?,KeyMap.lookup_insert]
    split
    · rename_i same
      subst same
      rw [Option.getD_some,History.count,History.count,List.map_cons,List.count_cons_self]
    · rename_i different
      rw [count_cons_of_ne (Ne.symm different),← holds.count,
        Std.ExtTreeMap.getD_eq_getD_getElem?]
  · intro other
    rw [KeyMap.mem_insert_iff,holds.keys,List.map_cons,List.mem_cons]
    exact or_congr_left eq_comm

section Process

variable {hash64 : TopKValue → UInt64}
variable {cms : CountMinSketch shape} {heap : TopKHeap}

variable {history : History}
variable {k : Nat} {stream : List TopKValue}

theorem represents_insert_hybrid (represents : Represents history (.hybrid cms heap k))
    (bounded : ((history.length + 1 : Nat) : Int) < i64Max) (value : TopKValue) :
    Represents ((value,hash64 value) :: history)
      (TopKState.insert hash64 (.hybrid cms heap k) value) := by
  obtain ⟨tallies,bounds⟩ := represents
  have counted := tallies_insert tallies bounded.le value (hash64 value)
  refine ⟨counted,bounds_insertOrBump bounds ?_⟩
  exact reported_le_length counted

theorem guarantees_insert_hybrid (represents : Represents history (.hybrid cms heap k))
    (guarantees : Guarantees history (.hybrid cms heap k))
    (bounded : ((history.length + 1 : Nat) : Int) < i64Max) {value : TopKValue}
    (sameCells : SameCells shape history value (hash64 value)) :
    Guarantees ((value,hash64 value) :: history)
      (TopKState.insert hash64 (.hybrid cms heap k) value) := by
  obtain ⟨tallies,bounds⟩ := represents
  have counted := tallies_insert tallies bounded.le value (hash64 value)
  have sameCellsHere : SameCells shape ((value,hash64 value) :: history) value
      (hash64 value) := by
    intro entry member sameValue row inTable
    rcases List.mem_cons.mp member with rfl | earlier
    · rfl
    · exact sameCells entry earlier sameValue row inTable
  refine guarantees_hybrid_iff.mpr
    (atLeast_insertOrBump bounds (guarantees_hybrid_iff.mp guarantees) ?_)
  exact count_le_reported counted bounded sameCellsHere

theorem promote_spec {counts : Std.ExtTreeMap TopKValue Nat} (holds : Counts history counts)
    (bounded : (history.length : Int) < i64Max) (hashed : HashedBy hash64 history) (k : Nat) :
    Represents history (TopKState.promote hash64 counts k : TopKState shape) ∧
      Guarantees history (TopKState.promote hash64 counts k : TopKState shape) := by
  have sameLength : (spread counts.toList).length = history.length := by
    rw [holds.spread_perm.length_eq,List.length_map]
  have tallies : (TopKState.countedTable hash64 counts.toList : CountMinSketch shape).Tallies
      (history.map Prod.snd) := by
    have atMost : (((spread counts.toList).length + ([] : List UInt64).length : Nat) : Int) ≤
        i64Max := by
      rw [List.length_nil,Nat.add_zero,sameLength]
      exact bounded.le
    have counted := tallies_countedTable hash64 (CountMinSketch.tallies_new shape) atMost
    refine counted.perm ?_
    rw [List.append_nil,← hashed.hashes]
    exact holds.spread_perm.map hash64
  have emptyBounds : Bounds history (TopKHeap.new k) :=
    ⟨TopKHeap.indexed_new k,Nat.le_max_right k 1,fun entry member => by cases member⟩
  have emptyAtLeast : AtLeast history (TopKHeap.new k) := fun entry member => by cases member
  obtain ⟨bounds,atLeast⟩ :=
    seededHeap_spec tallies bounded hashed counts.toList emptyBounds emptyAtLeast
  exact ⟨⟨tallies,bounds⟩,guarantees_hybrid_iff.mpr atLeast⟩

variable {state : TopKState shape}

theorem insert_spec (represents : Represents history state) (guarantees : Guarantees history state)
    (hashed : HashedBy hash64 history) (bounded : ((history.length + 1 : Nat) : Int) < i64Max)
    (value : TopKValue) :
    Represents ((value,hash64 value) :: history) (state.insert hash64 value) ∧
      Guarantees ((value,hash64 value) :: history) (state.insert hash64 value) := by
  cases state with
  | exact counts k threshold =>
      have counted := represents.1.insert bounded.le value (hash64 value)
      have hashedHere : HashedBy hash64 ((value,hash64 value) :: history) := by
        intro entry member
        rcases List.mem_cons.mp member with rfl | earlier
        · rfl
        · exact hashed entry earlier
      unfold TopKState.insert
      simp only
      split
      · exact promote_spec counted bounded hashedHere k
      · rename_i below
        exact ⟨⟨counted,not_lt.mp below⟩,guarantees_exact counted⟩
  | hybrid cms heap k =>
      exact ⟨represents_insert_hybrid represents bounded value,
        guarantees_insert_hybrid represents guarantees bounded (hashed.sameCells value)⟩

def record (hash64 : TopKValue → UInt64) (history : History) (stream : List TopKValue) :
    History :=
  stream.foldl (fun history value => (value,hash64 value) :: history) history

theorem record_length (history : History) (stream : List TopKValue) :
    (record hash64 history stream).length = history.length + stream.length := by
  induction stream generalizing history with
  | nil => rfl
  | cons value rest ih =>
      rw [record,List.foldl_cons]
      refine (ih _).trans ?_
      rw [List.length_cons,List.length_cons]
      omega

theorem record_count (hash64 : TopKValue → UInt64) (history : History)
    (stream : List TopKValue) (value : TopKValue) :
    (record hash64 history stream).count value = stream.count value + history.count value := by
  induction stream generalizing history with
  | nil => rw [record,List.foldl_nil,List.count_nil,Nat.zero_add]
  | cons head rest ih =>
      rw [record,List.foldl_cons]
      refine (ih _).trans ?_
      rw [History.count,History.count,List.map_cons,List.count_cons,List.count_cons]
      dsimp only
      omega

theorem HashedBy.record (hashed : HashedBy hash64 history) (stream : List TopKValue) :
    HashedBy hash64 (record hash64 history stream) := by
  induction stream generalizing history with
  | nil => exact hashed
  | cons value rest ih =>
      refine ih fun entry member => ?_
      rcases List.mem_cons.mp member with rfl | earlier
      · rfl
      · exact hashed entry earlier

theorem insertAll_spec (represents : Represents history state)
    (guarantees : Guarantees history state) (hashed : HashedBy hash64 history)
    (bounded : ((history.length + stream.length : Nat) : Int) < i64Max) :
    Represents (record hash64 history stream) (state.insertAll hash64 stream) ∧
      Guarantees (record hash64 history stream) (state.insertAll hash64 stream) := by
  induction stream generalizing history state with
  | nil => exact ⟨represents,guarantees⟩
  | cons value rest ih =>
      rw [List.length_cons] at bounded
      have boundedHere : ((history.length + 1 : Nat) : Int) < i64Max := by
        push_cast at bounded ⊢
        omega
      obtain ⟨representsHere,guaranteesHere⟩ :=
        insert_spec represents guarantees hashed boundedHere value
      refine ih representsHere guaranteesHere (hashed.record [value]) ?_
      rw [List.length_cons]
      push_cast at bounded ⊢
      omega

/-- The two hash functions lead to the same cells. -/
def AddressAlike (shape : Shape) (first second : TopKValue → UInt64) (value : TopKValue) : Prop :=
  ∀ row < shape.depth, shape.col (first value) row = shape.col (second value) row

theorem guarantees_insertAll_hybrid (represents : Represents history (.hybrid cms heap k))
    (guarantees : Guarantees history (.hybrid cms heap k))
    (bounded : ((history.length + stream.length : Nat) : Int) < i64Max)
    (sameCells : ∀ value, SameCells shape history value (hash64 value)) :
    Guarantees (record hash64 history stream)
      (TopKState.insertAll hash64 (.hybrid cms heap k) stream) := by
  induction stream generalizing history cms heap with
  | nil => exact guarantees
  | cons value rest ih =>
      rw [List.length_cons] at bounded
      have boundedHere : ((history.length + 1 : Nat) : Int) < i64Max := by
        push_cast at bounded ⊢
        omega
      have representsHere : Represents ((value,hash64 value) :: history)
          (TopKState.insert hash64 (.hybrid cms heap k) value) :=
        represents_insert_hybrid represents boundedHere value
      have guaranteesHere : Guarantees ((value,hash64 value) :: history)
          (TopKState.insert hash64 (.hybrid cms heap k) value) :=
        guarantees_insert_hybrid represents guarantees boundedHere (sameCells value)
      refine ih representsHere guaranteesHere ?_ ?_
      · rw [List.length_cons]
        push_cast at bounded ⊢
        omega
      · intro other entry member sameValue row inTable
        rcases List.mem_cons.mp member with rfl | earlier
        · rw [← sameValue]
        · exact sameCells other entry earlier sameValue row inTable

end Process

/-- The table of `AggOp::new`. -/
def defaultShape : Shape :=
  { width := 2048
    depth := 4
    widthPos := by decide
    depthPos := by decide
    depthLe := by decide }

/-- The state of a lifetime `top_k` feature, as `AggOp::new` makes it. -/
def lifetimeTopK (k : Nat) : TopKState defaultShape :=
  .new defaultShape k 1024

/-- The state after a stream in one process and a stream in the next. -/
def afterRestart (k : Nat) (before after : TopKValue → UInt64) (first second : List TopKValue) :
    TopKState defaultShape :=
  (((lifetimeTopK k).insertAll before first).loaded).insertAll after second

section Restart

variable {k : Nat} {before after : TopKValue → UInt64} {first second : List TopKValue}
variable {counts : Std.ExtTreeMap TopKValue Nat} {hash64 : TopKValue → UInt64}
variable {values : List TopKValue} {cms : CountMinSketch shape} {value : TopKValue}

theorem lifetime_spec (before : TopKValue → UInt64) (k : Nat)
    (bounded : (first.length : Int) < i64Max) :
    Represents (record before [] first) ((lifetimeTopK k).insertAll before first) ∧
      Guarantees (record before [] first) ((lifetimeTopK k).insertAll before first) := by
  have emptyCounts : Counts [] (∅ : Std.ExtTreeMap TopKValue Nat) := by
    refine ⟨fun value => ?_,fun value => ?_⟩
    · rw [Std.ExtTreeMap.getD_empty]
      rfl
    · simp
  have represents : Represents [] (lifetimeTopK k) :=
    ⟨emptyCounts,by rw [Std.ExtTreeMap.size_empty]; exact Nat.zero_le _⟩
  have guarantees : Guarantees [] (lifetimeTopK k) := guarantees_exact emptyCounts
  refine insertAll_spec represents guarantees (hashedBy_nil before) ?_
  rwa [List.length_nil,Nat.zero_add]

theorem loaded_hybrid (bounded : (first.length : Int) < i64Max)
    (isHybrid : ((lifetimeTopK k).insertAll before first).isHybrid = true) :
    ∃ cms heap kHere, ((lifetimeTopK k).insertAll before first).loaded = .hybrid cms heap kHere ∧
      Represents (record before [] first) (.hybrid cms heap kHere) ∧
      Guarantees (record before [] first) (.hybrid cms heap kHere) := by
  obtain ⟨represents,guarantees⟩ := lifetime_spec before k bounded
  cases state : (lifetimeTopK k).insertAll before first with
  | exact counts kHere threshold =>
      rw [state] at isHybrid
      cases isHybrid
  | hybrid cms heap kHere =>
      rw [state] at represents guarantees
      obtain ⟨tallies,bounds⟩ := represents
      refine ⟨cms,heap.loaded,kHere,rfl,⟨tallies,?_⟩,?_⟩
      · exact ⟨TopKHeap.indexed_loaded bounds.indexed,bounds.kPos,bounds.atMost⟩
      · have atLeast := guarantees_hybrid_iff.mp guarantees
        exact guarantees_hybrid_iff.mpr atLeast

theorem guarantee_of_addressAlike
    (bounded : ((first.length + second.length : Nat) : Int) < i64Max)
    (isHybrid : ((lifetimeTopK k).insertAll before first).isHybrid = true)
    (alike : ∀ value, AddressAlike defaultShape before after value) :
    ∀ entry ∈ (afterRestart k before after first second).top,
      (first ++ second).count entry.1 ≤ entry.2 := by
  have boundedFirst : (first.length : Int) < i64Max := by
    push_cast at bounded
    omega
  obtain ⟨cms,heap,kHere,loadedEq,represents,guarantees⟩ :=
    loaded_hybrid boundedFirst isHybrid
  have sameCells : ∀ value,
      SameCells defaultShape (record before [] first) value (after value) := by
    intro value entry member sameValue row inTable
    rw [(hashedBy_nil before).record first entry member,sameValue]
    exact alike value row inTable
  have boundedBoth : (((record before [] first).length + second.length : Nat) : Int) < i64Max := by
    rwa [record_length,List.length_nil,Nat.zero_add]
  have kept := guarantees_insertAll_hybrid represents guarantees boundedBoth sameCells
  intro entry member
  rw [afterRestart,loadedEq] at member
  have enough := kept entry member
  rw [record_count,record_count] at enough
  rw [List.count_append]
  simp only [History.count,List.map_nil,List.count_nil] at enough
  omega

/-! ### A value that moves to other cells -/

theorem size_ge_of_nodup (distinct : values.Nodup) (present : ∀ value ∈ values, value ∈ counts) :
    values.length ≤ counts.size := by
  rw [← Std.ExtTreeMap.length_keys]
  refine (List.Nodup.subperm distinct fun value member => ?_).length_le
  exact Std.ExtTreeMap.mem_keys.mpr (present value member)

theorem insertAll_exact {stream : List TopKValue} {state : TopKState shape} {threshold : Nat}
    (isExact : state.insertAll hash64 stream = .exact counts k threshold) :
    ∃ initial, state = .exact initial k threshold := by
  induction stream generalizing state with
  | nil => exact ⟨counts,isExact⟩
  | cons value rest ih =>
      obtain ⟨between,isBetween⟩ := ih isExact
      cases state with
      | hybrid cms heap kHere => cases isBetween
      | exact initial kHere limit =>
          simp only [TopKState.insert] at isBetween
          split at isBetween
          · cases isBetween
          · cases isBetween
            exact ⟨initial,rfl⟩

theorem isHybrid_of_distinct (distinct : values.Nodup) (many : 1024 < values.length)
    (included : values ⊆ first) (bounded : (first.length : Int) < i64Max) :
    ((lifetimeTopK k).insertAll before first).isHybrid = true := by
  obtain ⟨represents,-⟩ := lifetime_spec before k bounded
  cases state : (lifetimeTopK k).insertAll before first with
  | hybrid cms heap kHere => rfl
  | exact counts kHere threshold =>
      obtain ⟨initial,isInitial⟩ := insertAll_exact state
      simp only [lifetimeTopK,TopKState.new,TopKState.exact.injEq] at isInitial
      rw [state] at represents
      obtain ⟨holds,atMost⟩ := represents
      have present : ∀ value ∈ values, value ∈ counts := by
        intro value member
        rw [holds.keys]
        have counted := record_count before [] first value
        have inFirst := List.count_pos_iff.mpr (included member)
        rw [History.count] at counted
        exact List.count_pos_iff.mp (by omega)
      have size := size_ge_of_nodup distinct present
      omega

theorem record_append (hash64 : TopKValue → UInt64) (history : History)
    (stream later : List TopKValue) :
    record hash64 history (stream ++ later) =
      record hash64 (record hash64 history stream) later :=
  List.foldl_append ..

theorem record_eq_append (hash64 : TopKValue → UInt64) (history : History)
    (stream : List TopKValue) :
    record hash64 history stream =
      (stream.map fun value => (value,hash64 value)).reverse ++ history := by
  induction stream generalizing history with
  | nil => rfl
  | cons value rest ih =>
      rw [record,List.foldl_cons]
      refine (ih _).trans ?_
      rw [List.map_cons,List.reverse_cons,List.append_assoc,List.singleton_append]

theorem record_replicate (hash64 : TopKValue → UInt64) (history : History) (value : TopKValue)
    (times : Nat) :
    record hash64 history (List.replicate times value) =
      List.replicate times (value,hash64 value) ++ history := by
  induction times with
  | zero => rfl
  | succ times ih =>
      rw [List.replicate_succ',record_append,ih,List.replicate_succ]
      rfl

/-- A heap in which a value is counted only in the new process: the value stands
there with a count that the row allows, or it was never taken. -/
def Recounted (heap initial : TopKHeap) (value : TopKValue) (limit times room : Nat) : Prop :=
  (∃ count ≤ limit + times, (count,value) ∈ heap.heap) ∨
    (heap.heap = initial.heap ∧ times ≤ room)

theorem recounted_step {history : History} {heap initial : TopKHeap}
    {kHere limit times room row : Nat}
    (represents : Represents
      (List.replicate times (value,hash64 value) ++ history) (.hybrid cms heap kHere))
    (bounded : ((history.length + (times + 1) : Nat) : Int) < i64Max)
    (inTable : row < shape.depth)
    (onRow : (history.map Prod.snd).countP
      (fun other => shape.col other row = shape.col (hash64 value) row) ≤ limit)
    (inRoom : ∀ entry ∈ initial.heap, entry.1 ≤ room)
    (recounted : Recounted heap initial value limit times room) :
    Recounted (heap.insertOrBump value
        (reportedEstimate (cms.insert (hash64 value)) (hash64 value)))
      initial value limit (times + 1) room := by
  obtain ⟨tallies,bounds⟩ := represents
  have length : (List.replicate times (value,hash64 value) ++ history).length + 1 =
      history.length + (times + 1) := by
    rw [List.length_append,List.length_replicate]
    omega
  have counted := tallies_insert tallies (by rw [length]; exact bounded.le) value (hash64 value)
  have upper := reported_le_countP counted (hash64 value) inTable
  have lower := hash_count_le_reported counted
    (by rw [List.length_cons,length]; exact bounded) (hash64 value)
  have copies : ((value,hash64 value) ::
      (List.replicate times (value,hash64 value) ++ history) : History).map Prod.snd =
        List.replicate (times + 1) (hash64 value) ++ history.map Prod.snd := by
    rw [← List.cons_append,← List.replicate_succ,List.map_append,List.map_replicate]
  rw [copies,List.countP_append,List.countP_replicate,if_pos (decide_eq_true rfl)] at upper
  rw [copies,List.count_append,List.count_replicate_self] at lower
  obtain ⟨-,-,taken | dropped⟩ := heap.insertOrBump_cases bounds.indexed bounds.kPos value
    (reportedEstimate (cms.insert (hash64 value)) (hash64 value))
  · exact .inl ⟨_,by omega,taken.present⟩
  · rcases recounted with ⟨count,-,present⟩ | ⟨unchanged,-⟩
    · exact absurd (List.mem_map_of_mem present) dropped.absent
    · obtain ⟨root,member,notAbove⟩ := dropped.root
      rw [unchanged] at member
      have rootInRoom := inRoom root member
      exact .inr ⟨dropped.unchanged.trans unchanged,by omega⟩

theorem recounted_run {history : History} {heap : TopKHeap}
    {kHere limit row : Nat}
    (represents : Represents history (.hybrid cms heap kHere)) (inTable : row < shape.depth)
    (onRow : (history.map Prod.snd).countP
      (fun other => shape.col other row = shape.col (hash64 value) row) ≤ limit)
    {times : Nat} (bounded : ((history.length + times : Nat) : Int) < i64Max) :
    ∃ cmsAfter heapAfter,
      TopKState.insertAll hash64 (.hybrid cms heap kHere) (List.replicate times value) =
          .hybrid cmsAfter heapAfter kHere ∧
        Represents (List.replicate times (value,hash64 value) ++ history)
          (.hybrid cmsAfter heapAfter kHere) ∧
        Recounted heapAfter heap value limit times history.length := by
  induction times with
  | zero => exact ⟨cms,heap,rfl,represents,.inr ⟨rfl,Nat.zero_le _⟩⟩
  | succ times ih =>
      have boundedHere : ((history.length + times : Nat) : Int) < i64Max := by
        push_cast at bounded ⊢
        omega
      obtain ⟨cmsHere,heapHere,stateHere,representsHere,recounted⟩ := ih boundedHere
      have boundedStep : (((List.replicate times (value,hash64 value) ++ history).length + 1 :
          Nat) : Int) < i64Max := by
        rw [List.length_append,List.length_replicate]
        push_cast at bounded ⊢
        omega
      refine ⟨_,_,?_,represents_insert_hybrid representsHere boundedStep value,
        recounted_step representsHere bounded inTable onRow represents.2.atMost recounted⟩
      rw [List.replicate_succ',TopKState.insertAll,List.foldl_append]
      exact congrArg (TopKState.insert hash64 · value) stateHere

/-- One value more often than all the others, so many that they are hashed. -/
def movedFirst (value : TopKValue) (others : List TopKValue) : List TopKValue :=
  List.replicate (others.length + 1) value ++ others

def movedSecond (value : TopKValue) (others : List TopKValue) : List TopKValue :=
  List.replicate (2 * others.length + 2) value

theorem length_movedFirst (value : TopKValue) (others : List TopKValue) :
    (movedFirst value others).length = 2 * others.length + 1 := by
  rw [movedFirst,List.length_append,List.length_replicate]
  omega

section Moved

variable {value : TopKValue} {others : List TopKValue} (distinct : (value :: others).Nodup)
  (many : 1024 ≤ others.length) (bounded : ((4 * others.length + 3 : Nat) : Int) < i64Max)

include bounded

theorem bounded_movedFirst : ((movedFirst value others).length : Int) < i64Max := by
  rw [length_movedFirst]
  push_cast at bounded ⊢
  omega

include distinct many

theorem isHybrid_movedFirst (k : Nat) (before : TopKValue → UInt64) :
    ((lifetimeTopK k).insertAll before (movedFirst value others)).isHybrid = true := by
  refine isHybrid_of_distinct distinct (by rw [List.length_cons]; omega) ?_
    (bounded_movedFirst bounded)
  intro other member
  rcases List.mem_cons.mp member with rfl | inOthers
  · exact List.mem_append_left _ (List.mem_replicate.mpr ⟨by omega,rfl⟩)
  · exact List.mem_append_right _ inOthers

/-- A value that the new process counts on another cell of a row is reported with
too small a count. -/
theorem restart_underreports (k : Nat) {row : Nat} (inTable : row < defaultShape.depth)
    (moves : defaultShape.col (before value) row ≠ defaultShape.col (after value) row) :
    ∃ entry ∈ (afterRestart k before after (movedFirst value others)
        (movedSecond value others)).top,
      entry.2 < (movedFirst value others ++ movedSecond value others).count entry.1 := by
  obtain ⟨cms,heap,kHere,loadedEq,represents,-⟩ := loaded_hybrid
    (bounded_movedFirst bounded) (isHybrid_movedFirst distinct many bounded k before)
  have historyLength : (record before [] (movedFirst value others)).length =
      2 * others.length + 1 := by
    rw [record_length,List.length_nil,length_movedFirst,Nat.zero_add]
  have onRow : ((record before [] (movedFirst value others)).map Prod.snd).countP
      (fun other => defaultShape.col other row = defaultShape.col (after value) row) ≤
        others.length := by
    rw [movedFirst,record_append,record_replicate,List.append_nil,record_eq_append,
      List.map_append,List.countP_append,List.map_replicate,List.countP_replicate,
      if_neg (by simpa using moves),Nat.add_zero]
    refine List.countP_le_length.trans ?_
    rw [List.length_map,List.length_reverse,List.length_map]
  have boundedBoth : (((record before [] (movedFirst value others)).length +
      (2 * others.length + 2) : Nat) : Int) < i64Max := by
    rw [historyLength]
    push_cast at bounded ⊢
    omega
  obtain ⟨cmsAfter,heapAfter,stateEq,-,recounted⟩ :=
    recounted_run represents inTable onRow boundedBoth
  rcases recounted with ⟨count,atMost,present⟩ | ⟨-,noRoom⟩
  · refine ⟨(value,count),?_,?_⟩
    · rw [afterRestart,loadedEq,movedSecond,stateEq]
      simp only [TopKState.top,TopKHeap.top,List.mem_mergeSort,List.mem_map]
      exact ⟨(count,value),present,rfl⟩
    · rw [movedFirst,movedSecond,List.count_append,List.count_append,
        List.count_replicate_self,List.count_replicate_self]
      simp only
      omega
  · rw [historyLength] at noRoom
    omega

end Moved

/-- So many values, all different from the given one. -/
def fillers (value : TopKValue) : List TopKValue :=
  ((List.range 1025).map fun number => TopKValue.int (Int64.ofNat number)).erase value

theorem nodup_numbers :
    ((List.range 1025).map fun number => TopKValue.int (Int64.ofNat number)).Nodup := by
  refine List.Nodup.map_on ?_ List.nodup_range
  intro first isFirst second isSecond same
  rw [List.mem_range] at isFirst isSecond
  have sameNumber := congrArg Int64.toInt (TopKValue.int.inj same)
  rw [Int64.toInt_ofNat_of_lt (by omega),Int64.toInt_ofNat_of_lt (by omega)] at sameNumber
  exact_mod_cast sameNumber

theorem nodup_fillers (value : TopKValue) : (value :: fillers value).Nodup :=
  List.nodup_cons.mpr ⟨nodup_numbers.not_mem_erase,nodup_numbers.erase value⟩

theorem length_fillers (value : TopKValue) :
    1024 ≤ (fillers value).length ∧ (fillers value).length ≤ 1025 := by
  have numbers : ((List.range 1025).map fun number =>
      TopKValue.int (Int64.ofNat number)).length = 1025 := by
    rw [List.length_map,List.length_range]
  rw [fillers,List.length_erase]
  split
  · rw [numbers]
    omega
  · rw [numbers]
    omega

/-- The reported counts stay upper bounds after a restart, whatever is inserted
before and after it, exactly when the new hash function leads every value to the
cells of the old one. -/
theorem restart_guarantee_iff (k : Nat) (before after : TopKValue → UInt64) :
    (∀ first second : List TopKValue,
      ((first.length + second.length : Nat) : Int) < i64Max →
      ((lifetimeTopK k).insertAll before first).isHybrid = true →
      ∀ entry ∈ (afterRestart k before after first second).top,
        (first ++ second).count entry.1 ≤ entry.2) ↔
      ∀ value, AddressAlike defaultShape before after value := by
  constructor
  · intro guarantee value row inTable
    by_contra moves
    obtain ⟨many,few⟩ := length_fillers value
    have bounded : ((4 * (fillers value).length + 3 : Nat) : Int) < i64Max := by
      unfold i64Max
      omega
    obtain ⟨entry,reported,tooSmall⟩ :=
      restart_underreports (nodup_fillers value) many bounded k inTable moves
    have enough := guarantee (movedFirst value (fillers value)) (movedSecond value (fillers value))
      (by
        rw [length_movedFirst,movedSecond,List.length_replicate]
        push_cast at bounded ⊢
        omega)
      (isHybrid_movedFirst (nodup_fillers value) many bounded k before) entry reported
    omega
  · intro alike first second bounded isHybrid
    exact guarantee_of_addressAlike bounded isHybrid alike

/-- The string `a` more often than 1025 numbers, and `a` again after a restart
that changes all hashes. -/
theorem restart_underreports_string :
    ((lifetimeTopK 10).insertAll (fun _ => 0)
      (movedFirst (.str "a") (fillers (.str "a")))).isHybrid = true ∧
    ∃ entry ∈ (afterRestart 10 (fun _ => 0) (fun _ => 1)
        (movedFirst (.str "a") (fillers (.str "a")))
        (movedSecond (.str "a") (fillers (.str "a")))).top,
      entry.2 < (movedFirst (.str "a") (fillers (.str "a")) ++
        movedSecond (.str "a") (fillers (.str "a"))).count entry.1 := by
  obtain ⟨many,few⟩ := length_fillers (.str "a")
  have bounded : ((4 * (fillers (.str "a")).length + 3 : Nat) : Int) < i64Max := by
    unfold i64Max
    omega
  have inTable : 0 < defaultShape.depth := defaultShape.depthPos
  refine ⟨isHybrid_movedFirst (nodup_fillers _) many bounded 10 _,?_⟩
  exact restart_underreports (nodup_fillers _) many bounded 10 inTable (by decide)

end Restart

end Beava.Sketch
