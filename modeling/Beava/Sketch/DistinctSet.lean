/-
A distinct count depends on the set alone.

However hashes are added and states are merged, the state that comes out is the one
of the set of hashes that came in: its sorted array, its hash set, or its registers.
-/

import Beava.Sketch.CountDistinct
import Mathlib.Data.Finset.Sort

namespace Beava.Sketch

namespace CountDistinctState

/-- A tree of additions and merges, and the set of hashes it takes in.  Between two
operations a hash set may list its hashes in any order. -/
inductive Built : Finset UInt64 → CountDistinctState → Prop
  | new : Built ∅ new
  | addHash (hash : UInt64) {hashes : Finset UInt64} {state : CountDistinctState} :
      Built hashes state → Built (insert hash hashes) (state.addHash hash)
  | merge {hashes others : Finset UInt64} {state other : CountDistinctState} :
      Built hashes state → Built others other → Built (hashes ∪ others) (state.merge other)
  | listed {hashes : Finset UInt64} {values order : List UInt64} :
      Built hashes (.hashSet values) → values.Perm order → Built hashes (.hashSet order)

/-- The state of a set. -/
def canonical (hashes : Finset UInt64) : CountDistinctState :=
  let sorted := hashes.sort (· ≤ ·)
  if hashes.card ≤ exactThreshold then .exactArray sorted
  else if hashes.card ≤ hashThreshold then .hashSet sorted
  else .hll (Hll.new.addAll sorted)

/-- One array, one set in any order, or one table of registers. -/
def Same : CountDistinctState → CountDistinctState → Prop
  | .exactArray values, .exactArray others => values = others
  | .hashSet hashes, .hashSet others => hashes.Perm others
  | .hll sketch, .hll other => sketch = other
  | _, _ => False

/-- What a mode says besides the hashes it stands for. -/
def Placed : CountDistinctState → Prop
  | .exactArray values => values.Pairwise (· ≤ ·)
  | .hashSet hashes => exactThreshold < hashes.length
  | .hll _ => True

section Sets

variable {hashes others : Finset UInt64} {items : List UInt64}
  {state other third : CountDistinctState}

theorem Same.symm (same : Same state other) : Same other state := by
  cases state <;> cases other
  case exactArray.exactArray => exact Eq.symm same
  case hashSet.hashSet => exact List.Perm.symm same
  case hll.hll => exact Eq.symm same
  all_goals exact False.elim same

theorem Same.trans (same : Same state other) (next : Same other third) : Same state third := by
  cases state <;> cases other <;> cases third
  case exactArray.exactArray.exactArray => exact Eq.trans same next
  case hashSet.hashSet.hashSet => exact List.Perm.trans same next
  case hll.hll.hll => exact Eq.trans same next
  all_goals first
    | exact False.elim same
    | exact False.elim next

theorem Same.estimate (estimateHll : Hll → Nat) (same : Same state other) :
    state.estimate estimateHll = other.estimate estimateHll := by
  cases state <;> cases other
  case exactArray.exactArray => exact congrArg List.length same
  case hashSet.hashSet => exact List.Perm.length_eq same
  case hll.hll => exact congrArg estimateHll same
  all_goals exact False.elim same

theorem Placed.addHash (placed : Placed state) (hash : UInt64) : Placed (state.addHash hash) := by
  cases state with
  | exactArray values =>
      rw [CountDistinctState.addHash]
      by_cases seen : hash ∈ values
      · rw [if_pos seen]
        exact placed
      · rw [if_neg seen]
        dsimp only
        split
        · rename_i full
          exact full
        · exact List.Pairwise.orderedInsert hash values placed
  | hashSet values =>
      have longer : exactThreshold < (if hash ∈ values then values else values ++ [hash]).length := by
        have before : exactThreshold < values.length := placed
        split
        · exact before
        · rw [List.length_append]
          omega
      simp only [CountDistinctState.addHash]
      generalize (if hash ∈ values then values else values ++ [hash]) = grown at longer
      split
      · trivial
      · exact longer
  | hll sketch => trivial

theorem Placed.addAll (placed : Placed state) (items : List UInt64) :
    Placed (state.addAll items) := by
  unfold CountDistinctState.addAll
  induction items generalizing state with
  | nil => exact placed
  | cons hash items ih => exact ih (placed.addHash hash)

theorem Placed.merge (placed : Placed state) (other : CountDistinctState) :
    Placed (state.merge other) := by
  cases other with
  | hll theirs => cases state <;> trivial
  | exactArray values | hashSet values =>
      cases state with
      | exactArray => exact placed.addAll values
      | hashSet => exact placed.addAll values
      | hll => trivial

theorem Built.invariant (built : Built hashes state) :
    Placed state ∧ ∃ items, items.toFinset = hashes ∧ Represents items state := by
  induction built with
  | new => exact ⟨List.Pairwise.nil,[],rfl,represents_new⟩
  | addHash hash _ ih =>
      obtain ⟨placed,items,isSet,represents⟩ := ih
      refine ⟨placed.addHash hash,items ++ [hash],?_,represents.addHash hash⟩
      rw [List.toFinset_append,isSet,Finset.union_comm]
      rfl
  | merge _ _ ih otherIh =>
      obtain ⟨placed,items,isSet,represents⟩ := ih
      obtain ⟨_,otherItems,isOther,otherRepresents⟩ := otherIh
      refine ⟨placed.merge _,items ++ otherItems,?_,represents.merge otherRepresents⟩
      rw [List.toFinset_append,isSet,isOther]
  | listed _ perm ih =>
      obtain ⟨placed,items,isSet,represents⟩ := ih
      have keeps : Keeps items hashThreshold _ := represents
      refine ⟨?_,items,isSet,?_⟩
      · rw [Placed,← perm.length_eq]
        exact placed
      · exact
          { nodup := perm.nodup_iff.mp keeps.nodup
            mem := by
              intro hash
              rw [← perm.mem_iff,keeps.mem]
            length := by
              rw [← perm.length_eq]
              exact keeps.length }

theorem Keeps.perm_sort {bound : Nat} {values : List UInt64} (keeps : Keeps items bound values) :
    values.Perm (items.toFinset.sort (· ≤ ·)) := by
  apply (List.perm_ext_iff_of_nodup keeps.nodup (Finset.sort_nodup _ _)).mpr
  intro hash
  rw [keeps.mem,Finset.mem_sort,List.mem_toFinset]

theorem Represents.same_canonical (represents : Represents items state) (placed : Placed state) :
    Same state (canonical items.toFinset) := by
  cases state with
  | exactArray values =>
      have keeps : Keeps items exactThreshold values := represents
      have few : items.toFinset.card ≤ exactThreshold := by
        rw [keeps.card]
        exact keeps.length
      simp only [canonical,if_pos few]
      apply keeps.perm_sort.eq_of_pairwise
      · intro first second _ _ below above
        exact UInt64.le_antisymm below above
      · exact placed
      · exact Finset.pairwise_sort _ _
  | hashSet values =>
      have keeps : Keeps items hashThreshold values := represents
      have many : ¬items.toFinset.card ≤ exactThreshold := by
        rw [keeps.card]
        exact Nat.not_le_of_lt placed
      have few : items.toFinset.card ≤ hashThreshold := by
        rw [keeps.card]
        exact keeps.length
      simp only [canonical,if_neg many,if_pos few]
      exact keeps.perm_sort
  | hll sketch =>
      obtain ⟨counts,many⟩ := represents
      have notFew : ¬items.toFinset.card ≤ hashThreshold := Nat.not_le_of_lt many
      have notFewer : ¬items.toFinset.card ≤ exactThreshold := by
        intro fewer
        exact notFew (Nat.le_trans fewer (by decide))
      simp only [canonical,if_neg notFewer,if_neg notFew]
      have sorted := Hll.counts_new.addAll (items.toFinset.sort (· ≤ ·))
      rw [List.nil_append] at sorted
      apply counts.unique
      apply sorted.perm_mem
      intro hash
      rw [Finset.mem_sort,List.mem_toFinset]

theorem Built.same_canonical (built : Built hashes state) : Same state (canonical hashes) := by
  obtain ⟨placed,items,rfl,represents⟩ := built.invariant
  exact represents.same_canonical placed

theorem Built.same (built : Built hashes state) (otherBuilt : Built hashes other) :
    Same state other :=
  built.same_canonical.trans otherBuilt.same_canonical.symm

theorem Built.addAll (built : Built hashes state) (items : List UInt64) :
    Built (hashes ∪ items.toFinset) (state.addAll items) := by
  unfold CountDistinctState.addAll
  induction items generalizing hashes state with
  | nil =>
      rw [List.toFinset_nil,Finset.union_empty]
      exact built
  | cons hash items ih =>
      have next := ih (built.addHash hash)
      rwa [Finset.insert_union,← Finset.union_insert,← List.toFinset_cons] at next

theorem built_addAll (items : List UInt64) : Built items.toFinset (new.addAll items) := by
  have built := Built.new.addAll items
  rwa [Finset.empty_union] at built

def mergeParts (first : List UInt64) (rest : List (List UInt64)) : CountDistinctState :=
  rest.foldl (fun state part => state.merge (new.addAll part)) (new.addAll first)

theorem built_mergeParts (first : List UInt64) (rest : List (List UInt64)) :
    Built (first ++ rest.flatten).toFinset (mergeParts first rest) := by
  have merged : ∀ {hashes state}, Built hashes state → Built (hashes ∪ rest.flatten.toFinset)
      (rest.foldl (fun state part => state.merge (new.addAll part)) state) := by
    induction rest with
    | nil =>
        intro hashes state built
        rw [List.flatten_nil,List.toFinset_nil,Finset.union_empty]
        exact built
    | cons part rest ih =>
        intro hashes state built
        have next := ih (built.merge (built_addAll part))
        rwa [Finset.union_assoc,← List.toFinset_append,← List.flatten_cons] at next
  rw [List.toFinset_append]
  exact merged (built_addAll first)

end Sets

/-- Distinct counting depends on the set alone: every tree of additions and merges ends
in the state of its set, merging is commutative, associative and idempotent, and the
merged parts of a split count what one state counts that saw every event. -/
theorem depends_on_set :
    (∀ hashes state, Built hashes state → Same state (canonical hashes)) ∧
      (∀ hashes others thirds state other third,
        Built hashes state → Built others other → Built thirds third →
          Same (state.merge other) (other.merge state) ∧
          Same ((state.merge other).merge third) (state.merge (other.merge third)) ∧
          Same (state.merge state) state) ∧
      ∀ events first rest, (first ++ rest.flatten).Perm events →
        Same (mergeParts first rest) (new.addAll events) ∧
        ∀ estimateHll, (mergeParts first rest).estimate estimateHll =
          (new.addAll events).estimate estimateHll := by
  refine ⟨fun hashes state built => built.same_canonical,?_,?_⟩
  · intro hashes others thirds state other third built otherBuilt thirdBuilt
    refine ⟨?_,?_,?_⟩
    · have swapped := otherBuilt.merge built
      rw [Finset.union_comm] at swapped
      exact (built.merge otherBuilt).same swapped
    · have grouped := built.merge (otherBuilt.merge thirdBuilt)
      rw [← Finset.union_assoc] at grouped
      exact ((built.merge otherBuilt).merge thirdBuilt).same grouped
    · have twice := built.merge built
      rw [Finset.union_self] at twice
      exact twice.same built
  · intro events first rest split
    have merged := built_mergeParts first rest
    rw [List.toFinset_eq_of_perm _ _ split] at merged
    have same := merged.same (built_addAll events)
    exact ⟨same,fun estimateHll => same.estimate estimateHll⟩

end CountDistinctState

end Beava.Sketch
