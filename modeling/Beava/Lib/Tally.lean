/-
Tallies: how often each item of a list occurs.

The counts are kept in an ordered map, and may wrap around at a modulus; the
modulus zero stands for counts that do not.  A tally is known by the list up to its
order.
-/

import Beava.Lib.KeyMap
import Mathlib.Data.Finset.Card
import Mathlib.Data.List.Count
import Mathlib.Algebra.BigOperators.Group.List.Basic

namespace Tally

open Std

variable {α : Type} [DecidableEq α] {cmp : α → α → Ordering} [TransCmp cmp] [LawfulEqCmp cmp]

def Tallies (modulus : Nat) (items : List α) (counts : ExtTreeMap α Nat cmp) : Prop :=
  ∀ key, counts[key]? = if key ∈ items then some (items.count key % modulus) else none

def addAll (modulus : Nat) (counts : ExtTreeMap α Nat cmp) (entries : List (α × Nat)) :
    ExtTreeMap α Nat cmp :=
  entries.foldl
    (fun counts entry =>
      counts.insert entry.1 ((counts.getD entry.1 0 + entry.2) % modulus))
    counts

variable {modulus : Nat} {items others : List α} {counts other : ExtTreeMap α Nat cmp}

omit [LawfulEqCmp cmp] in
theorem tallies_empty : Tallies modulus [] (∅ : ExtTreeMap α Nat cmp) := by
  intro key
  rw [if_neg List.not_mem_nil]
  exact ExtTreeMap.getElem?_empty

omit [LawfulEqCmp cmp] in
theorem Tallies.getD (tallies : Tallies modulus items counts) (key : α) :
    counts.getD key 0 % modulus = items.count key % modulus := by
  rw [ExtTreeMap.getD_eq_getD_getElem?,tallies]
  by_cases member : key ∈ items
  · rw [if_pos member,Option.getD_some,Nat.mod_mod]
  · rw [if_neg member,List.count_eq_zero_of_not_mem member]
    rfl

omit [LawfulEqCmp cmp] in
theorem Tallies.contains_iff (tallies : Tallies modulus items counts) (key : α) :
    counts.contains key = true ↔ key ∈ items := by
  rw [ExtTreeMap.contains_eq_isSome_getElem?,tallies]
  by_cases member : key ∈ items
  · rw [if_pos member]
    exact iff_of_true rfl member
  · rw [if_neg member]
    exact iff_of_false Bool.false_ne_true member

theorem Tallies.insert (tallies : Tallies modulus items counts) (item : α) :
    Tallies modulus (items ++ [item])
      (counts.insert item ((counts.getD item 0 + 1) % modulus)) := by
  intro key
  rw [KeyMap.lookup_insert,List.count_append,List.count_singleton]
  by_cases same : item = key
  · subst same
    rw [if_pos rfl,if_pos (List.mem_append_right _ List.mem_cons_self),beq_self_eq_true,
      if_pos rfl,Nat.add_mod,tallies.getD,← Nat.add_mod]
  · have otherwise : (item == key) = false := beq_false_of_ne same
    rw [if_neg same,tallies,otherwise,if_neg Bool.false_ne_true,Nat.add_zero]
    have members : key ∈ items ++ [item] ↔ key ∈ items := by
      rw [List.mem_append,List.mem_singleton,or_iff_left (Ne.symm same)]
    simp only [members]

theorem addAll_lookup (entries : List (α × Nat)) (distinct : (entries.map Prod.fst).Nodup)
    (counts : ExtTreeMap α Nat cmp) (key : α) :
    (addAll modulus counts entries)[key]? =
      match entries.find? fun entry => entry.1 = key with
      | some entry => some ((counts.getD key 0 + entry.2) % modulus)
      | none => counts[key]? := by
  induction entries generalizing counts with
  | nil => rfl
  | cons entry entries ih =>
      rw [List.map_cons,List.nodup_cons] at distinct
      refine (ih distinct.2 _).trans ?_
      rw [List.find?_cons]
      by_cases same : entry.1 = key
      · have absent : entries.find? (fun entry => entry.1 = key) = none := by
          apply List.find?_eq_none.mpr
          intro later member isKey
          apply distinct.1
          rw [same,← of_decide_eq_true isKey]
          exact List.mem_map_of_mem member
        rw [absent,decide_eq_true same]
        subst same
        exact KeyMap.lookup_insert_self _ _ _
      · rw [decide_eq_false same]
        have kept : (counts.insert entry.1 ((counts.getD entry.1 0 + entry.2) % modulus))[key]? =
            counts[key]? := KeyMap.lookup_insert_ne _ _ same
        dsimp only
        rw [ExtTreeMap.getD_eq_getD_getElem?,kept,← ExtTreeMap.getD_eq_getD_getElem?]

theorem Tallies.merge (tallies : Tallies modulus items counts)
    (otherTallies : Tallies modulus others other) :
    Tallies modulus (items ++ others) (addAll modulus counts other.toList) := by
  intro key
  have distinct : (other.toList.map Prod.fst).Nodup := by
    rw [ExtTreeMap.map_fst_toList_eq_keys]
    exact ExtTreeMap.nodup_keys
  rw [addAll_lookup other.toList distinct,List.count_append]
  have theirs := otherTallies key
  by_cases inOther : key ∈ others
  · rw [if_pos inOther] at theirs
    have entry : (key,others.count key % modulus) ∈ other.toList :=
      ExtTreeMap.mem_toList_iff_getElem?_eq_some.mpr theirs
    cases found : other.toList.find? fun entry => entry.1 = key with
    | none =>
        have impossible := List.find?_eq_none.mp found _ entry
        exact absurd (decide_eq_true rfl) impossible
    | some first =>
        have holds := List.find?_some found
        have isKey : first.1 = key := of_decide_eq_true holds
        have value : other[first.1]? = some first.2 :=
          ExtTreeMap.mem_toList_iff_getElem?_eq_some.mp (List.mem_of_find?_eq_some found)
        rw [isKey,theirs,Option.some.injEq] at value
        dsimp only
        rw [if_pos (List.mem_append_right _ inOther),← value,Nat.add_mod,tallies.getD,
          Nat.mod_mod,← Nat.add_mod]
  · rw [if_neg inOther] at theirs
    have absent : other.toList.find? (fun entry => entry.1 = key) = none := by
      apply List.find?_eq_none.mpr
      intro entry member isKey
      have value := ExtTreeMap.mem_toList_iff_getElem?_eq_some.mp member
      rw [of_decide_eq_true isKey,theirs] at value
      cases value
    rw [absent,tallies,List.count_eq_zero_of_not_mem inOther,Nat.add_zero]
    have members : key ∈ items ++ others ↔ key ∈ items := by
      rw [List.mem_append,or_iff_left inOther]
    simp only [members]

theorem Tallies.unique (tallies : Tallies modulus items counts)
    (otherTallies : Tallies modulus others other) (same : items.Perm others) : counts = other := by
  apply ExtTreeMap.ext_getElem?
  intro key
  rw [tallies,otherTallies,same.count_eq]
  simp only [same.mem_iff]

theorem Tallies.size (tallies : Tallies modulus items counts) :
    counts.size = items.toFinset.card := by
  have distinct : (counts.toList.map Prod.fst).Nodup := by
    rw [ExtTreeMap.map_fst_toList_eq_keys]
    exact ExtTreeMap.nodup_keys
  have same : (counts.toList.map Prod.fst).toFinset = items.toFinset := by
    ext key
    rw [List.mem_toFinset,List.mem_toFinset,← tallies.contains_iff,
      KeyMap.contains_iff_exists]
    constructor
    · intro member
      obtain ⟨entry,isEntry,rfl⟩ := List.mem_map.mp member
      exact ⟨entry.2,ExtTreeMap.mem_toList_iff_getElem?_eq_some.mp isEntry⟩
    · intro present
      obtain ⟨value,found⟩ := present
      exact List.mem_map.mpr
        ⟨(key,value),ExtTreeMap.mem_toList_iff_getElem?_eq_some.mpr found,rfl⟩
  rw [← same,List.toFinset_card_of_nodup distinct,List.length_map,ExtTreeMap.length_toList]

section Total

variable {β M : Type} [AddCommMonoid M] (weight : β → M) {map : ExtTreeMap α β cmp} {key : α}

def total (map : ExtTreeMap α β cmp) : M := (map.toList.map fun entry => weight entry.2).sum

omit [DecidableEq α] [LawfulEqCmp cmp] in
theorem nodup_entries (map : ExtTreeMap α β cmp) : map.toList.Nodup := by
  apply List.Nodup.of_map Prod.fst
  rw [ExtTreeMap.map_fst_toList_eq_keys]
  exact ExtTreeMap.nodup_keys

theorem entries_insert_perm (map : ExtTreeMap α β cmp) (key : α) (value : β) :
    (map.insert key value).toList.Perm
      ((key,value) :: map.toList.filter fun entry => entry.1 ≠ key) := by
  apply (List.perm_ext_iff_of_nodup (nodup_entries _) ?_).mpr
  · intro entry
    rw [show entry = (entry.1,entry.2) from rfl,ExtTreeMap.mem_toList_iff_getElem?_eq_some,
      KeyMap.lookup_insert,List.mem_cons,List.mem_filter,
      ExtTreeMap.mem_toList_iff_getElem?_eq_some,decide_eq_true_iff,Prod.mk.injEq]
    by_cases same : key = entry.1
    · rw [if_pos same,Option.some.injEq]
      constructor
      · intro isValue
        exact .inl ⟨same.symm,isValue.symm⟩
      · intro either
        rcases either with ⟨-,isValue⟩ | ⟨-,different⟩
        · exact isValue.symm
        · exact absurd same.symm different
    · rw [if_neg same]
      constructor
      · intro found
        exact .inr ⟨found,Ne.symm same⟩
      · intro either
        rcases either with ⟨isKey,-⟩ | ⟨found,-⟩
        · exact absurd isKey.symm same
        · exact found
  · apply List.nodup_cons.mpr
    constructor
    · intro listed
      exact of_decide_eq_true (List.mem_filter.mp listed).2 rfl
    · exact (nodup_entries map).filter _

theorem total_insert (map : ExtTreeMap α β cmp) (key : α) (value : β) :
    total weight (map.insert key value) + (map[key]?.map weight).getD 0 =
      total weight map + weight value := by
  have after := ((entries_insert_perm map key value).map fun entry => weight entry.2).sum_eq
  rw [List.map_cons,List.sum_cons] at after
  unfold total
  rw [after]
  cases found : map[key]? with
  | none =>
      have others : (map.toList.filter fun entry => entry.1 ≠ key) = map.toList := by
        apply List.filter_eq_self.mpr
        intro entry member
        apply decide_eq_true
        intro isKey
        have held := ExtTreeMap.mem_toList_iff_getElem?_eq_some.mp member
        rw [isKey,found] at held
        cases held
      rw [others,Option.map_none,Option.getD_none,add_zero,add_comm]
  | some old =>
      have again : map.insert key old = map := by
        apply ExtTreeMap.ext_getElem?
        intro other
        rw [KeyMap.lookup_insert]
        split
        · rename_i same
          rw [← same,found]
        · rfl
      have before := ((entries_insert_perm map key old).map fun entry => weight entry.2).sum_eq
      rw [List.map_cons,List.sum_cons,again] at before
      rw [before,Option.map_some,Option.getD_some,add_right_comm,add_comm (weight value),
        add_right_comm,add_comm (weight old)]

end Total

end Tally
