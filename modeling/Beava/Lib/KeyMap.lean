/-
Lookups in ordered maps after each update.

The library states them with the comparison of two keys; here the comparison
decides equality of keys, so that a lookup after an update splits on whether the
keys are equal.
-/

import Std.Data.ExtTreeMap
import Std.Data.ExtTreeSet
import Mathlib.Data.List.Nodup

namespace KeyMap

open Std

variable {α β γ : Type} {cmp : α → α → Ordering} [TransCmp cmp] [LawfulEqCmp cmp]
variable [DecidableEq α]
variable {key : α} {map : ExtTreeMap α β cmp} {value : β} {entries : List (α × β)}
variable {other : α} {keyOf : β → α} {values : List β}

theorem lookup_insert (map : ExtTreeMap α β cmp) (key other : α) (value : β) :
    (map.insert key value)[other]? = if key = other then some value else map[other]? := by
  rw [ExtTreeMap.getElem?_insert]
  simp only [LawfulEqCmp.compare_eq_iff_eq]

@[simp] theorem lookup_insert_self (map : ExtTreeMap α β cmp) (key : α) (value : β) :
    (map.insert key value)[key]? = some value := by
  rw [lookup_insert,if_pos rfl]

theorem lookup_insert_ne (map : ExtTreeMap α β cmp) (value : β) (different : key ≠ other) :
    (map.insert key value)[other]? = map[other]? := by
  rw [lookup_insert,if_neg different]

theorem lookup_insert_cases {found : β} (lookup : (map.insert key value)[other]? = some found) :
    (other = key ∧ found = value) ∨ (other ≠ key ∧ map[other]? = some found) := by
  rw [lookup_insert] at lookup
  split at lookup
  · rename_i same
    exact .inl ⟨same.symm,(Option.some.inj lookup).symm⟩
  · rename_i different
    exact .inr ⟨Ne.symm different,lookup⟩

theorem lookup_erase (map : ExtTreeMap α β cmp) (key other : α) :
    (map.erase key)[other]? = if key = other then none else map[other]? := by
  rw [ExtTreeMap.getElem?_erase]
  simp only [LawfulEqCmp.compare_eq_iff_eq]

theorem lookup_modify (map : ExtTreeMap α β cmp) (key other : α) (change : β → β) :
    (map.modify key change)[other]? =
      if key = other then map[other]?.map change else map[other]? := by
  rw [ExtTreeMap.getElem?_modify]
  simp only [LawfulEqCmp.compare_eq_iff_eq]
  split
  · rename_i same
    rw [same]
  · rfl

theorem lookup_insertIfNew (map : ExtTreeMap α β cmp) (key other : α) (value : β) :
    (map.insertIfNew key value)[other]? =
      if key = other then some (map[other]?.getD value) else map[other]? := by
  rw [ExtTreeMap.getElem?_insertIfNew]
  simp only [LawfulEqCmp.compare_eq_iff_eq]
  by_cases same : key = other
  · subst same
    cases found : map[key]? with
    | none =>
        have absent : key ∉ map := fun present => by
          have isSome := ExtTreeMap.mem_iff_isSome_getElem?.mp present
          rw [found] at isSome
          cases isSome
        simp [absent]
    | some old =>
        have present : key ∈ map := ExtTreeMap.mem_iff_isSome_getElem?.mpr (by simp [found])
        simp [present]
  · simp [same]

omit [LawfulEqCmp cmp] [DecidableEq α] in
theorem contains_iff_exists (map : ExtTreeMap α β cmp) (key : α) :
    map.contains key = true ↔ ∃ value, map[key]? = some value := by
  rw [ExtTreeMap.contains_eq_isSome_getElem?,Option.isSome_iff_exists]

omit [LawfulEqCmp cmp] [DecidableEq α] in
theorem mem_iff_exists : key ∈ map ↔ ∃ value, map[key]? = some value := by
  rw [ExtTreeMap.mem_iff_isSome_getElem?,Option.isSome_iff_exists]

omit [LawfulEqCmp cmp] [DecidableEq α] in
theorem mem_of_lookup (found : map[key]? = some value) : key ∈ map :=
  mem_iff_exists.mpr ⟨value,found⟩

omit [LawfulEqCmp cmp] [DecidableEq α] in
theorem notMem_of_lookup (absent : map[key]? = none) : key ∉ map := by
  intro member
  obtain ⟨value,found⟩ := mem_iff_exists.mp member
  rw [absent] at found
  cases found

omit [DecidableEq α] in
theorem mem_insert_iff : other ∈ map.insert key value ↔ key = other ∨ other ∈ map := by
  rw [ExtTreeMap.mem_insert,LawfulEqCmp.compare_eq_iff_eq]

omit [DecidableEq α] in
theorem mem_of_mem_toList {entry : α × β} (member : entry ∈ map.toList) : entry.1 ∈ map :=
  mem_of_lookup (ExtTreeMap.mem_toList_iff_getElem?_eq_some.mp member)

/-- Every entry is inserted; a later entry replaces an earlier one. -/
def insertAll (map : ExtTreeMap α β cmp) (entries : List (α × β)) : ExtTreeMap α β cmp :=
  entries.foldl (fun current entry => current.insert entry.1 entry.2) map

theorem insertAll_of_notMem (map : ExtTreeMap α β cmp) (absent : key ∉ entries.map Prod.fst) :
    (insertAll map entries)[key]? = map[key]? := by
  induction entries generalizing map with
  | nil => rfl
  | cons entry rest ih =>
      rw [List.map_cons,List.mem_cons,not_or] at absent
      show (insertAll (map.insert entry.1 entry.2) rest)[key]? = map[key]?
      rw [ih _ absent.2,lookup_insert_ne _ _ (Ne.symm absent.1)]

theorem insertAll_lookup (map : ExtTreeMap α β cmp) (entries : List (α × β)) (key : α) :
    (insertAll map entries)[key]? =
      ((entries.reverse.find? fun entry => entry.1 = key).map Prod.snd).or map[key]? := by
  induction entries generalizing map with
  | nil => rfl
  | cons entry rest ih =>
      refine (ih (map.insert entry.1 entry.2)).trans ?_
      rw [lookup_insert,List.reverse_cons,List.find?_append]
      cases found : rest.reverse.find? fun entry => entry.1 = key with
      | some later => rfl
      | none =>
          by_cases same : entry.1 = key
          · simp [same]
          · simp [same]

theorem insertAll_eq_some (found : (insertAll map entries)[key]? = some value) :
    (key,value) ∈ entries ∨ (key ∉ entries.map Prod.fst ∧ map[key]? = some value) := by
  induction entries generalizing map with
  | nil => exact .inr ⟨List.not_mem_nil,found⟩
  | cons entry rest ih =>
      change (insertAll (map.insert entry.1 entry.2) rest)[key]? = some value at found
      rcases ih found with inRest | ⟨notInRest,before⟩
      · exact .inl (List.mem_cons_of_mem entry inRest)
      · rw [lookup_insert] at before
        split at before
        · rename_i same
          cases before
          exact .inl (by rw [← same]; exact List.mem_cons_self)
        · rename_i different
          refine .inr ⟨?_,before⟩
          rw [List.map_cons,List.mem_cons,not_or]
          exact ⟨Ne.symm different,notInRest⟩

theorem insertAll_of_mem (distinct : (entries.map Prod.fst).Nodup) (member : (key,value) ∈ entries) :
    (insertAll map entries)[key]? = some value := by
  induction entries generalizing map with
  | nil => cases member
  | cons entry rest ih =>
      rw [List.map_cons,List.nodup_cons] at distinct
      show (insertAll (map.insert entry.1 entry.2) rest)[key]? = some value
      rcases List.mem_cons.mp member with atHead | inRest
      · subst atHead
        rw [insertAll_of_notMem _ distinct.1,lookup_insert_self]
      · exact ih distinct.2 inRest

theorem insertAll_middle (map : ExtTreeMap α β cmp) {before after : List (α × β)}
    (notAfter : key ∉ after.map Prod.fst) (same : ∀ entry ∈ entries, entry.1 = key) :
    (insertAll map (before ++ (entries ++ after)))[key]? =
      (entries.getLast?.map Prod.snd).or (insertAll map before)[key]? := by
  have split_ : insertAll map (before ++ (entries ++ after)) =
      insertAll (insertAll (insertAll map before) entries) after := by
    simp only [insertAll,List.foldl_append]
  rw [split_,insertAll_of_notMem _ notAfter]
  cases isLast : entries.getLast? with
  | none =>
      rw [List.getLast?_eq_none_iff.mp isLast]
      rfl
  | some last =>
      obtain ⟨initial,rfl⟩ := List.getLast?_eq_some_iff.mp isLast
      have lastKey : last.1 = key := same last (List.mem_append_right _ List.mem_cons_self)
      rw [insertAll,List.foldl_append,List.foldl_cons,List.foldl_nil,← lastKey,
        lookup_insert_self]
      rfl

theorem isSome_insertAll (member : key ∈ entries.map Prod.fst) :
    (insertAll map entries)[key]?.isSome = true := by
  induction entries generalizing map with
  | nil => cases member
  | cons entry rest ih =>
      show (insertAll (map.insert entry.1 entry.2) rest)[key]?.isSome = true
      by_cases later : key ∈ rest.map Prod.fst
      · exact ih later
      · rw [List.map_cons,List.mem_cons] at member
        have atHead := member.resolve_right later
        rw [insertAll_of_notMem _ later,atHead,lookup_insert_self]
        rfl

theorem insertAll_of_iff {found : Option β}
    (entriesOf : ∀ value, (key,value) ∈ entries ↔ found = some value) :
    (insertAll (∅ : ExtTreeMap α β cmp) entries)[key]? = found := by
  cases found with
  | none =>
      have absent : key ∉ entries.map Prod.fst := by
        intro member
        obtain ⟨⟨_,value⟩,inEntries,rfl⟩ := List.mem_map.mp member
        cases (entriesOf value).mp inEntries
      rw [insertAll_of_notMem _ absent,ExtTreeMap.getElem?_empty]
  | some value =>
      have member : key ∈ entries.map Prod.fst :=
        List.mem_map.mpr ⟨(key,value),(entriesOf value).mpr rfl,rfl⟩
      have present : (insertAll (∅ : ExtTreeMap α β cmp) entries)[key]?.isSome = true :=
        isSome_insertAll member
      obtain ⟨held,lookup⟩ := Option.isSome_iff_exists.mp present
      rcases insertAll_eq_some lookup with inEntries | ⟨absent,-⟩
      · rw [lookup,(entriesOf held).mp inEntries]
      · exact absurd member absent

/-- Every entry whose key is new is inserted; an earlier entry wins. -/
def insertAllIfNew (map : ExtTreeMap α β cmp) (entries : List (α × β)) : ExtTreeMap α β cmp :=
  entries.foldl (fun current entry => current.insertIfNew entry.1 entry.2) map

theorem insertAllIfNew_lookup (map : ExtTreeMap α β cmp) (entries : List (α × β)) (key : α) :
    (insertAllIfNew map entries)[key]? =
      map[key]?.or ((entries.find? fun entry => entry.1 = key).map Prod.snd) := by
  induction entries generalizing map with
  | nil => exact (Option.or_none).symm
  | cons entry rest ih =>
      refine (ih (map.insertIfNew entry.1 entry.2)).trans ?_
      rw [lookup_insertIfNew,List.find?_cons]
      by_cases same : entry.1 = key
      · cases found : map[key]? with
        | none => simp [same]
        | some value => simp [same]
      · simp [same]

def replaceAll (keyOf : β → α) (map : ExtTreeMap α β cmp) (values : List β) :
    ExtTreeMap α β cmp :=
  values.foldl (fun current value => current.modify (keyOf value) fun _ => value) map

theorem replaceAll_of_notMem (map : ExtTreeMap α β cmp) (absent : key ∉ values.map keyOf) :
    (replaceAll keyOf map values)[key]? = map[key]? := by
  induction values generalizing map with
  | nil => rfl
  | cons value rest ih =>
      rw [List.map_cons,List.mem_cons,not_or] at absent
      show (replaceAll keyOf (map.modify (keyOf value) fun _ => value) rest)[key]? = map[key]?
      rw [ih _ absent.2,lookup_modify,if_neg (Ne.symm absent.1)]

theorem replaceAll_of_mem (map : ExtTreeMap α β cmp) (distinct : (values.map keyOf).Nodup)
    (member : value ∈ values) :
    (replaceAll keyOf map values)[keyOf value]? = map[keyOf value]?.map fun _ => value := by
  induction values generalizing map with
  | nil => cases member
  | cons head rest ih =>
      rw [List.map_cons,List.nodup_cons] at distinct
      show (replaceAll keyOf (map.modify (keyOf head) fun _ => head) rest)[keyOf value]? = _
      rcases List.mem_cons.mp member with rfl | inRest
      · rw [replaceAll_of_notMem _ distinct.1,lookup_modify,if_pos rfl]
      · have different : keyOf head ≠ keyOf value := fun same =>
          distinct.1 (same ▸ List.mem_map_of_mem inRest)
        rw [ih _ distinct.2 inRest,lookup_modify,if_neg different]

variable (cmp) in
/-- The items in order, each once. -/
def sortDedup (items : List α) : List α :=
  (ExtTreeSet.ofList items cmp).toList

theorem mem_sortDedup {items : List α} {item : α} : item ∈ sortDedup cmp items ↔ item ∈ items := by
  rw [sortDedup,ExtTreeSet.mem_toList,ExtTreeSet.mem_ofList,List.contains_iff_mem]

theorem sortDedup_congr {first second : List α}
    (same : ∀ item, item ∈ first ↔ item ∈ second) : sortDedup cmp first = sortDedup cmp second := by
  have sameSet : ExtTreeSet.ofList first cmp = ExtTreeSet.ofList second cmp := by
    refine ExtTreeSet.ext_mem fun item => ?_
    rw [ExtTreeSet.mem_ofList,ExtTreeSet.mem_ofList,List.contains_iff_mem,List.contains_iff_mem,
      same]
  rw [sortDedup,sortDedup,sameSet]

omit [DecidableEq α] in
theorem nodup_sortDedup (items : List α) : (sortDedup cmp items).Nodup :=
  ExtTreeSet.distinct_toList.imp fun different same =>
    different (by rw [same]; exact ReflCmp.compare_self)

end KeyMap
