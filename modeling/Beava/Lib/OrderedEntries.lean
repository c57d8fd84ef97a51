/-
Lists of entries and the maps that they make.

A map made of a list has the last value of each key, and lists its entries in the
order of the keys.  The list comes back as it was when its keys go up strictly, and
in some order when they are distinct.
-/

import Beava.Lib.KeyMap

namespace OrderedEntries

open Std

variable {α β γ : Type} {cmp : α → α → Ordering} [TransCmp cmp] [LawfulEqCmp cmp] [DecidableEq α]
variable {entries : List (α × β)}

variable (cmp) in
/-- The entries of the map, in the order of the keys. -/
def collected (entries : List (α × β)) : List (α × β) := (ExtTreeMap.ofList entries cmp).toList

def mapValues (change : β → γ) (entries : List (α × β)) : List (α × γ) :=
  entries.map fun entry => (entry.1,change entry.2)

omit [LawfulEqCmp cmp] [DecidableEq α] in
theorem ofList_eq_insertAll (entries : List (α × β)) :
    ExtTreeMap.ofList entries cmp = KeyMap.insertAll ∅ entries :=
  ExtTreeMap.ofList_eq_foldl

theorem ofList_lookup (entries : List (α × β)) (key : α) :
    (ExtTreeMap.ofList entries cmp)[key]? =
      (entries.reverse.find? fun entry => entry.1 = key).map Prod.snd := by
  rw [ofList_eq_insertAll,KeyMap.insertAll_lookup,ExtTreeMap.getElem?_empty,Option.or_none]

omit [LawfulEqCmp cmp] [DecidableEq α] in
theorem nodup_keys (map : ExtTreeMap α β cmp) : (map.toList.map Prod.fst).Nodup := by
  rw [ExtTreeMap.map_fst_toList_eq_keys]
  exact ExtTreeMap.nodup_keys

omit [DecidableEq α] in
theorem mem_toList_iff {map : ExtTreeMap α β cmp} {entry : α × β} :
    entry ∈ map.toList ↔ map[entry.1]? = some entry.2 :=
  ExtTreeMap.mem_toList_iff_getElem?_eq_some

theorem ofList_toList (map : ExtTreeMap α β cmp) : ExtTreeMap.ofList map.toList cmp = map := by
  apply ExtTreeMap.ext_getElem?
  intro key
  rw [ofList_eq_insertAll]
  apply KeyMap.insertAll_of_iff
  intro value
  exact mem_toList_iff

theorem collected_mapValues (change : β → γ) (entries : List (α × β)) :
    collected cmp (mapValues change entries) = mapValues change (collected cmp entries) := by
  have lookups : ExtTreeMap.ofList (mapValues change entries) cmp =
      (ExtTreeMap.ofList entries cmp).map fun _ => change := by
    apply ExtTreeMap.ext_getElem?
    intro key
    rw [ExtTreeMap.getElem?_map,ofList_lookup,ofList_lookup,mapValues,← List.map_reverse,
      List.find?_map,Option.map_map,Option.map_map]
    rfl
  rw [collected,lookups,ExtTreeMap.toList_map]
  rfl

theorem collected_collected (entries : List (α × β)) :
    collected cmp (collected cmp entries) = collected cmp entries := by
  rw [collected,collected,ofList_toList]

theorem collected_perm (distinct : (entries.map Prod.fst).Nodup) :
    (collected cmp entries).Perm entries := by
  have collectedNodup : (collected cmp entries).Nodup := (nodup_keys _).of_map
  apply (List.perm_ext_iff_of_nodup collectedNodup distinct.of_map).mpr
  intro entry
  rw [collected,mem_toList_iff,ofList_eq_insertAll]
  constructor
  · intro found
    rcases KeyMap.insertAll_eq_some found with member | ⟨_,impossible⟩
    · exact member
    · rw [ExtTreeMap.getElem?_empty] at impossible
      cases impossible
  · exact KeyMap.insertAll_of_mem distinct

omit [LawfulEqCmp cmp] [DecidableEq α] in
theorem collected_nodup (entries : List (α × β)) :
    ((collected cmp entries).map Prod.fst).Nodup := nodup_keys _

omit [DecidableEq α] in
theorem eq_of_perm_of_keys {first second : List (α × β)} (perm : first.Perm second)
    (keys : first.map Prod.fst = second.map Prod.fst) (distinct : (first.map Prod.fst).Nodup) :
    first = second := by
  induction first generalizing second with
  | nil => exact perm.nil_eq
  | cons entry rest ih =>
      cases second with
      | nil => cases keys
      | cons other others =>
          obtain ⟨fresh,distinctRest⟩ := List.nodup_cons.mp distinct
          obtain ⟨sameKey,sameKeys⟩ := List.cons.inj keys
          have sameEntry : entry = other := by
            rcases List.mem_cons.mp (perm.mem_iff.mp List.mem_cons_self) with same | inRest
            · exact same
            · have inKeys : entry.1 ∈ others.map Prod.fst := List.mem_map_of_mem inRest
              rw [← sameKeys] at inKeys
              exact absurd inKeys fresh
          subst sameEntry
          rw [ih (perm.cons_inv) sameKeys distinctRest]

/-- Keys that go up strictly. -/
def Ascending (cmp : α → α → Ordering) (entries : List (α × β)) : Prop :=
  entries.Pairwise fun first second => cmp first.1 second.1 = .lt

omit [LawfulEqCmp cmp] [DecidableEq α] in
theorem Ascending.nodup (ascending : Ascending cmp entries) : (entries.map Prod.fst).Nodup := by
  rw [List.Nodup,List.pairwise_map]
  apply List.Pairwise.imp _ ascending
  intro first second below same
  have equal : cmp second.1 second.1 = .eq := ReflCmp.compare_self
  rw [same,equal] at below
  cases below

theorem collected_eq_of_perm {listed : List (α × β)} (same : entries.Perm listed)
    (ascending : Ascending cmp listed) : collected cmp entries = listed := by
  have distinct : (entries.map Prod.fst).Nodup :=
    (same.map Prod.fst).nodup_iff.mpr ascending.nodup
  apply ((collected_perm distinct).trans same).eq_of_pairwise
  · intro first second _ _ below above
    have equal : cmp first.1 first.1 = .eq := ReflCmp.compare_self
    have impossible : cmp first.1 first.1 = .lt := TransCmp.lt_trans below above
    rw [equal] at impossible
    cases impossible
  · exact ExtTreeMap.ordered_keys_toList
  · exact ascending

omit [LawfulEqCmp cmp] [DecidableEq α] in
theorem collected_ascending (entries : List (α × β)) : Ascending cmp (collected cmp entries) :=
  ExtTreeMap.ordered_keys_toList

theorem collected_eq_iff : collected cmp entries = entries ↔ Ascending cmp entries := by
  constructor
  · intro same
    rw [← same]
    exact collected_ascending entries
  · exact collected_eq_of_perm (.refl entries)

omit [TransCmp cmp] [LawfulEqCmp cmp] [DecidableEq α] in
theorem ascending_iff_keys :
    Ascending cmp entries ↔
      (entries.map Prod.fst).Pairwise fun first second => cmp first second = .lt := by
  rw [Ascending,List.pairwise_map]

omit [DecidableEq α] in
theorem keys_mapValues (change : β → γ) (entries : List (α × β)) :
    (mapValues change entries).map Prod.fst = entries.map Prod.fst := by
  rw [mapValues,List.map_map]
  rfl

end OrderedEntries
