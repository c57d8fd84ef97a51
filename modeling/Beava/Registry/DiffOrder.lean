/-
The diff and the order in which a hash set yields its names.

`classify_register_diff` walks the set of registered names once, to pair the
names that the payload lacks with the added nodes.  The lists are sorted in the
end, but the pairs are not undone: the diff is a function of its arguments
exactly when no two lost names want the same added node.
-/

import Beava.Lib.Greedy
import Beava.Registry.Diff
import Mathlib.Data.List.Dedup
import Mathlib.Data.Prod.Lex
import Mathlib.Data.String.Basic

namespace Beava.Registry

open Beava.Core

variable (debugStr : String → String)
variable {order : List String}

section Sorting

variable {α : Type} {r : α → α → Prop} [DecidableRel r]

theorem orderedInsert_comm_of_lt (trans : ∀ x y z, r x y → r y z → r x z) {first second : α}
    (before : r first second) (notAfter : ¬r second first) (items : List α) :
    (items.orderedInsert r second).orderedInsert r first =
      (items.orderedInsert r first).orderedInsert r second := by
  induction items with
  | nil => simp [before,notAfter]
  | cons item rest ih =>
      by_cases secondHere : r second item
      · have firstHere : r first item := trans first second item before secondHere
        simp [before,notAfter,secondHere,firstHere]
      · by_cases firstHere : r first item
        · simp [notAfter,secondHere,firstHere]
        · simp [secondHere,firstHere,ih]

theorem insertionSort_append_perm (trans : ∀ x y z, r x y → r y z → r x z)
    (total : ∀ x y, r x y ∨ r y x) {first second : List α} (perm : first.Perm second)
    (tellsApart : ∀ x ∈ first, ∀ y ∈ first, r x y → r y x → x = y) (rest : List α) :
    (first ++ rest).insertionSort r = (second ++ rest).insertionSort r := by
  unfold List.insertionSort
  rw [List.foldr_append,List.foldr_append]
  refine perm.foldr_eq' ?_ _
  intro x isItem y isOther items
  by_cases same : x = y
  · rw [same]
  · rcases total x y with before | before
    · have notAfter : ¬r y x := fun after => same (tellsApart x isItem y isOther before after)
      exact (orderedInsert_comm_of_lt trans before notAfter items).symm
    · have notAfter : ¬r x y := fun after => same (tellsApart x isItem y isOther after before)
      exact orderedInsert_comm_of_lt trans before notAfter items

end Sorting

def lexKey (key : Nat × String × String) : Nat ×ₗ String ×ₗ String :=
  toLex (key.1,toLex (key.2.1,key.2.2))

theorem sortKeyLe_iff (first second : Nat × String × String) :
    sortKeyLe first second = true ↔ lexKey first ≤ lexKey second := by
  simp only [sortKeyLe,lexKey,Prod.Lex.toLex_le_toLex,Bool.or_eq_true,Bool.and_eq_true,
    decide_eq_true_eq]

theorem sortKeyLe_antisymm {first second : Nat × String × String}
    (before : sortKeyLe first second = true) (after : sortKeyLe second first = true) :
    first = second := by
  rw [sortKeyLe_iff] at before after
  have same := le_antisymm before after
  simpa [lexKey,Prod.ext_iff] using same

theorem sortEntries_append_perm {first second : List DiffEntry} (perm : first.Perm second)
    (tellsApart : ∀ x ∈ first, ∀ y ∈ first, x.sortKey debugStr = y.sortKey debugStr → x = y)
    (rest : List DiffEntry) :
    sortEntries debugStr (first ++ rest) = sortEntries debugStr (second ++ rest) := by
  refine insertionSort_append_perm ?_ ?_ perm ?_ rest
  · intro x y z
    simp only [sortKeyLe_iff]
    exact le_trans
  · intro x y
    simp only [sortKeyLe_iff]
    exact le_total _ _
  · intro x isItem y isOther before after
    exact tellsApart x isItem y isOther (sortKeyLe_antisymm before after)

variable {Expr : Type} (prev : RegistryInner Expr) (payload : List PayloadNode)

/-- The added names a lost name can be paired with, in the order of the
payload. -/
def renameTargets (removed : String) : List String :=
  ((addedNodes prev payload).filter fun node =>
    node.kindStr = currentDescriptorKind prev removed).map PayloadNode.name

theorem pairRename_eq_take (paired : List (String × String)) (removed : String) :
    pairRename prev (addedNodes prev payload) paired removed =
      Greedy.take (renameTargets prev payload) paired removed := by
  unfold pairRename Greedy.take renameTargets
  rw [List.find?_map,List.find?_filter]
  have samePredicate : (fun node : PayloadNode =>
      !(paired.map Prod.snd).contains node.name &&
        decide (node.kindStr = currentDescriptorKind prev removed)) =
      fun node => decide (decide (node.kindStr = currentDescriptorKind prev removed) = true ∧
        decide (node.name ∉ paired.map Prod.snd) = true) := by
    funext node
    simp [Bool.and_comm]
  rw [samePredicate]
  simp only [Function.comp_def]
  cases (addedNodes prev payload).find? _ <;> rfl

theorem pairRenames_eq_assign (removed : List String) :
    pairRenames prev payload removed = Greedy.assign (renameTargets prev payload) removed := by
  unfold pairRenames Greedy.assign
  refine congrArg (fun step => removed.foldl step []) ?_
  funext paired name
  exact pairRename_eq_take prev payload paired name

variable {prev payload}

theorem changedFieldType_ne_rename {owner : String} {fields : StrMap FieldType}
    {entry : String × FieldType} {source target : String} :
    changedFieldType owner fields entry ≠ some (.rename source target) := by
  unfold changedFieldType
  split
  · simp
  · split <;> simp

theorem classifyOpChange_no_rename {table source target : String} {prevOp newOp : OpNode} :
    .rename source target ∉ (classifyOpChange table prevOp newOp).destructive := by
  unfold classifyOpChange
  split
  · simp only [concatDiffs_eq,List.flatMap_cons,List.flatMap_map,List.flatMap_nil,
      List.append_nil,List.mem_append,List.mem_flatMap,not_or,not_exists,not_and]
    refine ⟨?_,?_⟩
    · split <;> simp
    · intro spec _ renamed
      unfold classifyPrevSpec classifySpecChange at renamed
      split at renamed
      · simp at renamed
      · rw [List.mem_append] at renamed
        rcases renamed with inWindow | inOp
        · split at inWindow <;> simp at inWindow
        · split at inOp <;> simp at inOp
  · exact List.not_mem_nil

theorem classifyPresentNode_no_rename {node : PayloadNode} {source target : String} :
    .rename source target ∉ (classifyPresentNode prev node).destructive := by
  cases node with
  | event new =>
      simp only [classifyPresentNode]
      cases prev.events[new.name]? with
      | none => exact List.not_mem_nil
      | some old =>
          intro renamed
          obtain ⟨entry,-,isRename⟩ := List.mem_filterMap.mp renamed
          exact changedFieldType_ne_rename isRename
  | table new =>
      simp only [classifyPresentNode]
      cases prev.tables[new.name]? with
      | none => exact List.not_mem_nil
      | some old =>
          intro renamed
          rcases List.mem_append.mp renamed with inKey | inFields
          · split at inKey <;> simp at inKey
          · obtain ⟨entry,-,isRename⟩ := List.mem_filterMap.mp inFields
            exact changedFieldType_ne_rename isRename
  | derivation new =>
      simp only [classifyPresentNode]
      cases prev.derivations[new.name]? with
      | none => exact List.not_mem_nil
      | some old =>
          simp only [classifyDerivationChanges,concatDiffs_eq,List.flatMap_cons,
            List.flatMap_nil,List.append_nil,List.mem_append,not_or]
          refine ⟨?_,?_,?_⟩
          · intro renamed
            obtain ⟨entry,-,isRename⟩ := List.mem_map.mp renamed
            cases isRename
          · rw [← List.map_uncurry_zip_eq_zipWith,List.flatMap_map,List.mem_flatMap]
            rintro ⟨ops,-,renamed⟩
            exact classifyOpChange_no_rename renamed
          · split <;> simp

theorem classifyNode_destructive (paired : List (String × String)) (node : PayloadNode) :
    (classifyNode prev paired node).destructive =
      if prev.known node.name then (classifyPresentNode prev node).destructive else [] := by
  unfold classifyNode
  split
  · simp only
    split
    · rename_i noChange
      rw [Bool.and_eq_true,List.isEmpty_iff,List.isEmpty_iff] at noChange
      exact noChange.2.symm
    · rfl
  · split <;> rfl

theorem mem_rename_iff {removed : List String} {source target : String} :
    .rename source target ∈ (classifyInOrder debugStr prev payload removed).destructive ↔
      (source,target) ∈ pairRenames prev payload removed := by
  simp only [classifyInOrder,sortEntries,List.mem_insertionSort,List.mem_append,List.mem_map,
    concatDiffs_eq,List.mem_flatMap,exists_exists_and_eq_and]
  constructor
  · rintro ((⟨pair,member,same⟩ | ⟨name,-,impossible⟩) | ⟨node,-,renamed⟩)
    · cases same
      exact member
    · cases impossible
    · rw [classifyNode_destructive] at renamed
      split at renamed
      · exact absurd renamed classifyPresentNode_no_rename
      · cases renamed
  · intro member
    exact .inl (.inl ⟨(source,target),member,rfl⟩)

/-- The entries for the names that the payload lacks. -/
def lostEntries (removed : List String) (paired : List (String × String)) : List DiffEntry :=
  (paired.map fun pair => DiffEntry.rename pair.1 pair.2) ++
    (removed.filter fun name => !(paired.map Prod.fst).contains name).map fun name =>
      DiffEntry.aggRemoval name ""

theorem lostEntries_tellsApart (removed : List String) (paired : List (String × String)) :
    ∀ first ∈ lostEntries removed paired, ∀ second ∈ lostEntries removed paired,
      first.sortKey debugStr = second.sortKey debugStr → first = second := by
  intro first isFirst second isSecond same
  simp only [lostEntries,List.mem_append,List.mem_map] at isFirst isSecond
  rcases isFirst with ⟨pair,-,rfl⟩ | ⟨name,-,rfl⟩ <;>
    rcases isSecond with ⟨other,-,rfl⟩ | ⟨other,-,rfl⟩ <;>
    simp_all [DiffEntry.sortKey]

theorem lostEntries_perm {first second : List String} {paired others : List (String × String)}
    (perm : first.Perm second) (samePairs : paired.Perm others) :
    (lostEntries first paired).Perm (lostEntries second others) := by
  refine List.Perm.append (samePairs.map _) (List.Perm.map _ ?_)
  have sameFilter : (fun name => !(paired.map Prod.fst).contains name) =
      fun name => !(others.map Prod.fst).contains name := by
    funext name
    simp only [List.contains_eq_mem,(samePairs.map Prod.fst).mem_iff]
  rw [sameFilter]
  exact perm.filter _

theorem classifyNode_perm {paired others : List (String × String)}
    (samePairs : paired.Perm others) :
    classifyNode prev paired = classifyNode prev others := by
  funext node
  simp only [classifyNode,List.contains_eq_mem,(samePairs.map Prod.snd).mem_iff]

theorem classifyInOrder_perm {first second : List String} (perm : first.Perm second)
    (samePairs : (pairRenames prev payload first).Perm (pairRenames prev payload second)) :
    classifyInOrder debugStr prev payload first = classifyInOrder debugStr prev payload second := by
  have sameDestructive := sortEntries_append_perm debugStr (lostEntries_perm perm samePairs)
    (lostEntries_tellsApart debugStr first (pairRenames prev payload first))
    (concatDiffs (payload.map (classifyNode prev (pairRenames prev payload first)))).destructive
  unfold classifyInOrder
  simp only [RegisterDiff.mk.injEq]
  rw [classifyNode_perm samePairs] at sameDestructive ⊢
  exact ⟨rfl,sameDestructive,rfl⟩

/-- A hash set yields each of its members once, in some order. -/
structure IterationOrder (prev : RegistryInner Expr) (order : List String) : Prop where
  nodup : order.Nodup
  members : ∀ name, name ∈ order ↔ name ∈ currentNames prev

/-- `classify_register_diff` when the set of registered names is walked in the
given order. -/
def classifyWalking (debugStr : String → String) (prev : RegistryInner Expr)
    (payload : List PayloadNode) (order : List String) : RegisterDiff :=
  classifyInOrder debugStr prev payload
    (order.filter fun name => !(payload.map PayloadNode.name).contains name)

/-- Two registered names that the payload lacks do not both have the same added
name as the first one of their kind. -/
def RenamesUncontested (prev : RegistryInner Expr) (payload : List PayloadNode) : Prop :=
  Greedy.Uncontested (renameTargets prev payload) (removedNames prev payload)

theorem nodup_removedNames : (removedNames prev payload).Nodup :=
  (List.nodup_dedup _).filter _

theorem IterationOrder.lost (iterates : IterationOrder prev order) (payload : List PayloadNode) :
    (order.filter fun name => !(payload.map PayloadNode.name).contains name).Perm
      (removedNames prev payload) := by
  refine List.Perm.filter _ ?_
  rw [List.perm_ext_iff_of_nodup iterates.nodup (List.nodup_dedup _)]
  intro name
  rw [iterates.members,List.mem_dedup]

theorem exists_iterationOrder {lost : List String} (perm : lost.Perm (removedNames prev payload)) :
    ∃ order, IterationOrder prev order ∧
      (order.filter fun name => !(payload.map PayloadNode.name).contains name) = lost := by
  let kept := (currentNames prev).dedup.filter fun name =>
    (payload.map PayloadNode.name).contains name
  have inLost : ∀ name, name ∈ lost ↔
      name ∈ currentNames prev ∧ name ∉ payload.map PayloadNode.name := by
    intro name
    rw [perm.mem_iff,removedNames,List.mem_filter,List.mem_dedup,List.contains_eq_mem,
      Bool.not_eq_true',decide_eq_false_iff_not]
  have inKept : ∀ name, name ∈ kept ↔
      name ∈ currentNames prev ∧ name ∈ payload.map PayloadNode.name := by
    intro name
    rw [List.mem_filter,List.mem_dedup,List.contains_eq_mem,decide_eq_true_eq]
  refine ⟨lost ++ kept,⟨?_,?_⟩,?_⟩
  · rw [List.nodup_append]
    refine ⟨perm.nodup_iff.mpr nodup_removedNames,(List.nodup_dedup _).filter _,?_⟩
    intro name isLost other isKept same
    subst same
    exact ((inLost name).mp isLost).2 ((inKept name).mp isKept).2
  · intro name
    rw [List.mem_append,inLost,inKept,← and_or_left]
    exact and_iff_left (Classical.em _).symm
  · rw [List.filter_append,List.filter_eq_self.mpr,List.filter_eq_nil_iff.mpr,List.append_nil]
    · intro name isKept
      rw [List.contains_eq_mem,decide_eq_true ((inKept name).mp isKept).2]
      exact Bool.false_ne_true
    · intro name isLost
      rw [List.contains_eq_mem,decide_eq_false ((inLost name).mp isLost).2]
      rfl

/-- The diff is the same for every two walks over the registered names exactly
when the renames are uncontested. -/
theorem classifyWalking_eq_iff (debugStr : String → String) (prev : RegistryInner Expr)
    (payload : List PayloadNode) :
    (∀ first second : List String, IterationOrder prev first → IterationOrder prev second →
      classifyWalking debugStr prev payload first = classifyWalking debugStr prev payload second) ↔
      RenamesUncontested prev payload := by
  constructor
  · intro same
    refine Greedy.uncontested_of_assign ?_
    intro first second firstPerm secondPerm entry inFirst
    obtain ⟨firstOrder,firstWalk,firstLost⟩ := exists_iterationOrder firstPerm
    obtain ⟨secondOrder,secondWalk,secondLost⟩ := exists_iterationOrder secondPerm
    have sameDiff := same firstOrder secondOrder firstWalk secondWalk
    rw [classifyWalking,classifyWalking,firstLost,secondLost] at sameDiff
    rw [← pairRenames_eq_assign] at inFirst ⊢
    have renamed := (mem_rename_iff debugStr).mpr inFirst
    rw [sameDiff] at renamed
    exact (mem_rename_iff debugStr).mp renamed
  · intro uncontested first second firstWalk secondWalk
    have firstLost := firstWalk.lost payload
    have secondLost := secondWalk.lost payload
    have perm := firstLost.trans secondLost.symm
    refine classifyInOrder_perm debugStr perm ?_
    rw [pairRenames_eq_assign,pairRenames_eq_assign]
    exact Greedy.assign_perm perm (secondLost.nodup_iff.mpr nodup_removedNames)
      (uncontested.perm secondLost)

def plainEvent (name : String) : EventDescriptor :=
  { name := name
    schema := ⟨.ofList [("k",FieldType.str)],[]⟩
    dedupeKey := none
    dedupeWindowMs := none
    keepEventsForMs := none
    coldAfterMs := none
    registeredAtVersion := 0
    applyFieldNames := [] }

def twoEvents : RegistryInner Empty :=
  { RegistryInner.empty with
    version := 1
    events := .ofList
      [("A",{ plainEvent "A" with registeredAtVersion := 1 }),
       ("B",{ plainEvent "B" with registeredAtVersion := 1 })] }

theorem iterationOrder_of_perm (nodup : (currentNames prev).Nodup)
    (perm : order.Perm (currentNames prev)) : IterationOrder prev order :=
  ⟨perm.nodup_iff.mpr nodup,fun _ => perm.mem_iff⟩

/-- Two events are replaced by two others; each of the two walks pairs them in
its own way. -/
theorem twoEvents_diff_depends_on_order :
    IterationOrder twoEvents ["A","B"] ∧ IterationOrder twoEvents ["B","A"] ∧
      classifyWalking String.quote twoEvents
          [.event (plainEvent "C"),.event (plainEvent "D")] ["A","B"] ≠
        classifyWalking String.quote twoEvents
          [.event (plainEvent "C"),.event (plainEvent "D")] ["B","A"] := by
  refine ⟨iterationOrder_of_perm ?_ ?_,iterationOrder_of_perm ?_ ?_,?_⟩ <;> decide

end Beava.Registry
