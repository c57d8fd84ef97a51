/-
A champion that meets its own kind only.

The first item holds the title, and an item takes it when it is of the same kind
and ranks lower.  The champion is the least item of the kind of the first.  Items
that come in groups elect a champion each, and the champions meet in turn.
-/

import Mathlib.Data.List.Basic
import Mathlib.Data.List.Induction
import Mathlib.Order.Lattice

namespace Champion

variable {α κ β : Type} [DecidableEq κ] [LinearOrder β] (kind : α → κ) (rank : α → β)

def challenge (champion : Option α) (item : α) : Option α :=
  match champion with
  | none => some item
  | some best => if kind item = kind best ∧ rank item < rank best then some item else some best

def champion (items : List α) : Option α := items.foldl (challenge kind rank) none

structure Least (items : List α) (best : α) : Prop where
  member : best ∈ items
  pinned : items.head?.map kind = some (kind best)
  least : ∀ item ∈ items, kind item = kind best → rank best ≤ rank item

variable {kind rank} {items : List α} {best item : α}

theorem Least.challenge (least : Least kind rank items best) (item : α) :
    ∃ next, challenge kind rank (some best) item = some next ∧
      Least kind rank (items ++ [item]) next := by
  have head : (items ++ [item]).head?.map kind = some (kind best) := by
    obtain ⟨first,rest,rfl⟩ := List.exists_cons_of_ne_nil (List.ne_nil_of_mem least.member)
    exact least.pinned
  rw [Champion.challenge]
  by_cases wins : kind item = kind best ∧ rank item < rank best
  · obtain ⟨sameKind,lower⟩ := wins
    refine ⟨item,if_pos ⟨sameKind,lower⟩,?_,?_,?_⟩
    · exact List.mem_append_right _ List.mem_cons_self
    · rw [head,sameKind]
    · intro other member otherKind
      rcases List.mem_append.mp member with earlier | last
      · exact le_of_lt (lt_of_lt_of_le lower
          (least.least other earlier (otherKind.trans sameKind)))
      · rw [List.mem_singleton.mp last]
  · refine ⟨best,if_neg wins,List.mem_append_left _ least.member,head,?_⟩
    intro other member otherKind
    rcases List.mem_append.mp member with earlier | last
    · exact least.least other earlier otherKind
    · rw [List.mem_singleton.mp last] at otherKind ⊢
      exact not_lt.mp fun lower => wins ⟨otherKind,lower⟩

theorem champion_least (nonempty : items ≠ []) :
    ∃ best, champion kind rank items = some best ∧ Least kind rank items best := by
  induction items using List.reverseRecOn with
  | nil => exact absurd rfl nonempty
  | append_singleton items item ih =>
      rw [champion,List.foldl_concat]
      cases items with
      | nil =>
          refine ⟨item,rfl,List.mem_cons_self,rfl,?_⟩
          intro other member _
          rw [List.mem_singleton.mp member]
      | cons first rest =>
          obtain ⟨best,elected,least⟩ := ih (List.cons_ne_nil first rest)
          rw [champion] at elected
          rw [elected]
          exact least.challenge item

def grandChampion (kind : α → κ) (rank : α → β) (groups : List (List α)) : Option α :=
  champion kind rank (groups.filterMap (champion kind rank))

variable {groups : List (List α)}

/-- The kind of the first item of the first group that has one. -/
def pinnedKind (kind : α → κ) (groups : List (List α)) : Option κ := groups.flatten.head?.map kind

theorem champion_kind (group : List α) :
    (champion kind rank group).map kind = group.head?.map kind := by
  cases group with
  | nil => rfl
  | cons first rest =>
      obtain ⟨best,elected,least⟩ :=
        @champion_least _ _ _ _ _ kind rank _ (List.cons_ne_nil first rest)
      rw [elected,Option.map_some,least.pinned]

theorem champions_kind (groups : List (List α)) :
    (groups.filterMap (champion kind rank)).head?.map kind = pinnedKind kind groups := by
  induction groups with
  | nil => rfl
  | cons group groups ih =>
      have same := @champion_kind _ _ _ _ _ kind rank group
      cases elected : champion kind rank group with
      | none =>
          rw [elected,Option.map_none,eq_comm,Option.map_eq_none_iff,
            List.head?_eq_none_iff] at same
          rw [List.filterMap_cons_none elected,ih,same]
          rfl
      | some best =>
          rw [elected,Option.map_some] at same
          rw [List.filterMap_cons_some elected]
          obtain ⟨first,rest,rfl⟩ : ∃ first rest, group = first :: rest := by
            apply List.exists_cons_of_ne_nil
            intro empty
            rw [empty] at same
            cases same
          exact same

/-- What is left when the champions of the groups have met: the least of the pinned
kind among the groups that this kind heads. -/
structure GrandLeast (kind : α → κ) (rank : α → β) (groups : List (List α)) (best : α) : Prop where
  pinned : pinnedKind kind groups = some (kind best)
  member : ∃ group ∈ groups, group.head?.map kind = some (kind best) ∧ best ∈ group
  least : ∀ group ∈ groups, group.head?.map kind = some (kind best) →
    ∀ item ∈ group, kind item = kind best → rank best ≤ rank item

theorem grandChampion_least (nonempty : groups.flatten ≠ []) :
    ∃ best, grandChampion kind rank groups = some best ∧ GrandLeast kind rank groups best := by
  have some_of_mem : ∀ group ∈ groups, ∀ item ∈ group,
      ∃ best, champion kind rank group = some best ∧ Least kind rank group best :=
    fun group _ item member => champion_least (List.ne_nil_of_mem member)
  have entered : groups.filterMap (champion kind rank) ≠ [] := by
    obtain ⟨item,inGroups⟩ := List.exists_mem_of_ne_nil _ nonempty
    obtain ⟨group,isGroup,member⟩ := List.mem_flatten.mp inGroups
    obtain ⟨best,elected,-⟩ := some_of_mem group isGroup item member
    exact List.ne_nil_of_mem (List.mem_filterMap.mpr ⟨group,isGroup,elected⟩)
  obtain ⟨best,elected,least⟩ := @champion_least _ _ _ _ _ kind rank _ entered
  refine ⟨best,elected,?_,?_,?_⟩
  · rw [← @champions_kind _ _ _ _ _ kind rank,least.pinned]
  · obtain ⟨group,isGroup,isBest⟩ := List.mem_filterMap.mp least.member
    refine ⟨group,isGroup,?_,?_⟩
    · rw [← @champion_kind _ _ _ _ _ kind rank,isBest,Option.map_some]
    · have nonemptyGroup : group ≠ [] := by
        intro empty
        rw [empty] at isBest
        cases isBest
      obtain ⟨other,isOther,leastOther⟩ := @champion_least _ _ _ _ _ kind rank _
        nonemptyGroup
      rw [isBest,Option.some.injEq] at isOther
      subst isOther
      exact leastOther.member
  · intro group isGroup headed item member sameKind
    obtain ⟨other,isOther,leastOther⟩ := some_of_mem group isGroup item member
    have otherKind : kind other = kind best := by
      have pinned := leastOther.pinned
      rw [headed,Option.some.injEq] at pinned
      exact pinned.symm
    exact le_trans
      (least.least other (List.mem_filterMap.mpr ⟨group,isGroup,isOther⟩) otherKind)
      (leastOther.least item member (sameKind.trans otherKind.symm))

end Champion
