/-
Cells between edges.

A list of edges splits a linear order into one cell more than there are edges.  A scan
finds the first edge above a value; it finds the only cell of every value exactly when
the edges do not decrease.  When the cells are reported under labels, a label has the
count of its last cell.
-/

import Beava.Lib.Tally
import Mathlib.Data.List.Induction
import Mathlib.Order.Lattice

namespace Cells

variable {κ : Type} [LinearOrder κ]

/-- The position of the first edge above the value. -/
def cellOf (edges : List κ) (value : κ) : Nat := edges.findIdx fun edge => value < edge

/-- The value is not below the edge in front of the cell, and below the one behind. -/
def inCell (edges : List κ) (cell : Nat) (value : κ) : Bool :=
  (cell == 0 || edges[cell - 1]?.all fun edge => edge ≤ value) &&
    edges[cell]?.all fun edge => value < edge

variable {edges : List κ} {value : κ} {cell other : Nat}

theorem inCell_iff : inCell edges cell value = true ↔
    (∀ before, cell = before + 1 → ∀ edge, edges[before]? = some edge → edge ≤ value) ∧
      ∀ edge, edges[cell]? = some edge → value < edge := by
  rw [inCell,Bool.and_eq_true,Bool.or_eq_true,beq_iff_eq]
  simp only [Option.all_eq_true_iff_get,Option.isSome_iff_exists,decide_eq_true_iff]
  constructor
  · intro both
    obtain ⟨front,behind⟩ := both
    constructor
    · intro before isNext edge found
      subst isNext
      have present := front.resolve_left (Nat.succ_ne_zero before)
      rw [Nat.add_sub_cancel] at present
      have holds := present ⟨edge,found⟩
      simp only [found,Option.get_some] at holds
      exact holds
    · intro edge found
      have holds := behind ⟨edge,found⟩
      simp only [found,Option.get_some] at holds
      exact holds
  · intro both
    obtain ⟨front,behind⟩ := both
    constructor
    · rcases Nat.eq_zero_or_pos cell with isZero | above
      · exact .inl isZero
      · right
        intro present
        obtain ⟨edge,found⟩ := present
        simp only [found,Option.get_some]
        exact front (cell - 1) (by omega) edge found
    · intro present
      obtain ⟨edge,found⟩ := present
      simp only [found,Option.get_some]
      exact behind edge found

theorem cellOf_le (edges : List κ) (value : κ) : cellOf edges value ≤ edges.length :=
  List.findIdx_le_length

theorem le_of_before {edge : κ} (before : other < cellOf edges value)
    (found : edges[other]? = some edge) : edge ≤ value := by
  have notAbove := List.not_of_lt_findIdx before
  obtain ⟨inside,rfl⟩ := List.getElem?_eq_some_iff.mp found
  exact not_lt.mp (of_decide_eq_false notAbove)

theorem lt_of_at {edge : κ} (found : edges[cellOf edges value]? = some edge) : value < edge := by
  obtain ⟨inside,rfl⟩ := List.getElem?_eq_some_iff.mp found
  exact of_decide_eq_true (List.findIdx_getElem (w := inside))

theorem inCell_cellOf (edges : List κ) (value : κ) :
    inCell edges (cellOf edges value) value = true := by
  rw [inCell_iff]
  constructor
  · intro before isNext edge found
    exact le_of_before (isNext ▸ Nat.lt_succ_self before) found
  · intro edge found
    exact lt_of_at found

theorem cellOf_le_of_inCell (inside : inCell edges cell value = true) :
    cellOf edges value ≤ cell := by
  by_contra beyond
  have before : cell < cellOf edges value := Nat.lt_of_not_le beyond
  have listed : cell < edges.length := Nat.lt_of_lt_of_le before (cellOf_le edges value)
  have found : edges[cell]? = some edges[cell] := List.getElem?_eq_getElem listed
  exact absurd ((inCell_iff.mp inside).2 _ found) (not_lt.mpr (le_of_before before found))

theorem le_of_sorted (sorted : edges.Pairwise (· ≤ ·)) {first second : κ}
    (order : cell ≤ other) (foundFirst : edges[cell]? = some first)
    (foundSecond : edges[other]? = some second) : first ≤ second := by
  obtain ⟨firstInside,rfl⟩ := List.getElem?_eq_some_iff.mp foundFirst
  obtain ⟨secondInside,rfl⟩ := List.getElem?_eq_some_iff.mp foundSecond
  rcases Nat.eq_or_lt_of_le order with same | before
  · subst same
    exact le_rfl
  · exact List.pairwise_iff_getElem.mp sorted cell other firstInside secondInside before

theorem cellOf_eq_iff (sorted : edges.Pairwise (· ≤ ·)) (atMost : cell ≤ edges.length) :
    cellOf edges value = cell ↔ inCell edges cell value = true := by
  constructor
  · intro same
    rw [← same]
    exact inCell_cellOf edges value
  · intro inside
    apply Nat.le_antisymm (cellOf_le_of_inCell inside)
    by_contra beyond
    have before : cellOf edges value < cell := Nat.lt_of_not_le beyond
    obtain ⟨front,isNext⟩ : ∃ front, cell = front + 1 := ⟨cell - 1,by omega⟩
    have frontListed : front < edges.length := by omega
    have frontFound : edges[front]? = some edges[front] := List.getElem?_eq_getElem frontListed
    have listed : cellOf edges value < edges.length := by omega
    have found := List.getElem?_eq_getElem listed
    have above := lt_of_at found
    have notAbove := (inCell_iff.mp inside).1 front isNext _ frontFound
    have order := le_of_sorted sorted (by omega : cellOf edges value ≤ front) found frontFound
    exact absurd (lt_of_lt_of_le above order) (not_lt.mpr notAbove)

theorem cellOf_append_singleton (edges : List κ) (last value : κ) :
    cellOf (edges ++ [last]) value =
      if cellOf edges value < edges.length then cellOf edges value
      else if value < last then edges.length else edges.length + 1 := by
  unfold cellOf
  rw [List.findIdx_append]
  split
  · rfl
  · rw [List.findIdx_singleton]
    by_cases below : value < last
    · rw [if_pos below,decide_eq_true below]
      exact Nat.zero_add _
    · rw [if_neg below,decide_eq_false below]
      exact Nat.add_comm 1 _

theorem exists_second_cell (notSorted : ¬ edges.Pairwise (· ≤ ·)) :
    ∃ value ∈ edges, ∃ cell ≤ edges.length, inCell edges cell value = true ∧
      cell ≠ cellOf edges value := by
  induction edges using List.reverseRecOn with
  | nil => exact absurd List.Pairwise.nil notSorted
  | append_singleton edges last ih =>
      by_cases below : ∃ edge ∈ edges, last < edge
      · -- the last edge is in its own cell, and below an earlier edge
        obtain ⟨edge,member,less⟩ := below
        have found : cellOf edges last < edges.length :=
          List.findIdx_lt_length_of_exists ⟨edge,member,decide_eq_true less⟩
        refine ⟨last,List.mem_append_right _ (List.mem_singleton_self last),edges.length + 1,
          ?_,?_,?_⟩
        · rw [List.length_append]
          exact le_rfl
        · rw [inCell_iff]
          constructor
          · intro before isNext other isBefore
            rw [← Nat.succ.inj isNext,List.getElem?_concat_length,Option.some.injEq] at isBefore
            exact le_of_eq isBefore.symm
          · intro other isBehind
            rw [List.getElem?_eq_none (by rw [List.length_append]; exact le_rfl)] at isBehind
            cases isBehind
        · rw [cellOf_append_singleton,if_pos found]
          omega
      · have atMost : ∀ edge ∈ edges, edge ≤ last := by
          intro edge member
          by_contra above
          exact below ⟨edge,member,not_le.mp above⟩
        have earlier : ¬ edges.Pairwise (· ≤ ·) := by
          intro sorted
          apply notSorted
          rw [List.pairwise_append]
          refine ⟨sorted,List.pairwise_singleton _ last,?_⟩
          intro edge member other isLast
          rw [List.mem_singleton.mp isLast]
          exact atMost edge member
        obtain ⟨value,member,cell,inside,isCell,different⟩ := ih earlier
        have first := cellOf_le_of_inCell isCell
        have found : cellOf edges value < edges.length := by omega
        refine ⟨value,List.mem_append_left _ member,cell,?_,?_,?_⟩
        · rw [List.length_append]
          omega
        · rw [inCell_iff] at isCell ⊢
          constructor
          · intro before isNext edge isBefore
            rw [List.getElem?_append_left (by omega)] at isBefore
            exact isCell.1 before isNext edge isBefore
          · intro edge isBehind
            by_cases listed : cell < edges.length
            · rw [List.getElem?_append_left listed] at isBehind
              exact isCell.2 edge isBehind
            · have atEnd : cell = edges.length := by omega
              rw [atEnd,List.getElem?_concat_length,Option.some.injEq] at isBehind
              have isEdge := List.getElem?_eq_getElem found
              rw [← isBehind]
              exact lt_of_lt_of_le (lt_of_at isEdge) (atMost _ (List.getElem_mem found))
        · rw [cellOf_append_singleton,if_pos found]
          exact different

theorem cellOf_congr {alike : κ} (same : ∀ edge ∈ edges, value < edge ↔ alike < edge) :
    cellOf edges value = cellOf edges alike := by
  unfold cellOf
  induction edges with
  | nil => rfl
  | cons edge rest ih =>
      have here := same edge List.mem_cons_self
      have later := ih fun other member => same other (List.mem_cons_of_mem edge member)
      rw [List.findIdx_cons,List.findIdx_cons,later,decide_eq_decide.mpr here]

section Entries

variable {α β : Type} [DecidableEq α] {cmp : α → α → Ordering} [Std.TransCmp cmp]
  [Std.LawfulEqCmp cmp] {labels : Nat → α} {counts : List β}

def cellMap (labels : Nat → α) (counts : List β) : Std.ExtTreeMap α β cmp :=
  (counts.mapIdx fun position count => (labels position,count)).foldl
    (fun entries cell => entries.insert cell.1 cell.2) ∅

omit [DecidableEq α] [Std.LawfulEqCmp cmp] in
theorem cellMap_concat (labels : Nat → α) (counts : List β) (last : β) :
    (cellMap labels (counts ++ [last]) : Std.ExtTreeMap α β cmp) =
      (cellMap labels counts).insert (labels counts.length) last := by
  rw [cellMap,List.mapIdx_concat,List.foldl_concat,cellMap]

theorem cellMap_lookup {position : Nat} (inside : position < counts.length) :
    ∃ last, ∃ found : last < counts.length, labels last = labels position ∧
      (cellMap labels counts : Std.ExtTreeMap α β cmp)[labels position]? = some counts[last] ∧
      ∀ other < counts.length, labels other = labels position → other ≤ last := by
  induction counts using List.reverseRecOn with
  | nil => exact absurd inside (Nat.not_lt_zero position)
  | append_singleton counts count ih =>
      rw [List.length_append,List.length_singleton] at inside
      have total : (counts ++ [count]).length = counts.length + 1 := List.length_append
      by_cases isLast : labels counts.length = labels position
      · refine ⟨counts.length,by omega,isLast,?_,?_⟩
        · rw [cellMap_concat,isLast,KeyMap.lookup_insert_self,List.getElem_concat_length rfl]
        · intro other otherInside _
          omega
      · have notEnd : position ≠ counts.length := by
          intro same
          rw [same] at isLast
          exact isLast rfl
        obtain ⟨last,found,same,looked,latest⟩ := ih (by omega)
        refine ⟨last,by omega,same,?_,?_⟩
        · rw [cellMap_concat,KeyMap.lookup_insert_ne _ _ isLast,looked,
            List.getElem_append_left found]
        · intro other otherInside sameLabel
          apply latest other _ sameLabel
          have different : other ≠ counts.length := by
            intro atEnd
            rw [atEnd] at sameLabel
            exact isLast sameLabel
          omega

theorem cellMap_total {M : Type} [AddCommMonoid M] (weight : β → M)
    (shared : ∀ (first second : Nat) (inFirst : first < counts.length)
      (_ : second < counts.length), first < second → labels first = labels second →
        weight counts[first] = 0) :
    Tally.total weight (cellMap labels counts : Std.ExtTreeMap α β cmp) =
      (counts.map weight).sum := by
  induction counts using List.reverseRecOn with
  | nil =>
      rw [Tally.total,cellMap,List.mapIdx_nil,List.foldl_nil]
      have noEntries : (∅ : Std.ExtTreeMap α β cmp).toList = [] := rfl
      rw [noEntries]
      rfl
  | append_singleton counts count ih =>
      have total : (counts ++ [count]).length = counts.length + 1 := List.length_append
      have earlier := ih fun first second inFirst inSecond order same => by
        have none := shared first second (by omega) (by omega) order same
        rwa [List.getElem_append_left inFirst] at none
      have replaced : ((cellMap labels counts : Std.ExtTreeMap α β cmp)[labels counts.length]?.map
          weight).getD 0 = 0 := by
        cases found : (cellMap labels counts : Std.ExtTreeMap α β cmp)[labels counts.length]? with
        | none => rfl
        | some old =>
            have entry : labels counts.length ∈ (counts.mapIdx fun position count =>
                (labels position,count)).map Prod.fst := by
              by_contra absent
              have empty := KeyMap.insertAll_of_notMem (∅ : Std.ExtTreeMap α β cmp) absent
              rw [Std.ExtTreeMap.getElem?_empty] at empty
              exact absurd (found.symm.trans empty) (Option.some_ne_none old)
            obtain ⟨cell,isCell,sameLabel⟩ := List.mem_map.mp entry
            obtain ⟨first,inFirst,isFirst⟩ := List.mem_mapIdx.mp isCell
            have label : labels first = labels counts.length := by
              rw [← sameLabel,← isFirst]
            have lookup : ∃ last, ∃ inLast : last < counts.length, labels last = labels first ∧
                (cellMap labels counts : Std.ExtTreeMap α β cmp)[labels first]? =
                  some counts[last] ∧ _ := cellMap_lookup inFirst
            obtain ⟨last,inLast,same,looked,-⟩ := lookup
            rw [label,found,Option.some.injEq] at looked
            have none := shared last counts.length (by omega) (by omega) inLast
              (same.trans label)
            rw [List.getElem_append_left inLast,← looked] at none
            rw [Option.map_some,Option.getD_some,none]
      have sum := Tally.total_insert weight (cellMap labels counts : Std.ExtTreeMap α β cmp)
        (labels counts.length) count
      rw [replaced,add_zero,earlier] at sum
      rw [cellMap_concat,sum,List.map_append,List.sum_append,List.map_singleton,
        List.sum_singleton]

end Entries

end Cells
