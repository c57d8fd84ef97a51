/-
Counts at ordered keys.

A list of pairs of a key and a count, ascending by the key, stands for a list of
items up to its order.  Counts are capped.  A new item, another list and a coarser
scale of keys keep the form, and the item of a rank is found by a walk over the
counts.
-/

import Mathlib.Data.Finset.Card
import Mathlib.Data.List.Count
import Mathlib.Order.Lattice
import Mathlib.Tactic.Ring

namespace OrderedCounts

variable {κ ι : Type} [LinearOrder κ] [LinearOrder ι]
variable (matching : κ → Bool)
variable {name : κ → ι}

/-- A new item. -/
def bump (cap : Nat) (key : κ) : List (κ × Nat) → List (κ × Nat)
  | [] => [(key,1)]
  | (head,count) :: rest =>
      if key < head then (key,1) :: (head,count) :: rest
      else if key = head then (head,min (count + 1) cap) :: rest
      else (head,count) :: bump cap key rest

/-- A walk over two lists at once. -/
def merge (cap : Nat) : List (κ × Nat) → List (κ × Nat) → List (κ × Nat)
  | [], others => others
  | entries, [] => entries
  | (key,count) :: rest, (otherKey,otherCount) :: others =>
      if key < otherKey then (key,count) :: merge cap rest ((otherKey,otherCount) :: others)
      else if otherKey < key then
        (otherKey,otherCount) :: merge cap ((key,count) :: rest) others
      else (key,min (count + otherCount) cap) :: merge cap rest others
termination_by entries others => entries.length + others.length

/-- The entries behind the last one that was written. -/
def coarsenFrom (cap : Nat) (coarser : κ → ι) (last : ι × Nat) : List (κ × Nat) → List (ι × Nat)
  | [] => [last]
  | (key,count) :: rest =>
      if last.1 = coarser key then
        coarsenFrom cap coarser (last.1,min (last.2 + count) cap) rest
      else last :: coarsenFrom cap coarser (coarser key,count) rest

/-- Neighbours with one key on the coarser scale become one entry. -/
def coarsen (cap : Nat) (coarser : κ → ι) : List (κ × Nat) → List (ι × Nat)
  | [] => []
  | (key,count) :: rest => coarsenFrom cap coarser (coarser key,count) rest

def keyAt (rank : Nat) : List (κ × Nat) → Option κ
  | [] => none
  | (key,count) :: rest => if rank < count then some key else keyAt (rank - count) rest

/-- How many items have a key that matches. -/
def countWhere (matching : κ → Bool) : List (κ × Nat) → Nat
  | [] => 0
  | (key,count) :: rest => (if matching key then count else 0) + countWhere matching rest

def total (entries : List (κ × Nat)) : Nat := countWhere (fun _ => true) entries

def Sorted (entries : List (κ × Nat)) : Prop :=
  entries.Pairwise fun first second => first.1 < second.1

def Positive (entries : List (κ × Nat)) : Prop := ∀ entry ∈ entries, 0 < entry.2

def keys (entries : List (κ × Nat)) : Finset κ := (entries.map Prod.fst).toFinset

structure Counts (items : List κ) (entries : List (κ × Nat)) : Prop where
  sorted : Sorted entries
  positive : Positive entries
  count : ∀ matching, countWhere matching entries = items.countP matching

variable {cap : Nat} {key : κ} {coarser : κ → ι} {entries others : List (κ × Nat)}
  {items otherItems : List κ}

/-! ### Keys -/

@[simp] theorem keys_nil : keys ([] : List (κ × Nat)) = ∅ := rfl

@[simp] theorem keys_cons (key : κ) (count : Nat) (rest : List (κ × Nat)) :
    keys ((key,count) :: rest) = insert key (keys rest) := by
  rw [keys,List.map_cons,List.toFinset_cons,keys]

theorem mem_keys : key ∈ keys entries ↔ ∃ count, (key,count) ∈ entries := by
  rw [keys,List.mem_toFinset,List.mem_map]
  constructor
  · intro found
    obtain ⟨entry,member,rfl⟩ := found
    exact ⟨entry.2,member⟩
  · intro found
    obtain ⟨count,member⟩ := found
    exact ⟨(key,count),member,rfl⟩

theorem sorted_cons {count : Nat} {rest : List (κ × Nat)} :
    Sorted ((key,count) :: rest) ↔ (∀ other ∈ keys rest, key < other) ∧ Sorted rest := by
  rw [Sorted,List.pairwise_cons]
  constructor
  · intro both
    refine ⟨?_,both.2⟩
    intro other member
    obtain ⟨otherCount,found⟩ := mem_keys.mp member
    exact both.1 _ found
  · intro both
    refine ⟨?_,both.2⟩
    intro entry member
    exact both.1 entry.1 (mem_keys.mpr ⟨entry.2,member⟩)

theorem length_eq_card (sorted : Sorted entries) : entries.length = (keys entries).card := by
  have distinct : (entries.map Prod.fst).Nodup := by
    rw [List.Nodup,List.pairwise_map]
    exact List.Pairwise.imp (fun below => ne_of_lt below) sorted
  rw [keys,List.toFinset_card_of_nodup distinct,List.length_map]

@[simp] theorem keys_bump (cap : Nat) (key : κ) (entries : List (κ × Nat)) :
    keys (bump cap key entries) = insert key (keys entries) := by
  induction entries with
  | nil => rfl
  | cons entry rest ih =>
      obtain ⟨head,count⟩ := entry
      rw [bump]
      split
      · simp only [keys_cons]
      · split
        · rename_i same
          simp only [keys_cons,same,Finset.insert_idem]
        · simp only [keys_cons,ih]
          exact Finset.insert_comm head key (keys rest)

theorem sorted_bump (sorted : Sorted entries) : Sorted (bump cap key entries) := by
  induction entries with
  | nil => exact List.pairwise_singleton _ _
  | cons entry rest ih =>
      obtain ⟨head,count⟩ := entry
      have parts := sorted_cons.mp sorted
      rw [bump]
      split
      · rename_i below
        refine sorted_cons.mpr ⟨?_,sorted⟩
        intro other member
        rw [keys_cons,Finset.mem_insert] at member
        rcases member with rfl | later
        · exact below
        · exact lt_trans below (parts.1 other later)
      · rename_i notBelow
        split
        · exact sorted_cons.mpr parts
        · rename_i different
          refine sorted_cons.mpr ⟨?_,ih parts.2⟩
          intro other member
          rw [keys_bump,Finset.mem_insert] at member
          rcases member with rfl | later
          · exact lt_of_le_of_ne (not_lt.mp notBelow) fun same => different same.symm
          · exact parts.1 other later

@[simp] theorem keys_merge (cap : Nat) (entries others : List (κ × Nat)) :
    keys (merge cap entries others) = keys entries ∪ keys others := by
  induction entries, others using merge.induct with
  | case1 others => rw [merge,keys_nil,Finset.empty_union]
  | case2 entries notNil =>
      rw [merge,keys_nil,Finset.union_empty]
      exact notNil
  | case3 key count rest otherKey otherCount others below ih =>
      rw [merge,if_pos below,keys_cons,ih,keys_cons key,Finset.insert_union]
  | case4 key count rest otherKey otherCount others notBelow above ih =>
      rw [merge,if_neg notBelow,if_pos above,keys_cons,ih,keys_cons otherKey,
        Finset.union_insert]
  | case5 key count rest otherKey otherCount others notBelow notAbove ih =>
      have same : otherKey = key := le_antisymm (not_lt.mp notBelow) (not_lt.mp notAbove)
      rw [merge,if_neg notBelow,if_neg notAbove,keys_cons,ih,keys_cons,keys_cons,same,
        Finset.insert_union,Finset.union_insert,Finset.insert_idem]

theorem sorted_merge (sorted : Sorted entries) (otherSorted : Sorted others) :
    Sorted (merge cap entries others) := by
  induction entries, others using merge.induct with
  | case1 others =>
      rw [merge]
      exact otherSorted
  | case2 entries notNil =>
      rw [merge]
      · exact sorted
      · exact notNil
  | case3 key count rest otherKey otherCount others below ih =>
      have parts := sorted_cons.mp sorted
      have otherParts := sorted_cons.mp otherSorted
      rw [merge,if_pos below]
      refine sorted_cons.mpr ⟨?_,ih parts.2 otherSorted⟩
      intro other member
      rw [keys_merge,Finset.mem_union,keys_cons,Finset.mem_insert] at member
      rcases member with own | rfl | theirs
      · exact parts.1 other own
      · exact below
      · exact lt_trans below (otherParts.1 other theirs)
  | case4 key count rest otherKey otherCount others notBelow above ih =>
      have parts := sorted_cons.mp sorted
      have otherParts := sorted_cons.mp otherSorted
      rw [merge,if_neg notBelow,if_pos above]
      refine sorted_cons.mpr ⟨?_,ih sorted otherParts.2⟩
      intro other member
      rw [keys_merge,Finset.mem_union,keys_cons,Finset.mem_insert] at member
      rcases member with (rfl | own) | theirs
      · exact above
      · exact lt_trans above (parts.1 other own)
      · exact otherParts.1 other theirs
  | case5 key count rest otherKey otherCount others notBelow notAbove ih =>
      have parts := sorted_cons.mp sorted
      have otherParts := sorted_cons.mp otherSorted
      have same : otherKey = key := le_antisymm (not_lt.mp notBelow) (not_lt.mp notAbove)
      rw [merge,if_neg notBelow,if_neg notAbove]
      refine sorted_cons.mpr ⟨?_,ih parts.2 otherParts.2⟩
      intro other member
      rw [keys_merge,Finset.mem_union] at member
      rcases member with own | theirs
      · exact parts.1 other own
      · rw [← same]
        exact otherParts.1 other theirs

theorem keys_coarsenFrom (cap : Nat) (coarser : κ → ι) (last : ι × Nat)
    (entries : List (κ × Nat)) :
    keys (coarsenFrom cap coarser last entries) =
      insert last.1 ((keys entries).image coarser) := by
  induction entries generalizing last with
  | nil => rfl
  | cons entry rest ih =>
      obtain ⟨head,count⟩ := entry
      rw [coarsenFrom,keys_cons,Finset.image_insert]
      split
      · rename_i same
        rw [ih,← same,Finset.insert_idem]
      · rw [← Prod.mk.eta (p := last),keys_cons,ih]

@[simp] theorem keys_coarsen (cap : Nat) (coarser : κ → ι) (entries : List (κ × Nat)) :
    keys (coarsen cap coarser entries) = (keys entries).image coarser := by
  cases entries with
  | nil => rfl
  | cons entry rest => rw [coarsen,keys_coarsenFrom,keys_cons,Finset.image_insert]

theorem sorted_coarsenFrom (monotone : ∀ first second, first < second →
      coarser first ≤ coarser second) (sorted : Sorted entries) (last : ι × Nat)
    (above : ∀ other ∈ keys entries, last.1 ≤ coarser other) :
    Sorted (coarsenFrom cap coarser last entries) := by
  induction entries generalizing last with
  | nil => exact List.pairwise_singleton _ _
  | cons entry rest ih =>
      obtain ⟨head,count⟩ := entry
      have parts := sorted_cons.mp sorted
      have atHead := above head (by rw [keys_cons]; exact Finset.mem_insert_self head _)
      rw [coarsenFrom]
      split
      · apply ih parts.2
        intro other member
        apply above
        rw [keys_cons]
        exact Finset.mem_insert_of_mem member
      · rename_i different
        have aboveHead : ∀ other ∈ keys rest, coarser head ≤ coarser other := by
          intro other member
          exact monotone head other (parts.1 other member)
        rw [← Prod.mk.eta (p := last)]
        refine sorted_cons.mpr ⟨?_,ih parts.2 (coarser head,count) aboveHead⟩
        intro other member
        rw [keys_coarsenFrom,Finset.mem_insert,Finset.mem_image] at member
        rcases member with rfl | ⟨old,oldMember,rfl⟩
        · exact lt_of_le_of_ne atHead different
        · exact lt_of_lt_of_le (lt_of_le_of_ne atHead different) (aboveHead old oldMember)

theorem sorted_coarsen (monotone : ∀ first second, first < second →
      coarser first ≤ coarser second) (sorted : Sorted entries) :
    Sorted (coarsen cap coarser entries) := by
  cases entries with
  | nil => exact List.Pairwise.nil
  | cons entry rest =>
      obtain ⟨head,count⟩ := entry
      have parts := sorted_cons.mp sorted
      apply sorted_coarsenFrom monotone parts.2
      intro other member
      exact monotone head other (parts.1 other member)

omit [LinearOrder κ] in
@[simp] theorem countWhere_nil : countWhere matching [] = 0 := rfl

omit [LinearOrder κ] in
@[simp] theorem countWhere_cons (key : κ) (count : Nat) (rest : List (κ × Nat)) :
    countWhere matching ((key,count) :: rest) =
      (if matching key then count else 0) + countWhere matching rest := rfl

omit [LinearOrder κ] in
@[simp] theorem total_cons (key : κ) (count : Nat) (rest : List (κ × Nat)) :
    total ((key,count) :: rest) = count + total rest := rfl

omit [LinearOrder κ] in
theorem countWhere_append (entries others : List (κ × Nat)) :
    countWhere matching (entries ++ others) =
      countWhere matching entries + countWhere matching others := by
  induction entries with
  | nil => rw [List.nil_append,countWhere_nil,Nat.zero_add]
  | cons entry rest ih =>
      obtain ⟨head,count⟩ := entry
      rw [List.cons_append,countWhere_cons,ih,countWhere_cons,Nat.add_assoc]

theorem countWhere_bump (room : total entries < cap) :
    countWhere matching (bump cap key entries) =
      countWhere matching entries + if matching key then 1 else 0 := by
  induction entries with
  | nil => rw [bump,countWhere_cons,countWhere_nil,Nat.add_comm]
  | cons entry rest ih =>
      obtain ⟨head,count⟩ := entry
      rw [total_cons] at room
      rw [bump]
      split
      · rw [countWhere_cons matching key,Nat.add_comm]
      · split
        · rename_i same
          have fits : min (count + 1) cap = count + 1 := by omega
          rw [fits,countWhere_cons,countWhere_cons,same]
          split <;> omega
        · rw [countWhere_cons,countWhere_cons,ih (by omega),Nat.add_assoc]

theorem countWhere_merge (room : total entries + total others ≤ cap) :
    countWhere matching (merge cap entries others) =
      countWhere matching entries + countWhere matching others := by
  induction entries, others using merge.induct with
  | case1 others => rw [merge,countWhere_nil,Nat.zero_add]
  | case2 entries notNil =>
      rw [merge,countWhere_nil,Nat.add_zero]
      exact notNil
  | case3 key count rest otherKey otherCount others below ih =>
      rw [total_cons] at room
      rw [merge,if_pos below,countWhere_cons,ih (by omega),countWhere_cons matching key]
      omega
  | case4 key count rest otherKey otherCount others notBelow above ih =>
      rw [total_cons otherKey] at room
      rw [merge,if_neg notBelow,if_pos above,countWhere_cons,ih (by omega),
        countWhere_cons matching otherKey]
      omega
  | case5 key count rest otherKey otherCount others notBelow notAbove ih =>
      have same : otherKey = key := le_antisymm (not_lt.mp notBelow) (not_lt.mp notAbove)
      rw [total_cons,total_cons] at room
      have fits : min (count + otherCount) cap = count + otherCount := by omega
      rw [merge,if_neg notBelow,if_neg notAbove,fits,countWhere_cons,ih (by omega),
        countWhere_cons,countWhere_cons,same]
      split <;> omega

omit [LinearOrder κ] in
theorem countWhere_coarsenFrom (matching : ι → Bool) (last : ι × Nat)
    (room : last.2 + total entries ≤ cap) :
    countWhere matching (coarsenFrom cap coarser last entries) =
      (if matching last.1 then last.2 else 0) +
        countWhere (fun key => matching (coarser key)) entries := by
  induction entries generalizing last with
  | nil => rfl
  | cons entry rest ih =>
      obtain ⟨head,count⟩ := entry
      rw [total_cons] at room
      rw [coarsenFrom,countWhere_cons]
      split
      · rename_i same
        have fits : min (last.2 + count) cap = last.2 + count := by omega
        rw [fits,ih _ (by simp only; omega),← same]
        simp only
        split <;> omega
      · rw [← Prod.mk.eta (p := last),countWhere_cons,ih _ (by simp only; omega)]

omit [LinearOrder κ] in
theorem countWhere_coarsen (matching : ι → Bool) (room : total entries ≤ cap) :
    countWhere matching (coarsen cap coarser entries) =
      countWhere (fun key => matching (coarser key)) entries := by
  cases entries with
  | nil => rfl
  | cons entry rest => exact countWhere_coarsenFrom matching _ room

omit [LinearOrder κ] in
@[simp] theorem positive_nil : Positive ([] : List (κ × Nat)) := by
  intro entry member
  cases member

omit [LinearOrder κ] in
@[simp] theorem positive_cons (key : κ) (count : Nat) (rest : List (κ × Nat)) :
    Positive ((key,count) :: rest) ↔ 0 < count ∧ Positive rest := by
  rw [Positive,List.forall_mem_cons,Positive]

theorem Positive.bump (positive : Positive entries) (capped : 0 < cap) :
    Positive (bump cap key entries) := by
  induction entries with
  | nil => exact (positive_cons ..).mpr ⟨Nat.one_pos,positive_nil⟩
  | cons entry rest ih =>
      obtain ⟨head,count⟩ := entry
      have parts := (positive_cons ..).mp positive
      rw [OrderedCounts.bump]
      split
      · exact (positive_cons ..).mpr ⟨Nat.one_pos,positive⟩
      · split
        · exact (positive_cons ..).mpr ⟨by omega,parts.2⟩
        · exact (positive_cons ..).mpr ⟨parts.1,ih parts.2⟩

theorem Positive.merge (positive : Positive entries) (otherPositive : Positive others)
    (capped : 0 < cap) : Positive (merge cap entries others) := by
  induction entries, others using merge.induct with
  | case1 others =>
      rw [OrderedCounts.merge]
      exact otherPositive
  | case2 entries notNil =>
      rw [OrderedCounts.merge]
      · exact positive
      · exact notNil
  | case3 key count rest otherKey otherCount others below ih =>
      have parts := (positive_cons ..).mp positive
      rw [OrderedCounts.merge,if_pos below]
      exact (positive_cons ..).mpr ⟨parts.1,ih parts.2 otherPositive⟩
  | case4 key count rest otherKey otherCount others notBelow above ih =>
      have parts := (positive_cons ..).mp otherPositive
      rw [OrderedCounts.merge,if_neg notBelow,if_pos above]
      exact (positive_cons ..).mpr ⟨parts.1,ih positive parts.2⟩
  | case5 key count rest otherKey otherCount others notBelow notAbove ih =>
      have parts := (positive_cons ..).mp positive
      have otherParts := (positive_cons ..).mp otherPositive
      rw [OrderedCounts.merge,if_neg notBelow,if_neg notAbove]
      exact (positive_cons ..).mpr ⟨by omega,ih parts.2 otherParts.2⟩

omit [LinearOrder κ] in
theorem positive_coarsenFrom (positive : Positive entries) (capped : 0 < cap) (key : ι)
    (count : Nat) (counted : 0 < count) :
    Positive (coarsenFrom cap coarser (key,count) entries) := by
  induction entries generalizing key count with
  | nil => exact (positive_cons ..).mpr ⟨counted,positive_nil⟩
  | cons entry rest ih =>
      obtain ⟨head,next⟩ := entry
      have parts := (positive_cons ..).mp positive
      rw [coarsenFrom]
      split
      · exact ih parts.2 _ _ (by simp only; omega)
      · exact (positive_cons ..).mpr ⟨counted,ih parts.2 _ _ parts.1⟩

omit [LinearOrder κ] in
theorem Positive.coarsen (positive : Positive entries) (capped : 0 < cap) :
    Positive (coarsen cap coarser entries) := by
  cases entries with
  | nil => exact positive_nil
  | cons entry rest =>
      obtain ⟨head,count⟩ := entry
      have parts := (positive_cons ..).mp positive
      exact positive_coarsenFrom parts.2 capped _ _ parts.1

theorem counts_nil : Counts ([] : List κ) [] where
  sorted := List.Pairwise.nil
  positive := positive_nil
  count _ := rfl

theorem Counts.total_eq (counts : Counts items entries) : total entries = items.length := by
  rw [total,counts.count,List.countP_true]

theorem Counts.perm (counts : Counts items entries) (same : items.Perm otherItems) :
    Counts otherItems entries where
  sorted := counts.sorted
  positive := counts.positive
  count matching := (counts.count matching).trans (same.countP_eq matching)

theorem Counts.bump (counts : Counts items entries) (key : κ) (room : items.length < cap) :
    Counts (items ++ [key]) (bump cap key entries) where
  sorted := sorted_bump counts.sorted
  positive := counts.positive.bump (by omega)
  count matching := by
    rw [countWhere_bump matching (by rw [counts.total_eq]; exact room),counts.count,
      List.countP_append,List.countP_singleton]

theorem Counts.merge (counts : Counts items entries) (otherCounts : Counts otherItems others)
    (room : items.length + otherItems.length ≤ cap) (capped : 0 < cap) :
    Counts (items ++ otherItems) (merge cap entries others) where
  sorted := sorted_merge counts.sorted otherCounts.sorted
  positive := counts.positive.merge otherCounts.positive capped
  count matching := by
    rw [countWhere_merge matching (by rw [counts.total_eq,otherCounts.total_eq]; exact room),
      counts.count,otherCounts.count,List.countP_append]

theorem Counts.coarsen (counts : Counts items entries)
    (monotone : ∀ first second, first < second → coarser first ≤ coarser second)
    (room : items.length ≤ cap) (capped : 0 < cap) :
    Counts (items.map coarser) (coarsen cap coarser entries) where
  sorted := sorted_coarsen monotone counts.sorted
  positive := counts.positive.coarsen capped
  count matching := by
    rw [countWhere_coarsen matching (by rw [counts.total_eq]; exact room),counts.count,
      List.countP_map]
    rfl

/-- The entries with other keys. -/
def rename (name : κ → ι) (entries : List (κ × Nat)) : List (ι × Nat) :=
  entries.map fun entry => (name entry.1,entry.2)

omit [LinearOrder κ] [LinearOrder ι] in
theorem countWhere_rename (name : κ → ι) (matching : ι → Bool) (entries : List (κ × Nat)) :
    countWhere matching (rename name entries) =
      countWhere (fun key => matching (name key)) entries := by
  induction entries with
  | nil => rfl
  | cons entry rest ih =>
      obtain ⟨head,count⟩ := entry
      rw [rename,List.map_cons,countWhere_cons,countWhere_cons,← ih,rename]

omit [LinearOrder κ] in
theorem countWhere_reverse (entries : List (κ × Nat)) :
    countWhere matching entries.reverse = countWhere matching entries := by
  induction entries with
  | nil => rfl
  | cons entry rest ih =>
      obtain ⟨head,count⟩ := entry
      rw [List.reverse_cons,countWhere_append,ih,countWhere_cons,countWhere_cons,
        countWhere_nil,Nat.add_zero,Nat.add_comm]

omit [LinearOrder κ] [LinearOrder ι] in
theorem Positive.rename (positive : Positive entries) (name : κ → ι) :
    Positive (rename name entries) := by
  intro entry member
  obtain ⟨old,oldMember,rfl⟩ := List.mem_map.mp member
  exact positive old oldMember

theorem Counts.rename (counts : Counts items entries)
    (increasing : ∀ first second, first < second → name first < name second) :
    Counts (items.map name) (rename name entries) where
  sorted := List.pairwise_map.mpr
    (List.Pairwise.imp (fun below => increasing _ _ below) counts.sorted)
  positive := counts.positive.rename name
  count matching := by
    rw [countWhere_rename,counts.count,List.countP_map]
    rfl

theorem Counts.renameReverse (counts : Counts items entries)
    (decreasing : ∀ first second, first < second → name second < name first) :
    Counts (items.map name) (OrderedCounts.rename name entries.reverse) where
  sorted := by
    apply List.pairwise_map.mpr
    apply List.pairwise_reverse.mpr
    exact List.Pairwise.imp (fun below => decreasing _ _ below) counts.sorted
  positive := by
    apply Positive.rename
    intro entry member
    exact counts.positive entry (List.mem_reverse.mp member)
  count matching := by
    rw [countWhere_rename,countWhere_reverse,counts.count,List.countP_map]
    rfl

theorem Counts.append (counts : Counts items entries) (otherCounts : Counts otherItems others)
    (below : ∀ entry ∈ entries, ∀ other ∈ others, entry.1 < other.1) :
    Counts (items ++ otherItems) (entries ++ others) where
  sorted := List.pairwise_append.mpr ⟨counts.sorted,otherCounts.sorted,below⟩
  positive := by
    intro entry member
    rcases List.mem_append.mp member with own | theirs
    · exact counts.positive entry own
    · exact otherCounts.positive entry theirs
  count matching := by
    rw [countWhere_append,counts.count,otherCounts.count,List.countP_append]

/-! ### Ranks -/

/-- Each key as often as it is counted. -/
def expand (entries : List (κ × Nat)) : List κ :=
  entries.flatMap fun entry => List.replicate entry.2 entry.1

omit [LinearOrder κ] in
theorem keyAt_eq_expand (rank : Nat) (entries : List (κ × Nat)) :
    keyAt rank entries = (expand entries)[rank]? := by
  induction entries generalizing rank with
  | nil => rfl
  | cons entry rest ih =>
      obtain ⟨head,count⟩ := entry
      rw [keyAt,expand,List.flatMap_cons]
      split
      · rename_i inside
        rw [List.getElem?_append_left (by rw [List.length_replicate]; exact inside),
          List.getElem?_replicate,if_pos inside]
      · rename_i outside
        rw [List.getElem?_append_right (by rw [List.length_replicate]; omega),
          List.length_replicate,ih,expand]

theorem sorted_expand (sorted : Sorted entries) : (expand entries).Pairwise (· ≤ ·) := by
  apply List.pairwise_flatMap.mpr
  constructor
  · intro entry _
    rw [List.pairwise_replicate]
    exact .inr le_rfl
  · apply List.Pairwise.imp _ sorted
    intro first second below low inFirst high inSecond
    rw [(List.mem_replicate.mp inFirst).2,(List.mem_replicate.mp inSecond).2]
    exact le_of_lt below

omit [LinearOrder κ] in
theorem countP_expand (entries : List (κ × Nat)) :
    (expand entries).countP matching = countWhere matching entries := by
  induction entries with
  | nil => rfl
  | cons entry rest ih =>
      obtain ⟨head,count⟩ := entry
      rw [expand,List.flatMap_cons,List.countP_append,countWhere_cons,← ih,expand,
        List.countP_replicate]

theorem Counts.perm_expand (counts : Counts items entries) : items.Perm (expand entries) := by
  rw [List.perm_iff_count]
  intro key
  rw [List.count_eq_countP,List.count_eq_countP,countP_expand,counts.count]

theorem mem_expand (positive : Positive entries) : key ∈ expand entries ↔ key ∈ keys entries := by
  rw [expand,List.mem_flatMap,mem_keys]
  constructor
  · intro found
    obtain ⟨entry,member,inside⟩ := found
    rw [(List.mem_replicate.mp inside).2]
    exact ⟨entry.2,member⟩
  · intro found
    obtain ⟨count,member⟩ := found
    have counted : 0 < count := positive _ member
    exact ⟨(key,count),member,List.mem_replicate.mpr ⟨Nat.ne_of_gt counted,rfl⟩⟩

theorem Counts.keys_eq (counts : Counts items entries) : keys entries = items.toFinset := by
  ext key
  rw [List.mem_toFinset,counts.perm_expand.mem_iff,mem_expand counts.positive]

omit [LinearOrder κ] in
theorem length_expand (entries : List (κ × Nat)) : (expand entries).length = total entries := by
  rw [total,← countP_expand,List.countP_true]

omit [LinearOrder κ] in
theorem keyAt_append (rank : Nat) (entries others : List (κ × Nat)) :
    keyAt rank (entries ++ others) =
      if rank < total entries then keyAt rank entries else keyAt (rank - total entries) others := by
  have together : expand (entries ++ others) = expand entries ++ expand others :=
    List.flatMap_append
  rw [keyAt_eq_expand,keyAt_eq_expand,keyAt_eq_expand,together,List.getElem?_append,
    length_expand]

omit [LinearOrder κ] [LinearOrder ι] in
theorem keyAt_rename (name : κ → ι) (rank : Nat) (entries : List (κ × Nat)) :
    keyAt rank (rename name entries) = (keyAt rank entries).map name := by
  induction entries generalizing rank with
  | nil => rfl
  | cons entry rest ih =>
      obtain ⟨head,count⟩ := entry
      have next := ih (rank - count)
      rw [rename] at next
      rw [rename,List.map_cons,keyAt,keyAt]
      split
      · rfl
      · exact next

omit [LinearOrder κ] [LinearOrder ι] in
theorem total_rename (name : κ → ι) (entries : List (κ × Nat)) :
    total (rename name entries) = total entries :=
  countWhere_rename name _ entries

omit [LinearOrder κ] in
theorem exists_keyAt {rank : Nat} {entries : List (κ × Nat)} (inside : rank < total entries) :
    ∃ key, keyAt rank entries = some key := by
  rw [← length_expand] at inside
  rw [keyAt_eq_expand]
  exact ⟨_,List.getElem?_eq_getElem inside⟩

theorem Counts.keyAt_eq (counts : Counts items entries) (ordered : items.Pairwise (· ≤ ·))
    (rank : Nat) : keyAt rank entries = items[rank]? := by
  have same : items = expand entries := by
    apply counts.perm_expand.eq_of_pairwise
    · intro first second _ _ below above
      exact le_antisymm below above
    · exact ordered
    · exact sorted_expand counts.sorted
  rw [keyAt_eq_expand,← same]

end OrderedCounts
