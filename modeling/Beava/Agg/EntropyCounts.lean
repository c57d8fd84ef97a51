/-
What an entropy feature counts.

The operator drops new categories at its limit, and the histogram inside has a limit of
its own, beyond which it counts under a reserved name.  The operator's limit is met
first, so that the second one is never reached; but a category with the reserved name
is taken for it, and all later categories are counted there.
-/

import Beava.Agg.State
import Beava.Lib.Tally

namespace Beava.Agg

open Beava.Core

variable {state : EntropyStateWrap} {categories : List String} {category : String}
variable {counts : StrMap Nat} {key : String} {length : Nat}

/-- `EntropyStateWrap::new`. -/
def EntropyStateWrap.new (maxCategories : Nat) : EntropyStateWrap :=
  let cap := max maxCategories 1
  ⟨.new cap,cap⟩

def EntropyStateWrap.insertAll (categories : List String) (state : EntropyStateWrap) :
    EntropyStateWrap :=
  categories.foldl (fun state category => state.insertGuarded category) state

open EntropyHistogram (spillKey)

/-- The histogram has room for all that the operator lets through. -/
def Guarded (state : EntropyStateWrap) : Prop := state.maxCategories ≤ state.inner.cap

def EntropyHistogram.count (key : String) (histogram : EntropyHistogram) : EntropyHistogram :=
  { histogram with
    counts := histogram.counts.insert key (histogram.counts.getD key 0 + 1)
    total := min (histogram.total + 1) (2 ^ 64 - 1) }

inductive Inserts (before after : EntropyStateWrap) (category : String) : Prop
  | dropped (novel : before.inner.counts.contains category = false)
      (full : before.maxCategories ≤ before.inner.counts.size) (unchanged : after = before)
  | bumped (tracked : before.inner.counts.contains category = true)
      (counted : after = { before with inner := before.inner.count category })
  | spilled (novel : before.inner.counts.contains category = false)
      (reserved : before.inner.counts.contains spillKey = true)
      (counted : after = { before with
        inner := { before.inner.count spillKey with spill := before.inner.spill + 1 } })
  | added (novel : before.inner.counts.contains category = false)
      (unreserved : before.inner.counts.contains spillKey = false)
      (room : before.inner.counts.size < before.maxCategories)
      (counted : after = { before with inner := before.inner.count category })

theorem modify_eq_insert (tracked : counts.contains key = true) :
    counts.modify key (· + 1) = counts.insert key (counts.getD key 0 + 1) := by
  apply Std.ExtTreeMap.ext_getElem?
  intro other
  rw [KeyMap.lookup_modify,KeyMap.lookup_insert]
  split
  · rename_i same
    subst same
    obtain ⟨count,found⟩ := (KeyMap.contains_iff_exists _ _).mp tracked
    rw [found,Std.ExtTreeMap.getD_eq_getD_getElem?,found]
    rfl
  · rfl

theorem getD_of_novel (novel : counts.contains key = false) : counts.getD key 0 = 0 := by
  rw [Std.ExtTreeMap.getD_eq_getD_getElem?]
  cases found : counts[key]? with
  | none => rfl
  | some count =>
      have tracked := (KeyMap.contains_iff_exists counts key).mpr ⟨count,found⟩
      rw [novel] at tracked
      cases tracked

theorem insertGuarded_inserts (guarded : Guarded state) (category : String) :
    Inserts state (state.insertGuarded category) category := by
  unfold EntropyStateWrap.insertGuarded
  cases tracked : state.inner.counts.contains category with
  | true =>
      apply Inserts.bumped tracked
      rw [Bool.not_true,Bool.and_false,if_neg Bool.false_ne_true,EntropyHistogram.insert,
        if_pos tracked,modify_eq_insert tracked]
      rfl
  | false =>
      rw [Bool.not_false,Bool.and_true]
      by_cases full : state.maxCategories ≤ state.inner.counts.size
      · rw [decide_eq_true full,if_pos rfl]
        exact .dropped tracked full rfl
      · have room : state.inner.counts.size < state.maxCategories := Nat.lt_of_not_le full
        rw [decide_eq_false full,if_neg Bool.false_ne_true,EntropyHistogram.insert,
          if_neg (by rw [tracked]; exact Bool.false_ne_true)]
        cases reserved : state.inner.counts.contains spillKey with
        | true =>
            rw [if_pos rfl,modify_eq_insert reserved]
            exact .spilled tracked reserved rfl
        | false =>
            rw [if_neg Bool.false_ne_true,if_pos (Nat.lt_of_lt_of_le room guarded)]
            apply Inserts.added tracked reserved room
            rw [EntropyHistogram.count,getD_of_novel tracked]

theorem insertGuarded_cap (state : EntropyStateWrap) (category : String) :
    (state.insertGuarded category).inner.cap = state.inner.cap := by
  unfold EntropyStateWrap.insertGuarded EntropyHistogram.insert
  dsimp only
  split
  · rfl
  · split
    · rfl
    · split
      · rfl
      · split <;> rfl

/-- The counts sum up to the total, which is at most the number of categories so far. -/
structure Balanced (length : Nat) (state : EntropyStateWrap) : Prop where
  guarded : Guarded state
  sum : Tally.total id state.inner.counts = state.inner.total
  total : state.inner.total ≤ length
  size : state.inner.counts.size ≤ state.maxCategories

theorem sum_count {histogram : EntropyHistogram}
    (sum : Tally.total id histogram.counts = histogram.total) (total : histogram.total ≤ length)
    (bounded : length + 1 < 2 ^ 64) (key : String) :
    Tally.total id (histogram.count key).counts = (histogram.count key).total ∧
      (histogram.count key).total ≤ length + 1 := by
  have inserted := Tally.total_insert id histogram.counts key (histogram.counts.getD key 0 + 1)
  have old : (histogram.counts[key]?.map id).getD 0 = histogram.counts.getD key 0 := by
    rw [Option.map_id_apply,Std.ExtTreeMap.getD_eq_getD_getElem?]
  rw [old,sum] at inserted
  have noWrap : min (histogram.total + 1) (2 ^ 64 - 1) = histogram.total + 1 :=
    Nat.min_eq_left (by omega)
  unfold EntropyHistogram.count
  dsimp only
  rw [noWrap]
  dsimp only [id_eq] at inserted
  omega

theorem Balanced.insertGuarded (balanced : Balanced length state) (bounded : length + 1 < 2 ^ 64)
    (category : String) : Balanced (length + 1) (state.insertGuarded category) := by
  have counted := sum_count balanced.sum balanced.total bounded
  have size := balanced.size
  have sizeOf : ∀ key, state.inner.counts.contains key = true →
      (state.inner.count key).counts.size = state.inner.counts.size := by
    intro key tracked
    rw [EntropyHistogram.count,Std.ExtTreeMap.size_insert,if_pos tracked]
  have inserts := insertGuarded_inserts balanced.guarded category
  generalize state.insertGuarded category = after at *
  cases inserts with
  | dropped _ _ unchanged =>
      subst unchanged
      exact ⟨balanced.guarded,balanced.sum,balanced.total.trans (Nat.le_succ length),size⟩
  | bumped tracked isCounted =>
      subst isCounted
      obtain ⟨sum,total⟩ := counted category
      exact ⟨balanced.guarded,sum,total,(sizeOf category tracked).trans_le size⟩
  | spilled _ reserved isCounted =>
      subst isCounted
      obtain ⟨sum,total⟩ := counted spillKey
      exact ⟨balanced.guarded,sum,total,(sizeOf spillKey reserved).trans_le size⟩
  | added novel _ room isCounted =>
      subst isCounted
      obtain ⟨sum,total⟩ := counted category
      refine ⟨balanced.guarded,sum,total,?_⟩
      rw [EntropyHistogram.count]
      exact (Std.ExtTreeMap.size_insert_le).trans room

structure CountsEach (categories : List String) (state : EntropyStateWrap) : Prop where
  guarded : Guarded state
  tallies : Tally.Tallies 0 categories state.inner.counts
  total : state.inner.total = min categories.length (2 ^ 64 - 1)

theorem toFinset_concat_card (novel : category ∉ categories) :
    (categories ++ [category]).toFinset.card = categories.toFinset.card + 1 := by
  have inserted : (categories ++ [category]).toFinset = insert category categories.toFinset := by
    ext item
    rw [List.mem_toFinset,List.mem_append,List.mem_singleton,Finset.mem_insert,
      List.mem_toFinset,or_comm]
  rw [inserted,Finset.card_insert_of_notMem (by rwa [List.mem_toFinset])]

/-- An insertion counts its category while there is room, and as long as no new category
follows the reserved name. -/
theorem CountsEach.insertGuarded (counts : CountsEach categories state)
    (few : (categories ++ [category]).toFinset.card ≤ state.maxCategories)
    (reservedLast : category ∈ categories ∨ spillKey ∉ categories) :
    CountsEach (categories ++ [category]) (state.insertGuarded category) ∧
      (state.insertGuarded category).maxCategories = state.maxCategories := by
  have next := counts.tallies.insert category
  rw [Nat.mod_zero] at next
  have total : min (state.inner.total + 1) (2 ^ 64 - 1) =
      min (categories ++ [category]).length (2 ^ 64 - 1) := by
    rw [counts.total,List.length_append,List.length_singleton]
    omega
  have known := counts.tallies.contains_iff category
  have inserts := insertGuarded_inserts counts.guarded category
  generalize state.insertGuarded category = after at *
  cases inserts with
  | dropped novel full _ =>
      have isNew : category ∉ categories := by
        rw [← known,novel]
        exact Bool.false_ne_true
      rw [toFinset_concat_card isNew] at few
      rw [counts.tallies.size] at full
      omega
  | bumped _ isCounted =>
      subst isCounted
      exact ⟨⟨counts.guarded,next,total⟩,rfl⟩
  | spilled novel reserved _ =>
      exfalso
      rw [counts.tallies.contains_iff] at reserved
      rcases reservedLast with member | notReserved
      · rw [← known,novel] at member
        cases member
      · exact notReserved reserved
  | added _ _ _ isCounted =>
      subst isCounted
      exact ⟨⟨counts.guarded,next,total⟩,rfl⟩

/-- No new category follows the reserved name. -/
def ReservedLast (categories : List String) : Prop :=
  ∀ before after, categories = before ++ spillKey :: after →
    ∀ category ∈ after, category = spillKey ∨ category ∈ before

theorem ReservedLast.of_concat (reservedLast : ReservedLast (categories ++ [category])) :
    ReservedLast categories := by
  intro before after split_ other member
  have extended : categories ++ [category] = before ++ spillKey :: (after ++ [category]) := by
    rw [split_,List.append_assoc,List.cons_append]
  exact reservedLast before (after ++ [category]) extended other (List.mem_append_left _ member)

theorem ReservedLast.last (reservedLast : ReservedLast (categories ++ [category])) :
    category ∈ categories ∨ spillKey ∉ categories := by
  by_cases reserved : spillKey ∈ categories
  · left
    obtain ⟨before,after,split_⟩ := List.append_of_mem reserved
    have extended : categories ++ [category] = before ++ spillKey :: (after ++ [category]) := by
      rw [split_,List.append_assoc,List.cons_append]
    have member : category ∈ after ++ [category] :=
      List.mem_append_right _ (List.mem_singleton_self category)
    rw [split_]
    rcases reservedLast before _ extended category member with same | earlier
    · rw [same]
      exact List.mem_append_right _ List.mem_cons_self
    · exact List.mem_append_left _ earlier
  · exact .inr reserved

theorem guarded_new (maxCategories : Nat) : Guarded (.new maxCategories) :=
  Nat.le_max_left _ 2

theorem countsEach_new (maxCategories : Nat) : CountsEach [] (.new maxCategories) :=
  ⟨guarded_new maxCategories,Tally.tallies_empty,rfl⟩

theorem insertAll_concat (categories : List String) (category : String) (state : EntropyStateWrap) :
    state.insertAll (categories ++ [category]) =
      (state.insertAll categories).insertGuarded category :=
  List.foldl_concat ..

theorem countsEach_insertAll {maxCategories : Nat} {categories : List String}
    (few : categories.toFinset.card ≤ max maxCategories 1) (reservedLast : ReservedLast categories) :
    CountsEach categories ((EntropyStateWrap.new maxCategories).insertAll categories) ∧
      ((EntropyStateWrap.new maxCategories).insertAll categories).maxCategories =
        max maxCategories 1 := by
  induction categories using List.reverseRecOn with
  | nil => exact ⟨countsEach_new maxCategories,rfl⟩
  | append_singleton categories category ih =>
      have fewer : categories.toFinset.card ≤ max maxCategories 1 := by
        refine (Finset.card_le_card ?_).trans few
        intro item member
        rw [List.mem_toFinset] at member ⊢
        exact List.mem_append_left _ member
      obtain ⟨counts,sameMax⟩ := ih fewer reservedLast.of_concat
      rw [insertAll_concat]
      obtain ⟨countsAll,kept⟩ := counts.insertGuarded (by rw [sameMax]; exact few) reservedLast.last
      exact ⟨countsAll,kept.trans sameMax⟩

theorem untracked_insertAll (guarded : Guarded state)
    (reserved : state.inner.counts.contains spillKey = true)
    (untracked : state.inner.counts.contains category = false) (later : List String) :
    (state.insertAll later).inner.counts.contains category = false := by
  induction later generalizing state with
  | nil => exact untracked
  | cons next rest ih =>
      have different : spillKey ≠ category := by
        intro same
        rw [same,untracked] at reserved
        cases reserved
      have keeps : ∀ key, state.inner.counts.contains key = true →
          (state.inner.count key).counts.contains spillKey = true ∧
            (state.inner.count key).counts.contains category = false := by
        intro key tracked
        have notKey : key ≠ category := by
          intro same
          rw [same,untracked] at tracked
          cases tracked
        rw [EntropyHistogram.count]
        dsimp only
        rw [Std.ExtTreeMap.contains_insert,Std.ExtTreeMap.contains_insert,reserved,untracked,
          Bool.or_true,Bool.or_false]
        refine ⟨rfl,?_⟩
        rw [beq_eq_false_iff_ne]
        intro same
        exact notKey (Std.LawfulEqCmp.eq_of_compare same)
      have inserts := insertGuarded_inserts guarded next
      show ((state.insertGuarded next).insertAll rest).inner.counts.contains category = false
      generalize state.insertGuarded next = after at *
      cases inserts with
      | dropped _ _ unchanged =>
          subst unchanged
          exact ih guarded reserved untracked
      | bumped tracked isCounted =>
          subst isCounted
          exact ih guarded (keeps next tracked).1 (keeps next tracked).2
      | spilled _ _ isCounted =>
          subst isCounted
          exact ih guarded (keeps spillKey reserved).1 (keeps spillKey reserved).2
      | added _ unreserved _ _ =>
          rw [unreserved] at reserved
          cases reserved

theorem few_of_subset {others : List String} {limit : Nat} (few : others.toFinset.card ≤ limit)
    (subset : ∀ item ∈ categories, item ∈ others) : categories.toFinset.card ≤ limit := by
  refine (Finset.card_le_card ?_).trans few
  intro item member
  rw [List.mem_toFinset] at member ⊢
  exact subset item member

theorem reservedLast_of_tracked {maxCategories : Nat} {categories : List String}
    (few : categories.toFinset.card ≤ max maxCategories 1)
    (tracked : ∀ category ∈ categories,
      ((EntropyStateWrap.new maxCategories).insertAll categories).inner.counts.contains category =
        true) :
    ReservedLast categories := by
  intro before after split_ category member
  by_contra new
  rw [not_or] at new
  have reserved : spillKey ∈ categories := by
    rw [split_]
    exact List.mem_append_right _ List.mem_cons_self
  obtain ⟨first,rest,isFirst,notEarlier⟩ := List.eq_append_cons_of_mem reserved
  have notFirst : category ∉ first := by
    intro inFirst
    rcases List.append_eq_append_iff.mp (split_.symm.trans isFirst) with
      ⟨between,isBetween,tail⟩ | ⟨between,isBetween,-⟩
    · cases between with
      | nil =>
          rw [List.append_nil] at isBetween
          exact new.2 (isBetween ▸ inFirst)
      | cons head more =>
          have isReserved : spillKey = head := (List.cons.inj tail).1
          apply notEarlier
          rw [isBetween,isReserved]
          exact List.mem_append_right _ List.mem_cons_self
    · apply new.2
      rw [isBetween]
      exact List.mem_append_left _ inFirst
  have inCategories : category ∈ categories := by
    rw [split_]
    exact List.mem_append_right _ (List.mem_cons_of_mem _ member)
  have fewFirst : (first ++ [spillKey]).toFinset.card ≤ max maxCategories 1 := by
    apply few_of_subset few
    intro item itemMember
    rw [isFirst]
    rcases List.mem_append.mp itemMember with early | isKey
    · exact List.mem_append_left _ early
    · rw [List.mem_singleton.mp isKey]
      exact List.mem_append_right _ List.mem_cons_self
  have noneEarlier : ReservedLast first := by
    intro front back isSplit
    exact absurd (isSplit ▸ List.mem_append_right _ List.mem_cons_self) notEarlier
  obtain ⟨counts,sameMax⟩ := countsEach_insertAll
    (few_of_subset fewFirst fun item early => List.mem_append_left _ early) noneEarlier
  obtain ⟨countsNext,-⟩ := counts.insertGuarded (by rw [sameMax]; exact fewFirst) (.inr notEarlier)
  have isReserved : ((((EntropyStateWrap.new maxCategories).insertAll first).insertGuarded
      spillKey).inner.counts.contains spillKey) = true := by
    rw [countsNext.tallies.contains_iff]
    exact List.mem_append_right _ (List.mem_singleton_self spillKey)
  have untracked : ((((EntropyStateWrap.new maxCategories).insertAll first).insertGuarded
      spillKey).inner.counts.contains category) = false := by
    rw [Bool.eq_false_iff]
    intro contained
    rw [countsNext.tallies.contains_iff,List.mem_append,List.mem_singleton] at contained
    exact contained.elim notFirst new.1
  have whole : (EntropyStateWrap.new maxCategories).insertAll categories =
      ((((EntropyStateWrap.new maxCategories).insertAll first).insertGuarded
        spillKey).insertAll rest) := by
    rw [isFirst]
    exact List.foldl_append ..
  have never := untracked_insertAll countsNext.guarded isReserved untracked rest
  rw [← whole,tracked category inCategories] at never
  cases never

/-- The counts are exact below the limit, they sum up to the total, and there are not
more of them than the limit. -/
structure EntropyHolds (maxCategories : Nat) (categories : List String) : Prop where
  exactly : categories.toFinset.card ≤ max maxCategories 1 →
    (∀ category,((EntropyStateWrap.new maxCategories).insertAll categories).inner.counts[category]? =
      if category ∈ categories then some (categories.count category) else none) ∧
      ((EntropyStateWrap.new maxCategories).insertAll categories).inner.total = categories.length
  sum : Tally.total id ((EntropyStateWrap.new maxCategories).insertAll categories).inner.counts =
    ((EntropyStateWrap.new maxCategories).insertAll categories).inner.total
  size : ((EntropyStateWrap.new maxCategories).insertAll categories).inner.counts.size ≤
    max maxCategories 1

def MergesPointwise (histogram other : EntropyHistogram) : Prop :=
  (∀ category, (histogram.merge other).counts.getD category 0 =
      histogram.counts.getD category 0 + other.counts.getD category 0) ∧
    (histogram.merge other).total = histogram.total + other.total

theorem balanced_insertAll (maxCategories : Nat) (bounded : categories.length < 2 ^ 64) :
    Balanced categories.length ((EntropyStateWrap.new maxCategories).insertAll categories) ∧
      ((EntropyStateWrap.new maxCategories).insertAll categories).maxCategories =
        max maxCategories 1 := by
  induction categories using List.reverseRecOn with
  | nil =>
      have sum : Tally.total id (EntropyStateWrap.new maxCategories).inner.counts =
          (EntropyStateWrap.new maxCategories).inner.total := rfl
      have size : (EntropyStateWrap.new maxCategories).inner.counts.size ≤
          (EntropyStateWrap.new maxCategories).maxCategories :=
        Std.ExtTreeMap.size_empty.trans_le (Nat.zero_le _)
      exact ⟨⟨guarded_new maxCategories,sum,Nat.zero_le _,size⟩,rfl⟩
  | append_singleton categories category ih =>
      rw [List.length_append,List.length_singleton] at bounded ⊢
      obtain ⟨balanced,sameMax⟩ := ih (by omega)
      rw [insertAll_concat]
      refine ⟨balanced.insertGuarded bounded category,?_⟩
      have kept : ∀ state : EntropyStateWrap,
          (state.insertGuarded category).maxCategories = state.maxCategories := by
        intro state
        unfold EntropyStateWrap.insertGuarded
        split <;> rfl
      rw [kept,sameMax]

theorem entropyHolds_iff (maxCategories : Nat) (bounded : categories.length < 2 ^ 64) :
    EntropyHolds maxCategories categories ↔
      (categories.toFinset.card ≤ max maxCategories 1 → ReservedLast categories) := by
  obtain ⟨balanced,sameMax⟩ := balanced_insertAll maxCategories bounded
  constructor
  · intro holds few
    apply reservedLast_of_tracked few
    intro category member
    have found := (holds.exactly few).1 category
    rw [if_pos member] at found
    exact (KeyMap.contains_iff_exists _ _).mpr ⟨_,found⟩
  · intro reservedLast
    refine ⟨?_,balanced.sum,sameMax ▸ balanced.size⟩
    intro few
    obtain ⟨counts,-⟩ := countsEach_insertAll few (reservedLast few)
    constructor
    · intro category
      have count := counts.tallies category
      rw [Nat.mod_zero] at count
      exact count
    · rw [counts.total]
      exact Nat.min_eq_left (by omega)

theorem mergesPointwise {histogram other : EntropyHistogram}
    (bounded : histogram.total + other.total < 2 ^ 64) : MergesPointwise histogram other := by
  constructor
  · intro category
    have distinct : (other.counts.toList.map Prod.fst).Nodup := by
      rw [Std.ExtTreeMap.map_fst_toList_eq_keys]
      exact Std.ExtTreeMap.nodup_keys
    have merged : (histogram.merge other).counts =
        Tally.addAll 0 histogram.counts other.counts.toList := by
      simp only [EntropyHistogram.merge,Tally.addAll,Nat.mod_zero]
    rw [merged,Std.ExtTreeMap.getD_eq_getD_getElem?,
      Tally.addAll_lookup other.counts.toList distinct]
    cases found : other.counts.toList.find? fun entry => entry.1 = category with
    | none =>
        have absent : other.counts.getD category 0 = 0 := by
          rw [Std.ExtTreeMap.getD_eq_getD_getElem?]
          cases held : other.counts[category]? with
          | none => rfl
          | some count =>
              have entry := Std.ExtTreeMap.mem_toList_iff_getElem?_eq_some.mpr held
              exact absurd (decide_eq_true rfl) (List.find?_eq_none.mp found _ entry)
        rw [absent,Nat.add_zero,Std.ExtTreeMap.getD_eq_getD_getElem?]
    | some entry =>
        have holds := List.find?_some found
        have isCategory : entry.1 = category := of_decide_eq_true holds
        have held := Std.ExtTreeMap.mem_toList_iff_getElem?_eq_some.mp
          (List.mem_of_find?_eq_some found)
        rw [isCategory] at held
        dsimp only
        rw [Nat.mod_zero,Option.getD_some]
        congr 1
        rw [Std.ExtTreeMap.getD_eq_getD_getElem?,held,Option.getD_some]
  · exact Nat.min_eq_left (by omega)

/-- The counts of two sequences are exact, and their merge adds them, exactly when no new
category of a sequence below the limit follows the reserved name. -/
theorem entropy_exact_iff (maxCategories : Nat) (categories others : List String)
    (bounded : categories.length + others.length < 2 ^ 64) :
    (EntropyHolds maxCategories categories ∧ EntropyHolds maxCategories others ∧
      MergesPointwise ((EntropyStateWrap.new maxCategories).insertAll categories).inner
        ((EntropyStateWrap.new maxCategories).insertAll others).inner) ↔
      (categories.toFinset.card ≤ max maxCategories 1 → ReservedLast categories) ∧
        (others.toFinset.card ≤ max maxCategories 1 → ReservedLast others) := by
  have own : categories.length < 2 ^ 64 := by omega
  have their : others.length < 2 ^ 64 := by omega
  have total := (balanced_insertAll maxCategories own).1.total
  have otherTotal := (balanced_insertAll maxCategories their).1.total
  rw [entropyHolds_iff maxCategories own,entropyHolds_iff maxCategories their]
  constructor
  · intro holds
    exact ⟨holds.1,holds.2.1⟩
  · intro reservedLast
    exact ⟨reservedLast.1,reservedLast.2,mergesPointwise (by omega)⟩

theorem entropy_exact_iff_letters :
    EntropyHolds 2 ["a","b","a"] ∧ EntropyHolds 2 ["b"] ∧
      MergesPointwise ((EntropyStateWrap.new 2).insertAll ["a","b","a"]).inner
        ((EntropyStateWrap.new 2).insertAll ["b"]).inner := by
  have unreserved : ∀ categories : List String, spillKey ∉ categories → ReservedLast categories := by
    intro categories absent before after split_
    exact absurd (split_ ▸ List.mem_append_right _ List.mem_cons_self) absent
  refine (entropy_exact_iff 2 ["a","b","a"] ["b"] (by decide)).mpr ⟨?_,?_⟩
  · intro _
    exact unreserved _ (by decide)
  · intro _
    exact unreserved _ (by decide)

/-- A category with the reserved name takes in the next one. -/
theorem reserved_category_miscounts : ¬ EntropyHolds 1024 ["__beava_other__","x"] := by
  rw [entropyHolds_iff 1024 (by decide)]
  intro reservedLast
  have few : ["__beava_other__","x"].toFinset.card ≤ max 1024 1 := by decide
  have notNew := reservedLast few [] ["x"] rfl "x" (List.mem_singleton_self "x")
  rcases notNew with same | earlier
  · exact absurd same (by decide)
  · cases earlier

end Beava.Agg
