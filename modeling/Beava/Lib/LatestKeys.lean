/-
A bounded list of buckets that keeps the latest keys.

A bucket is made when its key comes first, and the bucket with the least key
leaves when there is no room: the last bucket takes its place.  When the keys
come in ascending order, the buckets that are held are those with the greatest
keys, each with the fold of everything that came under its key.
-/

import Mathlib.Data.Finset.Card
import Mathlib.Data.List.Sort

namespace LatestKeys

variable {κ σ δ : Type} [LinearOrder κ]
variable {keys : List κ} {key : κ}
variable {arrivals : List (κ × δ)}

/-- The last item takes the place of the item that leaves. -/
def swapRemove {α : Type} (items : List α) (position : Nat) : List α :=
  match items.getLast? with
  | some last => (items.set position last).dropLast
  | none => []

/-- The first bucket with the least key leaves. -/
def evictOldest (buckets : List (κ × σ)) : List (κ × σ) :=
  match (buckets.map Prod.fst).min? with
  | some least => swapRemove buckets (buckets.findIdx fun bucket => bucket.1 = least)
  | none => buckets

def touch (cap : Nat) (fresh : σ) (key : κ) (change : σ → σ) (buckets : List (κ × σ)) :
    List (κ × σ) :=
  match buckets.findIdx? fun bucket => bucket.1 = key with
  | some position => buckets.modify position fun bucket => (bucket.1,change bucket.2)
  | none =>
      (if cap ≤ buckets.length then evictOldest buckets else buckets) ++ [(key,change fresh)]

def touchAll (cap : Nat) (fresh : σ) (step : δ → σ → σ) (arrivals : List (κ × δ)) :
    List (κ × σ) :=
  arrivals.foldl (fun buckets arrival => touch cap fresh arrival.1 (step arrival.2) buckets) []

theorem swapRemove_perm {α : Type} {items : List α} {position : Nat}
    (within : position < items.length) :
    (items[position] :: swapRemove items position).Perm items := by
  obtain ⟨initial,last,rfl⟩ : ∃ initial last, items = initial ++ [last] :=
    ⟨items.dropLast,_,(List.dropLast_append_getLast (List.ne_nil_of_length_pos (by omega))).symm⟩
  simp only [swapRemove,List.getLast?_append,List.getLast?_singleton,Option.some_or]
  rw [List.length_append,List.length_singleton] at within
  by_cases inside : position < initial.length
  · rw [List.set_append_left _ _ inside,List.dropLast_concat,List.getElem_append_left inside]
    have moved : (initial.set position last).Perm (last :: initial.eraseIdx position) :=
      List.set_perm_cons_eraseIdx inside last
    have whole : (initial[position] :: initial.eraseIdx position).Perm initial :=
      List.getElem_cons_eraseIdx_perm inside
    exact (moved.cons _).trans ((List.Perm.swap ..).trans
      ((whole.cons last).trans (List.perm_append_singleton last initial).symm))
  · have atEnd : position = initial.length := by omega
    subst atEnd
    have unchanged : (initial ++ [last]).set initial.length last = initial ++ [last] := by
      simp
    rw [unchanged,List.dropLast_concat,List.getElem_concat_length rfl]
    exact (List.perm_append_singleton last initial).symm

theorem evictOldest_perm {buckets : List (κ × σ)} {least : κ}
    (isLeast : (buckets.map Prod.fst).min? = some least) :
    ∃ state, ((least,state) :: evictOldest buckets).Perm buckets := by
  have present : least ∈ buckets.map Prod.fst := List.min?_mem isLeast
  obtain ⟨bucket,member,keyEq⟩ := List.mem_map.mp present
  have within : buckets.findIdx (fun bucket => bucket.1 = least) < buckets.length :=
    List.findIdx_lt_length_of_exists ⟨bucket,member,decide_eq_true keyEq⟩
  have found : (buckets[buckets.findIdx fun bucket => bucket.1 = least]).1 = least :=
    of_decide_eq_true (List.findIdx_getElem (w := within))
  refine ⟨(buckets[buckets.findIdx fun bucket => bucket.1 = least]).2,?_⟩
  rw [evictOldest,isLeast]
  have perm := swapRemove_perm within
  have pair : buckets[buckets.findIdx fun bucket => bucket.1 = least] =
      (least,(buckets[buckets.findIdx fun bucket => bucket.1 = least]).2) := Prod.ext found rfl
  rw [pair] at perm
  exact perm

theorem evictOldest_subset (buckets : List (κ × σ)) : evictOldest buckets ⊆ buckets := by
  cases isLeast : (buckets.map Prod.fst).min? with
  | none =>
      rw [evictOldest,isLeast]
      exact List.Subset.refl buckets
  | some least =>
      obtain ⟨state,perm⟩ := evictOldest_perm isLeast
      intro bucket member
      exact perm.subset (List.mem_cons_of_mem _ member)

section Touch

variable {cap : Nat} {fresh : σ} {change : σ → σ} {buckets : List (κ × σ)}

theorem touch_states (holds : σ → Prop) (ofFresh : holds fresh)
    (kept : ∀ state, holds state → holds (change state)) (key : κ)
    (before : ∀ bucket ∈ buckets, holds bucket.2) :
    ∀ bucket ∈ touch cap fresh key change buckets, holds bucket.2 := by
  intro bucket member
  unfold touch at member
  split at member
  · rename_i position atPosition
    obtain ⟨index,atIndex⟩ := List.getElem?_of_mem member
    rw [List.getElem?_modify,Option.map_eq_map,Option.map_eq_some_iff] at atIndex
    obtain ⟨old,oldAt,rfl⟩ := atIndex
    have held := before old (List.mem_of_getElem? oldAt)
    split
    · exact kept old.2 held
    · exact held
  · rcases List.mem_append.mp member with inOld | isNew
    · refine before bucket ?_
      split at inOld
      · exact evictOldest_subset buckets inOld
      · exact inOld
    · rw [List.mem_singleton.mp isNew]
      exact kept fresh ofFresh

theorem touch_congr {other : σ → σ} (holds : σ → Prop) (ofFresh : holds fresh)
    (same : ∀ state, holds state → change state = other state) (key : κ)
    (before : ∀ bucket ∈ buckets, holds bucket.2) :
    touch cap fresh key change buckets = touch cap fresh key other buckets := by
  unfold touch
  split
  · rename_i position atPosition
    apply List.ext_getElem?
    intro index
    rw [List.getElem?_modify,List.getElem?_modify]
    cases bucketAt : buckets[index]? with
    | none => rfl
    | some bucket =>
        have sameHere := same bucket.2 (before bucket (List.mem_of_getElem? bucketAt))
        simp only [Option.map_eq_map,Option.map_some,sameHere]
  · rw [same fresh ofFresh]

theorem touch_present (distinct : (buckets.map Prod.fst).Nodup) {key : κ}
    (present : key ∈ buckets.map Prod.fst) :
    touch cap fresh key change buckets =
      buckets.map fun bucket => if bucket.1 = key then (bucket.1,change bucket.2) else bucket := by
  obtain ⟨position,atPosition⟩ : ∃ position,
      buckets.findIdx? (fun bucket => bucket.1 = key) = some position := by
    obtain ⟨bucket,member,keyEq⟩ := List.mem_map.mp present
    rw [← Option.isSome_iff_exists,List.findIdx?_isSome,List.any_eq_true]
    exact ⟨bucket,member,decide_eq_true keyEq⟩
  obtain ⟨within,keyAt,-⟩ := List.findIdx?_eq_some_iff_getElem.mp atPosition
  have keyEq : (buckets[position]).1 = key := of_decide_eq_true keyAt
  rw [touch,atPosition]
  apply List.ext_getElem?
  intro index
  rw [List.getElem?_modify,List.getElem?_map]
  by_cases here : position = index
  · subst here
    simp [List.getElem?_eq_getElem within,keyEq]
  · cases bucketAt : buckets[index]? with
    | none => rfl
    | some bucket =>
        have different : bucket.1 ≠ key := by
          intro sameKey
          have sameEntry : (buckets.map Prod.fst)[position]? = (buckets.map Prod.fst)[index]? := by
            rw [List.getElem?_map,List.getElem?_map,bucketAt,List.getElem?_eq_getElem within,
              Option.map_some,Option.map_some,keyEq,sameKey]
          exact here ((List.getElem?_inj (by simpa using within) distinct).mp sameEntry)
        simp [here,different]

theorem mem_changed {key other : κ} {state : σ} :
    (other,state) ∈ buckets.map
        (fun bucket => if bucket.1 = key then (bucket.1,change bucket.2) else bucket) ↔
      ∃ held, (other,held) ∈ buckets ∧ state = if other = key then change held else held := by
  rw [List.mem_map]
  constructor
  · rintro ⟨⟨found,held⟩,member,changed⟩
    by_cases same : found = key
    · rw [if_pos same,Prod.mk.injEq] at changed
      obtain ⟨rfl,rfl⟩ := changed
      exact ⟨held,member,(if_pos same).symm⟩
    · rw [if_neg same,Prod.mk.injEq] at changed
      obtain ⟨rfl,rfl⟩ := changed
      exact ⟨held,member,(if_neg same).symm⟩
  · rintro ⟨held,member,rfl⟩
    refine ⟨(other,held),member,?_⟩
    by_cases same : other = key
    · simp [same]
    · simp [same]

theorem touch_absent {key : κ} (absent : key ∉ buckets.map Prod.fst) :
    touch cap fresh key change buckets =
      (if cap ≤ buckets.length then evictOldest buckets else buckets) ++ [(key,change fresh)] := by
  have notFound : buckets.findIdx? (fun bucket => bucket.1 = key) = none := by
    rw [List.findIdx?_eq_none_iff]
    intro bucket member
    exact decide_eq_false fun same => absent (List.mem_map.mpr ⟨bucket,member,same⟩)
  rw [touch,notFound]

theorem touch_mem (key : κ) :
    ∃ state, (key,change state) ∈ touch cap fresh key change buckets := by
  unfold touch
  split
  · rename_i position atPosition
    obtain ⟨within,keyAt,-⟩ := List.findIdx?_eq_some_iff_getElem.mp atPosition
    refine ⟨(buckets[position]).2,List.mem_of_getElem? (i := position) ?_⟩
    rw [List.getElem?_modify_eq,List.getElem?_eq_getElem within,Option.map_eq_map,
      Option.map_some,of_decide_eq_true keyAt]
  · exact ⟨fresh,List.mem_append_right _ (List.mem_singleton.mpr rfl)⟩

end Touch

/-- How many different keys are greater. -/
def rank (keys : List κ) (key : κ) : Nat := (keys.toFinset.filter fun other => key < other).card

/-- The fold of what came under a key. -/
def stateOf (fresh : σ) (step : δ → σ → σ) (arrivals : List (κ × δ)) (key : κ) : σ :=
  (arrivals.filter fun arrival => arrival.1 = key).foldl (fun state arrival => step arrival.2 state)
    fresh

structure Holds (cap : Nat) (fresh : σ) (step : δ → σ → σ) (arrivals : List (κ × δ))
    (buckets : List (κ × σ)) : Prop where
  nodup : (buckets.map Prod.fst).Nodup
  mem : ∀ key state, (key,state) ∈ buckets ↔
    key ∈ arrivals.map Prod.fst ∧ rank (arrivals.map Prod.fst) key < cap ∧
      state = stateOf fresh step arrivals key
  length : buckets.length = min cap (arrivals.map Prod.fst).toFinset.card
  sorted : (arrivals.map Prod.fst).toFinset.card ≤ cap →
    (buckets.map Prod.fst).Pairwise (· < ·)

theorem holds_nil (cap : Nat) (fresh : σ) (step : δ → σ → σ) :
    Holds cap fresh step ([] : List (κ × δ)) [] where
  nodup := List.nodup_nil
  mem key state := by simp
  length := by simp
  sorted _ := .nil

theorem rank_lt_card (member : key ∈ keys) : rank keys key < keys.toFinset.card := by
  apply Finset.card_lt_card
  rw [Finset.filter_ssubset]
  exact ⟨key,List.mem_toFinset.mpr member,lt_irrefl key⟩

theorem rank_of_greatest (greatest : ∀ other ∈ keys, other ≤ key) : rank keys key = 0 := by
  rw [rank,Finset.card_eq_zero,Finset.filter_eq_empty_iff]
  intro other member
  exact not_lt.mpr (greatest other (List.mem_toFinset.mp member))

theorem rank_lt_rank {other : κ} (less : key < other) (member : other ∈ keys) :
    rank keys other < rank keys key := by
  apply Finset.card_lt_card
  rw [Finset.ssubset_iff_of_subset]
  · refine ⟨other,?_,?_⟩
    · exact Finset.mem_filter.mpr ⟨List.mem_toFinset.mpr member,less⟩
    · exact fun isGreater => lt_irrefl other (Finset.mem_filter.mp isGreater).2
  · intro greater isGreater
    obtain ⟨inKeys,isAbove⟩ := Finset.mem_filter.mp isGreater
    exact Finset.mem_filter.mpr ⟨inKeys,less.trans isAbove⟩

theorem toFinset_append_mem (member : key ∈ keys) : (keys ++ [key]).toFinset = keys.toFinset := by
  ext other
  simp only [List.mem_toFinset,List.mem_append,List.mem_singleton,or_iff_left_iff_imp]
  rintro rfl
  exact member

theorem rank_le_of_injOn {bound : Nat} (index : κ → Nat)
    (below : ∀ other ∈ keys, key < other → index other < bound)
    (injective : ∀ one ∈ keys, key < one → ∀ other ∈ keys, key < other →
      index one = index other → one = other) : rank keys key ≤ bound := by
  rw [rank,← Finset.card_range bound]
  refine Finset.card_le_card_of_injOn index ?_ ?_
  · intro other isGreater
    obtain ⟨inKeys,above⟩ := Finset.mem_filter.mp (Finset.mem_coe.mp isGreater)
    rw [Finset.coe_range]
    exact below other (List.mem_toFinset.mp inKeys) above
  · intro one isOne other isOther same
    obtain ⟨oneIn,oneAbove⟩ := Finset.mem_filter.mp (Finset.mem_coe.mp isOne)
    obtain ⟨otherIn,otherAbove⟩ := Finset.mem_filter.mp (Finset.mem_coe.mp isOther)
    exact injective one (List.mem_toFinset.mp oneIn) oneAbove other (List.mem_toFinset.mp otherIn)
      otherAbove same

theorem rank_append_greater (greater : ∀ other ∈ keys, other < key) :
    rank (keys ++ [key]) key = 0 ∧
      ∀ other ∈ keys, rank (keys ++ [key]) other = rank keys other + 1 := by
  constructor
  · apply rank_of_greatest
    intro other member
    rcases List.mem_append.mp member with earlier | same
    · exact (greater other earlier).le
    · exact (List.mem_singleton.mp same).le
  · intro other member
    have notMember : key ∉ keys.toFinset.filter fun above => other < above := fun isMember =>
      lt_irrefl key (greater key (List.mem_toFinset.mp (Finset.mem_filter.mp isMember).1))
    have split : ((keys ++ [key]).toFinset.filter fun above => other < above) =
        insert key (keys.toFinset.filter fun above => other < above) := by
      ext above
      simp only [Finset.mem_filter,List.mem_toFinset,List.mem_append,List.mem_singleton,
        Finset.mem_insert]
      constructor
      · rintro ⟨earlier | rfl,isAbove⟩
        · exact .inr ⟨earlier,isAbove⟩
        · exact .inl rfl
      · rintro (rfl | ⟨earlier,isAbove⟩)
        · exact ⟨.inr rfl,greater other member⟩
        · exact ⟨.inl earlier,isAbove⟩
    rw [rank,split,Finset.card_insert_of_notMem notMember,rank]

theorem stateOf_append (fresh : σ) (step : δ → σ → σ) (arrivals : List (κ × δ)) (key other : κ)
    (event : δ) :
    stateOf fresh step (arrivals ++ [(key,event)]) other =
      if other = key then step event (stateOf fresh step arrivals other)
      else stateOf fresh step arrivals other := by
  rw [stateOf,stateOf,List.filter_append,List.foldl_append]
  by_cases same : other = key
  · simp [same]
  · simp [same,Ne.symm same]

theorem stateOf_new (fresh : σ) (step : δ → σ → σ) (isNew : key ∉ arrivals.map Prod.fst) :
    stateOf fresh step arrivals key = fresh := by
  have none : arrivals.filter (fun arrival => arrival.1 = key) = [] := by
    rw [List.filter_eq_nil_iff]
    intro arrival member same
    exact isNew (List.mem_map.mpr ⟨arrival,member,of_decide_eq_true same⟩)
  rw [stateOf,none]
  rfl

section Step

variable {cap : Nat} {fresh : σ} {step : δ → σ → σ} {arrivals : List (κ × δ)}
  {buckets : List (κ × σ)}
variable {key : κ}

theorem Holds.key_mem (holds : Holds cap fresh step arrivals buckets) :
    key ∈ buckets.map Prod.fst ↔
      key ∈ arrivals.map Prod.fst ∧ rank (arrivals.map Prod.fst) key < cap := by
  constructor
  · intro member
    obtain ⟨⟨_,state⟩,inBuckets,rfl⟩ := List.mem_map.mp member
    obtain ⟨seen,low,-⟩ := (holds.mem _ state).mp inBuckets
    exact ⟨seen,low⟩
  · rintro ⟨seen,low⟩
    exact List.mem_map.mpr ⟨(key,_),(holds.mem key _).mpr ⟨seen,low,rfl⟩,rfl⟩

theorem Holds.again (holds : Holds cap fresh step arrivals buckets) (room : 0 < cap) (event : δ)
    (seen : key ∈ arrivals.map Prod.fst) (greatest : ∀ other ∈ arrivals.map Prod.fst, other ≤ key) :
    Holds cap fresh step (arrivals ++ [(key,event)]) (touch cap fresh key (step event) buckets) := by
  have held : key ∈ buckets.map Prod.fst :=
    holds.key_mem.mpr ⟨seen,by rw [rank_of_greatest greatest]; exact room⟩
  have sameKeys : ((arrivals ++ [(key,event)]).map Prod.fst).toFinset =
      (arrivals.map Prod.fst).toFinset := by
    rw [List.map_append]
    exact toFinset_append_mem seen
  have sameRank : ∀ other, rank ((arrivals ++ [(key,event)]).map Prod.fst) other =
      rank (arrivals.map Prod.fst) other := fun other => by rw [rank,sameKeys,rank]
  have keysAfter : (touch cap fresh key (step event) buckets).map Prod.fst =
      buckets.map Prod.fst := by
    rw [touch_present holds.nodup held,List.map_map]
    apply List.map_congr_left
    intro bucket _
    simp only [Function.comp_apply]
    split <;> rfl
  constructor
  · rw [keysAfter]
    exact holds.nodup
  · intro other state
    rw [touch_present holds.nodup held,mem_changed,sameRank,stateOf_append,List.map_append,
      List.mem_append]
    constructor
    · rintro ⟨before,member,rfl⟩
      obtain ⟨otherSeen,low,rfl⟩ := (holds.mem other before).mp member
      exact ⟨.inl otherSeen,low,rfl⟩
    · rintro ⟨otherSeen,low,rfl⟩
      have wasSeen : other ∈ arrivals.map Prod.fst := by
        rcases otherSeen with earlier | same
        · exact earlier
        · rw [List.mem_singleton.mp same]
          exact seen
      exact ⟨_,(holds.mem other _).mpr ⟨wasSeen,low,rfl⟩,rfl⟩
  · rw [sameKeys,← holds.length,← List.length_map,keysAfter,List.length_map]
  · rw [sameKeys,keysAfter]
    exact holds.sorted

theorem evictOldest_spec {buckets : List (κ × σ)} (notEmpty : 0 < buckets.length) :
    ∃ least state, (buckets.map Prod.fst).min? = some least ∧
      ((least,state) :: evictOldest buckets).Perm buckets := by
  have keysNotEmpty : buckets.map Prod.fst ≠ [] := by
    intro empty
    have noLength := congrArg List.length empty
    rw [List.length_map,List.length_nil] at noLength
    omega
  obtain ⟨least,isLeast⟩ := Option.isSome_iff_exists.mp (List.isSome_min?_of_ne_nil keysNotEmpty)
  obtain ⟨state,perm⟩ := evictOldest_perm isLeast
  exact ⟨least,state,isLeast,perm⟩

theorem Holds.roomNodup (holds : Holds cap fresh step arrivals buckets) (room : 0 < cap) :
    ((if cap ≤ buckets.length then evictOldest buckets else buckets).map Prod.fst).Nodup ∧
      (if cap ≤ buckets.length then evictOldest buckets else buckets).length =
        min (cap - 1) (arrivals.map Prod.fst).toFinset.card := by
  have lengthEq := holds.length
  by_cases full : cap ≤ buckets.length
  · obtain ⟨least,state,-,perm⟩ := evictOldest_spec (Nat.lt_of_lt_of_le room full)
    have nodup := (perm.map Prod.fst).nodup_iff.mpr holds.nodup
    have count := perm.length_eq
    rw [List.map_cons,List.nodup_cons] at nodup
    rw [List.length_cons] at count
    rw [if_pos full]
    exact ⟨nodup.2,by omega⟩
  · rw [if_neg full]
    exact ⟨holds.nodup,by omega⟩

theorem Holds.makeRoom (holds : Holds cap fresh step arrivals buckets) (room : 0 < cap)
    {state : σ} :
    (key,state) ∈ (if cap ≤ buckets.length then evictOldest buckets else buckets) ↔
      key ∈ arrivals.map Prod.fst ∧ rank (arrivals.map Prod.fst) key + 1 < cap ∧
        state = stateOf fresh step arrivals key := by
  have cardLe := holds.length
  by_cases full : cap ≤ buckets.length
  · rw [if_pos full]
    have lengthEq : buckets.length = cap := by omega
    obtain ⟨least,leastState,isLeast,perm⟩ :=
      evictOldest_spec (Nat.lt_of_lt_of_le room full)
    have leastHeld : least ∈ buckets.map Prod.fst := List.min?_mem isLeast
    have leastLe : ∀ other ∈ buckets.map Prod.fst, least ≤ other :=
      (List.min?_eq_some_iff.mp isLeast).2
    obtain ⟨leastSeen,leastLow⟩ := holds.key_mem.mp leastHeld
    have leastRank : rank (arrivals.map Prod.fst) least + 1 = cap := by
      have above : (buckets.map Prod.fst).toFinset.erase least ⊆
          (arrivals.map Prod.fst).toFinset.filter fun other => least < other := by
        intro other member
        obtain ⟨different,inBuckets⟩ := Finset.mem_erase.mp member
        have isHeld := List.mem_toFinset.mp inBuckets
        have seen := (holds.key_mem.mp isHeld).1
        exact Finset.mem_filter.mpr ⟨List.mem_toFinset.mpr seen,
          lt_of_le_of_ne (leastLe other isHeld) (Ne.symm different)⟩
      have count := Finset.card_le_card above
      rw [Finset.card_erase_of_mem (List.mem_toFinset.mpr leastHeld),
        List.toFinset_card_of_nodup holds.nodup,List.length_map] at count
      have countLe : buckets.length - 1 ≤ rank (arrivals.map Prod.fst) least := count
      omega
    have leftNodup := (perm.map Prod.fst).nodup_iff.mpr holds.nodup
    rw [List.map_cons,List.nodup_cons] at leftNodup
    constructor
    · intro member
      have inBuckets := perm.mem_iff.mp (List.mem_cons_of_mem _ member)
      obtain ⟨seen,-,stateEq⟩ := (holds.mem key state).mp inBuckets
      have different : least ≠ key := fun same =>
        leftNodup.1 (List.mem_map.mpr ⟨(key,state),member,same.symm⟩)
      have greater : least < key :=
        lt_of_le_of_ne (leastLe key (List.mem_map.mpr ⟨_,inBuckets,rfl⟩)) different
      have lower := rank_lt_rank greater seen
      exact ⟨seen,by omega,stateEq⟩
    · rintro ⟨seen,low,stateEq⟩
      have inBuckets := (holds.mem key state).mpr ⟨seen,by omega,stateEq⟩
      rcases List.mem_cons.mp (perm.mem_iff.mpr inBuckets) with isLeast | inRest
      · rw [Prod.mk.injEq] at isLeast
        rw [isLeast.1] at low
        omega
      · exact inRest
  · rw [if_neg full,holds.mem]
    constructor
    · rintro ⟨seen,-,stateEq⟩
      have low := rank_lt_card seen
      exact ⟨seen,by omega,stateEq⟩
    · rintro ⟨seen,low,stateEq⟩
      exact ⟨seen,by omega,stateEq⟩

theorem Holds.firstTime (holds : Holds cap fresh step arrivals buckets) (room : 0 < cap) (event : δ)
    (greater : ∀ other ∈ arrivals.map Prod.fst, other < key) :
    Holds cap fresh step (arrivals ++ [(key,event)]) (touch cap fresh key (step event) buckets) := by
  have isNew : key ∉ arrivals.map Prod.fst := fun seen => lt_irrefl key (greater key seen)
  have absent : key ∉ buckets.map Prod.fst := fun held => isNew (holds.key_mem.mp held).1
  have keysEq : (arrivals ++ [(key,event)]).map Prod.fst = arrivals.map Prod.fst ++ [key] := by
    rw [List.map_append]
    rfl
  have cardEq : ((arrivals ++ [(key,event)]).map Prod.fst).toFinset.card =
      (arrivals.map Prod.fst).toFinset.card + 1 := by
    rw [keysEq,List.toFinset_append,Finset.union_comm,List.toFinset_cons,List.toFinset_nil,
      insert_empty_eq,← Finset.insert_eq,
      Finset.card_insert_of_notMem fun member => isNew (List.mem_toFinset.mp member)]
  obtain ⟨newRank,otherRank⟩ := rank_append_greater greater
  obtain ⟨roomNodup,roomLength⟩ := holds.roomNodup room
  rw [touch_absent absent]
  constructor
  · rw [List.map_append,List.map_singleton]
    refine List.nodup_append.mpr ⟨roomNodup,List.nodup_singleton _,?_⟩
    intro other member last isLast same
    obtain ⟨⟨found,state⟩,inRoom,foundEq⟩ := List.mem_map.mp member
    have seen := ((holds.makeRoom room).mp inRoom).1
    have isKey : found = key := foundEq.trans (same.trans (List.mem_singleton.mp isLast))
    exact isNew (isKey ▸ seen)
  · intro other state
    rw [List.mem_append,holds.makeRoom room,List.mem_singleton,Prod.mk.injEq,keysEq,
      List.mem_append,List.mem_singleton,stateOf_append]
    constructor
    · rintro (⟨seen,low,rfl⟩ | ⟨rfl,rfl⟩)
      · rw [otherRank other seen,if_neg (ne_of_lt (greater other seen))]
        exact ⟨.inl seen,low,rfl⟩
      · rw [newRank,if_pos rfl,stateOf_new fresh step isNew]
        exact ⟨.inr rfl,room,rfl⟩
    · rintro ⟨seen | rfl,low,rfl⟩
      · rw [otherRank other seen] at low
        rw [if_neg (ne_of_lt (greater other seen))]
        exact .inl ⟨seen,low,rfl⟩
      · rw [if_pos rfl,stateOf_new fresh step isNew]
        exact .inr ⟨rfl,rfl⟩
  · rw [List.length_append,roomLength,List.length_singleton,cardEq]
    omega
  · intro allFit
    rw [cardEq] at allFit
    have lengthEq := holds.length
    rw [if_neg (by omega),List.map_append,List.map_singleton]
    refine List.pairwise_append.mpr ⟨holds.sorted (by omega),List.pairwise_singleton _ _,?_⟩
    intro other member last isLast
    rw [List.mem_singleton.mp isLast]
    exact greater other (holds.key_mem.mp member).1

theorem Holds.arrive (holds : Holds cap fresh step arrivals buckets) (room : 0 < cap) (event : δ)
    (greatest : ∀ other ∈ arrivals.map Prod.fst, other ≤ key) :
    Holds cap fresh step (arrivals ++ [(key,event)]) (touch cap fresh key (step event) buckets) := by
  by_cases seen : key ∈ arrivals.map Prod.fst
  · exact holds.again room event seen greatest
  · exact holds.firstTime room event fun other member =>
      lt_of_le_of_ne (greatest other member) fun same => seen (same ▸ member)

end Step

theorem touchAll_holds {cap : Nat} (room : 0 < cap) (fresh : σ) (step : δ → σ → σ)
    (ascending : (arrivals.map Prod.fst).Pairwise (· ≤ ·)) :
    Holds cap fresh step arrivals (touchAll cap fresh step arrivals) := by
  induction arrivals using List.reverseRecOn with
  | nil => exact holds_nil cap fresh step
  | append_singleton arrivals arrival ih =>
      rw [List.map_append,List.map_singleton,List.pairwise_append] at ascending
      rw [touchAll,List.foldl_append]
      exact (ih ascending.1).arrive room arrival.2 fun other member =>
        ascending.2.2 other member arrival.1 (List.mem_singleton.mpr rfl)

theorem flatMap_filter_perm {α : Type} (keyOf : α → κ) (distinct : keys.Nodup) (items : List α) :
    (keys.flatMap fun key => items.filter fun item => keyOf item = key).Perm
      (items.filter fun item => keyOf item ∈ keys) := by
  induction keys with
  | nil => simp
  | cons key rest ih =>
      obtain ⟨notInRest,restDistinct⟩ := List.nodup_cons.mp distinct
      have here : (items.filter fun item => keyOf item ∈ key :: rest).filter
          (fun item => keyOf item = key) = items.filter fun item => keyOf item = key := by
        rw [List.filter_filter]
        refine List.filter_congr fun item _ => ?_
        by_cases same : keyOf item = key
        · simp [same]
        · simp [same]
      have others : (items.filter fun item => keyOf item ∈ key :: rest).filter
          (fun item => !decide (keyOf item = key)) = items.filter fun item => keyOf item ∈ rest := by
        rw [List.filter_filter]
        refine List.filter_congr fun item _ => ?_
        by_cases same : keyOf item = key
        · simp [same,notInRest]
        · simp [same]
      have split := List.filter_append_perm (fun item => decide (keyOf item = key))
        (items.filter fun item => keyOf item ∈ key :: rest)
      rw [here,others] at split
      rw [List.flatMap_cons]
      exact ((ih restDistinct).append_left _).trans split

section Agree

variable {cap : Nat} {fresh : σ} {step : δ → σ → σ} {first second : List (κ × δ)}
  {buckets others : List (κ × σ)}

theorem Holds.mem_iff (holds : Holds cap fresh step first buckets)
    (otherHolds : Holds cap fresh step second others) {key : κ}
    (agree : first.filter (fun arrival => key ≤ arrival.1) =
      second.filter fun arrival => key ≤ arrival.1) (state : σ) :
    (key,state) ∈ buckets ↔ (key,state) ∈ others := by
  have keysOf : ∀ {arrivals : List (κ × δ)} {other : κ}, key ≤ other →
      (other ∈ arrivals.map Prod.fst ↔
        other ∈ (arrivals.filter fun arrival => key ≤ arrival.1).map Prod.fst) := by
    intro arrivals other above
    rw [List.mem_map,List.mem_map]
    constructor
    · rintro ⟨arrival,member,rfl⟩
      exact ⟨arrival,List.mem_filter.mpr ⟨member,decide_eq_true above⟩,rfl⟩
    · rintro ⟨arrival,member,rfl⟩
      exact ⟨arrival,(List.mem_filter.mp member).1,rfl⟩
  have sameRank : rank (first.map Prod.fst) key = rank (second.map Prod.fst) key := by
    apply congrArg Finset.card
    ext other
    simp only [Finset.mem_filter,List.mem_toFinset]
    apply and_congr_left
    intro above
    rw [keysOf above.le,agree,← keysOf above.le]
  have stateThrough : ∀ arrivals : List (κ × δ), stateOf fresh step arrivals key =
      stateOf fresh step (arrivals.filter fun arrival => key ≤ arrival.1) key := by
    intro arrivals
    rw [stateOf,stateOf,List.filter_filter]
    congr 1
    apply List.filter_congr
    intro arrival _
    by_cases same : arrival.1 = key
    · simp [same]
    · simp [same]
  rw [holds.mem,otherHolds.mem,keysOf le_rfl,agree,← keysOf le_rfl,sameRank,
    stateThrough first,agree,← stateThrough second]

theorem Holds.filter_perm (holds : Holds cap fresh step first buckets)
    (otherHolds : Holds cap fresh step second others) (active : κ → Bool)
    (agree : ∀ key, active key = true →
      first.filter (fun arrival => key ≤ arrival.1) =
        second.filter fun arrival => key ≤ arrival.1) :
    (buckets.filter fun bucket => active bucket.1).Perm
      (others.filter fun bucket => active bucket.1) := by
  have nodup : (buckets.filter fun bucket => active bucket.1).Nodup :=
    (List.Nodup.of_map _ holds.nodup).filter _
  have otherNodup : (others.filter fun bucket => active bucket.1).Nodup :=
    (List.Nodup.of_map _ otherHolds.nodup).filter _
  rw [List.perm_ext_iff_of_nodup nodup otherNodup]
  rintro ⟨key,state⟩
  rw [List.mem_filter,List.mem_filter]
  apply and_congr_left
  intro isActive
  exact holds.mem_iff otherHolds (agree key isActive) state

theorem Holds.filter_eq (holds : Holds cap fresh step first buckets)
    (otherHolds : Holds cap fresh step second others) (active : κ → Bool)
    (agree : ∀ key, active key = true →
      first.filter (fun arrival => key ≤ arrival.1) =
        second.filter fun arrival => key ≤ arrival.1)
    (few : (first.map Prod.fst).toFinset.card ≤ cap)
    (otherFew : (second.map Prod.fst).toFinset.card ≤ cap) :
    (buckets.filter fun bucket => active bucket.1) =
      others.filter fun bucket => active bucket.1 := by
  have ordered : ∀ {held : List (κ × σ)}, (held.map Prod.fst).Pairwise (· < ·) →
      (held.filter fun bucket => active bucket.1).Pairwise fun one other => one.1 < other.1 :=
    fun ascending => (List.pairwise_map.mp ascending).filter _
  refine (holds.filter_perm otherHolds active agree).eq_of_pairwise ?_
    (ordered (holds.sorted few)) (ordered (otherHolds.sorted otherFew))
  intro one other _ _ less greater
  exact absurd (less.trans greater) (lt_irrefl _)

end Agree

end LatestKeys
