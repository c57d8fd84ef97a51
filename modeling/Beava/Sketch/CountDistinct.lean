/-
The state of a distinct count.

Up to a threshold the state keeps every hash, in an array and then in a set; after
it the state keeps a register for each slot of a table, with the highest rank that
came into the slot.  What is reported depends on which hashes came in, not on
their order, their number or the states that were merged.
-/

import Mathlib.Data.Finset.Card
import Mathlib.Data.List.Sort

namespace Beava.Sketch

/-! ### Registers -/

namespace Hll

/-- `mix64`. -/
def mix64 (hash : UInt64) : UInt64 :=
  let first := (hash ^^^ (hash >>> 30)) * 0xbf58476d1ce4e5b9
  let second := (first ^^^ (first >>> 27)) * 0x94d049bb133111eb
  second ^^^ (second >>> 31)

def leadingZeros (number : UInt64) : Nat :=
  if number = 0 then 64 else 63 - number.toNat.log2

def slot (hash : UInt64) : Nat := (mix64 hash >>> 52).toNat

/-- The rank of a hash, from the other bits. -/
def rank (hash : UInt64) : Nat := leadingZeros ((mix64 hash <<< 12) ||| ((1 : UInt64) <<< 11)) + 1

end Hll

structure Hll where
  registers : List Nat
  deriving DecidableEq

namespace Hll

def new : Hll := ⟨List.replicate 4096 0⟩

def addHash (hash : UInt64) (sketch : Hll) : Hll :=
  if sketch.registers.getD (slot hash) 0 < rank hash then
    ⟨sketch.registers.set (slot hash) (rank hash)⟩
  else sketch

def addAll (hashes : List UInt64) (sketch : Hll) : Hll :=
  hashes.foldl (fun sketch hash => sketch.addHash hash) sketch

/-- The higher register of each slot. -/
def merge (sketch other : Hll) : Hll :=
  ⟨List.zipWith (fun own theirs => if own < theirs then theirs else own)
    sketch.registers other.registers⟩

theorem slot_lt (hash : UInt64) : slot hash < 4096 := by
  unfold slot
  have shifted : (mix64 hash >>> 52).toNat = (mix64 hash).toNat / 2 ^ 52 := by
    rw [UInt64.toNat_shiftRight]
    simp [Nat.shiftRight_eq_div_pow]
  have below := UInt64.toNat_lt (mix64 hash)
  omega

/-- Each register is the highest rank of the hashes of its slot. -/
structure Counts (hashes : List UInt64) (sketch : Hll) : Prop where
  length : sketch.registers.length = 4096
  reached : ∀ index < 4096, ∀ level, level ≤ sketch.registers.getD index 0 ↔
    level = 0 ∨ ∃ hash ∈ hashes, slot hash = index ∧ level ≤ rank hash

variable {hashes others : List UInt64} {sketch other : Hll}

theorem counts_new : Counts [] new where
  length := List.length_replicate
  reached := by
    intro index inTable level
    have zero : new.registers.getD index 0 = 0 := by
      rw [new,List.getD_eq_getElem?_getD,List.getElem?_replicate,if_pos inTable,
        Option.getD_some]
    rw [zero,Nat.le_zero]
    constructor
    · intro lowest
      exact .inl lowest
    · intro reached
      rcases reached with lowest | ⟨hash,member,_⟩
      · exact lowest
      · cases member

theorem Counts.addHash (counts : Counts hashes sketch) (hash : UInt64) :
    Counts (hashes ++ [hash]) (sketch.addHash hash) := by
  have inTable := slot_lt hash
  unfold Hll.addHash
  split
  · rename_i higher
    refine ⟨by rw [List.length_set]; exact counts.length,?_⟩
    intro index inRange level
    have before := counts.reached index inRange level
    by_cases same : slot hash = index
    · subst same
      have written : (sketch.registers.set (slot hash) (rank hash)).getD (slot hash) 0 =
          rank hash := by
        rw [List.getD_eq_getElem?_getD,List.getElem?_set_self (by rw [counts.length]; exact inTable),
          Option.getD_some]
      rw [written]
      constructor
      · intro below
        exact .inr ⟨hash,List.mem_append_right _ List.mem_cons_self,rfl,below⟩
      · intro reached
        rcases reached with rfl | ⟨earlier,member,sameSlot,below⟩
        · exact Nat.zero_le _
        · rcases List.mem_append.mp member with old | last
          · exact Nat.le_trans (before.mpr (.inr ⟨earlier,old,sameSlot,below⟩))
              (Nat.le_of_lt higher)
          · rwa [List.mem_singleton.mp last] at below
    · have kept : (sketch.registers.set (slot hash) (rank hash)).getD index 0 =
          sketch.registers.getD index 0 := by
        rw [List.getD_eq_getElem?_getD,List.getD_eq_getElem?_getD,List.getElem?_set_ne same]
      rw [kept,before]
      simp [same]
  · rename_i notHigher
    refine ⟨counts.length,?_⟩
    intro index inRange level
    rw [counts.reached index inRange level]
    constructor
    · intro reached
      rcases reached with zero | ⟨earlier,member,sameSlot,below⟩
      · exact .inl zero
      · exact .inr ⟨earlier,List.mem_append_left _ member,sameSlot,below⟩
    · intro reached
      rcases reached with zero | ⟨earlier,member,sameSlot,below⟩
      · exact .inl zero
      · rcases List.mem_append.mp member with old | last
        · exact .inr ⟨earlier,old,sameSlot,below⟩
        · rw [List.mem_singleton.mp last] at sameSlot below
          subst sameSlot
          exact (counts.reached _ inRange level).mp
            (Nat.le_trans below (Nat.le_of_not_lt notHigher))

theorem Counts.addAll (counts : Counts hashes sketch) (others : List UInt64) :
    Counts (hashes ++ others) (sketch.addAll others) := by
  unfold Hll.addAll
  induction others generalizing hashes sketch with
  | nil => rwa [List.append_nil]
  | cons hash others ih =>
      have next := ih (counts.addHash hash)
      rwa [List.append_assoc] at next

theorem Counts.merge (counts : Counts hashes sketch) (otherCounts : Counts others other) :
    Counts (hashes ++ others) (sketch.merge other) where
  length := by
    rw [Hll.merge,List.length_zipWith,counts.length,otherCounts.length,Nat.min_self]
  reached := by
    intro index inRange level
    have own := counts.reached index inRange level
    have theirs := otherCounts.reached index inRange level
    have inOwn : index < sketch.registers.length := by rw [counts.length]; exact inRange
    have inTheirs : index < other.registers.length := by rw [otherCounts.length]; exact inRange
    have merged : (sketch.merge other).registers.getD index 0 =
        max (sketch.registers.getD index 0) (other.registers.getD index 0) := by
      simp only [Hll.merge,List.getD_eq_getElem?_getD,List.getElem?_zipWith,
        List.getElem?_eq_getElem inOwn,List.getElem?_eq_getElem inTheirs,Option.getD_some]
      split <;> omega
    rw [merged,le_max_iff,own,theirs]
    constructor
    · intro reached
      rcases reached with (zero | ⟨hash,member,rest⟩) | (zero | ⟨hash,member,rest⟩)
      · exact .inl zero
      · exact .inr ⟨hash,List.mem_append_left _ member,rest⟩
      · exact .inl zero
      · exact .inr ⟨hash,List.mem_append_right _ member,rest⟩
    · intro reached
      rcases reached with zero | ⟨hash,member,rest⟩
      · exact .inl (.inl zero)
      · rcases List.mem_append.mp member with inOwnHashes | inTheirHashes
        · exact .inl (.inr ⟨hash,inOwnHashes,rest⟩)
        · exact .inr (.inr ⟨hash,inTheirHashes,rest⟩)

theorem Counts.perm_mem (counts : Counts hashes sketch)
    (same : ∀ hash, hash ∈ hashes ↔ hash ∈ others) : Counts others sketch where
  length := counts.length
  reached := by
    intro index inRange level
    rw [counts.reached index inRange level]
    simp only [same]

theorem Counts.unique (counts : Counts hashes sketch) (otherCounts : Counts hashes other) :
    sketch = other := by
  have registers : sketch.registers = other.registers := by
    apply List.ext_getElem (by rw [counts.length,otherCounts.length])
    intro index inOwn inTheirs
    have inRange : index < 4096 := by rwa [counts.length] at inOwn
    have own := counts.reached index inRange
    have theirs := otherCounts.reached index inRange
    rw [List.getD_eq_getElem?_getD,List.getElem?_eq_getElem inOwn,Option.getD_some] at own
    rw [List.getD_eq_getElem?_getD,List.getElem?_eq_getElem inTheirs,Option.getD_some] at theirs
    apply Nat.le_antisymm
    · exact (theirs _).mpr ((own _).mp (Nat.le_refl _))
    · exact (own _).mpr ((theirs _).mp (Nat.le_refl _))
  cases sketch
  cases other
  exact congrArg Hll.mk registers

end Hll

/-! ### Modes -/

inductive CountDistinctState where
  | exactArray (values : List UInt64)
  | hashSet (hashes : List UInt64)
  | hll (sketch : Hll)

namespace CountDistinctState

def exactThreshold : Nat := 16

def hashThreshold : Nat := 1024

def new : CountDistinctState := .exactArray []

/-- The array is sorted; the order of the set is open, and nothing depends on it. -/
def addHash (hash : UInt64) : CountDistinctState → CountDistinctState
  | .exactArray values =>
      if hash ∈ values then .exactArray values
      else
        let values := values.orderedInsert (· ≤ ·) hash
        if exactThreshold < values.length then .hashSet values else .exactArray values
  | .hashSet hashes =>
      let hashes := if hash ∈ hashes then hashes else hashes ++ [hash]
      if hashThreshold < hashes.length then .hll (Hll.new.addAll hashes) else .hashSet hashes
  | .hll sketch => .hll (sketch.addHash hash)

def addAll (hashes : List UInt64) (state : CountDistinctState) : CountDistinctState :=
  hashes.foldl (fun state hash => state.addHash hash) state

/-- `estimateHll` is the estimate from the registers. -/
def estimate (estimateHll : Hll → Nat) : CountDistinctState → Nat
  | .exactArray values => values.length
  | .hashSet hashes => hashes.length
  | .hll sketch => estimateHll sketch

def promoteToHll : CountDistinctState → Hll
  | .exactArray values => Hll.new.addAll values
  | .hashSet hashes => Hll.new.addAll hashes
  | .hll sketch => sketch

/-- A table takes in the hashes or the registers of the other state, and when the
other state is a table, both are. -/
def merge (state other : CountDistinctState) : CountDistinctState :=
  match state, other with
  | state, .hll theirs => .hll (state.promoteToHll.merge theirs)
  | .hll sketch, .exactArray values => .hll (sketch.addAll values)
  | .hll sketch, .hashSet hashes => .hll (sketch.addAll hashes)
  | state, .exactArray values => state.addAll values
  | state, .hashSet hashes => state.addAll hashes

/-- The values are the hashes without repetition, and not more than the bound. -/
structure Keeps (hashes : List UInt64) (bound : Nat) (values : List UInt64) : Prop where
  nodup : values.Nodup
  mem : ∀ hash, hash ∈ values ↔ hash ∈ hashes
  length : values.length ≤ bound

/-- The state after the hashes: they are kept, or there are too many of them and
the registers count them. -/
def Represents (hashes : List UInt64) : CountDistinctState → Prop
  | .exactArray values => Keeps hashes exactThreshold values
  | .hashSet values => Keeps hashes hashThreshold values
  | .hll sketch => sketch.Counts hashes ∧ hashThreshold < hashes.toFinset.card

section Runs

variable {hashes others values : List UInt64} {state other : CountDistinctState} {bound : Nat}
variable {hash : UInt64}

theorem Keeps.card (keeps : Keeps hashes bound values) :
    hashes.toFinset.card = values.length := by
  have same : hashes.toFinset = values.toFinset := by
    ext hash
    rw [List.mem_toFinset,List.mem_toFinset,keeps.mem]
  rw [same,List.toFinset_card_of_nodup keeps.nodup]

theorem Keeps.again (keeps : Keeps hashes bound values) (seen : hash ∈ values) :
    Keeps (hashes ++ [hash]) bound values where
  nodup := keeps.nodup
  mem := by
    intro item
    rw [List.mem_append,List.mem_singleton,← keeps.mem]
    constructor
    · exact .inl
    · intro either
      rcases either with old | rfl
      · exact old
      · exact seen
  length := keeps.length

theorem Keeps.insert (keeps : Keeps hashes bound values) {inserted : List UInt64}
    (new : hash ∉ values) (isInserted : inserted.Perm (hash :: values)) {larger : Nat}
    (fits : inserted.length ≤ larger) : Keeps (hashes ++ [hash]) larger inserted where
  nodup := isInserted.nodup_iff.mpr (List.nodup_cons.mpr ⟨new,keeps.nodup⟩)
  mem := by
    intro item
    rw [isInserted.mem_iff,List.mem_cons,List.mem_append,List.mem_singleton,keeps.mem,or_comm]
  length := fits

theorem Keeps.counts (keeps : Keeps hashes bound values) :
    (Hll.new.addAll values).Counts hashes := by
  have counts := Hll.counts_new.addAll values
  rw [List.nil_append] at counts
  exact counts.perm_mem keeps.mem

theorem represents_new : Represents [] new where
  nodup := List.nodup_nil
  mem _ := Iff.rfl
  length := Nat.zero_le _

theorem Represents.congr (represents : Represents hashes state)
    (same : ∀ hash, hash ∈ hashes ↔ hash ∈ others) : Represents others state := by
  cases state with
  | exactArray | hashSet =>
      exact ⟨represents.nodup,fun hash => (represents.mem hash).trans (same hash),
        represents.length⟩
  | hll sketch =>
      have sameSet : hashes.toFinset = others.toFinset := by
        ext hash
        rw [List.mem_toFinset,List.mem_toFinset,same]
      exact ⟨represents.1.perm_mem same,by rw [← sameSet]; exact represents.2⟩

theorem card_append_left (hashes others : List UInt64) :
    hashes.toFinset.card ≤ (hashes ++ others).toFinset.card := by
  apply Finset.card_le_card
  rw [List.toFinset_append]
  exact Finset.subset_union_left

theorem card_append_right (hashes others : List UInt64) :
    others.toFinset.card ≤ (hashes ++ others).toFinset.card := by
  apply Finset.card_le_card
  rw [List.toFinset_append]
  exact Finset.subset_union_right

theorem Represents.addHash (represents : Represents hashes state) (hash : UInt64) :
    Represents (hashes ++ [hash]) (state.addHash hash) := by
  cases state with
  | exactArray values =>
      have keeps : Keeps hashes exactThreshold values := represents
      rw [CountDistinctState.addHash]
      by_cases seen : hash ∈ values
      · rw [if_pos seen]
        exact keeps.again seen
      · rw [if_neg seen]
        have inserted := List.perm_orderedInsert (· ≤ ·) hash values
        have length := inserted.length_eq
        rw [List.length_cons] at length
        have before := keeps.length
        dsimp only
        split
        · refine keeps.insert seen inserted ?_
          simp only [exactThreshold,hashThreshold] at before ⊢
          omega
        · rename_i fits
          exact keeps.insert seen inserted (Nat.le_of_not_lt fits)
  | hashSet values =>
      have keeps : Keeps hashes hashThreshold values := represents
      rw [CountDistinctState.addHash]
      by_cases seen : hash ∈ values
      · simp only [if_pos seen,if_neg (Nat.not_lt.mpr keeps.length)]
        exact keeps.again seen
      · have inserted : (values ++ [hash]).Perm (hash :: values) := List.perm_append_singleton ..
        have grown := keeps.insert seen inserted (Nat.le_refl _)
        simp only [if_neg seen]
        split
        · rename_i full
          exact ⟨grown.counts,by rw [grown.card]; exact full⟩
        · rename_i fits
          exact ⟨grown.nodup,grown.mem,Nat.le_of_not_lt fits⟩
  | hll sketch =>
      exact ⟨represents.1.addHash hash,
        Nat.lt_of_lt_of_le represents.2 (card_append_left hashes [hash])⟩

theorem Represents.addAll (represents : Represents hashes state) (others : List UInt64) :
    Represents (hashes ++ others) (state.addAll others) := by
  unfold CountDistinctState.addAll
  induction others generalizing hashes state with
  | nil => rwa [List.append_nil]
  | cons hash others ih =>
      have next := ih (represents.addHash hash)
      rwa [List.append_assoc] at next

theorem Represents.promoteToHll (represents : Represents hashes state) :
    state.promoteToHll.Counts hashes := by
  cases state with
  | exactArray | hashSet => exact Keeps.counts represents
  | hll sketch => exact represents.1

theorem Keeps.append_iff (keeps : Keeps others bound values) (hash : UInt64) :
    hash ∈ hashes ++ values ↔ hash ∈ hashes ++ others := by
  rw [List.mem_append,List.mem_append,keeps.mem]

theorem Represents.merge (represents : Represents hashes state)
    (otherRepresents : Represents others other) :
    Represents (hashes ++ others) (state.merge other) := by
  cases other with
  | hll theirs =>
      have merged : Represents (hashes ++ others) (.hll (state.promoteToHll.merge theirs)) :=
        ⟨represents.promoteToHll.merge otherRepresents.1,
          Nat.lt_of_lt_of_le otherRepresents.2 (card_append_right hashes others)⟩
      cases state <;> exact merged
  | exactArray values =>
      have keeps : Keeps others exactThreshold values := otherRepresents
      have grown := represents.addAll values
      cases state with
      | exactArray => exact grown.congr keeps.append_iff
      | hashSet => exact grown.congr keeps.append_iff
      | hll sketch =>
          exact ⟨(represents.1.addAll values).perm_mem keeps.append_iff,
            Nat.lt_of_lt_of_le represents.2 (card_append_left hashes others)⟩
  | hashSet values =>
      have keeps : Keeps others hashThreshold values := otherRepresents
      have grown := represents.addAll values
      cases state with
      | exactArray => exact grown.congr keeps.append_iff
      | hashSet => exact grown.congr keeps.append_iff
      | hll sketch =>
          exact ⟨(represents.1.addAll values).perm_mem keeps.append_iff,
            Nat.lt_of_lt_of_le represents.2 (card_append_left hashes others)⟩

theorem Represents.estimate_cases (estimateHll : Hll → Nat) (represents : Represents hashes state) :
    (hashes.toFinset.card ≤ hashThreshold ∧
        state.estimate estimateHll = hashes.toFinset.card) ∨
      (hashThreshold < hashes.toFinset.card ∧
        ∃ sketch, sketch.Counts hashes ∧ state.estimate estimateHll = estimateHll sketch) := by
  cases state with
  | exactArray values =>
      have keeps : Keeps hashes exactThreshold values := represents
      refine .inl ⟨?_,keeps.card.symm⟩
      rw [keeps.card]
      exact Nat.le_trans keeps.length (by decide)
  | hashSet values =>
      have keeps : Keeps hashes hashThreshold values := represents
      exact .inl ⟨by rw [keeps.card]; exact keeps.length,keeps.card.symm⟩
  | hll sketch => exact .inr ⟨represents.2,sketch,represents.1,rfl⟩

theorem Represents.estimate_eq (estimateHll : Hll → Nat) (represents : Represents hashes state)
    (otherRepresents : Represents others other)
    (same : ∀ hash, hash ∈ hashes ↔ hash ∈ others) :
    state.estimate estimateHll = other.estimate estimateHll := by
  have moved := otherRepresents.congr fun hash => (same hash).symm
  rcases represents.estimate_cases estimateHll with ⟨few,own⟩ | ⟨many,sketch,counts,own⟩
  · rcases moved.estimate_cases estimateHll with ⟨_,theirs⟩ | ⟨many,_⟩
    · rw [own,theirs]
    · exact absurd few (Nat.not_le_of_lt many)
  · rcases moved.estimate_cases estimateHll with ⟨few,_⟩ | ⟨_,other,otherCounts,theirs⟩
    · exact absurd few (Nat.not_le_of_lt many)
    · rw [own,theirs,counts.unique otherCounts]

end Runs

end CountDistinctState

end Beava.Sketch
