/-
The count-min sketch.

The table has one row for each seed and counts, in every row, the column a hash
falls on.  Before the counters saturate, a cell holds the number of counted
hashes that fall on it, so that the least cell of a hash is at least the number
of times the hash was counted.
-/

import Mathlib.Data.List.Count
import Mathlib.Data.List.Basic
import Mathlib.Algebra.Order.Ring.Int
import Mathlib.Tactic.Linarith

namespace Beava.Sketch

/-- `i64::MAX`. -/
@[irreducible] def i64Max : Int := 2 ^ 63 - 1

/-- `i64::saturating_add`. -/
def saturatingAdd (first second : Int) : Int :=
  max (-2 ^ 63) (min (first + second) i64Max)

/-- `CMS_SEEDS`. -/
def cmsSeeds : List UInt64 :=
  [0x9E3779B97F4A7C15,0xBF58476D1CE4E5B9,0x94D049BB133111EB,0xD1B54A32D192ED03,
   0xBEA225F9EB34556D,0xA24BAED4963EE407,0x85EBCA6B9FE1A285,0xC2B2AE3D27D4EB4F]

/-- `CountMinSketch::rehash`. -/
def rehash (hash seed : UInt64) : UInt64 :=
  let mixed := hash ^^^ seed
  let mixed := mixed ^^^ (mixed >>> 33)
  let mixed := mixed * 0xff51afd7ed558ccd
  let mixed := mixed ^^^ (mixed >>> 33)
  let mixed := mixed * 0xc4ceb9fe1a85ec53
  mixed ^^^ (mixed >>> 33)

/-- The sizes that `CountMinSketch::new` accepts. -/
structure Shape where
  width : Nat
  depth : Nat
  widthPos : 0 < width
  depthPos : 0 < depth
  depthLe : depth ≤ cmsSeeds.length

/-- `CountMinSketch::col`. -/
def Shape.col (shape : Shape) (hash : UInt64) (row : Nat) : Nat :=
  (rehash hash (cmsSeeds.getD row 0)).toNat % shape.width

def Shape.place (shape : Shape) (row col : Nat) : Nat :=
  row * shape.width + col

structure CountMinSketch (shape : Shape) where
  counters : List Int
  total : Nat
  sized : counters.length = shape.width * shape.depth

variable {shape : Shape}

theorem Shape.col_lt (shape : Shape) (hash : UInt64) (row : Nat) :
    shape.col hash row < shape.width :=
  Nat.mod_lt _ shape.widthPos

theorem Shape.place_inj {row other col otherCol : Nat} (inRow : col < shape.width)
    (inOther : otherCol < shape.width) :
    shape.place row col = shape.place other otherCol ↔ row = other ∧ col = otherCol := by
  unfold Shape.place
  constructor
  · intro same
    have sameRow : row = other := by
      have quotient := congrArg (· / shape.width) same
      simp only [Nat.mul_comm _ shape.width,Nat.mul_add_div shape.widthPos,
        Nat.div_eq_of_lt inRow,Nat.div_eq_of_lt inOther,Nat.add_zero] at quotient
      exact quotient
    subst sameRow
    exact ⟨rfl,by omega⟩
  · rintro ⟨rfl,rfl⟩
    rfl

namespace CountMinSketch

def new (shape : Shape) : CountMinSketch shape :=
  { counters := List.replicate (shape.width * shape.depth) 0
    total := 0
    sized := List.length_replicate }

def updateRow (hash : UInt64) (delta : Int) (cms : CountMinSketch shape) (row : Nat) :
    CountMinSketch shape :=
  { cms with
    counters := cms.counters.modify (shape.place row (shape.col hash row)) fun counter =>
      max (saturatingAdd counter delta) 0
    sized := by rw [List.length_modify,cms.sized] }

def update (cms : CountMinSketch shape) (hash : UInt64) (delta : Int) : CountMinSketch shape :=
  let counted := (List.range shape.depth).foldl (updateRow hash delta) cms
  { counted with
    total :=
      if 0 < delta then min (counted.total + delta.toNat) (2 ^ 64 - 1)
      else counted.total - (-delta).toNat }

def insert (cms : CountMinSketch shape) (hash : UInt64) : CountMinSketch shape :=
  cms.update hash 1

def merge (cms other : CountMinSketch shape) : CountMinSketch shape where
  counters :=
    List.zipWith (fun own theirs => max (saturatingAdd own theirs) 0) cms.counters other.counters
  total := min (cms.total + other.total) (2 ^ 64 - 1)
  sized := by rw [List.length_zipWith,cms.sized,other.sized,Nat.min_self]

def cell (cms : CountMinSketch shape) (row col : Nat) : Int :=
  cms.counters.getD (shape.place row col) 0

def leastOf (values : Nat → Int) (rows : List Nat) (start : Int) : Int :=
  rows.foldl (fun least row => if values row < least then values row else least) start

/-- The least counter on the cells of a hash; the start value stands for none. -/
def estimate (cms : CountMinSketch shape) (hash : UInt64) : Int :=
  let least := leastOf (fun row => cms.cell row (shape.col hash row)) (List.range shape.depth) i64Max
  if least = i64Max then 0 else least

variable (cms : CountMinSketch shape)

theorem place_lt {row col : Nat} (inTable : row < shape.depth) (inRow : col < shape.width) :
    shape.place row col < cms.counters.length := by
  rw [cms.sized,Shape.place]
  calc row * shape.width + col < row * shape.width + shape.width := by omega
    _ = (row + 1) * shape.width := (Nat.succ_mul row shape.width).symm
    _ ≤ shape.depth * shape.width := Nat.mul_le_mul_right _ inTable
    _ = shape.width * shape.depth := Nat.mul_comm _ _

theorem cell_updateRow (hash : UInt64) (delta : Int) {updated row col : Nat}
    (inTable : row < shape.depth) (inRow : col < shape.width) :
    (cms.updateRow hash delta updated).cell row col =
      if updated = row ∧ shape.col hash row = col then
        max (saturatingAdd (cms.cell row col) delta) 0
      else cms.cell row col := by
  have inList := cms.place_lt inTable inRow
  have samePlace : shape.place updated (shape.col hash updated) = shape.place row col ↔
      updated = row ∧ shape.col hash row = col := by
    rw [Shape.place_inj (shape.col_lt hash updated) inRow]
    exact and_congr_right fun sameRow => by rw [sameRow]
  simp only [cell,updateRow,List.getD_eq_getElem?_getD,List.getElem?_modify,
    List.getElem?_eq_getElem inList,Option.map_eq_map,Option.map_some,Option.getD_some,
    samePlace]

theorem cell_foldl_updateRow (hash : UInt64) (delta : Int) {rows : List Nat} (distinct : rows.Nodup)
    {row col : Nat} (inTable : row < shape.depth) (inRow : col < shape.width) :
    (rows.foldl (updateRow hash delta) cms).cell row col =
      if row ∈ rows ∧ shape.col hash row = col then
        max (saturatingAdd (cms.cell row col) delta) 0
      else cms.cell row col := by
  induction rows generalizing cms with
  | nil => simp
  | cons updated rest ih =>
      obtain ⟨notLater,distinctRest⟩ := List.nodup_cons.mp distinct
      rw [List.foldl_cons,ih _ distinctRest,cell_updateRow cms hash delta inTable inRow]
      by_cases here : updated = row
      · subst here
        simp [notLater]
      · simp [here,Ne.symm here]

theorem cell_update (hash : UInt64) (delta : Int) {row col : Nat} (inTable : row < shape.depth)
    (inRow : col < shape.width) :
    (cms.update hash delta).cell row col =
      if shape.col hash row = col then max (saturatingAdd (cms.cell row col) delta) 0
      else cms.cell row col := by
  have distinct : (List.range shape.depth).Nodup := List.nodup_range
  have counted := cell_foldl_updateRow cms hash delta distinct inTable inRow
  simp only [List.mem_range,inTable,true_and] at counted
  exact counted

/-- Every cell holds the number of the hashes that fall on it. -/
def Tallies (cms : CountMinSketch shape) (hashes : List UInt64) : Prop :=
  ∀ row < shape.depth, ∀ col < shape.width,
    cms.cell row col = (hashes.countP fun hash => shape.col hash row = col : Nat)

theorem tallies_new (shape : Shape) : (new shape).Tallies [] := by
  intro row inTable col inRow
  have inList := (new shape).place_lt inTable inRow
  have lookup : (new shape).counters[shape.place row col]? = some 0 := by
    rw [new,List.getElem?_replicate,if_pos]
    rwa [new,List.length_replicate] at inList
  rw [cell,List.getD_eq_getElem?_getD,lookup]
  rfl

theorem Tallies.perm {cms : CountMinSketch shape} {hashes others : List UInt64}
    (tallies : cms.Tallies hashes) (perm : hashes.Perm others) : cms.Tallies others := by
  intro row inTable col inRow
  rw [tallies row inTable col inRow,perm.countP_eq]

theorem saturatingAdd_of_bounds {first second : Int} (nonneg : 0 ≤ first + second)
    (bounded : first + second ≤ i64Max) : saturatingAdd first second = first + second := by
  unfold saturatingAdd
  rw [min_eq_left bounded,max_eq_right]
  omega

theorem Tallies.update {cms : CountMinSketch shape} {hashes : List UInt64}
    (tallies : cms.Tallies hashes) (hash : UInt64) {times : Nat}
    (bounded : ((times + hashes.length : Nat) : Int) ≤ i64Max) :
    (cms.update hash times).Tallies (List.replicate times hash ++ hashes) := by
  intro row inTable col inRow
  rw [cell_update cms hash times inTable inRow,tallies row inTable col inRow,
    List.countP_append,List.countP_replicate]
  have atMost : hashes.countP (fun other => shape.col other row = col) ≤ hashes.length :=
    List.countP_le_length
  by_cases falls : shape.col hash row = col
  · have bounds : ((hashes.countP fun other => shape.col other row = col : Nat) : Int) + times ≤
        i64Max := by
      push_cast at bounded
      omega
    rw [if_pos falls,saturatingAdd_of_bounds (by omega) bounds]
    simp only [falls,decide_true,if_true]
    push_cast
    omega
  · simp [falls]

section Estimate

variable {cms : CountMinSketch shape} {hashes : List UInt64}
variable {rows : List Nat} {row : Nat}

theorem leastOf_le_start (values : Nat → Int) (rows : List Nat) (start : Int) :
    leastOf values rows start ≤ start := by
  induction rows generalizing start with
  | nil => exact le_refl start
  | cons row rest ih =>
      refine (ih (if values row < start then values row else start)).trans ?_
      split <;> omega

theorem leastOf_le (values : Nat → Int) (start : Int) (member : row ∈ rows) :
    leastOf values rows start ≤ values row := by
  induction rows generalizing start with
  | nil => cases member
  | cons head rest ih =>
      rcases List.mem_cons.mp member with rfl | later
      · refine (leastOf_le_start values rest _).trans ?_
        simp only
        split <;> omega
      · exact ih _ later

theorem le_leastOf {values : Nat → Int} {start bound : Int} (leStart : bound ≤ start)
    (leRows : ∀ row ∈ rows, bound ≤ values row) : bound ≤ leastOf values rows start := by
  induction rows generalizing start with
  | nil => exact leStart
  | cons row rest ih =>
      refine ih ?_ fun other later => leRows other (List.mem_cons_of_mem row later)
      simp only
      split
      · exact leRows row List.mem_cons_self
      · exact leStart

theorem Tallies.estimate_le (tallies : cms.Tallies hashes) (hash : UInt64)
    (inTable : row < shape.depth) :
    cms.estimate hash ≤
      (hashes.countP fun other => shape.col other row = shape.col hash row : Nat) := by
  rw [← tallies row inTable _ (shape.col_lt hash row),estimate]
  split
  · rw [tallies row inTable _ (shape.col_lt hash row)]
    exact Int.natCast_nonneg _
  · exact leastOf_le _ i64Max (List.mem_range.mpr inTable)

theorem Tallies.le_estimate (tallies : cms.Tallies hashes)
    (bounded : (hashes.length : Int) < i64Max) (hash : UInt64) {times : Nat}
    (counted : ∀ row < shape.depth,
      times ≤ hashes.countP fun other => shape.col other row = shape.col hash row) :
    (times : Int) ≤ cms.estimate hash := by
  have cellOf : ∀ row < shape.depth, cms.cell row (shape.col hash row) =
      (hashes.countP fun other => shape.col other row = shape.col hash row : Nat) :=
    fun row inTable => tallies row inTable _ (shape.col_lt hash row)
  have belowMax : ∀ row < shape.depth, cms.cell row (shape.col hash row) < i64Max := by
    intro row inTable
    have atMost : hashes.countP (fun other => shape.col other row = shape.col hash row) ≤
        hashes.length := List.countP_le_length
    rw [cellOf row inTable]
    omega
  have firstRow : 0 ∈ List.range shape.depth := List.mem_range.mpr shape.depthPos
  have belowFirst := belowMax 0 shape.depthPos
  have leFirst := leastOf_le (fun row => cms.cell row (shape.col hash row)) i64Max firstRow
  rw [estimate,if_neg (by omega)]
  refine le_leastOf ?_ ?_
  · have first := counted 0 shape.depthPos
    rw [cellOf 0 shape.depthPos] at belowFirst
    omega
  · intro row member
    have inTable := List.mem_range.mp member
    rw [cellOf row inTable]
    exact_mod_cast counted row inTable

end Estimate

end CountMinSketch

end Beava.Sketch
