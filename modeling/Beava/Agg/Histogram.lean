/-
What a histogram reports.

The cells of a histogram are found by a scan over its edges, and reported under texts
of the edges.  Registration takes any list of edges.  Cells that overlap, cells with
the same text and integers that are rounded to an edge are counted under a wrong label.
-/

import Beava.Agg.EdgeTexts
import Beava.Lib.Cells

namespace Beava.Agg

open Beava.Core Beava.Sketch

/-! ### Events -/

/-- The number that an event sends, when it is finite. -/
def sentNumber : Value → Option ℚ
  | .f64 number => if number.isFinite then some number.rational else none
  | .i64 number => some number.toInt
  | _ => none

/-- The state that `AggOp::new` makes for a list of edges. -/
def emptyHistogram (kernel : Kernel) (edges : List F64) : HistogramState kernel :=
  .new (edges.map kernel.ofF64)

/-- The state after events that match. -/
def histogramAfter (kernel : Kernel) (edges : List F64) (field : String) (rows : List Row) :
    HistogramState kernel :=
  rows.foldl (fun state row => state.update row (some field) true) (emptyHistogram kernel edges)

def readCell (kernel : Kernel) (edges : List F64) (field : String) (row : Row) : Option Nat :=
  ((row.get field).bind numeric).map (emptyHistogram kernel edges).bucketIndex

def reportedSum : Value → Int
  | .map entries => (entries.map fun entry => countOf entry.2).sum
  | _ => 0
where
  countOf : Value → Int
    | .i64 count => count.toInt
    | _ => 0

/-- The map that a query returns has the entry. -/
def HasEntry (label : String) (count : Value) : Value → Prop
  | .map entries => (label,count) ∈ entries
  | _ => False

/-- No event is lost: the counts sum up to the number of events, and the count of a cell
is the number of events that the edges put there. -/
def Partitions (kernel : Kernel) (edges : List F64) : Prop :=
  ∀ (field : String) (rows : List Row), rows.length < 2 ^ 63 →
    (∀ row ∈ rows, ((row.get field).bind sentNumber).isSome = true) →
      reportedSum (histogramAfter kernel edges field rows).query = rows.length ∧
        ∀ cell ≤ edges.length,
          HasEntry ((histogramAfter kernel edges field rows).label cell)
            (Kernel.reportCount (rows.countP fun row =>
              ((row.get field).bind sentNumber).any
                (Cells.inCell (edges.map F64.rational) cell)))
            (histogramAfter kernel edges field rows).query

/-- The edges do not decrease, three edges beyond the same end of the range of `i64` are
equal, and no integer below an edge is rounded to it. -/
structure Separates (kernel : Kernel) (edges : List F64) : Prop where
  sorted : (edges.map F64.rational).Pairwise (· ≤ ·)
  texts : ∀ {first last : Nat} {low high : F64}, first + 2 ≤ last → edges[first]? = some low →
    edges[last]? = some high →
    (2 : ℚ) ^ 63 ≤ low.rational ∨ high.rational ≤ -(2 : ℚ) ^ 63 → low.rational = high.rational
  integers : ∀ edge ∈ edges, ∀ number : Int64, (number.toInt : ℚ) < edge.rational →
    kernel.lt (kernel.ofInt number.toInt) (kernel.ofF64 edge) = true

section Counting

variable {kernel : Kernel} {edges : List F64} {field : String} {rows : List Row}
variable (state : HistogramState kernel)
variable {count : Nat}

theorem saturatingSucc_of_lt (small : count < 2 ^ 63) : saturatingSucc count = count + 1 :=
  Nat.min_eq_left (by omega)

theorem histogramAfter_concat (kernel : Kernel) (edges : List F64) (field : String)
    (rows : List Row) (row : Row) :
    histogramAfter kernel edges field (rows ++ [row]) =
      (histogramAfter kernel edges field rows).update row (some field) true :=
  List.foldl_concat ..

theorem counts_after (bounded : rows.length < 2 ^ 63) :
    (histogramAfter kernel edges field rows).buckets = edges.map kernel.ofF64 ∧
      (histogramAfter kernel edges field rows).counts =
        (List.range (edges.length + 1)).map fun cell =>
          rows.countP fun row => readCell kernel edges field row = some cell := by
  induction rows using List.reverseRecOn with
  | nil =>
      refine ⟨rfl,?_⟩
      simp only [List.countP_nil,List.map_const',List.length_range]
      rw [histogramAfter,List.foldl_nil,emptyHistogram,HistogramState.new,List.length_map]
  | append_singleton rows row ih =>
      rw [List.length_append,List.length_singleton] at bounded
      obtain ⟨sameBuckets,sameCounts⟩ := ih (by omega)
      rw [histogramAfter_concat]
      generalize histogramAfter kernel edges field rows = state at *
      simp only [List.countP_append,List.countP_singleton]
      rw [HistogramState.update,updateField,if_pos rfl]
      cases read : (row.get field).bind (@numeric kernel) with
      | none =>
          have noCell : readCell kernel edges field row = none := by rw [readCell,read]; rfl
          refine ⟨sameBuckets,sameCounts.trans ?_⟩
          simp [noCell]
      | some number =>
          have sameIndex : state.bucketIndex number =
              (emptyHistogram kernel edges).bucketIndex number := by
            rw [HistogramState.bucketIndex,sameBuckets]
            rfl
          have isCell : readCell kernel edges field row = some (state.bucketIndex number) := by
            rw [readCell,read,Option.map_some,sameIndex]
          refine ⟨sameBuckets,?_⟩
          rw [isCell]
          dsimp only [HistogramState.add]
          apply List.ext_getElem?
          intro cell
          rw [sameCounts,List.getElem?_modify,List.getElem?_map,List.getElem?_map]
          by_cases inside : cell < edges.length + 1
          · have small : (rows.countP fun row => readCell kernel edges field row = some cell) <
                2 ^ 63 := Nat.lt_of_le_of_lt List.countP_le_length (by omega)
            rw [List.getElem?_range inside]
            simp only [Option.map_some,Option.map_eq_map,Option.some.injEq]
            by_cases here : state.bucketIndex number = cell
            · simp only [here,if_true,decide_true,saturatingSucc_of_lt small]
            · simp only [here,if_false,decide_false,Bool.false_eq_true,Nat.add_zero]
          · rw [List.getElem?_eq_none (by rw [List.length_range]; omega)]
            rfl

theorem sum_marked (cell limit : Nat) :
    ((List.range limit).map fun other => if cell = other then 1 else 0).sum =
      if cell < limit then 1 else 0 := by
  induction limit with
  | zero => rfl
  | succ limit ih =>
      rw [List.range_succ,List.map_append,List.sum_append,ih,List.map_singleton,
        List.sum_singleton]
      split <;> split <;> split <;> omega

theorem sum_counts {limit : Nat} {cellOf : Row → Option Nat} {rows : List Row}
    (counted : ∀ row ∈ rows, ∃ cell < limit, cellOf row = some cell) :
    ((List.range limit).map fun cell => rows.countP fun row => cellOf row = some cell).sum =
      rows.length := by
  induction rows with
  | nil => simp
  | cons row rest ih =>
      obtain ⟨cell,inside,isCell⟩ := counted row List.mem_cons_self
      have later := ih fun other member => counted other (List.mem_cons_of_mem row member)
      simp only [List.countP_cons,isCell,List.sum_map_add,List.length_cons,Option.some.injEq,
        decide_eq_true_iff]
      rw [later,sum_marked,if_pos inside]

theorem query_eq :
    state.query = .map (Cells.cellMap state.label (state.counts.map Kernel.reportCount) :
      StrMap Value).toList := by
  have cells : (state.counts.map Kernel.reportCount).mapIdx (fun position count =>
      (state.label position,count)) = state.counts.mapIdx fun position count =>
        (state.label position,Kernel.reportCount count) := by
    apply List.ext_getElem?
    intro position
    rw [List.getElem?_mapIdx,List.getElem?_mapIdx,List.getElem?_map,Option.map_map]
    rfl
  rw [HistogramState.query,Cells.cellMap,cells]

theorem hasEntry_iff (label : String) (count : Value) :
    HasEntry label count state.query ↔
      (Cells.cellMap state.label (state.counts.map Kernel.reportCount) : StrMap Value)[label]? =
        some count := by
  rw [query_eq]
  exact Std.ExtTreeMap.mem_toList_iff_getElem?_eq_some

theorem query_entry {cell : Nat} (inside : cell < state.counts.length) :
    ∃ last, ∃ found : last < state.counts.length, state.label last = state.label cell ∧
      (∀ count, HasEntry (state.label cell) count state.query ↔
        count = Kernel.reportCount state.counts[last]) ∧
      ∀ other < state.counts.length, state.label other = state.label cell → other ≤ last := by
  have length : (state.counts.map Kernel.reportCount).length = state.counts.length :=
    List.length_map _
  have lookup : ∃ last, ∃ found : last < (state.counts.map Kernel.reportCount).length,
      state.label last = state.label cell ∧
      (Cells.cellMap state.label (state.counts.map Kernel.reportCount) :
        StrMap Value)[state.label cell]? = some (state.counts.map Kernel.reportCount)[last] ∧
      ∀ other < (state.counts.map Kernel.reportCount).length,
        state.label other = state.label cell → other ≤ last :=
    Cells.cellMap_lookup (by rw [length]; exact inside)
  obtain ⟨last,found,same,looked,latest⟩ := lookup
  rw [length] at found latest
  refine ⟨last,found,same,?_,latest⟩
  intro count
  rw [hasEntry_iff,looked,List.getElem_map,Option.some.injEq]
  exact eq_comm

theorem toInt_reportCount (small : count < 2 ^ 63) :
    reportedSum.countOf (Kernel.reportCount count) = count := by
  exact Int64.toInt_ofNat_of_lt small

theorem reportCount_inj {first second : Nat} (small : first < 2 ^ 63) (alsoSmall : second < 2 ^ 63)
    (same : Kernel.reportCount first = Kernel.reportCount second) : first = second := by
  have values := congrArg reportedSum.countOf same
  rw [toInt_reportCount small,toInt_reportCount alsoSmall] at values
  exact_mod_cast values

theorem reportedSum_query
    (small : ∀ count ∈ state.counts, count < 2 ^ 63)
    (shared : ∀ (first second : Nat) (inFirst : first < state.counts.length),
      second < state.counts.length → first < second →
        state.label first = state.label second → state.counts[first] = 0) :
    reportedSum state.query = state.counts.sum := by
  have total : Tally.total reportedSum.countOf
      (Cells.cellMap state.label (state.counts.map Kernel.reportCount) : StrMap Value) =
        ((state.counts.map Kernel.reportCount).map reportedSum.countOf).sum := by
    apply Cells.cellMap_total
    intro first second inFirst inSecond order same
    rw [List.length_map] at inFirst inSecond
    rw [List.getElem_map,shared first second inFirst inSecond order same]
    rfl
  have casts : (state.counts.map Kernel.reportCount).map reportedSum.countOf =
      state.counts.map Nat.cast := by
    rw [List.map_map]
    apply List.map_congr_left
    intro count member
    exact toInt_reportCount (small count member)
  rw [query_eq]
  refine total.trans ?_
  rw [casts]
  exact (Nat.cast_list_sum state.counts).symm

end Counting

section Reading

variable {kernel : Kernel} (reads : ReadsBinary kernel) {edges : List F64}
  (finite : ∀ edge ∈ edges, edge.isFinite = true) {field : String}
variable {number : F64} {row : Row}

include reads finite

theorem bucketIndex_eq (isFinite : number.isFinite = true) :
    (emptyHistogram kernel edges).bucketIndex (kernel.ofF64 number) =
      Cells.cellOf (edges.map F64.rational) number.rational := by
  rw [HistogramState.bucketIndex,← List.findIdx_eq_getD_findIdx?,emptyHistogram,
    HistogramState.new,Cells.cellOf,List.findIdx_map,List.findIdx_map]
  induction edges with
  | nil => rfl
  | cons edge rest ih =>
      have here := reads.less isFinite (finite edge List.mem_cons_self)
      have later := ih fun other member => finite other (List.mem_cons_of_mem edge member)
      rw [List.findIdx_cons,List.findIdx_cons,later]
      simp only [Function.comp_apply]
      rw [Bool.eq_iff_iff.mpr (here.trans decide_eq_true_iff.symm)]

theorem readCell_float (isFinite : number.isFinite = true)
    (found : row.get field = some (.f64 number)) :
    readCell kernel edges field row =
      some (Cells.cellOf (edges.map F64.rational) number.rational) := by
  rw [readCell,found,Option.bind_some,numeric,Option.map_some,
    bucketIndex_eq reads finite isFinite]

theorem readCell_int {number : Int64} (found : row.get field = some (.i64 number)) :
    ∃ nearest : F64, nearest.isFinite = true ∧
      kernel.ofInt number.toInt = kernel.ofF64 nearest ∧
      (∀ bound : F64, bound.isFinite = true →
        bound.rational ≤ number.toInt → bound.rational ≤ nearest.rational) ∧
      readCell kernel edges field row =
        some (Cells.cellOf (edges.map F64.rational) nearest.rational) := by
  obtain ⟨nearest,isFinite,isNearest,bounds⟩ := reads.rounded number
  refine ⟨nearest,isFinite,isNearest,?_,?_⟩
  · intro bound boundFinite
    exact (bounds bound boundFinite).1
  · rw [readCell,found,Option.bind_some,numeric,Option.map_some,isNearest,
      bucketIndex_eq reads finite isFinite]

theorem readCell_exact (integers : ∀ edge ∈ edges, ∀ number : Int64,
      (number.toInt : ℚ) < edge.rational →
        kernel.lt (kernel.ofInt number.toInt) (kernel.ofF64 edge) = true)
    {number : ℚ} (sent : (row.get field).bind sentNumber = some number) :
    readCell kernel edges field row = some (Cells.cellOf (edges.map F64.rational) number) := by
  obtain ⟨value,found,isNumber⟩ := Option.bind_eq_some_iff.mp sent
  cases value with
  | f64 float =>
      rw [sentNumber] at isNumber
      split at isNumber
      · rename_i isFinite
        rw [readCell_float reads finite isFinite found,Option.some.inj isNumber]
      · cases isNumber
  | i64 int =>
      obtain ⟨nearest,isFinite,isNearest,notPassed,read⟩ := readCell_int reads finite found
      have isInt : (int.toInt : ℚ) = number := Option.some.inj isNumber
      rw [read,← isInt]
      apply congrArg some
      apply Cells.cellOf_congr
      intro bound member
      obtain ⟨edge,isEdge,rfl⟩ := List.mem_map.mp member
      have edgeFinite := finite edge isEdge
      constructor
      · intro below
        by_contra notBelow
        exact absurd below (not_lt.mpr (notPassed edge edgeFinite (not_lt.mp notBelow)))
      · intro below
        have read := integers edge isEdge int below
        rw [isNearest] at read
        exact (reads.less isFinite edgeFinite).mp read
  | _ => cases isNumber

end Reading

section Enough

variable {kernel : Kernel} {edges : List F64} {field : String} {rows : List Row}

theorem rational_at {position : Nat} {edge : F64} (found : edges[position]? = some edge) :
    (edges.map F64.rational)[position]? = some edge.rational := by
  rw [List.getElem?_map,found,Option.map_some]

theorem not_inCell_of_eq {before : Nat} {low high : F64} (foundLow : edges[before]? = some low)
    (foundHigh : edges[before + 1]? = some high) (same : low.rational = high.rational) (number : ℚ) :
    Cells.inCell (edges.map F64.rational) (before + 1) number = false := by
  rw [Bool.eq_false_iff]
  intro inside
  obtain ⟨front,behind⟩ := Cells.inCell_iff.mp inside
  have notBelow := front before rfl _ (rational_at foundLow)
  have below := behind _ (rational_at foundHigh)
  exact absurd (lt_of_le_of_lt notBelow below) (by rw [same]; exact lt_irrefl _)

variable (reads : ReadsBinary kernel) (finite : ∀ edge ∈ edges, edge.isFinite = true)

include reads finite

theorem Separates.shared_empty (separates : Separates kernel edges) {state : HistogramState kernel}
    (hasEdges : state.buckets = edges.map kernel.ofF64) {first second : Nat}
    (order : first < second) (atMost : second ≤ edges.length)
    (same : state.label first = state.label second) (number : ℚ) :
    Cells.inCell (edges.map F64.rational) first number = false ∧
      Cells.inCell (edges.map F64.rational) second number = false := by
  obtain ⟨front,back,low,high,lowest,highest,rfl,rfl,foundLow,foundHigh,foundLowest,
    foundHighest,sameLow,sameHigh⟩ := label_eq hasEdges reads finite order atMost same
  have isFinite : ∀ {position : Nat} {edge : F64}, edges[position]? = some edge →
      edge.isFinite = true := by
    intro position edge found
    exact finite edge (List.mem_of_getElem? found)
  have lowHigh := Cells.le_of_sorted separates.sorted (Nat.le_succ front) (rational_at foundLow)
    (rational_at foundHigh)
  have highLowest := Cells.le_of_sorted separates.sorted (by omega : front + 1 ≤ back)
    (rational_at foundHigh) (rational_at foundLowest)
  have lowestHighest := Cells.le_of_sorted separates.sorted (Nat.le_succ back)
    (rational_at foundLowest) (rational_at foundHighest)
  have ends : (2 : ℚ) ^ 63 ≤ low.rational ∨ highest.rational ≤ -(2 : ℚ) ^ 63 →
      low.rational = highest.rational :=
    separates.texts (by omega : front + 2 ≤ back + 1) foundLow foundHighest
  have positive : (0 : ℚ) < 2 ^ 63 := pow_pos zero_lt_two 63
  have allEqual : low.rational = highest.rational := by
    rcases edgeText_eq reads (isFinite foundLow) (isFinite foundLowest) sameLow with
      equal | ⟨above,-⟩ | ⟨-,below⟩
    · rcases edgeText_eq reads (isFinite foundHigh) (isFinite foundHighest) sameHigh with
        equalHigh | ⟨above,-⟩ | ⟨-,below⟩
      · linarith
      · exact ends (.inl (by linarith))
      · exact ends (.inr below)
    · exact ends (.inl above)
    · rcases edgeText_eq reads (isFinite foundHigh) (isFinite foundHighest) sameHigh with
        equalHigh | ⟨above,-⟩ | ⟨-,belowHigh⟩
      · exact ends (.inr (by linarith))
      · linarith
      · exact ends (.inr belowHigh)
  exact ⟨not_inCell_of_eq foundLow foundHigh (by linarith) number,
    not_inCell_of_eq foundLowest foundHighest (by linarith) number⟩

theorem Separates.partitions (separates : Separates kernel edges) : Partitions kernel edges := by
  intro field rows bounded numeric
  have after : (histogramAfter kernel edges field rows).buckets = edges.map kernel.ofF64 ∧ _ :=
    counts_after bounded
  obtain ⟨hasEdges,counts⟩ := after
  have readAt : ∀ row ∈ rows, ∃ number, (row.get field).bind sentNumber = some number ∧
      readCell kernel edges field row =
        some (Cells.cellOf (edges.map F64.rational) number) := by
    intro row member
    obtain ⟨number,sent⟩ := Option.isSome_iff_exists.mp (numeric row member)
    exact ⟨number,sent,readCell_exact reads finite separates.integers sent⟩
  have length : (edges.map F64.rational).length = edges.length := List.length_map _
  have countEq : ∀ cell ≤ edges.length,
      (rows.countP fun row => readCell kernel edges field row = some cell) =
        rows.countP fun row => ((row.get field).bind sentNumber).any
          (Cells.inCell (edges.map F64.rational) cell) := by
    intro cell atMost
    apply List.countP_congr
    intro row member
    obtain ⟨number,sent,read⟩ := readAt row member
    rw [read,sent,Option.any_some,decide_eq_true_iff,Option.some.injEq]
    exact Cells.cellOf_eq_iff separates.sorted (by rw [length]; exact atMost)
  have small : ∀ cell, (rows.countP fun row => readCell kernel edges field row = some cell) <
      2 ^ 63 := by
    intro cell
    exact Nat.lt_of_le_of_lt List.countP_le_length bounded
  have empty : ∀ {first second : Nat}, first < second → second ≤ edges.length →
      (histogramAfter kernel edges field rows).label first =
        (histogramAfter kernel edges field rows).label second →
      (rows.countP fun row => readCell kernel edges field row = some first) = 0 ∧
        (rows.countP fun row => readCell kernel edges field row = some second) = 0 := by
    intro first second order atMost same
    rw [countEq first (by omega),countEq second atMost,List.countP_eq_zero,List.countP_eq_zero]
    constructor
    · intro row member
      obtain ⟨number,sent,-⟩ := readAt row member
      rw [sent,Option.any_some,
        (separates.shared_empty reads finite hasEdges order atMost same number).1]
      exact Bool.false_ne_true
    · intro row member
      obtain ⟨number,sent,-⟩ := readAt row member
      rw [sent,Option.any_some,
        (separates.shared_empty reads finite hasEdges order atMost same number).2]
      exact Bool.false_ne_true
  have inRange : ∀ {cell : Nat}, cell < (histogramAfter kernel edges field rows).counts.length ↔
      cell ≤ edges.length := by
    intro cell
    rw [counts,List.length_map,List.length_range]
    exact Nat.lt_succ_iff
  have countAt : ∀ (cell : Nat)
      (inside : cell < (histogramAfter kernel edges field rows).counts.length),
      (histogramAfter kernel edges field rows).counts[cell] =
        rows.countP fun row => readCell kernel edges field row = some cell := by
    intro cell inside
    simp only [counts,List.getElem_map,List.getElem_range]
  constructor
  · rw [reportedSum_query]
    · rw [counts,sum_counts]
      intro row member
      obtain ⟨number,-,read⟩ := readAt row member
      refine ⟨_,?_,read⟩
      exact Nat.lt_succ_of_le (length ▸ Cells.cellOf_le (edges.map F64.rational) number)
    · intro count member
      rw [counts] at member
      obtain ⟨cell,-,rfl⟩ := List.mem_map.mp member
      exact small cell
    · intro first second inFirst inSecond order same
      rw [countAt first inFirst]
      exact (empty order (inRange.mp inSecond) same).1
  · intro cell atMost
    obtain ⟨last,inLast,same,entry,latest⟩ := query_entry _ (inRange.mpr atMost)
    rw [entry,countAt last inLast,← countEq cell atMost]
    rcases Nat.eq_or_lt_of_le (latest cell (inRange.mpr atMost) rfl) with isLast | before
    · rw [isLast]
    · obtain ⟨noneHere,noneLast⟩ := empty before (inRange.mp inLast) same.symm
      rw [noneHere,noneLast]

end Enough

section Needed

variable {kernel : Kernel} {edges : List F64}

/-- A row with one field. -/
def singleRow (value : Value) : Row := ⟨[("x",value)]⟩

/-- In the state after one event, the last cell with a label is the one of the event
exactly when the event belongs to the label. -/
theorem Partitions.single (partitions : Partitions kernel edges) {value : Value} {number : ℚ}
    {counted cell : Nat} (sent : sentNumber value = some number)
    (read : readCell kernel edges "x" (singleRow value) = some counted)
    (atMost : cell ≤ edges.length) :
    ∃ last ≤ edges.length, (emptyHistogram kernel edges).label last =
        (emptyHistogram kernel edges).label cell ∧
      (Cells.inCell (edges.map F64.rational) cell number = true ↔ last = counted) ∧
      ∀ other ≤ edges.length, (emptyHistogram kernel edges).label other =
        (emptyHistogram kernel edges).label cell → other ≤ last := by
  have found : (singleRow value).get "x" = some value := rfl
  have sentRow : ((singleRow value).get "x").bind sentNumber = some number := by
    rw [found,Option.bind_some,sent]
  have short : [singleRow value].length < 2 ^ 63 := by
    rw [List.length_singleton]
    decide
  have readable : ∀ row ∈ [singleRow value], ((row.get "x").bind sentNumber).isSome = true := by
    intro row member
    rw [List.mem_singleton.mp member,sentRow]
    rfl
  have entries := (partitions "x" [singleRow value] short readable).2 cell atMost
  have after : (histogramAfter kernel edges "x" [singleRow value]).buckets =
      edges.map kernel.ofF64 ∧ _ := counts_after short
  obtain ⟨hasEdges,counts⟩ := after
  have inRange : ∀ {position : Nat},
      position < (histogramAfter kernel edges "x" [singleRow value]).counts.length ↔
        position ≤ edges.length := by
    intro position
    rw [counts,List.length_map,List.length_range]
    exact Nat.lt_succ_iff
  have labels : ∀ position, (histogramAfter kernel edges "x" [singleRow value]).label position =
      (emptyHistogram kernel edges).label position := by
    intro position
    simp only [HistogramState.label,HistogramState.edgeAt,hasEdges]
    rfl
  obtain ⟨last,inLast,same,entry,latest⟩ := query_entry _ (inRange.mpr atMost)
  rw [entry] at entries
  simp only [counts,List.getElem_map,List.getElem_range,List.countP_singleton,sentRow,read,
    Option.any_some,decide_eq_true_iff,Option.some.injEq] at entries
  refine ⟨last,inRange.mp inLast,by rw [← labels,← labels,same],?_,?_⟩
  · by_cases inside : Cells.inCell (edges.map F64.rational) cell number = true
    · by_cases isLast : counted = last
      · exact iff_of_true inside isLast.symm
      · rw [if_pos inside,if_neg isLast] at entries
        exact absurd (reportCount_inj (by decide) (by decide) entries) (by decide)
    · by_cases isLast : counted = last
      · rw [if_neg inside,if_pos isLast] at entries
        exact absurd (reportCount_inj (by decide) (by decide) entries) (by decide)
      · exact iff_of_false inside (Ne.symm isLast)
  · intro other otherAtMost sameLabel
    exact latest other (inRange.mpr otherAtMost) (by rw [labels,labels,sameLabel])

variable (reads : ReadsBinary kernel) (finite : ∀ edge ∈ edges, edge.isFinite = true)
  (partitions : Partitions kernel edges)

include reads finite partitions

theorem Partitions.float {number : F64} (isFinite : number.isFinite = true) {cell : Nat}
    (atMost : cell ≤ edges.length) :
    ∃ last ≤ edges.length, (emptyHistogram kernel edges).label last =
        (emptyHistogram kernel edges).label cell ∧
      (Cells.inCell (edges.map F64.rational) cell number.rational = true ↔
        last = Cells.cellOf (edges.map F64.rational) number.rational) ∧
      ∀ other ≤ edges.length, (emptyHistogram kernel edges).label other =
        (emptyHistogram kernel edges).label cell → other ≤ last := by
  have sent : sentNumber (.f64 number) = some number.rational := by
    rw [sentNumber,if_pos isFinite]
  exact partitions.single sent (readCell_float reads finite isFinite rfl) atMost

theorem Partitions.sorted : (edges.map F64.rational).Pairwise (· ≤ ·) := by
  by_contra notSorted
  obtain ⟨value,member,cell,atMost,inside,different⟩ := Cells.exists_second_cell notSorted
  obtain ⟨edge,isEdge,rfl⟩ := List.mem_map.mp member
  rw [List.length_map] at atMost
  obtain ⟨last,-,-,belongs,latest⟩ :=
    partitions.float reads finite (finite edge isEdge) atMost
  have isLast := belongs.mp inside
  have notBefore := latest cell atMost rfl
  have first := Cells.cellOf_le_of_inCell inside
  omega

theorem Partitions.shared_empty {first second : Nat} (order : first < second)
    (atMost : second ≤ edges.length)
    (same : (emptyHistogram kernel edges).label first = (emptyHistogram kernel edges).label second)
    {number : F64} (isFinite : number.isFinite = true) :
    Cells.cellOf (edges.map F64.rational) number.rational ≠ first ∧
      Cells.cellOf (edges.map F64.rational) number.rational ≠ second := by
  have sorted := partitions.sorted reads finite
  have length : (edges.map F64.rational).length = edges.length := List.length_map _
  obtain ⟨last,lastAtMost,lastLabel,belongs,latest⟩ :=
    partitions.float reads finite isFinite (by omega : first ≤ edges.length)
  have beyond := latest second atMost same.symm
  have unique : Cells.cellOf (edges.map F64.rational) number.rational = first ↔
      Cells.inCell (edges.map F64.rational) first number.rational = true :=
    Cells.cellOf_eq_iff sorted (by omega)
  constructor
  · intro isFirst
    have isLast := belongs.mp (unique.mp isFirst)
    omega
  · intro isSecond
    obtain ⟨lastSecond,-,-,belongsSecond,latestSecond⟩ :=
      partitions.float reads finite isFinite atMost
    have inSecond : Cells.inCell (edges.map F64.rational) second number.rational = true := by
      rw [← isSecond]
      exact Cells.inCell_cellOf _ _
    have isLastSecond := belongsSecond.mp inSecond
    have notBeyond := latestSecond last lastAtMost (lastLabel.trans same)
    have inFirst := belongs.mpr (by omega)
    have isFirst := unique.mpr inFirst
    omega

theorem Partitions.shared_equal {front back : Nat} {low high lowest highest : F64}
    (order : front < back) (foundLow : edges[front]? = some low)
    (foundHigh : edges[front + 1]? = some high) (foundLowest : edges[back]? = some lowest)
    (foundHighest : edges[back + 1]? = some highest)
    (sameLow : edgeText kernel low = edgeText kernel lowest)
    (sameHigh : edgeText kernel high = edgeText kernel highest) :
    low.rational = high.rational ∧ lowest.rational = highest.rational := by
  have sorted := partitions.sorted reads finite
  have hasEdges : (emptyHistogram kernel edges).buckets = edges.map kernel.ofF64 := rfl
  obtain ⟨inside,-⟩ := List.getElem?_eq_some_iff.mp foundHighest
  have length : (edges.map F64.rational).length = edges.length := List.length_map _
  have same : (emptyHistogram kernel edges).label (front + 1) =
      (emptyHistogram kernel edges).label (back + 1) := by
    apply String.toList_injective
    rw [label_middle hasEdges foundLow foundHigh,label_middle hasEdges foundLowest foundHighest,
      sameLow,sameHigh]
  have equal : ∀ {before : Nat} {near far : F64}, edges[before]? = some near →
      edges[before + 1]? = some far →
      (∀ {number : F64}, number.isFinite = true →
        Cells.cellOf (edges.map F64.rational) number.rational ≠ before + 1) →
      near.rational = far.rational := by
    intro before near far foundNear foundFar none
    obtain ⟨farInside,-⟩ := List.getElem?_eq_some_iff.mp foundFar
    have ordered := Cells.le_of_sorted sorted (Nat.le_succ before) (rational_at foundNear)
      (rational_at foundFar)
    by_contra different
    have below : near.rational < far.rational := lt_of_le_of_ne ordered different
    apply none (finite near (List.mem_of_getElem? foundNear))
    rw [Cells.cellOf_eq_iff sorted (by omega),Cells.inCell_iff]
    constructor
    · intro previous isNext edge found
      rw [← Nat.succ.inj isNext,rational_at foundNear,Option.some.injEq] at found
      exact le_of_eq found.symm
    · intro edge found
      rw [rational_at foundFar,Option.some.injEq] at found
      rw [← found]
      exact below
  have empty : ∀ {number : F64}, number.isFinite = true → _ ∧ _ := fun isFinite =>
    partitions.shared_empty reads finite (Nat.succ_lt_succ order) inside.le same isFinite
  constructor
  · exact equal foundLow foundHigh fun isFinite => (empty isFinite).1
  · exact equal foundLowest foundHighest fun isFinite => (empty isFinite).2

theorem Partitions.texts {first last : Nat} {low high : F64} (apart : first + 2 ≤ last)
    (foundLow : edges[first]? = some low) (foundHigh : edges[last]? = some high)
    (beyond : (2 : ℚ) ^ 63 ≤ low.rational ∨ high.rational ≤ -(2 : ℚ) ^ 63) :
    low.rational = high.rational := by
  have sorted := partitions.sorted reads finite
  have sameText : ∃ text, ∀ {position : Nat} {edge : F64}, first ≤ position → position ≤ last →
      edges[position]? = some edge → edgeText kernel edge = text := by
    rcases beyond with above | below
    · refine ⟨toString Int64.maxValue,?_⟩
      intro position edge notBefore _ found
      have ordered := Cells.le_of_sorted sorted notBefore (rational_at foundLow) (rational_at found)
      exact edgeText_high reads (finite edge (List.mem_of_getElem? found)) (above.trans ordered)
    · refine ⟨toString Int64.minValue,?_⟩
      intro position edge _ notBehind found
      have ordered := Cells.le_of_sorted sorted notBehind (rational_at found) (rational_at foundHigh)
      exact edgeText_low reads (finite edge (List.mem_of_getElem? found)) (ordered.trans below)
  obtain ⟨text,hasText⟩ := sameText
  obtain ⟨lastInside,-⟩ := List.getElem?_eq_some_iff.mp foundHigh
  have found : ∀ {position : Nat}, position ≤ last → ∃ edge, edges[position]? = some edge := by
    intro position notBehind
    exact ⟨_,List.getElem?_eq_getElem (Nat.lt_of_le_of_lt notBehind lastInside)⟩
  obtain ⟨second,foundSecond⟩ := found (by omega : first + 1 ≤ last)
  have equal : ∀ {position : Nat}, first + 2 ≤ position → position ≤ last → ∀ {edge : F64},
      edges[position]? = some edge → low.rational = edge.rational := by
    intro position notBefore
    induction position, notBefore using Nat.le_induction with
    | base =>
        intro notBehind edge isEdge
        obtain ⟨front,behind⟩ := partitions.shared_equal reads finite (Nat.lt_succ_self first)
          foundLow foundSecond foundSecond isEdge
          ((hasText (by omega) (by omega) foundLow).trans
            (hasText (by omega) (by omega) foundSecond).symm)
          ((hasText (by omega) (by omega) foundSecond).trans
            (hasText (by omega) (by omega) isEdge).symm)
        exact front.trans behind
    | succ position notBefore ih =>
        intro notBehind edge isEdge
        obtain ⟨previous,foundPrevious⟩ := found (by omega : position ≤ last)
        obtain ⟨-,behind⟩ := partitions.shared_equal reads finite (by omega : first < position)
          foundLow foundSecond foundPrevious isEdge
          ((hasText (by omega) (by omega) foundLow).trans
            (hasText (by omega) (by omega) foundPrevious).symm)
          ((hasText (by omega) (by omega) foundSecond).trans
            (hasText (by omega) (by omega) isEdge).symm)
        exact (ih (by omega) foundPrevious).trans behind
  exact equal apart le_rfl foundHigh

theorem Partitions.integers {edge : F64} (member : edge ∈ edges) {number : Int64}
    (below : (number.toInt : ℚ) < edge.rational) :
    kernel.lt (kernel.ofInt number.toInt) (kernel.ofF64 edge) = true := by
  have sorted := partitions.sorted reads finite
  have length : (edges.map F64.rational).length = edges.length := List.length_map _
  have found : (singleRow (.i64 number)).get "x" = some (.i64 number) := rfl
  obtain ⟨nearest,isFinite,isNearest,-,read⟩ := readCell_int reads finite found
  rw [isNearest,reads.less isFinite (finite edge member)]
  by_contra notBelow
  obtain ⟨position,isPosition⟩ := List.getElem?_of_mem member
  have foundEdge := rational_at isPosition
  have trueCell := Cells.inCell_cellOf (edges.map F64.rational) (number.toInt : ℚ)
  have inFront : Cells.cellOf (edges.map F64.rational) (number.toInt : ℚ) ≤ position := by
    by_contra behind
    exact absurd below (not_lt.mpr (Cells.le_of_before (Nat.lt_of_not_le behind) foundEdge))
  have behind : position < Cells.cellOf (edges.map F64.rational) nearest.rational := by
    by_contra notBehind
    obtain ⟨inside,-⟩ := List.getElem?_eq_some_iff.mp foundEdge
    have cellInside : Cells.cellOf (edges.map F64.rational) nearest.rational <
        (edges.map F64.rational).length := by omega
    have isEdge := List.getElem?_eq_getElem cellInside
    have ordered := Cells.le_of_sorted sorted (Nat.le_of_not_lt notBehind) isEdge foundEdge
    exact notBelow (lt_of_lt_of_le (Cells.lt_of_at isEdge) ordered)
  have atMost := Cells.cellOf_le (edges.map F64.rational) nearest.rational
  obtain ⟨last,-,sameLabel,belongs,-⟩ := partitions.single rfl read
    (by omega : Cells.cellOf (edges.map F64.rational) (number.toInt : ℚ) ≤ edges.length)
  rw [belongs.mp trueCell] at sameLabel
  exact (partitions.shared_empty reads finite (by omega) (by omega) sameLabel.symm isFinite).2 rfl

end Needed

/-- A histogram loses no event exactly when its edges separate. -/
theorem partitions_iff {kernel : Kernel} (reads : ReadsBinary kernel) {edges : List F64}
    (finite : ∀ edge ∈ edges, edge.isFinite = true) :
    Partitions kernel edges ↔ Separates kernel edges := by
  constructor
  · intro partitions
    refine ⟨partitions.sorted reads finite,?_,?_⟩
    · intro first last low high apart foundLow foundHigh beyond
      exact partitions.texts reads finite apart foundLow foundHigh beyond
    · intro edge member number below
      exact partitions.integers reads finite member below
  · intro separates
    exact separates.partitions reads finite

/-! ### Numbers that are cut off -/

/-- The bits of the largest finite number that is not above a whole one. -/
def magnitudeBelow (size : Nat) : Nat :=
  Nat.findGreatest (fun bits => F64.units bits ≤ size * 2 ^ 1074) (2047 * 2 ^ 52 - 1)

/-- The number with as many of the leading bits of an integer as there is room for. -/
def towardZero (number : Int) : F64 :=
  ⟨UInt64.ofNat (magnitudeBelow number.natAbs + if number < 0 then 2 ^ 63 else 0)⟩

theorem units_magnitudeBelow (size : Nat) : F64.units (magnitudeBelow size) ≤ size * 2 ^ 1074 := by
  have zero : F64.units 0 ≤ size * 2 ^ 1074 := by
    rw [F64.units_zero]
    exact Nat.zero_le _
  exact Nat.findGreatest_spec (P := fun bits => F64.units bits ≤ size * 2 ^ 1074)
    (Nat.zero_le _) zero

theorem le_magnitudeBelow {size bits : Nat} (finite : bits < 2047 * 2 ^ 52)
    (below : F64.units bits ≤ size * 2 ^ 1074) :
    F64.units bits ≤ F64.units (magnitudeBelow size) := by
  have order : bits ≤ magnitudeBelow size :=
    Nat.le_findGreatest (Nat.le_pred_of_lt finite) below
  rcases Nat.eq_or_lt_of_le order with same | less
  · rw [same]
  · exact (F64.units_lt less).le

theorem magnitudeBelow_lt (size : Nat) : magnitudeBelow size < 2047 * 2 ^ 52 :=
  Nat.lt_of_le_pred (by decide) (Nat.findGreatest_le _)

theorem isFinite_iff (number : F64) :
    number.isFinite = true ↔ number.abs.bits.toNat < 2047 * 2 ^ 52 := by
  rw [F64.isFinite,decide_eq_true_iff,UInt64.lt_iff_toNat_lt]
  rfl

theorem towardZero_abs (number : Int) :
    (towardZero number).abs.bits.toNat = magnitudeBelow number.natAbs := by
  have small := magnitudeBelow_lt number.natAbs
  rw [toNat_abs,towardZero]
  dsimp only
  rw [UInt64.toNat_ofNat_of_lt']
  · split <;> omega
  · rw [UInt64.size]
    split <;> omega

theorem signedUnits_towardZero (number : Int) :
    (towardZero number).signedUnits =
      if number < 0 then -(F64.units (magnitudeBelow number.natAbs) : Int)
      else F64.units (magnitudeBelow number.natAbs) := by
  have small := magnitudeBelow_lt number.natAbs
  have size := towardZero_abs number
  have bits : (towardZero number).bits.toNat =
      magnitudeBelow number.natAbs + if number < 0 then 2 ^ 63 else 0 := by
    rw [towardZero]
    dsimp only
    rw [UInt64.toNat_ofNat_of_lt']
    rw [UInt64.size]
    split <;> omega
  have top : (0x8000000000000000 : UInt64).toNat = 2 ^ 63 := rfl
  rw [F64.abs] at size
  rw [F64.signedUnits]
  simp only [UInt64.le_iff_toNat_le,bits,top,size]
  by_cases negative : number < 0
  · rw [if_pos negative,if_pos negative,if_pos (by omega)]
  · rw [if_neg negative,if_neg negative,if_neg (by omega),Nat.add_zero]

theorem rational_le_int (number : F64) (whole : Int) :
    number.rational ≤ whole ↔ number.signedUnits ≤ whole * 2 ^ 1074 := by
  have power : (0 : ℚ) < 2 ^ 1074 := pow_pos zero_lt_two 1074
  rw [F64.rational,div_le_iff₀ power]
  exact_mod_cast Iff.rfl

theorem int_le_rational (number : F64) (whole : Int) :
    (whole : ℚ) ≤ number.rational ↔ whole * 2 ^ 1074 ≤ number.signedUnits := by
  have power : (0 : ℚ) < 2 ^ 1074 := pow_pos zero_lt_two 1074
  rw [F64.rational,le_div_iff₀ power]
  exact_mod_cast Iff.rfl

theorem rational_le_rational (first second : F64) :
    first.rational ≤ second.rational ↔ first.signedUnits ≤ second.signedUnits := by
  have power : (0 : ℚ) < 2 ^ 1074 := pow_pos zero_lt_two 1074
  rw [F64.rational,F64.rational,div_le_div_iff_of_pos_right power]
  exact Int.cast_le

theorem towardZero_bounds (number : Int) {bound : F64} (finite : bound.isFinite = true) :
    (bound.rational ≤ number → bound.rational ≤ (towardZero number).rational) ∧
      ((number : ℚ) ≤ bound.rational → (towardZero number).rational ≤ bound.rational) := by
  have small := (isFinite_iff bound).mp finite
  have atMost : (F64.units (magnitudeBelow number.natAbs) : Int) ≤ number.natAbs * 2 ^ 1074 := by
    exact_mod_cast units_magnitudeBelow number.natAbs
  have room : (F64.units bound.abs.bits.toNat : Int) ≤ number.natAbs * 2 ^ 1074 →
      (F64.units bound.abs.bits.toNat : Int) ≤ F64.units (magnitudeBelow number.natAbs) := by
    intro below
    exact_mod_cast le_magnitudeBelow small (by exact_mod_cast below)
  have own := Int.natCast_nonneg (F64.units (magnitudeBelow number.natAbs))
  have their := Int.natCast_nonneg (F64.units bound.abs.bits.toNat)
  rw [rational_le_int,int_le_rational,rational_le_rational,rational_le_rational,
    signedUnits_towardZero]
  generalize (F64.units (magnitudeBelow number.natAbs) : Int) = kept at *
  generalize (2 : Int) ^ 1074 = unit at *
  have cases := signedUnits_cases bound
  generalize (F64.units bound.abs.bits.toNat : Int) = size at *
  generalize bound.signedUnits = signed at *
  by_cases negative : number < 0
  · have isSize : (number.natAbs : Int) * unit = -(number * unit) := by
      rw [Int.ofNat_natAbs_of_nonpos negative.le,neg_mul]
    rw [isSize] at atMost room
    rw [if_pos negative]
    constructor <;> intro below <;> rcases cases with isNegative | isPositive <;> omega
  · have isSize : (number.natAbs : Int) * unit = number * unit := by
      rw [Int.natAbs_of_nonneg (Int.not_lt.mp negative)]
    rw [isSize] at atMost room
    rw [if_neg negative]
    constructor <;> intro below <;> rcases cases with isNegative | isPositive <;> omega

theorem whole_iff (number : F64) :
    number.signedUnits % 2 ^ 1074 = 0 ↔ ∃ units : Int, number.rational = units := by
  have power : ((2 : ℚ) ^ 1074) ≠ 0 := pow_ne_zero _ two_ne_zero
  constructor
  · intro noRest
    refine ⟨number.signedUnits / 2 ^ 1074,?_⟩
    have exactly := Int.ediv_mul_cancel (Int.dvd_of_emod_eq_zero noRest)
    rw [F64.rational,div_eq_iff power]
    exact_mod_cast exactly.symm
  · intro isWhole
    obtain ⟨units,same⟩ := isWhole
    rw [F64.rational,div_eq_iff power] at same
    have multiple : number.signedUnits = units * 2 ^ 1074 := by exact_mod_cast same
    rw [multiple]
    exact Int.mul_emod_left _ _

/-- Binary64 numbers with the order of the machine; integers are cut off, and what
histograms do not use is left out. -/
def binaryKernel : Kernel :=
  { wholeKernel with
    Num := F64
    ofF64 := id
    toF64 := id
    ofInt := towardZero
    toInt64 := fun number => saturate (number.signedUnits / 2 ^ 1074)
    add := fun first _ => first
    sub := fun first _ => first
    mul := fun first _ => first
    div := fun first _ => first
    neg := id
    max := fun first _ => first
    abs := F64.abs
    sqrt := id
    exp := id
    log2 := id
    cos := id
    toRadians := id
    fract := fun number =>
      if number.signedUnits % 2 ^ 1074 = 0 then .zero else ⟨0x3FE0000000000000⟩
    isFinite := F64.isFinite
    lt := fun first second => first.orderKey < second.orderKey
    le := fun first second => first.orderKey ≤ second.orderKey
    eq := fun first second => first.orderKey = second.orderKey
    display := fun number => String.ofList (Nat.toDigits 10 number.bits.toNat ++ ['.','5'])
    haversineKm := fun first _ => first.1
    insertPercentile := fun _ seen => seen
    quantile := fun _ _ => none
    newBloom := fun _ _ => [] }

theorem binaryKernel_zero : (binaryKernel.zero : F64).orderKey = 0 := by
  have finite : F64.zero.isFinite = true := by decide
  have bounds := towardZero_bounds 0 finite
  rw [F64.rational_zero,Int.cast_zero] at bounds
  have none : (towardZero 0).rational = 0 := by
    apply le_antisymm
    · exact bounds.2 le_rfl
    · exact bounds.1 le_rfl
  have notBelow : ¬ (towardZero 0).orderKey < F64.zero.orderKey := by
    rw [← F64.rational_lt_iff,none,F64.rational_zero]
    exact lt_irrefl 0
  have notAbove : ¬ F64.zero.orderKey < (towardZero 0).orderKey := by
    rw [← F64.rational_lt_iff,none,F64.rational_zero]
    exact lt_irrefl 0
  have zeroKey : F64.zero.orderKey = 0 := by decide
  rw [zeroKey] at notBelow notAbove
  show (towardZero 0).orderKey = 0
  omega

theorem readsBinary : ReadsBinary binaryKernel where
  less := by
    intro first second _ _
    rw [F64.rational_lt_iff]
    exact decide_eq_true_iff
  finite := by
    intro number
    rfl
  whole := by
    intro number _
    rw [← whole_iff]
    show decide ((if number.signedUnits % 2 ^ 1074 = 0 then F64.zero
      else ⟨0x3FE0000000000000⟩).orderKey = (binaryKernel.zero : F64).orderKey) = true ↔ _
    rw [binaryKernel_zero,decide_eq_true_iff]
    have halfKey : (⟨0x3FE0000000000000⟩ : F64).orderKey ≠ 0 := by decide
    have zeroKey : F64.zero.orderKey = 0 := by decide
    split
    · rename_i noRest
      exact iff_of_true zeroKey noRest
    · rename_i rest
      exact iff_of_false halfKey rest
  truncated := by
    intro number units _ same
    have power : ((2 : ℚ) ^ 1074) ≠ 0 := pow_ne_zero _ two_ne_zero
    rw [F64.rational,div_eq_iff power] at same
    have multiple : number.signedUnits = units * 2 ^ 1074 := by exact_mod_cast same
    show saturate (number.signedUnits / 2 ^ 1074) = saturate units
    rw [multiple,Int.mul_ediv_cancel _ (pow_ne_zero _ two_ne_zero)]
  rounded := by
    intro number
    refine ⟨towardZero number.toInt,?_,rfl,?_⟩
    · rw [isFinite_iff,towardZero_abs]
      exact magnitudeBelow_lt _
    · intro bound finite
      exact towardZero_bounds number.toInt finite
  display := by
    intro number _ _
    refine ⟨[],Nat.toDigits 10 number.bits.toNat,['5'],.inl rfl,toDigits_digits _,?_,?_⟩
    · refine ⟨List.cons_ne_nil _ _,?_⟩
      intro ch member
      rw [List.mem_singleton.mp member]
      rfl
    · exact String.toList_ofList
  readBack := by
    intro first second _ _ _ _ same
    have chars := congrArg String.toList same
    have texts : Nat.toDigits 10 first.bits.toNat ++ ['.','5'] =
        Nat.toDigits 10 second.bits.toNat ++ ['.','5'] := by
      simpa [binaryKernel] using chars
    have digits := congrArg (Nat.ofDigitChars 10 · 0) (List.append_cancel_right texts)
    simp only [Nat.ofDigitChars_ten_toDigits] at digits
    have bits : first.bits = second.bits := UInt64.toNat_inj.mp digits
    have sameNumber : first = second := by
      cases first
      cases second
      exact congrArg F64.mk bits
    rw [sameNumber]

theorem towardZero_lt {number : Int} {bound : ℚ} (below : (number : ℚ) < bound)
    (positive : 0 < bound) : (towardZero number).rational < bound := by
  have atMost := units_magnitudeBelow number.natAbs
  have units := signedUnits_towardZero number
  by_cases negative : number < 0
  · rw [if_pos negative] at units
    have notPositive : (towardZero number).rational ≤ (0 : Int) := by
      rw [rational_le_int,units,zero_mul]
      exact neg_nonpos.mpr (Int.natCast_nonneg _)
    rw [Int.cast_zero] at notPositive
    exact lt_of_le_of_lt notPositive positive
  · rw [if_neg negative] at units
    have notAbove : (towardZero number).rational ≤ number := by
      rw [rational_le_int,units]
      have size : (number.natAbs : Int) = number := Int.natAbs_of_nonneg (Int.not_lt.mp negative)
      rw [← size]
      exact_mod_cast atMost
    exact lt_of_le_of_lt notAbove below

theorem isFinite_powerOfTwo (exponent : Nat) (bound : exponent ≤ 1023) :
    (powerOfTwo exponent).isFinite = true := by
  have bits : (powerOfTwo exponent).bits.toNat = (exponent + 1023) * 2 ^ 52 := by
    rw [powerOfTwo]
    dsimp only
    rw [UInt64.toNat_ofNat_of_lt']
    · omega
    · rw [UInt64.size]
      omega
  rw [isFinite_iff,toNat_abs,bits,Nat.mod_eq_of_lt (by omega)]
  omega

/-- The cells at two, four and eight lose nothing. -/
theorem partitions_iff_powers :
    Partitions binaryKernel [powerOfTwo 1,powerOfTwo 2,powerOfTwo 3] := by
  have two : (powerOfTwo 1).rational = 2 := (rational_powerOfTwo (by decide)).trans (pow_one 2)
  have four : (powerOfTwo 2).rational = 4 := (rational_powerOfTwo (by decide)).trans (by norm_num)
  have eight : (powerOfTwo 3).rational = 8 := (rational_powerOfTwo (by decide)).trans (by norm_num)
  have finite : ∀ edge ∈ [powerOfTwo 1,powerOfTwo 2,powerOfTwo 3], edge.isFinite = true := by
    intro edge member
    simp only [List.mem_cons,List.not_mem_nil,or_false] at member
    rcases member with rfl | rfl | rfl
    · exact isFinite_powerOfTwo 1 (by decide)
    · exact isFinite_powerOfTwo 2 (by decide)
    · exact isFinite_powerOfTwo 3 (by decide)
  apply (partitions_iff readsBinary finite).mpr
  constructor
  · simp only [List.map_cons,List.map_nil,two,four,eight]
    norm_num
  · intro first last low high apart foundLow foundHigh beyond
    obtain ⟨inside,-⟩ := List.getElem?_eq_some_iff.mp foundHigh
    have isLast : last = 2 := by
      rw [List.length_cons,List.length_cons,List.length_singleton] at inside
      omega
    have isFirst : first = 0 := by omega
    subst isLast isFirst
    rw [← Option.some.inj foundLow,← Option.some.inj foundHigh,two,eight] at beyond
    norm_num at beyond
  · intro edge member number below
    have positive : 0 < edge.rational := by
      simp only [List.mem_cons,List.not_mem_nil,or_false] at member
      rcases member with rfl | rfl | rfl
      · rw [two]
        norm_num
      · rw [four]
        norm_num
      · rw [eight]
        norm_num
    have less := towardZero_lt below positive
    rw [F64.rational_lt_iff] at less
    exact decide_eq_true less

/-- The cells from 2 ^ 64 and from 2 ^ 65 on share a label. -/
theorem histogram_loses_events :
    ¬ Partitions binaryKernel [powerOfTwo 64,powerOfTwo 65,powerOfTwo 66] := by
  have low : (powerOfTwo 64).rational = 2 ^ 64 := rational_powerOfTwo (by decide)
  have high : (powerOfTwo 66).rational = 2 ^ 66 := rational_powerOfTwo (by decide)
  have finite : ∀ edge ∈ [powerOfTwo 64,powerOfTwo 65,powerOfTwo 66],
      edge.isFinite = true := by
    intro edge member
    simp only [List.mem_cons,List.not_mem_nil,or_false] at member
    rcases member with rfl | rfl | rfl
    · exact isFinite_powerOfTwo 64 (by decide)
    · exact isFinite_powerOfTwo 65 (by decide)
    · exact isFinite_powerOfTwo 66 (by decide)
  intro partitions
  have beyond : (2 : ℚ) ^ 63 ≤ (powerOfTwo 64).rational := by
    rw [low]
    norm_num
  have foundLow : [powerOfTwo 64,powerOfTwo 65,powerOfTwo 66][0]? = some (powerOfTwo 64) := rfl
  have foundHigh : [powerOfTwo 64,powerOfTwo 65,powerOfTwo 66][2]? = some (powerOfTwo 66) := rfl
  have same := partitions.texts readsBinary finite le_rfl foundLow foundHigh (.inl beyond)
  rw [low,high] at same
  norm_num at same

end Beava.Agg
