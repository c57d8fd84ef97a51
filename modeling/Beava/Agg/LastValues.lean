/-
The operators that keep a bounded number of values.

The first values grow a list that then stops, the last values and the lag are a
queue, the most recent values and the places around home are a ring.  What they
hold after a run is a prefix or a suffix of what was read.
-/

import Beava.Agg.Readings
import Beava.Agg.TwoPaths
import Beava.Lib.LastItems

namespace Beava.Agg

open Beava.Core Beava.Apply LastItems

variable {kernel : Kernel} {n : Nat}

theorem FirstNState.foldl_push (n : Nat) (values : List Value) :
    values.foldl (fun state value => FirstNState.push value state) (.new n) =
      ⟨n,values.take n⟩ := by
  induction values using List.reverseRecOn with
  | nil => rw [List.take_nil]; rfl
  | append_singleton values value ih =>
      rw [List.foldl_concat,ih]
      unfold FirstNState.push
      simp only [List.length_take]
      by_cases full : n ≤ values.length
      · rw [if_pos (by omega),List.take_append_of_le_length full]
      · have roomy : (values ++ [value]).length ≤ n := by
          rw [List.length_append,List.length_singleton]
          omega
        rw [if_neg (by omega),List.take_of_length_le (by omega),List.take_of_length_le roomy]

theorem foldl_pushBounded {α : Type} (positive : 0 < n) (items : List α) :
    items.foldl (pushBounded n) [] = items.rtake n := by
  induction items using List.reverseRecOn with
  | nil => exact (List.rtake_nil n).symm
  | append_singleton items item ih =>
      rw [List.foldl_concat,ih,pushBounded]
      exact queue_push positive items item

theorem foldl_queue {α σ : Type} {wrap : List α → σ} {push : α → σ → σ} (positive : 0 < n)
    (pushes : ∀ item kept, push item (wrap kept) = wrap (pushBounded n kept item))
    (items : List α) :
    items.foldl (fun state item => push item state) (wrap []) = wrap (items.rtake n) := by
  induction items using List.reverseRecOn with
  | nil => rw [List.rtake_nil]; rfl
  | append_singleton items item ih =>
      rw [List.foldl_concat,ih,pushes,← foldl_pushBounded positive,← foldl_pushBounded positive,
        List.foldl_concat]

theorem LastNState.foldl_push (positive : 0 < n) (values : List Value) :
    values.foldl (fun state value => LastNState.push value state) (.new n) =
      ⟨n,values.rtake n⟩ :=
  @foldl_queue n _ _ (LastNState.mk n) _ positive (fun _ _ => rfl) values

theorem LagState.foldl_push (n : Nat) (values : List Value) :
    values.foldl (fun state value => LagState.push value state) (.new n) =
      ⟨n,values.rtake (n + 1)⟩ :=
  @foldl_queue (n + 1) _ _ (LagState.mk n) _ (Nat.succ_pos n) (fun _ _ => rfl) values

theorem LagState.query_rtake (n : Nat) (values : List Value) :
    LagState.query ⟨n,values.rtake (n + 1)⟩ =
      if values.length ≤ n then .null else values.getD (values.length - 1 - n) .null := by
  unfold LagState.query
  simp only [length_rtake]
  by_cases short : values.length ≤ n
  · rw [if_neg (by omega),if_pos short]
  · have position : values.length - (n + 1) = values.length - 1 - n := by omega
    rw [if_pos (by omega),if_neg short,head?_rtake,position,List.getD_eq_getElem?_getD]

/-- A time comes in where the predicate holds. -/
def TimeSinceLastNState.push (nowMs : Int64) (state : TimeSinceLastNState) : TimeSinceLastNState :=
  { state with timesMs := pushBounded state.n state.timesMs nowMs }

theorem TimeSinceLastNState.foldl_push (positive : 0 < n) (times : List Int64) :
    times.foldl (fun state time => TimeSinceLastNState.push time state) (.new n) =
      ⟨n,times.rtake n⟩ :=
  @foldl_queue n _ _ (TimeSinceLastNState.mk n) _ positive (fun _ _ => rfl) times

theorem TimeSinceLastNState.query_rtake (n : Nat) (times : List Int64)
    (queryTimeMs : Int64) :
    TimeSinceLastNState.query queryTimeMs ⟨n,times.rtake n⟩ =
      if times.length < n then .null
      else .i64 (elapsedMs queryTimeMs (times.getD (times.length - n) queryTimeMs)) := by
  unfold TimeSinceLastNState.query
  simp only [length_rtake]
  by_cases short : times.length < n
  · rw [if_pos (by omega),if_pos short]
  · rw [if_neg (by omega),if_neg short,head?_rtake,List.getD_eq_getElem?_getD]

/-! ### Rings -/

namespace MostRecentNState

def ring (state : MostRecentNState) : RingBuffer Value := ⟨state.buf,state.head,state.filled⟩

theorem push_n (value : Value) (state : MostRecentNState) : (state.push value).n = state.n := by
  simp only [push]
  split
  · rfl
  · split <;> rfl

theorem push_ring (value : Value) (state : MostRecentNState) :
    (state.push value).ring = state.ring.push state.n value := by
  obtain ⟨n,buf,head,filled⟩ := state
  cases filled with
  | true => rfl
  | false =>
      by_cases last : (buf ++ [value]).length = n
      · simp only [push,ring,RingBuffer.push,Bool.false_eq_true,if_false,if_pos last]
        exact (if_pos last).symm
      · simp only [push,ring,RingBuffer.push,Bool.false_eq_true,if_false,if_neg last]
        exact (if_neg last).symm

theorem foldl_push (n : Nat) (values : List Value) :
    (values.foldl (fun state value => push value state) (.new n)).n = max n 1 ∧
      (values.foldl (fun state value => push value state) (.new n)).ring =
        values.foldl (RingBuffer.push (max n 1)) RingBuffer.empty := by
  induction values using List.reverseRecOn with
  | nil => exact ⟨rfl,rfl⟩
  | append_singleton values value ih =>
      rw [List.foldl_concat,List.foldl_concat]
      constructor
      · rw [push_n,ih.1]
      · rw [push_ring,ih.1,ih.2]

theorem query_eq {values : List Value} {state : MostRecentNState}
    (holds : RingBuffer.Holds state.n values state.ring) : state.query = .list (values.rtake state.n) := by
  unfold query
  by_cases full : state.filled = true
  · have size : state.buf.length = state.n := by
      have enough := holds.filled.mp full
      have length := holds.length
      rwa [Nat.min_eq_left enough] at length
    have turned : state.buf.rotate state.head = values.rtake state.n := by
      have same := holds.contents
      rwa [RingBuffer.contents,if_pos (show state.ring.filled = true from full)] at same
    rw [if_pos full,← turned]
    congr 1
    apply List.ext_getElem
    · rw [List.length_map,List.length_range,List.length_rotate,size]
    · intro offset below inside
      have positive : 0 < state.n := Nat.zero_lt_of_lt (holds.head full)
      have within : (state.head + offset) % state.n < state.buf.length := by
        rw [size]
        exact Nat.mod_lt _ positive
      rw [List.getElem_map,List.getElem_range,List.getElem_rotate,
        List.getD_eq_getElem?_getD,List.getElem?_eq_getElem within,Option.getD_some]
      simp only [size,Nat.add_comm]
  · have same := holds.contents
    rw [RingBuffer.contents,if_neg (show ¬ state.ring.filled = true from full)] at same
    rw [if_neg full]
    exact congrArg Value.list same

theorem query_foldl (positive : 0 < n) (values : List Value) :
    (values.foldl (fun state value => push value state) (.new n)).query =
      .list (values.rtake n) := by
  obtain ⟨bound,pushed⟩ := foldl_push n values
  rw [Nat.max_eq_left positive] at bound pushed
  have holds := RingBuffer.holds_foldl positive values
  generalize values.foldl (fun state value => push value state) (.new n) = state at bound pushed
  rw [← pushed,← bound] at holds
  rw [query_eq holds,bound]

end MostRecentNState

namespace DistanceFromHomeState

def ring (state : DistanceFromHomeState kernel) : RingBuffer (kernel.Num × kernel.Num) :=
  ⟨state.buf,state.head,state.filled⟩

theorem apply_samples (place : kernel.Num × kernel.Num) (state : DistanceFromHomeState kernel) :
    (state.apply place).samples = state.samples := by
  simp only [apply]
  split
  · rfl
  · split <;> rfl

theorem apply_ring (place : kernel.Num × kernel.Num) (state : DistanceFromHomeState kernel) :
    (state.apply place).ring = state.ring.push state.samples place := by
  obtain ⟨latField,lonField,samples,buf,head,filled,latest⟩ := state
  cases filled with
  | true => rfl
  | false =>
      by_cases last : (buf ++ [place]).length = samples
      · simp only [apply,ring,RingBuffer.push,Bool.false_eq_true,if_false,if_pos last]
        exact (if_pos last).symm
      · simp only [apply,ring,RingBuffer.push,Bool.false_eq_true,if_false,if_neg last]
        exact (if_neg last).symm

theorem foldl_apply (latField lonField : String) (samples : Nat)
    (places : List (kernel.Num × kernel.Num)) :
    (places.foldl (fun state place => apply place state)
        (.withFields latField lonField samples)).samples = max samples 1 ∧
      (places.foldl (fun state place => apply place state)
        (.withFields latField lonField samples)).ring =
          places.foldl (RingBuffer.push (max samples 1)) RingBuffer.empty := by
  induction places using List.reverseRecOn with
  | nil => exact ⟨rfl,rfl⟩
  | append_singleton places place ih =>
      rw [List.foldl_concat,List.foldl_concat]
      constructor
      · rw [apply_samples,ih.1]
      · rw [apply_ring,ih.1,ih.2]

theorem foldl_apply_buf {samples : Nat} (positive : 0 < samples) (latField lonField : String)
    (places : List (kernel.Num × kernel.Num)) :
    (places.foldl (fun state place => apply place state)
      (.withFields latField lonField samples)).buf.Perm (places.rtake samples) := by
  have pushed := (foldl_apply latField lonField samples places).2
  rw [Nat.max_eq_left positive] at pushed
  have holds := RingBuffer.holds_foldl positive places
  rw [← holds.contents,← pushed]
  exact (RingBuffer.contents_perm (ring _)).symm

end DistanceFromHomeState

/-! ### Runs -/

section Runs

variable (updates : List LifetimeUpdate)

/-- What the bounded operators hold and report after the updates. -/
structure KeepsLast (kernel : Kernel) (n : Nat) (latField lonField : String) : Prop where
  firstN (queryTimeMs : Int64) :
    ((.firstN (.new n) : LifetimeOp kernel).after updates).query queryTimeMs =
      .list ((fieldValues updates).take n)
  lastN (queryTimeMs : Int64) :
    ((.lastN (.new n) : LifetimeOp kernel).after updates).query queryTimeMs =
      .list ((fieldValues updates).rtake n)
  mostRecentN (queryTimeMs : Int64) :
    ((.mostRecentN (.new n) : LifetimeOp kernel).after updates).query queryTimeMs =
      .list ((rowValues updates).rtake n)
  lag (queryTimeMs : Int64) :
    ((.lag (.new n) : LifetimeOp kernel).after updates).query queryTimeMs =
      if (fieldValues updates).length ≤ n then .null
      else (fieldValues updates).getD ((fieldValues updates).length - 1 - n) .null
  timeSinceLastN (queryTimeMs : Int64) :
    ((.timeSinceLastN (.new n) : LifetimeOp kernel).after updates).query queryTimeMs =
      if (arrivals updates).length < n then .null
      else .i64 (elapsedMs queryTimeMs
        ((arrivals updates).getD ((arrivals updates).length - n) queryTimeMs))
  distanceFromHome : ∃ state : DistanceFromHomeState kernel,
    (.distanceFromHome (.withFields latField lonField n) : LifetimeOp kernel).after updates =
        .distanceFromHome state ∧
      state.buf.Perm ((placesIn updates latField lonField).rtake n)

theorem firstN_after (n : Nat) :
    (.firstN (.new n) : LifetimeOp kernel).after updates =
      .firstN ⟨n,(fieldValues updates).take n⟩ := by
  rw [← FirstNState.foldl_push]
  refine @after_eq_foldl kernel _ _ FirstNState.push (fun _ => True) .firstN
    (LifetimeUpdate.reading notNull) ?_ (fun _ _ _ => trivial) updates _ trivial
  intro update state _
  cases update with
  | update => exact congrArg LifetimeOp.firstN (updateField_eq_feed ..)
  | updateWithExtracted => exact congrArg LifetimeOp.firstN (updateValue_eq_feed ..)

theorem lastN_after (positive : 0 < n) :
    (.lastN (.new n) : LifetimeOp kernel).after updates =
      .lastN ⟨n,(fieldValues updates).rtake n⟩ := by
  rw [← LastNState.foldl_push positive]
  refine @after_eq_foldl kernel _ _ LastNState.push (fun _ => True) .lastN
    (LifetimeUpdate.reading notNull) ?_ (fun _ _ _ => trivial) updates _ trivial
  intro update state _
  cases update with
  | update => exact congrArg LifetimeOp.lastN (updateField_eq_feed ..)
  | updateWithExtracted => exact congrArg LifetimeOp.lastN (updateValue_eq_feed ..)

theorem lag_after (n : Nat) :
    (.lag (.new n) : LifetimeOp kernel).after updates =
      .lag ⟨n,(fieldValues updates).rtake (n + 1)⟩ := by
  rw [← LagState.foldl_push]
  refine @after_eq_foldl kernel _ _ LagState.push (fun _ => True) .lag
    (LifetimeUpdate.reading notNull) ?_ (fun _ _ _ => trivial) updates _ trivial
  intro update state _
  cases update with
  | update => exact congrArg LifetimeOp.lag (updateField_eq_feed ..)
  | updateWithExtracted => exact congrArg LifetimeOp.lag (updateValue_eq_feed ..)

theorem timeSinceLastN_after (positive : 0 < n) :
    (.timeSinceLastN (.new n) : LifetimeOp kernel).after updates =
      .timeSinceLastN ⟨n,(arrivals updates).rtake n⟩ := by
  rw [← TimeSinceLastNState.foldl_push positive]
  refine @after_eq_foldl kernel _ _ TimeSinceLastNState.push (fun _ => True) .timeSinceLastN
    LifetimeUpdate.arrival ?_ (fun _ _ _ => trivial) updates _ trivial
  intro update state _
  cases update with
  | update _ _ _ whereMatched => cases whereMatched <;> rfl
  | updateWithExtracted _ _ _ _ _ _ _ whereMatched => cases whereMatched <;> rfl

theorem mostRecentN_after (n : Nat) :
    (.mostRecentN (.new n) : LifetimeOp kernel).after updates =
      .mostRecentN ((rowValues updates).foldl
        (fun state value => MostRecentNState.push value state) (.new n)) := by
  refine @after_eq_foldl kernel _ _ MostRecentNState.push (fun _ => True) .mostRecentN
    (LifetimeUpdate.rowReading notNull) ?_ (fun _ _ _ => trivial) updates _ trivial
  intro update state _
  cases update with
  | update | updateWithExtracted => exact congrArg LifetimeOp.mostRecentN (updateField_eq_feed ..)

theorem distanceFromHome_after (latField lonField : String) (samples : Nat) :
    (.distanceFromHome (.withFields latField lonField samples) : LifetimeOp kernel).after updates =
      .distanceFromHome ((placesIn updates latField lonField).foldl
        (fun state place => DistanceFromHomeState.apply place state)
        (.withFields latField lonField samples)) := by
  refine @after_eq_foldl kernel _ _ DistanceFromHomeState.apply
    (fun state => state.latField = latField ∧ state.lonField = lonField) .distanceFromHome
    (LifetimeUpdate.placeReading latField lonField) ?_ ?_ updates _ ⟨rfl,rfl⟩
  · intro update state named
    obtain ⟨rfl,rfl⟩ := named
    cases update with
    | update => exact congrArg LifetimeOp.distanceFromHome (updatePlace_eq_feed ..)
    | updateWithExtracted preVal nowMs row field extracted latIdx lonIdx whereMatched =>
        simp only [LifetimeUpdate.apply,LifetimeOp.updateWithExtractedNoWhere,
          LifetimeUpdate.placeReading,LifetimeUpdate.ifMatched,LifetimeUpdate.placeIn]
        split
        · exact congrArg LifetimeOp.distanceFromHome (updatePlace_eq_feed ..)
        · exact congrArg LifetimeOp.distanceFromHome (updatePlace_eq_feed ..)
  · intro place state named
    obtain ⟨latEq,lonEq⟩ := DistanceFromHomeState.apply_fields place state
    exact ⟨latEq.trans named.1,lonEq.trans named.2⟩

/-- The bounded operators hold a prefix or a suffix of what they read. -/
theorem keepsLast_after (kernel : Kernel) (latField lonField : String)
    (updates : List LifetimeUpdate) (positive : 0 < n) : KeepsLast updates kernel n latField lonField where
  firstN queryTimeMs := by
    rw [firstN_after]
    rfl
  lastN queryTimeMs := by
    rw [lastN_after updates positive]
    rfl
  mostRecentN queryTimeMs := by
    rw [mostRecentN_after]
    exact MostRecentNState.query_foldl positive _
  lag queryTimeMs := by
    rw [lag_after]
    exact LagState.query_rtake n _
  timeSinceLastN queryTimeMs := by
    rw [timeSinceLastN_after updates positive]
    exact TimeSinceLastNState.query_rtake n _ queryTimeMs
  distanceFromHome := by
    rw [distanceFromHome_after]
    exact ⟨_,rfl,DistanceFromHomeState.foldl_apply_buf positive latField lonField _⟩

def sampleReadings : List LifetimeUpdate :=
  [.update ⟨[("amount",.i64 1)]⟩ 10 (some "amount") true,
    .update ⟨[("amount",.null)]⟩ 20 (some "amount") true,
    .updateWithExtracted (some (.i64 2)) 30 ⟨[("amount",.i64 2)]⟩ (some "amount") [] 255 255 true,
    .update ⟨[("amount",.i64 3)]⟩ 40 (some "amount") true]

theorem keepsLast_sampleReadings : KeepsLast sampleReadings wholeKernel 2 "lat" "lon" :=
  keepsLast_after wholeKernel "lat" "lon" sampleReadings (by decide)

/-- A query before the event: no time has passed, where the difference is below zero. -/
theorem timeSinceLastN_beforeArrival :
    ((.timeSinceLastN (.new 1) : LifetimeOp wholeKernel).after
        [.update Row.new 10 none true]).query 5 = .i64 0 ∧
      Value.i64 0 ≠ .i64 (5 - 10) := by
  decide

end Runs

end Beava.Agg
