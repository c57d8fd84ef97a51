/-
What an operator reads of its updates.

An update comes by the row or by what was extracted from it.  Most operators do
one thing with what they read and nothing when there is nothing to read, so that
the state after a run is the fold over the readings.
-/

import Beava.Agg.Op

namespace Beava.Agg

open Beava.Core Beava.Apply

variable {kernel : Kernel}

/-- The entry points of an operator without a window. -/
inductive LifetimeUpdate where
  | update (row : Row) (nowMs : Int64) (field : Option String) (whereMatched : Bool)
  | updateWithExtracted (preVal : Option Value) (nowMs : Int64) (row : Row)
      (field : Option String) (extracted : ExtractedFields) (latIdx lonIdx : UInt8)
      (whereMatched : Bool)

namespace LifetimeUpdate

def apply (op : LifetimeOp kernel) : LifetimeUpdate → LifetimeOp kernel
  | .update row nowMs field whereMatched => op.update row nowMs field whereMatched
  | .updateWithExtracted preVal nowMs row field extracted latIdx lonIdx whereMatched =>
      op.updateWithExtractedNoWhere preVal nowMs row field extracted latIdx lonIdx whereMatched

def whereMatched : LifetimeUpdate → Bool
  | .update _ _ _ whereMatched => whereMatched
  | .updateWithExtracted _ _ _ _ _ _ _ whereMatched => whereMatched

def nowMs : LifetimeUpdate → Int64
  | .update _ nowMs _ _ => nowMs
  | .updateWithExtracted _ nowMs _ _ _ _ _ _ => nowMs

def rowValue : LifetimeUpdate → Option Value
  | .update row _ field _ => field.bind row.get
  | .updateWithExtracted _ _ row field _ _ _ _ => field.bind row.get

/-- The value that is looked up, or that has been. -/
def fieldValue : LifetimeUpdate → Option Value
  | .update row _ field _ => field.bind row.get
  | .updateWithExtracted preVal _ _ _ _ _ _ _ => preVal

/-- The place in the row, or at the positions when there are positions. -/
def placeIn (latField lonField : String) : LifetimeUpdate → Option (kernel.Num × kernel.Num)
  | .update row _ _ _ => readLatLon row latField lonField
  | .updateWithExtracted _ _ row _ extracted latIdx lonIdx _ =>
      if latIdx ≠ fieldIdxNone then readLatLonFromExtracted extracted latIdx lonIdx
      else readLatLon row latField lonField

/-- Nothing is read where the predicate does not hold. -/
def ifMatched {α : Type} (reading : LifetimeUpdate → Option α) (update : LifetimeUpdate) :
    Option α :=
  if update.whereMatched then reading update else none

def reading {α : Type} (read : Value → Option α) : LifetimeUpdate → Option α :=
  ifMatched fun update => update.fieldValue.bind read

def rowReading {α : Type} (read : Value → Option α) : LifetimeUpdate → Option α :=
  ifMatched fun update => update.rowValue.bind read

def timedReading {α : Type} (read : Value → Option α) : LifetimeUpdate → Option (Int64 × α) :=
  ifMatched fun update => (update.rowValue.bind read).map fun seen => (update.nowMs,seen)

def arrival : LifetimeUpdate → Option Int64 :=
  ifMatched fun update => some update.nowMs

def placeReading (latField lonField : String) :
    LifetimeUpdate → Option (kernel.Num × kernel.Num) :=
  ifMatched fun update => update.placeIn latField lonField

end LifetimeUpdate

namespace LifetimeOp

def after (op : LifetimeOp kernel) (updates : List LifetimeUpdate) : LifetimeOp kernel :=
  updates.foldl LifetimeUpdate.apply op

end LifetimeOp

section Lists

variable (updates : List LifetimeUpdate)

/-- The values of the field that are not null, where the predicate holds. -/
def fieldValues : List Value := updates.filterMap (LifetimeUpdate.reading notNull)

def rowValues : List Value := updates.filterMap (LifetimeUpdate.rowReading notNull)

def numbersOf : List kernel.Num := updates.filterMap (LifetimeUpdate.reading numeric)

def arrivals : List Int64 := updates.filterMap LifetimeUpdate.arrival

/-- The places that are read, under the names of the coordinates. -/
def placesIn (latField lonField : String) : List (kernel.Num × kernel.Num) :=
  updates.filterMap (LifetimeUpdate.placeReading latField lonField)

end Lists

section Steps

variable {α σ : Type} (read : Value → Option α) (change : α → σ → σ)

def feed (seen : Option α) (state : σ) : σ :=
  match seen with
  | none => state
  | some seen => change seen state

theorem updateField_eq_feed (row : Row) (field : Option String) (whereMatched : Bool) (state : σ) :
    updateField read change row field whereMatched state =
      feed change (if whereMatched then (field.bind row.get).bind read else none) state := by
  cases whereMatched with
  | false => rfl
  | true =>
      cases field with
      | none => rfl
      | some name =>
          rw [updateField,if_pos rfl,if_pos rfl]
          rfl

theorem updateValue_eq_feed (preVal : Option Value) (whereMatched : Bool) (state : σ) :
    updateValue read change preVal whereMatched state =
      feed change (if whereMatched then preVal.bind read else none) state := by
  cases whereMatched with
  | false => rfl
  | true => rfl

theorem updatePlace_eq_feed (apply : kernel.Num × kernel.Num → σ → σ)
    (place : Option (kernel.Num × kernel.Num)) (whereMatched : Bool) (state : σ) :
    updatePlace apply place whereMatched state =
      feed apply (if whereMatched then place else none) state := by
  cases whereMatched with
  | false => rfl
  | true => cases place with
    | none => rfl
    | some place => rfl

variable {change}

theorem after_eq_foldl (keeps : σ → Prop) {wrap : σ → LifetimeOp kernel}
    {reading : LifetimeUpdate → Option α}
    (step : ∀ update state, keeps state →
      LifetimeUpdate.apply (wrap state) update = wrap (feed change (reading update) state))
    (kept : ∀ seen state, keeps state → keeps (change seen state))
    (updates : List LifetimeUpdate) {state : σ} (start : keeps state) :
    (wrap state).after updates =
      wrap ((updates.filterMap reading).foldl (fun state seen => change seen state) state) := by
  unfold LifetimeOp.after
  induction updates generalizing state with
  | nil => rfl
  | cons update updates ih =>
      rw [List.foldl_cons,step update state start]
      cases seen : reading update with
      | none =>
          rw [List.filterMap_cons_none seen]
          exact ih start
      | some value =>
          rw [List.filterMap_cons_some seen,List.foldl_cons]
          exact ih (kept value state start)

end Steps

end Beava.Agg
