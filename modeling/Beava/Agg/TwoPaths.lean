/-
The two entry points of an operator.

`updateWithRow` looks the field up by its name; `updateWithExtracted` gets what
was looked up before.  They leave the operator in the same state when what was
extracted is what stands in the row.  The places are read under the names that
the operator was made with, and the buckets of a window see no row at all, so
that an invariant of the operator is needed for both.
-/

import Beava.Agg.Windowed
import Beava.Apply.Resolution

namespace Beava.Agg

open Beava.Core Beava.Apply

variable {kernel : Kernel} {Expr : Type} {env : Env Expr} {descriptor : AggOpDescriptor Expr}
variable {extracted : ExtractedFields} {op : LifetimeOp kernel}
variable {row : Row}

/-- The value and the coordinates that are extracted for the feature are those
of the row. -/
structure ReadsRow (descriptor : AggOpDescriptor Expr) (extracted : ExtractedFields) (row : Row) :
    Prop where
  value : preVal descriptor extracted row = fieldByName descriptor row
  place : coordinates descriptor extracted row =
    (row.get (latName descriptor),row.get (lonName descriptor))

theorem ReadsRow.readLatLon_eq (reads : ReadsRow descriptor extracted row)
    (resolved : descriptor.ext.latIdx ≠ fieldIdxNone) :
    (readLatLonFromExtracted extracted descriptor.ext.latIdx descriptor.ext.lonIdx :
        Option (kernel.Num × kernel.Num)) =
      readLatLon row (latName descriptor) (lonName descriptor) := by
  have place := reads.place
  rw [coordinates,if_neg resolved,Prod.mk.injEq] at place
  rw [readLatLonFromExtracted,readLatLon,place.1,place.2]

/-- An operator over places reads the coordinates of the descriptor. -/
def PlacesOf (descriptor : AggOpDescriptor Expr) : LifetimeOp kernel → Prop
  | .geoVelocity state =>
      state.latField = latName descriptor ∧ state.lonField = lonName descriptor
  | .geoDistance state =>
      state.latField = latName descriptor ∧ state.lonField = lonName descriptor
  | .geoSpread state =>
      state.latField = latName descriptor ∧ state.lonField = lonName descriptor
  | .distanceFromHome state =>
      state.latField = latName descriptor ∧ state.lonField = lonName descriptor
  | _ => True

theorem placesOf_new (descriptor : AggOpDescriptor Expr) :
    PlacesOf descriptor (.newLifetimeFull descriptor : LifetimeOp kernel) := by
  cases hasKind : descriptor.kind <;>
    simp only [LifetimeOp.newLifetimeFull,hasKind,PlacesOf,GeoVelocityState.withFields,
      GeoDistanceState.withFields,GeoSpreadState.withFields,DistanceFromHomeState.withFields,
      and_self]

theorem updatePlace_keeps {σ : Type} (holds : σ → Prop) {apply : kernel.Num × kernel.Num → σ → σ}
    {state : σ} (kept : ∀ place, holds (apply place state)) (before : holds state)
    (place : Option (kernel.Num × kernel.Num)) (whereMatched : Bool) :
    holds (updatePlace apply place whereMatched state) := by
  unfold updatePlace
  split
  · cases place with
    | none => exact before
    | some place => exact kept place
  · exact before

theorem DistanceFromHomeState.apply_fields (place : kernel.Num × kernel.Num)
    (state : DistanceFromHomeState kernel) :
    (DistanceFromHomeState.apply place state).latField = state.latField ∧
      (DistanceFromHomeState.apply place state).lonField = state.lonField := by
  simp only [DistanceFromHomeState.apply]
  split
  · exact ⟨rfl,rfl⟩
  · split <;> exact ⟨rfl,rfl⟩

section Places

variable {place : Option (kernel.Num × kernel.Num)} {whereMatched : Bool}

theorem PlacesOf.geoVelocity {state : GeoVelocityState kernel}
    (places : PlacesOf descriptor (.geoVelocity state)) (nowMs : Int64) :
    PlacesOf descriptor
      (.geoVelocity (updatePlace (GeoVelocityState.apply nowMs) place whereMatched state)) :=
  updatePlace_keeps (fun state => PlacesOf descriptor (.geoVelocity state)) (fun _ => places)
    places place whereMatched

theorem PlacesOf.geoDistance {state : GeoDistanceState kernel}
    (places : PlacesOf descriptor (.geoDistance state)) :
    PlacesOf descriptor
      (.geoDistance (updatePlace GeoDistanceState.apply place whereMatched state)) :=
  updatePlace_keeps (fun state => PlacesOf descriptor (.geoDistance state)) (fun _ => places)
    places place whereMatched

theorem PlacesOf.geoSpread {state : GeoSpreadState kernel}
    (places : PlacesOf descriptor (.geoSpread state)) :
    PlacesOf descriptor (.geoSpread (updatePlace GeoSpreadState.apply place whereMatched state)) :=
  updatePlace_keeps (fun state => PlacesOf descriptor (.geoSpread state)) (fun _ => places)
    places place whereMatched

theorem PlacesOf.distanceFromHome {state : DistanceFromHomeState kernel}
    (places : PlacesOf descriptor (.distanceFromHome state)) :
    PlacesOf descriptor
      (.distanceFromHome (updatePlace DistanceFromHomeState.apply place whereMatched state)) := by
  refine updatePlace_keeps (fun state => PlacesOf descriptor (.distanceFromHome state))
    (fun seen => ?_) places place whereMatched
  obtain ⟨latEq,lonEq⟩ := DistanceFromHomeState.apply_fields seen state
  exact ⟨latEq.trans places.1,lonEq.trans places.2⟩

end Places

theorem PlacesOf.update (places : PlacesOf descriptor op) (row : Row) (nowMs : Int64)
    (field : Option String) (whereMatched : Bool) :
    PlacesOf descriptor (op.update row nowMs field whereMatched) := by
  cases op with
  | geoVelocity state => exact places.geoVelocity nowMs
  | geoDistance state => exact places.geoDistance
  | geoSpread state => exact places.geoSpread
  | distanceFromHome state => exact places.distanceFromHome
  | _ => trivial

theorem PlacesOf.updateWithExtracted (places : PlacesOf descriptor op) (preVal : Option Value)
    (nowMs : Int64) (row : Row) (field : Option String) (extracted : ExtractedFields)
    (latIdx lonIdx : UInt8) (whereMatched : Bool) :
    PlacesOf descriptor
      (op.updateWithExtractedNoWhere preVal nowMs row field extracted latIdx lonIdx
        whereMatched) := by
  cases op with
  | geoVelocity state =>
      simp only [LifetimeOp.updateWithExtractedNoWhere]
      split
      · exact places.geoVelocity nowMs
      · exact places.geoVelocity nowMs
  | geoDistance state =>
      simp only [LifetimeOp.updateWithExtractedNoWhere]
      split
      · exact places.geoDistance
      · exact places.geoDistance
  | geoSpread state =>
      simp only [LifetimeOp.updateWithExtractedNoWhere]
      split
      · exact places.geoSpread
      · exact places.geoSpread
  | distanceFromHome state =>
      simp only [LifetimeOp.updateWithExtractedNoWhere]
      split
      · exact places.distanceFromHome
      · exact places.distanceFromHome
  | _ => trivial

section Lifetime

variable {extracted : ExtractedFields} {row : Row} {op : LifetimeOp kernel}

theorem LifetimeOp.updateWithExtracted_eq (reads : ReadsRow descriptor extracted row)
    (places : PlacesOf descriptor op) (nowMs : Int64) (whereMatched : Bool) :
    op.updateWithExtractedNoWhere (preVal descriptor extracted row) nowMs row descriptor.field
        extracted descriptor.ext.latIdx descriptor.ext.lonIdx whereMatched =
      op.update row nowMs descriptor.field whereMatched := by
  have valueEq : preVal descriptor extracted row = descriptor.field.bind row.get := reads.value
  rw [valueEq]
  cases op with
  | sum | avg | min | max | variance | stdDev | countDistinct | percentile | topK | bloomMember
  | entropy | first | last | firstN | lastN | lag | eventTypeMix =>
      exact congrArg _ (updateValue_lookup ..)
  | geoVelocity state =>
      simp only [updateWithExtractedNoWhere,update]
      split
      · rename_i resolved
        rw [GeoVelocityState.updateAt,reads.readLatLon_eq resolved,GeoVelocityState.update,
          places.1,places.2]
      · rfl
  | geoDistance state =>
      simp only [updateWithExtractedNoWhere,update]
      split
      · rename_i resolved
        rw [GeoDistanceState.updateAt,reads.readLatLon_eq resolved,GeoDistanceState.update,
          places.1,places.2]
      · rfl
  | geoSpread state =>
      simp only [updateWithExtractedNoWhere,update]
      split
      · rename_i resolved
        rw [GeoSpreadState.updateAt,reads.readLatLon_eq resolved,GeoSpreadState.update,
          places.1,places.2]
      · rfl
  | distanceFromHome state =>
      simp only [updateWithExtractedNoWhere,update]
      split
      · rename_i resolved
        rw [DistanceFromHomeState.updateAt,reads.readLatLon_eq resolved,
          DistanceFromHomeState.update,places.1,places.2]
      · rfl
  | _ => rfl

end Lifetime

/-- The operator is of a kind that a window can wrap. -/
def Windowable : LifetimeOp kernel → Prop
  | .count _ | .sum _ | .avg _ | .min _ | .max _ | .variance _ | .stdDev _ | .ratio _ => True
  | .countDistinct _ | .percentile _ | .topK _ | .entropy _ => True
  | _ => False

theorem windowable_new {kind : AggKind} (wrapped : supportsWindowedWrap kind = true)
    (params : SketchParams) : Windowable (.newLifetime kind params : LifetimeOp kernel) := by
  cases kind with
  | count | sum | avg | min | max | variance | stdDev | ratio => trivial
  | countDistinct | percentile | topK | entropy => trivial
  | _ => cases wrapped

theorem Windowable.update (windowable : Windowable op) (row : Row) (nowMs : Int64)
    (field : Option String) (whereMatched : Bool) :
    Windowable (op.update row nowMs field whereMatched) := by
  cases op with
  | count | sum | avg | min | max | variance | stdDev | ratio => trivial
  | countDistinct | percentile | topK | entropy => trivial
  | _ => cases windowable

theorem Windowable.updateWithExtracted (windowable : Windowable op) (preVal : Option Value)
    (nowMs : Int64) (row : Row) (field : Option String) (extracted : ExtractedFields)
    (latIdx lonIdx : UInt8) (whereMatched : Bool) :
    Windowable
      (op.updateWithExtractedNoWhere preVal nowMs row field extracted latIdx lonIdx
        whereMatched) := by
  cases op with
  | count | sum | avg | min | max | variance | stdDev | ratio => trivial
  | countDistinct | percentile | topK | entropy => trivial
  | _ => cases windowable

/-- Such an operator looks at the extracted value only, so that the empty row and
the missing name make no difference. -/
theorem Windowable.updateAt_eq (windowable : Windowable op) (row : Row) (nowMs : Int64)
    (field : Option String) (extracted : ExtractedFields) (latIdx lonIdx : UInt8)
    (whereMatched : Bool) :
    op.updateWithExtractedNoWhere (field.bind row.get) nowMs Row.new none extracted latIdx lonIdx
        whereMatched =
      op.update row nowMs field whereMatched := by
  cases op with
  | count | ratio => rfl
  | sum | avg | min | max | variance | stdDev | countDistinct | percentile | topK | entropy =>
      exact congrArg _ (updateValue_lookup ..)
  | _ => cases windowable

/-- What holds of an operator that was made for the descriptor. -/
def Serves (descriptor : AggOpDescriptor Expr) : AggOp kernel → Prop
  | .lifetime op => PlacesOf descriptor op
  | .windowed op =>
      supportsWindowedWrap op.innerKind = true ∧ ∀ bucket ∈ op.buckets, Windowable bucket.2

theorem serves_new (descriptor : AggOpDescriptor Expr) :
    Serves descriptor (.new descriptor : AggOp kernel) := by
  unfold AggOp.new
  split
  · exact placesOf_new descriptor
  · split
    · trivial
    · split
      · rename_i wrapped
        exact ⟨wrapped,fun bucket inNil => nomatch inNil⟩
      · exact placesOf_new descriptor

theorem Serves.updateWithRow {op : AggOp kernel} (serves : Serves descriptor op) (row : Row)
    (nowMs : Int64) (field : Option String) (whereExpr : Option Expr) :
    Serves descriptor (op.updateWithRow env row nowMs field whereExpr) := by
  cases op with
  | lifetime op => exact PlacesOf.update serves row nowMs field _
  | windowed op =>
      refine ⟨serves.1,LatestKeys.touch_states Windowable (windowable_new serves.1 _) ?_ _ serves.2⟩
      intro state windowable
      exact windowable.update row nowMs field _

theorem Serves.updateWithExtracted {op : AggOp kernel} (serves : Serves descriptor op)
    (preVal : Option Value) (nowMs : Int64) (whereExpr : Option Expr) (row : Row)
    (field : Option String) (extracted : ExtractedFields) (latIdx lonIdx : UInt8) :
    Serves descriptor
      (op.updateWithExtracted env preVal nowMs whereExpr row field extracted latIdx lonIdx) := by
  cases op with
  | lifetime op =>
      exact PlacesOf.updateWithExtracted serves preVal nowMs row field extracted latIdx lonIdx _
  | windowed op =>
      refine ⟨serves.1,LatestKeys.touch_states Windowable (windowable_new serves.1 _) ?_ _ serves.2⟩
      intro state windowable
      exact windowable.updateWithExtracted preVal nowMs Row.new none extracted latIdx lonIdx _

/-- The operators of a feature: made for its descriptor and updated in any way. -/
inductive Made (env : Env Expr) (descriptor : AggOpDescriptor Expr) : AggOp kernel → Prop where
  | new : Made env descriptor (.new descriptor)
  | byRow {op : AggOp kernel} (row : Row) (nowMs : Int64) (field : Option String)
      (whereExpr : Option Expr) :
      Made env descriptor op → Made env descriptor (op.updateWithRow env row nowMs field whereExpr)
  | byExtracted {op : AggOp kernel} (preVal : Option Value) (nowMs : Int64)
      (whereExpr : Option Expr) (row : Row) (field : Option String) (extracted : ExtractedFields)
      (latIdx lonIdx : UInt8) :
      Made env descriptor op →
        Made env descriptor
          (op.updateWithExtracted env preVal nowMs whereExpr row field extracted latIdx lonIdx)

theorem Made.serves {op : AggOp kernel} (made : Made env descriptor op) :
    Serves descriptor op := by
  induction made with
  | new => exact serves_new descriptor
  | byRow row nowMs field whereExpr made ih => exact ih.updateWithRow row nowMs field whereExpr
  | byExtracted preVal nowMs whereExpr row field extracted latIdx lonIdx made ih =>
      exact ih.updateWithExtracted preVal nowMs whereExpr row field extracted latIdx lonIdx

theorem Serves.route_congr {op : WindowedOp kernel} (serves : Serves descriptor (.windowed op))
    {nowMs : Int64} {change other : LifetimeOp kernel → LifetimeOp kernel}
    (same : ∀ state, Windowable state → change state = other state) :
    op.route nowMs change = op.route nowMs other := by
  rw [WindowedOp.route,WindowedOp.route,
    LatestKeys.touch_congr Windowable (windowable_new serves.1 op.sketchParams) same
      (op.bucketEpoch nowMs) serves.2]

theorem Serves.updateWithExtracted_eq {op : AggOp kernel} (serves : Serves descriptor op)
    (reads : ReadsRow descriptor extracted row) (nowMs : Int64) (whereExpr : Option Expr) :
    op.updateWithExtracted env (preVal descriptor extracted row) nowMs whereExpr row
        descriptor.field extracted descriptor.ext.latIdx descriptor.ext.lonIdx =
      op.updateWithRow env row nowMs descriptor.field whereExpr := by
  cases op with
  | lifetime op =>
      exact congrArg AggOp.lifetime
        (LifetimeOp.updateWithExtracted_eq reads serves nowMs (evaluateWhere env whereExpr row))
  | windowed op =>
      have valueEq : preVal descriptor extracted row = descriptor.field.bind row.get := reads.value
      refine congrArg AggOp.windowed ?_
      rw [WindowedOp.updateAt,valueEq]
      apply serves.route_congr
      intro state windowable
      exact windowable.updateAt_eq row nowMs descriptor.field extracted descriptor.ext.latIdx
        descriptor.ext.lonIdx (evaluateWhere env whereExpr row)

end Beava.Agg
