/-
Operators behind one input.

The loop over the aggregations is modelled over any operators that are updated by
one input.  The operators of the server are such operators: what an update reads
of the row, of the extracted fields and of the positions is all in the input that
the loop makes of them.  A row of operators is in the same state after the inputs
as after the calls of the source.
-/

import Beava.Agg.TwoPaths
import Beava.Apply.Loop

namespace Beava.Agg

open Beava.Core Beava.Apply

variable {kernel : Kernel} {Expr : Type} {env : Env Expr} {descriptor : AggOpDescriptor Expr}
variable {features : List (NamedAggOp Expr)}
variable {row : List (AggOp kernel)}

def fieldRow (field : Option String) (value : Option Value) : Row :=
  match field, value with
  | some name, some value => ⟨[(name,value)]⟩
  | _, _ => Row.new

/-- The place of the input stands at two positions of its own. -/
def LifetimeOp.updateByInput (field : Option String) (input : OpInput) :
    LifetimeOp kernel → LifetimeOp kernel :=
  .updateWithExtractedNoWhere input.value input.nowMs (fieldRow field input.value) field
    [input.lat,input.lon] 0 1 input.whereMatched

def AggOp.updateByInput (field : Option String) (input : OpInput) : AggOp kernel → AggOp kernel
  | .lifetime op => .lifetime (op.updateByInput field input)
  | .windowed op =>
      .windowed (op.updateAt input.value [input.lat,input.lon] 0 1 input.nowMs
        input.whereMatched)

/-- The operators of the server, for the loop over the aggregations. -/
def aggOperators (kernel : Kernel) (Expr : Type) : Operators Expr (AggOp kernel) where
  new := AggOp.new
  update descriptor op input := op.updateByInput descriptor.field input

def LifetimeOp.access : LifetimeOp kernel → FieldAccess
  | .sum _ | .avg _ | .min _ | .max _ | .variance _ | .stdDev _ => .preVal
  | .countDistinct _ | .percentile _ | .topK _ | .bloomMember _ | .entropy _ => .preVal
  | .first _ | .last _ | .firstN _ | .lastN _ | .lag _ | .eventTypeMix _ => .preVal
  | .ewma _ _ | .ewVar _ _ | .ewZScore _ _ | .decayedSum _ _ | .twa _ => .byName
  | .rateOfChange _ | .deltaFromPrev _ | .trend _ | .trendResidual _ => .byName
  | .outlierCount _ _ | .valueChangeCount _ | .zScore _ | .seasonalDeviation _ => .byName
  | .histogram _ | .mostRecentN _ | .reservoirSample _ => .byName
  | .geoVelocity _ | .geoDistance _ | .geoSpread _ | .distanceFromHome _ => .geo
  | _ => .fieldless

theorem LifetimeOp.access_new (descriptor : AggOpDescriptor Expr) :
    (newLifetimeFull descriptor : LifetimeOp kernel).access = fieldAccess descriptor.kind := by
  cases hasKind : descriptor.kind <;>
    simp only [newLifetimeFull,hasKind,access,fieldAccess]

theorem LifetimeOp.access_update (op : LifetimeOp kernel) (preVal : Option Value) (nowMs : Int64)
    (row : Row) (field : Option String) (extracted : ExtractedFields) (latIdx lonIdx : UInt8)
    (whereMatched : Bool) :
    (op.updateWithExtractedNoWhere preVal nowMs row field extracted latIdx lonIdx
      whereMatched).access = op.access := by
  cases op <;> rfl

theorem lookup_fieldRow (field : Option String) (row : Row) :
    field.bind (fieldRow field (field.bind row.get)).get = field.bind row.get := by
  cases field with
  | none => rfl
  | some name =>
      rw [Option.bind_some,Option.bind_some]
      cases held : row.get name with
      | none => rfl
      | some value => simp [fieldRow,Row.get]

theorem updateField_fieldRow {α σ : Type} (read : Value → Option α) (change : α → σ → σ)
    (field : Option String) (row : Row) (whereMatched : Bool) (state : σ) :
    updateField read change (fieldRow field (field.bind row.get)) field whereMatched state =
      updateField read change row field whereMatched state := by
  rw [← updateValue_lookup,lookup_fieldRow,updateValue_lookup]

theorem readLatLon_input {env : Env Expr} (isGeo : fieldAccess descriptor.kind = .geo)
    (extracted : ExtractedFields) (aggRow : Row) (nowMs : Int64) :
    (readLatLonFromExtracted
        [(featureInput env descriptor extracted aggRow nowMs).lat,
          (featureInput env descriptor extracted aggRow nowMs).lon] 0 1 :
        Option (kernel.Num × kernel.Num)) =
      if descriptor.ext.latIdx ≠ fieldIdxNone then
        readLatLonFromExtracted extracted descriptor.ext.latIdx descriptor.ext.lonIdx
      else readLatLon aggRow (latName descriptor) (lonName descriptor) := by
  have place : (readLatLonFromExtracted
        [(featureInput env descriptor extracted aggRow nowMs).lat,
          (featureInput env descriptor extracted aggRow nowMs).lon] 0 1 :
        Option (kernel.Num × kernel.Num)) =
      placeOf (coordinates descriptor extracted aggRow).1
        (coordinates descriptor extracted aggRow).2 := by
    simp only [featureInput,isGeo,if_true]
    rfl
  rw [place,coordinates]
  by_cases unresolved : descriptor.ext.latIdx = fieldIdxNone
  · rw [if_pos unresolved,if_neg (not_not_intro unresolved)]
    rfl
  · rw [if_neg unresolved,if_pos unresolved]
    rfl

/-- A change by the place of the input is one by the place that is read under the names of
the coordinates, or at their positions. -/
theorem updatePlace_input {env : Env Expr} {σ : Type} (apply : kernel.Num × kernel.Num → σ → σ)
    (whereMatched : Bool) (state unread : σ) (isGeo : fieldAccess descriptor.kind = .geo)
    (extracted : ExtractedFields) (aggRow : Row) (nowMs : Int64) {latField lonField : String}
    (names : latField = latName descriptor ∧ lonField = lonName descriptor) :
    (if (0 : UInt8) ≠ fieldIdxNone then
        updatePlace apply
          (readLatLonFromExtracted
            [(featureInput env descriptor extracted aggRow nowMs).lat,
              (featureInput env descriptor extracted aggRow nowMs).lon] 0 1)
          whereMatched state
      else unread) =
      if descriptor.ext.latIdx ≠ fieldIdxNone then
        updatePlace apply
          (readLatLonFromExtracted extracted descriptor.ext.latIdx descriptor.ext.lonIdx)
          whereMatched state
      else updatePlace apply (readLatLon aggRow latField lonField) whereMatched state := by
  rw [if_pos (by decide),readLatLon_input isGeo,names.1,names.2]
  split
  · rfl
  · rfl

section Update

variable {op : LifetimeOp kernel} (extracted : ExtractedFields) (aggRow : Row) (nowMs : Int64)

theorem LifetimeOp.updateByInput_eq (places : PlacesOf descriptor op)
    (sameAccess : op.access = fieldAccess descriptor.kind) :
    op.updateByInput descriptor.field (featureInput env descriptor extracted aggRow nowMs) =
      op.updateWithExtractedNoWhere (preVal descriptor extracted aggRow) nowMs aggRow
        descriptor.field extracted descriptor.ext.latIdx descriptor.ext.lonIdx
        (evaluateWhere env descriptor.whereExpr aggRow) := by
  have value : (featureInput env descriptor extracted aggRow nowMs).value =
      fieldValue op.access (preVal descriptor extracted aggRow)
        (descriptor.field.bind aggRow.get) := by
    rw [sameAccess]
    rfl
  have matched : (featureInput env descriptor extracted aggRow nowMs).whereMatched =
      evaluateWhere env descriptor.whereExpr aggRow := rfl
  rw [updateByInput,value,matched]
  cases op with
  | ewma state halfLifeMs =>
      exact congrArg (fun state => ewma state halfLifeMs) (updateField_fieldRow ..)
  | ewVar state halfLifeMs =>
      exact congrArg (fun state => ewVar state halfLifeMs) (updateField_fieldRow ..)
  | ewZScore state halfLifeMs =>
      exact congrArg (fun inner => ewZScore ⟨inner⟩ halfLifeMs) (updateField_fieldRow ..)
  | decayedSum state halfLifeMs =>
      exact congrArg (fun state => decayedSum state halfLifeMs) (updateField_fieldRow ..)
  | twa state => exact congrArg twa (updateField_fieldRow ..)
  | rateOfChange state => exact congrArg rateOfChange (updateField_fieldRow ..)
  | deltaFromPrev state => exact congrArg deltaFromPrev (updateField_fieldRow ..)
  | trend state => exact congrArg trend (updateField_fieldRow ..)
  | trendResidual state => exact congrArg trendResidual (updateField_fieldRow ..)
  | outlierCount state sigma =>
      exact congrArg (fun state => outlierCount state sigma) (updateField_fieldRow ..)
  | valueChangeCount state => exact congrArg valueChangeCount (updateField_fieldRow ..)
  | zScore state => exact congrArg zScore (updateField_fieldRow ..)
  | seasonalDeviation state => exact congrArg seasonalDeviation (updateField_fieldRow ..)
  | histogram state => exact congrArg histogram (updateField_fieldRow ..)
  | mostRecentN state => exact congrArg mostRecentN (updateField_fieldRow ..)
  | reservoirSample state => exact congrArg reservoirSample (updateField_fieldRow ..)
  | geoVelocity state =>
      exact congrArg geoVelocity
        (updatePlace_input _ _ state _ sameAccess.symm extracted aggRow nowMs places)
  | geoDistance state =>
      exact congrArg geoDistance
        (updatePlace_input _ _ state _ sameAccess.symm extracted aggRow nowMs places)
  | geoSpread state =>
      exact congrArg geoSpread
        (updatePlace_input _ _ state _ sameAccess.symm extracted aggRow nowMs places)
  | distanceFromHome state =>
      exact congrArg distanceFromHome
        (updatePlace_input _ _ state _ sameAccess.symm extracted aggRow nowMs places)
  | _ => rfl

theorem LifetimeOp.updateAt_input (windowable : Windowable op)
    (sameAccess : op.access = fieldAccess descriptor.kind) (places : ExtractedFields)
    (latIdx lonIdx : UInt8) (whereMatched : Bool) :
    op.updateWithExtractedNoWhere (featureInput env descriptor extracted aggRow nowMs).value nowMs
        Row.new none places latIdx lonIdx whereMatched =
      op.updateWithExtractedNoWhere (preVal descriptor extracted aggRow) nowMs Row.new none
        extracted descriptor.ext.latIdx descriptor.ext.lonIdx whereMatched := by
  have value : (featureInput env descriptor extracted aggRow nowMs).value =
      fieldValue op.access (preVal descriptor extracted aggRow)
        (fieldByName descriptor aggRow) := by
    rw [sameAccess]
    rfl
  rw [value]
  cases op with
  | count | ratio => rfl
  | sum | avg | min | max | variance | stdDev => rfl
  | countDistinct | percentile | topK | entropy => rfl
  | _ => cases windowable

/-- What holds of an operator of the feature: it reads what the descriptor names. -/
def Reads (descriptor : AggOpDescriptor Expr) : AggOp kernel → Prop
  | .lifetime op => PlacesOf descriptor op ∧ op.access = fieldAccess descriptor.kind
  | .windowed op =>
      supportsWindowedWrap descriptor.kind = true ∧ op.innerKind = descriptor.kind ∧
        ∀ bucket ∈ op.buckets,
          Windowable bucket.2 ∧ bucket.2.access = fieldAccess descriptor.kind

theorem reads_new (descriptor : AggOpDescriptor Expr) :
    Reads descriptor (.new descriptor : AggOp kernel) := by
  have unwrapped : Reads descriptor
      (.lifetime (.newLifetimeFull descriptor) : AggOp kernel) :=
    ⟨placesOf_new descriptor,LifetimeOp.access_new descriptor⟩
  unfold AggOp.new
  split
  · exact unwrapped
  · split
    · rename_i isFirstSeen
      refine ⟨trivial,?_⟩
      rw [isFirstSeen]
      rfl
    · split
      · rename_i wrapped
        exact ⟨wrapped,rfl,fun bucket inNil => nomatch inNil⟩
      · exact unwrapped

theorem Reads.newBucket {op : WindowedOp kernel} (reads : Reads descriptor (.windowed op)) :
    Windowable (.newLifetime op.innerKind op.sketchParams : LifetimeOp kernel) ∧
      (.newLifetime op.innerKind op.sketchParams : LifetimeOp kernel).access =
        fieldAccess descriptor.kind := by
  obtain ⟨wrapped,sameKind,-⟩ := reads
  rw [sameKind]
  exact ⟨windowable_new wrapped op.sketchParams,LifetimeOp.access_new _⟩

theorem Reads.updateWithExtracted {op : AggOp kernel} (reads : Reads descriptor op)
    (preVal : Option Value) (whereExpr : Option Expr) (field : Option String)
    (latIdx lonIdx : UInt8) :
    Reads descriptor
      (op.updateWithExtracted env preVal nowMs whereExpr aggRow field extracted latIdx
        lonIdx) := by
  cases op with
  | lifetime op =>
      exact ⟨PlacesOf.updateWithExtracted reads.1 ..,(op.access_update ..).trans reads.2⟩
  | windowed op =>
      refine ⟨reads.1,reads.2.1,LatestKeys.touch_states
        (fun state => Windowable state ∧ state.access = fieldAccess descriptor.kind)
        reads.newBucket ?_ _ reads.2.2⟩
      intro state before
      exact ⟨before.1.updateWithExtracted ..,(state.access_update ..).trans before.2⟩

theorem Reads.updateByInput_eq {op : AggOp kernel} (reads : Reads descriptor op) :
    op.updateByInput descriptor.field (featureInput env descriptor extracted aggRow nowMs) =
      op.updateWithExtracted env (preVal descriptor extracted aggRow) nowMs descriptor.whereExpr
        aggRow descriptor.field extracted descriptor.ext.latIdx descriptor.ext.lonIdx := by
  cases op with
  | lifetime op =>
      exact congrArg AggOp.lifetime
        (LifetimeOp.updateByInput_eq extracted aggRow nowMs reads.1 reads.2)
  | windowed op =>
      refine congrArg (fun buckets => AggOp.windowed { op with buckets := buckets })
        (LatestKeys.touch_congr
          (fun state => Windowable state ∧ state.access = fieldAccess descriptor.kind)
          reads.newBucket ?_ _ reads.2.2)
      intro state before
      exact LifetimeOp.updateAt_input extracted aggRow nowMs before.1 before.2 _ 0 1 _

end Update

/-- The innermost loop of `apply_event_to_aggregations`: one call for each feature. -/
def updateEntityRow (env : Env Expr) (extracted : ExtractedFields) (aggRow : Row)
    (nowMs : Int64) : List (AggOp kernel) → List (NamedAggOp Expr) → List (AggOp kernel)
  | op :: row, feature :: features =>
      op.updateWithExtracted env (preVal feature.descriptor extracted aggRow) nowMs
          feature.descriptor.whereExpr aggRow feature.descriptor.field extracted
          feature.descriptor.ext.latIdx feature.descriptor.ext.lonIdx ::
        updateEntityRow env extracted aggRow nowMs row features
  | row, [] => row
  | [], _ => []

/-- Every operator of the row is one of its feature. -/
def RowReads (row : List (AggOp kernel)) (features : List (NamedAggOp Expr)) : Prop :=
  List.Forall₂ (fun op (feature : NamedAggOp Expr) => Reads feature.descriptor op) row features

theorem rowReads_new (features : List (NamedAggOp Expr)) :
    RowReads (features.map fun feature => (.new feature.descriptor : AggOp kernel)) features := by
  induction features with
  | nil => exact .nil
  | cons feature features ih => exact .cons (reads_new feature.descriptor) ih

theorem RowReads.updateEntityRow (reads : RowReads row features) (env : Env Expr)
    (extracted : ExtractedFields) (aggRow : Row) (nowMs : Int64) :
    RowReads (updateEntityRow env extracted aggRow nowMs row features) features := by
  induction reads with
  | nil => exact .nil
  | cons first rest ih => exact .cons (first.updateWithExtracted extracted aggRow nowMs ..) ih

theorem RowReads.updateRow_eq (reads : RowReads row features) (env : Env Expr)
    (extracted : ExtractedFields) (aggRow : Row) (nowMs : Int64) :
    updateRow (aggOperators kernel Expr)
        (fun descriptor => featureInput env descriptor extracted aggRow nowMs) row features =
      Agg.updateEntityRow env extracted aggRow nowMs row features := by
  induction reads with
  | nil => rfl
  | cons first rest ih =>
      exact congrArg₂ List.cons (first.updateByInput_eq extracted aggRow nowMs) ih

end Beava.Agg
