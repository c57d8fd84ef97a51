/-
The two resolvers of field positions.

One is called with the registry and one under its lock.  Both change the aggregation
in place: a first loop over the features clears the mapping and sets the positions
among the aggregation's own names, a second one pushes the mapping into the names of
the source and re-points the coordinates.  What they write depends on what is
declared only, so that they agree, and resolving a resolved aggregation again gives
the same positions.
-/

import Beava.Registry.Positions

namespace Beava.Registry

open Beava.Core Beava.Apply

variable {Expr : Type}
variable {agg : AggregationDescriptor Expr} {schema : Schema} {features : List (NamedAggOp Expr)}
variable {message : String}

/-! ### The resolver of the registry -/

/-- The loop of `resolve_field_indices_for_agg`. -/
def resolveFieldIndicesForAgg (agg : AggregationDescriptor Expr) (schema : Schema) :
    List (NamedAggOp Expr) → Except String Unit
  | [] => .ok ()
  | feat :: rest =>
      match missingFieldOf agg schema feat with
      | some message => .error message
      | none => resolveFieldIndicesForAgg agg schema rest

def setFieldIdx (fieldNames : List String) (descriptor : AggOpDescriptor Expr) :
    List String × AggOpDescriptor Expr :=
  match descriptor.field with
  | some fname =>
      let found := positionOrPush fieldNames fname
      (found.1,{ descriptor with fieldIdx := UInt8.ofNat found.2 })
  | none => (fieldNames,{ descriptor with fieldIdx := fieldIdxNone })

def setGeo (descriptor : AggOpDescriptor Expr) (lat lon : UInt8) :
    AggOpDescriptor Expr :=
  { descriptor with ext := { descriptor.ext with latIdx := lat, lonIdx := lon } }

/-- Partial coordinates keep the sentinel. -/
def setGeoIdx (fieldNames : List String) (descriptor : AggOpDescriptor Expr) :
    List String × AggOpDescriptor Expr :=
  match descriptor.ext.latField, descriptor.ext.lonField with
  | some latName, some lonName =>
      let lat := positionOrPush fieldNames latName
      let lon := positionOrPush lat.1 lonName
      (lon.1,setGeo descriptor (UInt8.ofNat lat.2) (UInt8.ofNat lon.2))
  | _, _ => (fieldNames,setGeo descriptor fieldIdxNone fieldIdxNone)

/-- A round of the first loop: the names so far, and the features it is done with. -/
def assignRound (state : List String × List (NamedAggOp Expr)) (feat : NamedAggOp Expr) :
    List String × List (NamedAggOp Expr) :=
  let cleared := { feat.descriptor with fieldIdxIntoEventExtracted := [] }
  let withField := setFieldIdx state.1 cleared
  let withGeo := setGeoIdx withField.1 withField.2
  (withGeo.1,state.2 ++ [{ feat with descriptor := withGeo.2 }])

def pushUnionIndex (lookup : StrMap UInt8) (descriptor : AggOpDescriptor Expr) (fname : String) :
    AggOpDescriptor Expr :=
  { descriptor with
    fieldIdxIntoEventExtracted :=
      descriptor.fieldIdxIntoEventExtracted ++ [lookup[fname]?.getD fieldIdxNone] }

/-- The coordinates are re-pointed when the union has both. -/
def repointGeo (lookup : StrMap UInt8) (descriptor : AggOpDescriptor Expr) :
    AggOpDescriptor Expr :=
  match descriptor.ext.latField, descriptor.ext.lonField with
  | some lat, some lon =>
      match lookup[lat]?, lookup[lon]? with
      | some latIdx, some lonIdx => setGeo descriptor latIdx lonIdx
      | _, _ => descriptor
  | _, _ => descriptor

def hasField (descriptor : AggOpDescriptor Expr) : Bool :=
  descriptor.field.isSome || descriptor.ext.latField.isSome || descriptor.ext.lonField.isSome

def mapRound (fieldNames : List String) (lookup : StrMap UInt8) (feat : NamedAggOp Expr) :
    NamedAggOp Expr :=
  if !hasField feat.descriptor then feat
  else
    { feat with
      descriptor := repointGeo lookup (fieldNames.foldl (pushUnionIndex lookup) feat.descriptor) }

/-- The result, and the aggregation behind the reference. -/
def resolveFieldIndicesForAggMut (agg : AggregationDescriptor Expr) (schema : Schema)
    (sourceUnion : List String) : Except String Unit × AggregationDescriptor Expr :=
  match resolveFieldIndicesForAgg agg schema agg.features with
  | .error message => (.error message,agg)
  | .ok () =>
      let assigned := agg.features.foldl assignRound ([],[])
      let agg := { agg with fieldNames := assigned.1, features := assigned.2 }
      if sourceUnion.isEmpty then (.ok (),agg)
      else
        let features := agg.features.map (mapRound agg.fieldNames (unionLookup sourceUnion))
        (.ok (),{ agg with features := features })

/-- The pushes of the second loop, onto the mapping as it is. -/
def pushMapping (lookup : StrMap UInt8) : List String → List UInt8 → List UInt8
  | [], mapping => mapping
  | fname :: rest, mapping => pushMapping lookup rest (mapping ++ [lookup.getD fname fieldIdxNone])

def repointInner (lookup : StrMap UInt8) (ext : AggExtParams) : AggExtParams :=
  match ext.latField.bind (lookup[·]?), ext.lonField.bind (lookup[·]?) with
  | some lat, some lon => { ext with latIdx := lat, lonIdx := lon }
  | _, _ => ext

def mapFeaturesInner (fieldNames : List String) (lookup : StrMap UInt8) :
    List (NamedAggOp Expr) → List (NamedAggOp Expr)
  | [] => []
  | feat :: rest =>
      let descriptor := feat.descriptor
      let mapped :=
        if (declaredFields descriptor).isEmpty then feat
        else
          { feat with
            descriptor :=
              { descriptor with
                fieldIdxIntoEventExtracted :=
                  pushMapping lookup fieldNames descriptor.fieldIdxIntoEventExtracted
                ext := repointInner lookup descriptor.ext } }
      mapped :: mapFeaturesInner fieldNames lookup rest

/-- The result, and the aggregation behind the reference. -/
def resolveFieldIndicesForAggMutInner (agg : AggregationDescriptor Expr) (schema : Schema)
    (sourceUnion : List String) : Except String Unit × AggregationDescriptor Expr :=
  match missingField agg schema with
  | some message => (.error message,agg)
  | none =>
      let lookup := unionLookup sourceUnion
      let assigned := assignFeatures [] agg.features
      let features :=
        if sourceUnion.isEmpty then assigned.2
        else mapFeaturesInner assigned.1 lookup assigned.2
      (.ok (),{ agg with fieldNames := assigned.1, features := features })

/-! ### What the loops do -/

theorem resolveFieldIndicesForAgg_ok
    (found : features.findSome? (missingFieldOf agg schema) = none) :
    resolveFieldIndicesForAgg agg schema features = .ok () := by
  induction features with
  | nil => rfl
  | cons feat rest ih =>
      rw [List.findSome?_cons] at found
      cases missing : missingFieldOf agg schema feat with
      | none =>
          rw [missing] at found
          rw [resolveFieldIndicesForAgg,missing]
          exact ih found
      | some message =>
          rw [missing] at found
          cases found

theorem resolveFieldIndicesForAgg_error
    (found : features.findSome? (missingFieldOf agg schema) = some message) :
    resolveFieldIndicesForAgg agg schema features = .error message := by
  induction features with
  | nil => cases found
  | cons feat rest ih =>
      rw [List.findSome?_cons] at found
      cases missing : missingFieldOf agg schema feat with
      | none =>
          rw [missing] at found
          rw [resolveFieldIndicesForAgg,missing]
          exact ih found
      | some first =>
          rw [missing] at found
          rw [resolveFieldIndicesForAgg,missing,Option.some.inj found]

theorem assignRound_eq (names : List String) (done : List (NamedAggOp Expr))
    (feat : NamedAggOp Expr) :
    assignRound (names,done) feat =
      ((assignFeature names feat).1,done ++ [(assignFeature names feat).2]) := by
  cases hasField : feat.descriptor.field with
  | none | some =>
      cases hasLat : feat.descriptor.ext.latField <;> cases hasLon : feat.descriptor.ext.lonField <;>
        simp only [assignRound,setFieldIdx,setGeoIdx,setGeo,assignFeature,assignField,
          assignCoordinates,hasField,hasLat,hasLon]

theorem foldl_assignRound (names : List String) (done features : List (NamedAggOp Expr)) :
    features.foldl assignRound (names,done) =
      ((assignFeatures names features).1,done ++ (assignFeatures names features).2) := by
  induction features generalizing names done with
  | nil => rw [assignFeatures,List.append_nil,List.foldl_nil]
  | cons feat rest ih =>
      rw [List.foldl_cons,assignRound_eq,ih]
      simp only [assignFeatures,List.append_assoc,List.singleton_append]

theorem foldl_pushUnionIndex (lookup : StrMap UInt8) (names : List String)
    (descriptor : AggOpDescriptor Expr) :
    names.foldl (pushUnionIndex lookup) descriptor =
      { descriptor with
        fieldIdxIntoEventExtracted := descriptor.fieldIdxIntoEventExtracted ++
          names.map fun name => lookup.getD name fieldIdxNone } := by
  induction names generalizing descriptor with
  | nil => rw [List.foldl_nil,List.map_nil,List.append_nil]
  | cons name rest ih =>
      rw [List.foldl_cons,ih]
      simp only [pushUnionIndex,List.append_assoc,List.singleton_append,List.map_cons,
        Std.ExtTreeMap.getD_eq_getD_getElem?]

theorem pushMapping_eq (lookup : StrMap UInt8) (names : List String) (mapping : List UInt8) :
    pushMapping lookup names mapping =
      mapping ++ names.map fun name => lookup.getD name fieldIdxNone := by
  induction names generalizing mapping with
  | nil => rw [pushMapping,List.map_nil,List.append_nil]
  | cons name rest ih =>
      rw [pushMapping,ih,List.map_cons,List.append_assoc,List.singleton_append]

theorem hasField_eq (descriptor : AggOpDescriptor Expr) :
    hasField descriptor = !(declaredFields descriptor).isEmpty := by
  cases hasField' : descriptor.field <;> cases hasLat : descriptor.ext.latField <;>
    cases hasLon : descriptor.ext.lonField <;>
    simp [hasField,declaredFields,hasField',hasLat,hasLon]

section Mapped

variable (names : List String) (lookup : StrMap UInt8) {feat : NamedAggOp Expr}
variable {ext : AggExtParams}

theorem repointInner_of_none
    (missing : ext.latField.bind (lookup[·]?) = none ∨ ext.lonField.bind (lookup[·]?) = none) :
    repointInner lookup ext = ext := by
  unfold repointInner
  rcases missing with noLat | noLon
  · rw [noLat]
  · rw [noLon]
    cases ext.latField.bind (lookup[·]?) <;> rfl

theorem repointInner_of_some {lat lon : UInt8} (hasLat : ext.latField.bind (lookup[·]?) = some lat)
    (hasLon : ext.lonField.bind (lookup[·]?) = some lon) :
    repointInner lookup ext = { ext with latIdx := lat, lonIdx := lon } := by
  unfold repointInner
  rw [hasLat,hasLon]

theorem repointGeo_eq (descriptor : AggOpDescriptor Expr) :
    repointGeo lookup descriptor =
      { descriptor with ext := repointInner lookup descriptor.ext } := by
  unfold repointGeo
  cases hasLat : descriptor.ext.latField with
  | none =>
      rw [repointInner_of_none lookup (.inl (by rw [hasLat,Option.bind_none]))]
  | some lat =>
      cases hasLon : descriptor.ext.lonField with
      | none =>
          rw [repointInner_of_none lookup (.inr (by rw [hasLon,Option.bind_none]))]
      | some lon =>
          dsimp only
          cases latFound : lookup[lat]? with
          | none =>
              rw [repointInner_of_none lookup (.inl (by rw [hasLat,Option.bind_some,latFound]))]
          | some latIdx =>
              cases lonFound : lookup[lon]? with
              | none =>
                  rw [repointInner_of_none lookup
                    (.inr (by rw [hasLon,Option.bind_some,lonFound]))]
              | some lonIdx =>
                  have latIs : descriptor.ext.latField.bind (lookup[·]?) = some latIdx := by
                    rw [hasLat,Option.bind_some,latFound]
                  have lonIs : descriptor.ext.lonField.bind (lookup[·]?) = some lonIdx := by
                    rw [hasLon,Option.bind_some,lonFound]
                  rw [repointInner_of_some lookup latIs lonIs]
                  rfl

theorem mapFeature_eq (someFields : (declaredFields feat.descriptor).isEmpty = false) :
    mapFeature names lookup feat =
      { feat with
        descriptor :=
          { feat.descriptor with
            fieldIdxIntoEventExtracted := names.map fun name => lookup.getD name fieldIdxNone
            ext := repointInner lookup feat.descriptor.ext } } := by
  rw [mapFeature,someFields,if_neg Bool.false_ne_true]
  unfold repointInner
  dsimp only
  cases feat.descriptor.ext.latField.bind (lookup[·]?) <;>
    cases feat.descriptor.ext.lonField.bind (lookup[·]?) <;> rfl

theorem mapRound_eq (cleared : Cleared feat.descriptor) :
    mapRound names lookup feat = mapFeature names lookup feat := by
  rw [mapRound,hasField_eq,Bool.not_not]
  cases isEmpty : (declaredFields feat.descriptor).isEmpty with
  | true => rw [if_pos rfl,mapFeature,isEmpty,if_pos rfl]
  | false =>
      rw [if_neg Bool.false_ne_true,mapFeature_eq names lookup isEmpty,foldl_pushUnionIndex,
        cleared.extracted,List.nil_append,repointGeo_eq]

theorem mapFeaturesInner_eq {features : List (NamedAggOp Expr)}
    (cleared : ∀ feat ∈ features, Cleared feat.descriptor) :
    mapFeaturesInner names lookup features = features.map (mapFeature names lookup) := by
  induction features with
  | nil => rfl
  | cons feat rest ih =>
      have here := (cleared feat List.mem_cons_self).extracted
      rw [mapFeaturesInner,List.map_cons,
        ih fun later member => cleared later (List.mem_cons_of_mem _ member)]
      rw [pushMapping_eq,here,List.nil_append]
      cases isEmpty : (declaredFields feat.descriptor).isEmpty with
      | true => rw [if_pos rfl,mapFeature,isEmpty,if_pos rfl]
      | false => rw [if_neg Bool.false_ne_true,mapFeature_eq names lookup isEmpty]

end Mapped

/-- The result of a resolver and what it leaves behind the reference. -/
def inPlace (agg : AggregationDescriptor Expr) :
    Except String (AggregationDescriptor Expr) → Except String Unit × AggregationDescriptor Expr
  | .ok resolved => (.ok (),resolved)
  | .error message => (.error message,agg)

section Resolvers

variable (agg : AggregationDescriptor Expr) (schema : Schema) (sourceUnion : List String)

theorem resolveFieldIndicesForAggMut_eq :
    resolveFieldIndicesForAggMut agg schema sourceUnion =
      inPlace agg (resolveFieldIndices agg schema sourceUnion) := by
  unfold resolveFieldIndicesForAggMut resolveFieldIndices
  cases found : missingField agg schema with
  | some message => rw [resolveFieldIndicesForAgg_error found,inPlace]
  | none =>
      have mapped : (assignFeatures [] agg.features).2.map
          (mapRound (assignFeatures [] agg.features).1 (unionLookup sourceUnion)) =
            (assignFeatures [] agg.features).2.map
              (mapFeature (assignFeatures [] agg.features).1 (unionLookup sourceUnion)) :=
        List.map_congr_left fun feat member =>
          mapRound_eq _ _ (assignFeatures_cleared [] agg.features member)
      rw [resolveFieldIndicesForAgg_ok found,foldl_assignRound,List.nil_append]
      dsimp only [inPlace]
      rw [mapped]
      split <;> rfl

theorem resolveFieldIndicesForAggMutInner_eq :
    resolveFieldIndicesForAggMutInner agg schema sourceUnion =
      inPlace agg (resolveFieldIndices agg schema sourceUnion) := by
  unfold resolveFieldIndicesForAggMutInner resolveFieldIndices
  cases missingField agg schema with
  | some message => rfl
  | none =>
      dsimp only [inPlace]
      rw [mapFeaturesInner_eq _ _ fun feat => assignFeatures_cleared [] agg.features]

theorem resolveFieldIndicesForAggMutInner_snd :
    (resolveFieldIndicesForAggMutInner agg schema sourceUnion).2 =
      resolveOrKeep agg schema sourceUnion := by
  rw [resolveFieldIndicesForAggMutInner_eq,resolveOrKeep]
  cases resolveFieldIndices agg schema sourceUnion <;> rfl

end Resolvers

theorem assignFeatures_of_declared {names : List String} {first second : List (NamedAggOp Expr)}
    (same : first.map declaredFeature = second.map declaredFeature) :
    assignFeatures names first = assignFeatures names second := by
  have throughDeclared : ∀ (names : List String) (features : List (NamedAggOp Expr)),
      assignFeatures names features = assignFeatures names (features.map declaredFeature) := by
    intro names features
    induction features generalizing names with
    | nil => rfl
    | cons feat rest ih =>
        rw [List.map_cons,assignFeatures,assignFeatures,ih]
        rfl
  rw [throughDeclared,same,← throughDeclared]

theorem resolveFieldIndices_of_same {other : AggregationDescriptor Expr} (same : SameAgg agg other)
    (schema : Schema) (sourceUnion : List String) :
    resolveFieldIndices other schema sourceUnion = resolveFieldIndices agg schema sourceUnion := by
  have sameFeatures : assignFeatures [] other.features = assignFeatures [] agg.features :=
    assignFeatures_of_declared (congrArg AggregationDescriptor.features same.core)
  unfold resolveFieldIndices
  rw [missingField_eq_of_core same.core]
  cases missingField agg schema with
  | some message => rfl
  | none =>
      dsimp only
      rw [sameFeatures,same.nodeName,same.sourceNodeName,same.groupKeys,same.aggId,
        same.clusterId]

def resolveAgain (agg : AggregationDescriptor Expr) (inputs : Schema × List String) :
    AggregationDescriptor Expr :=
  (resolveFieldIndicesForAggMutInner agg inputs.1 inputs.2).2

theorem resolveAgain_same (agg : AggregationDescriptor Expr) (inputs : Schema × List String) :
    SameAgg agg (resolveAgain agg inputs) := by
  rw [resolveAgain,resolveFieldIndicesForAggMutInner_snd]
  exact resolveOrKeep_same agg inputs.1 inputs.2

theorem foldl_resolveAgain_same (agg : AggregationDescriptor Expr)
    (history : List (Schema × List String)) : SameAgg agg (history.foldl resolveAgain agg) := by
  induction history generalizing agg with
  | nil => exact SameAgg.rfl' agg
  | cons inputs later ih => exact (resolveAgain_same agg inputs).trans (ih _)

/-- Whatever the aggregation was resolved against before, the positions are those of the last
resolution. -/
theorem resolve_after (nothingMissing : missingField agg schema = none)
    (history : List (Schema × List String)) (sourceUnion : List String) :
    resolveFieldIndicesForAggMutInner (history.foldl resolveAgain agg) schema sourceUnion =
      resolveFieldIndicesForAggMutInner agg schema sourceUnion := by
  have same := foldl_resolveAgain_same agg history
  rw [resolveFieldIndicesForAggMutInner_eq,resolveFieldIndicesForAggMutInner_eq,
    resolveFieldIndices_of_same same,resolveFieldIndices,nothingMissing]
  rfl

theorem resolve_missing (missing : missingField agg schema = some message)
    (history : List (Schema × List String)) (sourceUnion : List String) :
    resolveFieldIndicesForAggMutInner (history.foldl resolveAgain agg) schema sourceUnion =
      (.error message,history.foldl resolveAgain agg) := by
  have same := foldl_resolveAgain_same agg history
  rw [resolveFieldIndicesForAggMutInner,missingField_eq_of_core same.core,missing]

theorem resolveInner_again (agg : AggregationDescriptor Expr) (schema : Schema)
    (sourceUnion : List String) :
    resolveFieldIndicesForAggMutInner
        (resolveFieldIndicesForAggMutInner agg schema sourceUnion).2 schema sourceUnion =
      resolveFieldIndicesForAggMutInner agg schema sourceUnion := by
  cases found : missingField agg schema with
  | none => exact resolve_after found [(schema,sourceUnion)] sourceUnion
  | some message =>
      have unchanged := resolve_missing found [] sourceUnion
      rw [List.foldl_nil] at unchanged
      rw [unchanged,unchanged]

/-- The two resolvers do the same, and a second resolution changes nothing. -/
theorem fieldResolvers_agree (agg : AggregationDescriptor Expr) (schema : Schema)
    (sourceUnion : List String) :
    resolveFieldIndicesForAggMut agg schema sourceUnion =
      resolveFieldIndicesForAggMutInner agg schema sourceUnion ∧
    resolveFieldIndicesForAggMut (resolveFieldIndicesForAggMut agg schema sourceUnion).2 schema
        sourceUnion = resolveFieldIndicesForAggMut agg schema sourceUnion ∧
    resolveFieldIndicesForAggMutInner
        (resolveFieldIndicesForAggMutInner agg schema sourceUnion).2 schema sourceUnion =
      resolveFieldIndicesForAggMutInner agg schema sourceUnion := by
  have agree : ∀ agg : AggregationDescriptor Expr,
      resolveFieldIndicesForAggMut agg schema sourceUnion =
        resolveFieldIndicesForAggMutInner agg schema sourceUnion := by
    intro agg
    rw [resolveFieldIndicesForAggMut_eq,resolveFieldIndicesForAggMutInner_eq]
  have again := resolveInner_again agg schema sourceUnion
  constructor
  · exact agree agg
  · rw [agree,agree]
    exact ⟨again,again⟩

end Beava.Registry
