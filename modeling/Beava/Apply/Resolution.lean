/-
What the resolved positions of a feature read.

A feature whose field was resolved takes it from the pushed row, through its own
list of names and the list of extracted fields of the source.  A feature that
was not resolved takes everything from the row after the chain.  Both are the
same function, `readInput`, of the two rows.
-/

import Beava.Apply.Loop
import Beava.Lib.KeyMap
import Mathlib.Data.List.Perm.Subperm

namespace Beava.Apply

open Beava.Core Beava.Registry

variable {Expr : Type} (env : Env Expr)
variable {descriptor : AggOpDescriptor Expr} {names union : List String} {name : String}
variable {position : Nat} {schema : Schema}
variable {more : List String}

/-- The coordinates without positions: both from the pushed row, or both from
the row after the chain. -/
def readCoordinates (resolved : Bool) (descriptor : AggOpDescriptor Expr) (row aggRow : Row) :
    Option Value × Option Value :=
  let source :=
    if resolved && descriptor.ext.latField.isSome && descriptor.ext.lonField.isSome then row
    else aggRow
  (source.get (latName descriptor),source.get (lonName descriptor))

/-- The input of a feature without positions; `resolved` is whether its field
and its coordinates are taken from the pushed row. -/
def readInput (resolved : Bool) (descriptor : AggOpDescriptor Expr) (row aggRow : Row)
    (nowMs : Int64) : OpInput :=
  let access := fieldAccess descriptor.kind
  { value := fieldValue access (fieldByName descriptor (if resolved then row else aggRow))
      (fieldByName descriptor aggRow)
    lat := if access = .geo then (readCoordinates resolved descriptor row aggRow).1 else none
    lon := if access = .geo then (readCoordinates resolved descriptor row aggRow).2 else none
    nowMs := nowMs
    whereMatched := whereMatched env descriptor aggRow }

theorem readInput_declared (resolved : Bool) (descriptor : AggOpDescriptor Expr)
    (row aggRow : Row) (nowMs : Int64) :
    readInput env resolved (declared descriptor) row aggRow nowMs =
      readInput env resolved descriptor row aggRow nowMs :=
  rfl

theorem declared_idem (descriptor : AggOpDescriptor Expr) :
    declared (declared descriptor) = declared descriptor :=
  rfl

/-- No position of the descriptor is set. -/
def Unresolved (descriptor : AggOpDescriptor Expr) : Prop :=
  descriptor.fieldIdx = fieldIdxNone ∧ descriptor.ext.latIdx = fieldIdxNone

theorem Unresolved.featureInput_eq (unresolved : Unresolved descriptor)
    (extracted : ExtractedFields) (row aggRow : Row) (nowMs : Int64) :
    featureInput env descriptor extracted aggRow nowMs =
      readInput env false descriptor row aggRow nowMs := by
  simp only [featureInput,readInput,readCoordinates,preVal,coordinates,if_pos unresolved.1,
    if_pos unresolved.2,Bool.false_and,Bool.false_eq_true,if_false]

theorem positionOrPush_prefix (names : List String) (name : String) :
    names <+: (positionOrPush names name).1 := by
  unfold positionOrPush
  split
  · exact List.prefix_rfl
  · exact List.prefix_append names [name]

theorem positionOrPush_nodup (distinct : names.Nodup) (name : String) :
    (positionOrPush names name).1.Nodup := by
  unfold positionOrPush
  split
  · exact distinct
  · rename_i absent
    show (names ++ [name]).Nodup
    rw [← List.concat_eq_append]
    exact distinct.concat (List.idxOf?_eq_none_iff.mp absent)

theorem mem_positionOrPush {other : String} (member : other ∈ (positionOrPush names name).1) :
    other ∈ names ∨ other = name := by
  unfold positionOrPush at member
  split at member
  · exact .inl member
  · simpa using member

theorem positionOrPush_getElem? (names : List String) (name : String) :
    (positionOrPush names name).1[(positionOrPush names name).2]? = some name := by
  unfold positionOrPush
  split
  · rename_i position found
    obtain ⟨inBounds,atPosition,-⟩ := List.idxOf?_eq_some_iff.mp found
    rw [List.getElem?_eq_getElem inBounds,atPosition]
  · simp

theorem getElem?_of_prefix (longer : names <+: more) (atPosition : names[position]? = some name) :
    more[position]? = some name := by
  obtain ⟨rest,rfl⟩ := longer
  rw [List.getElem?_append_left (List.getElem?_eq_some_iff.mp atPosition).1,atPosition]

/-! ### The first pass -/

structure Assigned (names : List String) (descriptor : AggOpDescriptor Expr) : Prop where
  field : ∀ name, descriptor.field = some name →
    ∃ position, descriptor.fieldIdx = UInt8.ofNat position ∧ names[position]? = some name
  noField : descriptor.field = none → descriptor.fieldIdx = fieldIdxNone
  noCoordinates : descriptor.ext.latField = none ∨ descriptor.ext.lonField = none →
    descriptor.ext.latIdx = fieldIdxNone

theorem Assigned.mono (assigned : Assigned names descriptor) (longer : names <+: more) :
    Assigned more descriptor where
  field name hasField := by
    obtain ⟨position,idxEq,atPosition⟩ := assigned.field name hasField
    exact ⟨position,idxEq, getElem?_of_prefix longer atPosition⟩
  noField := assigned.noField
  noCoordinates := assigned.noCoordinates

/-- A list of names that grew by some of the given names. -/
structure Grown (names : List String) (added : List String) (after : List String) : Prop where
  longer : names <+: after
  nodup : names.Nodup → after.Nodup
  bounded : ∀ name ∈ after, name ∈ names ∨ name ∈ added

theorem Grown.trans {first second added : List String} (before : Grown names added first)
    (after : Grown first more second) :
    Grown names (added ++ more) second where
  longer := before.longer.trans after.longer
  nodup distinct := after.nodup (before.nodup distinct)
  bounded name member := by
    rcases after.bounded name member with inFirst | inMore
    · rcases before.bounded name inFirst with inNames | inAdded
      · exact .inl inNames
      · exact .inr (List.mem_append_left more inAdded)
    · exact .inr (List.mem_append_right added inMore)

theorem grown_rfl (names added : List String) : Grown names added names :=
  ⟨List.prefix_rfl,id,fun _ member => .inl member⟩

theorem positionOrPush_grown (names : List String) (name : String) :
    Grown names [name] (positionOrPush names name).1 where
  longer := positionOrPush_prefix names name
  nodup distinct := positionOrPush_nodup distinct name
  bounded other member := by
    rcases mem_positionOrPush member with inNames | isName
    · exact .inl inNames
    · exact .inr (List.mem_singleton.mpr isName)

theorem assignField_grown (names : List String) (field : Option String) :
    Grown names field.toList (assignField names field).1 := by
  cases field with
  | none => exact grown_rfl names []
  | some name => exact positionOrPush_grown names name

theorem assignCoordinates_grown (names : List String) (lat lon : Option String) :
    Grown names (lat.toList ++ lon.toList) (assignCoordinates names lat lon).1 := by
  cases lat with
  | none => exact grown_rfl names _
  | some latName =>
      cases lon with
      | none => exact grown_rfl names _
      | some lonName =>
          exact (positionOrPush_grown names latName).trans (positionOrPush_grown _ lonName)

theorem assignFeature_grown (names : List String) (feature : NamedAggOp Expr) :
    Grown names (declaredFields feature.descriptor) (assignFeature names feature).1 := by
  have both := (assignField_grown names feature.descriptor.field).trans
    (assignCoordinates_grown _ feature.descriptor.ext.latField feature.descriptor.ext.lonField)
  rw [← List.append_assoc] at both
  exact both

theorem assignFeature_assigned (names : List String) (feature : NamedAggOp Expr) :
    Assigned (assignFeature names feature).1 (assignFeature names feature).2.descriptor where
  field name hasField := by
    have fieldEq : feature.descriptor.field = some name := hasField
    have longer := (assignCoordinates_grown (assignField names feature.descriptor.field).1
      feature.descriptor.ext.latField feature.descriptor.ext.lonField).longer
    refine ⟨(positionOrPush names name).2,?_,?_⟩
    · simp only [assignFeature,fieldEq,assignField]
    · refine getElem?_of_prefix longer ?_
      simp only [fieldEq,assignField]
      exact positionOrPush_getElem? names name
  noField hasNone := by
    have fieldEq : feature.descriptor.field = none := hasNone
    simp only [assignFeature,fieldEq,assignField]
  noCoordinates hasNone := by
    have geoEq : feature.descriptor.ext.latField = none ∨ feature.descriptor.ext.lonField = none :=
      hasNone
    rcases geoEq with noLat | noLon
    · simp only [assignFeature,noLat,assignCoordinates]
    · cases hasLat : feature.descriptor.ext.latField <;>
        simp only [assignFeature,hasLat,noLon,assignCoordinates]

theorem assignFeatures_grown (names : List String) (features : List (NamedAggOp Expr)) :
    Grown names (features.flatMap fun feature => declaredFields feature.descriptor)
      (assignFeatures names features).1 := by
  induction features generalizing names with
  | nil => exact grown_rfl names []
  | cons feature rest ih =>
      rw [List.flatMap_cons]
      exact (assignFeature_grown names feature).trans (ih (assignFeature names feature).1)

theorem assignFeatures_assigned (names : List String) (features : List (NamedAggOp Expr))
    {feature : NamedAggOp Expr} (member : feature ∈ (assignFeatures names features).2) :
    Assigned (assignFeatures names features).1 feature.descriptor := by
  induction features generalizing names with
  | nil => cases member
  | cons head rest ih =>
      rcases List.mem_cons.mp member with rfl | inRest
      · have longer := (assignFeatures_grown (assignFeature names head).1 rest).longer
        exact (assignFeature_assigned names head).mono longer
      · exact ih (assignFeature names head).1 inRest

theorem assignFeatures_declared (names : List String) (features : List (NamedAggOp Expr)) :
    (assignFeatures names features).2.map declaredFeature =
      features.map declaredFeature := by
  induction features generalizing names with
  | nil => rfl
  | cons head rest ih =>
      have tailEq := ih (assignFeature names head).1
      simp only [assignFeatures,List.map_cons,tailEq]
      rfl

/-! ### The second pass -/

theorem unionLookup_eq_insertAll (union : List String) :
    unionLookup union =
      KeyMap.insertAll ∅ (union.zipIdx.map fun entry => (entry.1,UInt8.ofNat entry.2)) := by
  rw [unionLookup,KeyMap.insertAll,List.foldl_map]

theorem unionEntries_keys (union : List String) :
    (union.zipIdx.map fun entry => (entry.1,UInt8.ofNat entry.2)).map Prod.fst = union := by
  rw [List.map_map]
  exact List.zipIdx_map_fst 0 union

theorem unionLookup_getElem? (distinct : union.Nodup) (member : name ∈ union) :
    ∃ position, union[position]? = some name ∧
      (unionLookup union)[name]? = some (UInt8.ofNat position) := by
  obtain ⟨position,atPosition⟩ := List.getElem?_of_mem member
  refine ⟨position,atPosition,?_⟩
  rw [unionLookup_eq_insertAll]
  apply KeyMap.insertAll_of_mem
  · rw [unionEntries_keys]
    exact distinct
  · exact List.mem_map.mpr ⟨(name,position),List.mk_mem_zipIdx_iff_getElem?.mpr atPosition,rfl⟩

theorem unionLookup_of_notMem (absent : name ∉ union) : (unionLookup union)[name]? = none := by
  rw [unionLookup_eq_insertAll,KeyMap.insertAll_of_notMem]
  · simp
  · rw [unionEntries_keys]
    exact absent

theorem ofNat_ne_none (inByte : position < 255) : UInt8.ofNat position ≠ fieldIdxNone := by
  intro same
  have valueEq := congrArg UInt8.toNat same
  rw [UInt8.toNat_ofNat'] at valueEq
  simp only [fieldIdxNone,UInt8.reduceToNat] at valueEq
  omega

theorem extractedAt_ofNat (inByte : position < 255) (atPosition : union[position]? = some name)
    (row : Row) : extractedAt (union.map row.get) (UInt8.ofNat position) = row.get name := by
  have valueEq : (UInt8.ofNat position).toNat = position := by
    rw [UInt8.toNat_ofNat']
    omega
  rw [extractedAt,valueEq,List.getElem?_map,atPosition]
  rfl

/-- The source's list of fields has room for every name of the aggregation. -/
structure Covers (union : List String) (fields : List String) : Prop where
  nodup : union.Nodup
  inByte : union.length ≤ 255
  subset : ∀ name ∈ fields, name ∈ union

theorem Covers.lookup {fields : List String} (covers : Covers union fields)
    (member : name ∈ fields) :
    ∃ position, position < 255 ∧ union[position]? = some name ∧
      (unionLookup union)[name]? = some (UInt8.ofNat position) := by
  obtain ⟨position,atPosition,found⟩ := unionLookup_getElem? covers.nodup (covers.subset name member)
  have inBounds := (List.getElem?_eq_some_iff.mp atPosition).1
  exact ⟨position,Nat.lt_of_lt_of_le inBounds covers.inByte,atPosition,found⟩

theorem mapFeature_declared (names : List String) (lookup : StrMap UInt8)
    (feature : NamedAggOp Expr) :
    declaredFeature (mapFeature names lookup feature) = declaredFeature feature := by
  unfold mapFeature
  split <;> rfl

theorem mem_declaredFields_field (hasField : descriptor.field = some name) :
    name ∈ declaredFields descriptor := by
  simp [declaredFields,hasField]

theorem mem_declaredFields_lat (hasLat : descriptor.ext.latField = some name) :
    name ∈ declaredFields descriptor := by
  simp [declaredFields,hasLat]

theorem mem_declaredFields_lon (hasLon : descriptor.ext.lonField = some name) :
    name ∈ declaredFields descriptor := by
  simp [declaredFields,hasLon]

section Mapped

variable {union names : List String} {feature : NamedAggOp Expr}

theorem preVal_mapFeature (covers : Covers union (declaredFields feature.descriptor))
    (assigned : Assigned names feature.descriptor) (namesInByte : names.length ≤ 255)
    (row aggRow : Row) :
    preVal (mapFeature names (unionLookup union) feature).descriptor (union.map row.get) aggRow =
      fieldByName feature.descriptor row := by
  cases hasField : feature.descriptor.field with
  | none =>
      have idxNone := assigned.noField hasField
      unfold mapFeature
      split <;> simp [preVal,fieldByName,idxNone,hasField]
  | some name =>
      obtain ⟨position,idxEq,atPosition⟩ := assigned.field name hasField
      have inBounds := (List.getElem?_eq_some_iff.mp atPosition).1
      have positionInByte : position < 255 := by omega
      have positionEq : (UInt8.ofNat position).toNat = position := by
        rw [UInt8.toNat_ofNat']
        omega
      obtain ⟨target,targetInByte,atTarget,found⟩ :=
        covers.lookup (mem_declaredFields_field hasField)
      have notEmpty : (declaredFields feature.descriptor).isEmpty = false := by
        simp [declaredFields,hasField]
      have mappedAt : (names.map fun name => (unionLookup union).getD name fieldIdxNone)[position]? =
          some (UInt8.ofNat target) := by
        rw [List.getElem?_map,atPosition,Option.map_some,Std.ExtTreeMap.getD_eq_getD_getElem?,
          found]
        rfl
      simp only [mapFeature,notEmpty,Bool.false_eq_true,if_false,preVal,idxEq,
        ofNat_ne_none positionInByte,positionEq,mappedAt,ofNat_ne_none targetInByte,
        extractedAt_ofNat targetInByte atTarget,fieldByName,hasField,Option.bind_some]

/-- The coordinates of a mapped feature are those of the pushed row when both
are declared. -/
theorem coordinates_mapFeature (covers : Covers union (declaredFields feature.descriptor))
    (assigned : Assigned names feature.descriptor) (row aggRow : Row) :
    coordinates (mapFeature names (unionLookup union) feature).descriptor (union.map row.get)
        aggRow =
      readCoordinates true feature.descriptor row aggRow := by
  cases hasLat : feature.descriptor.ext.latField with
  | none =>
      have idxNone := assigned.noCoordinates (.inl hasLat)
      unfold mapFeature
      split <;> simp [coordinates,readCoordinates,idxNone,hasLat,latName,lonName]
  | some lat =>
      cases hasLon : feature.descriptor.ext.lonField with
      | none =>
          have idxNone := assigned.noCoordinates (.inr hasLon)
          unfold mapFeature
          split
          · simp [coordinates,readCoordinates,idxNone,hasLon,latName,lonName]
          · cases (unionLookup union)[lat]? <;>
              simp [coordinates,readCoordinates,idxNone,hasLat,hasLon,latName,lonName]
      | some lon =>
          obtain ⟨latAt,latInByte,atLat,latFound⟩ :=
            covers.lookup (mem_declaredFields_lat hasLat)
          obtain ⟨lonAt,lonInByte,atLon,lonFound⟩ :=
            covers.lookup (mem_declaredFields_lon hasLon)
          have notEmpty : (declaredFields feature.descriptor).isEmpty = false := by
            simp [declaredFields,hasLat]
          simp only [mapFeature,notEmpty,Bool.false_eq_true,if_false,coordinates,hasLat,hasLon,
            Option.bind_some,latFound,lonFound,ofNat_ne_none latInByte,
            extractedAt_ofNat latInByte atLat,extractedAt_ofNat lonInByte atLon,readCoordinates,
            latName,lonName,Option.isSome_some,Bool.and_self,if_true,Option.getD_some]

theorem featureInput_mapFeature (covers : Covers union (declaredFields feature.descriptor))
    (assigned : Assigned names feature.descriptor) (namesInByte : names.length ≤ 255)
    (row aggRow : Row) (nowMs : Int64) :
    featureInput env (mapFeature names (unionLookup union) feature).descriptor
        (union.map row.get) aggRow nowMs =
      readInput env true feature.descriptor row aggRow nowMs := by
  have kindEq : (mapFeature names (unionLookup union) feature).descriptor.kind =
      feature.descriptor.kind := by
    unfold mapFeature
    split <;> rfl
  have fieldEq : (mapFeature names (unionLookup union) feature).descriptor.field =
      feature.descriptor.field := by
    unfold mapFeature
    split <;> rfl
  have whereEq : (mapFeature names (unionLookup union) feature).descriptor.whereExpr =
      feature.descriptor.whereExpr := by
    unfold mapFeature
    split <;> rfl
  simp only [featureInput,readInput,preVal_mapFeature covers assigned namesInByte,
    coordinates_mapFeature covers assigned,kindEq,fieldByName,fieldEq,whereMatched,whereEq,
    if_true]

end Mapped

/-- A resolved aggregation differs from the declared one in its positions
only. -/
theorem resolveFieldIndices_ok {agg resolved : AggregationDescriptor Expr}
    (succeeded : resolveFieldIndices agg schema union = .ok resolved) :
    missingField agg schema = none ∧
      ∃ names features, resolved = { agg with fieldNames := names, features := features } ∧
        features.map declaredFeature = agg.features.map declaredFeature := by
  unfold resolveFieldIndices at succeeded
  split at succeeded
  · cases succeeded
  · rename_i nothingMissing
    refine ⟨nothingMissing,_,_,(Except.ok.inj succeeded).symm,?_⟩
    split
    · exact assignFeatures_declared [] agg.features
    · rw [List.map_map]
      have pointwise : ∀ feature ∈ (assignFeatures [] agg.features).2,
          (declaredFeature ∘ mapFeature (assignFeatures [] agg.features).1 (unionLookup union))
            feature = declaredFeature feature :=
        fun feature _ => mapFeature_declared _ _ feature
      rw [List.map_congr_left pointwise]
      exact assignFeatures_declared [] agg.features

theorem readInput_congr {first second : AggOpDescriptor Expr}
    (same : declared first = declared second) (resolved : Bool) (row aggRow : Row)
    (nowMs : Int64) :
    readInput env resolved first row aggRow nowMs =
      readInput env resolved second row aggRow nowMs := by
  rw [← readInput_declared,same,readInput_declared]

/-- With no field declared it makes no difference where fields are taken
from. -/
theorem readInput_of_noFields (noFields : declaredFields descriptor = []) (resolved other : Bool)
    (row aggRow : Row) (nowMs : Int64) :
    readInput env resolved descriptor row aggRow nowMs =
      readInput env other descriptor row aggRow nowMs := by
  simp only [declaredFields,List.append_eq_nil_iff,Option.toList_eq_nil_iff] at noFields
  obtain ⟨⟨noField,noLat⟩,-⟩ := noFields
  simp [readInput,readCoordinates,fieldByName,noField,noLat]

def aggFields (agg : AggregationDescriptor Expr) : List String :=
  agg.features.flatMap fun feature => declaredFields feature.descriptor

theorem aggFields_eq_of_declared {first second : AggregationDescriptor Expr}
    (same : first.features.map declaredFeature = second.features.map declaredFeature) :
    aggFields first = aggFields second := by
  have throughDeclared : ∀ agg : AggregationDescriptor Expr,
      aggFields agg = (agg.features.map declaredFeature).flatMap fun feature =>
        declaredFields feature.descriptor := by
    intro agg
    rw [List.flatMap_map]
    rfl
  rw [throughDeclared,same,← throughDeclared]

theorem Covers.feature {features : List (NamedAggOp Expr)}
    (covers : Covers union (features.flatMap fun feature => declaredFields feature.descriptor))
    {feature : NamedAggOp Expr} (member : feature ∈ features) :
    Covers union (declaredFields feature.descriptor) where
  nodup := covers.nodup
  inByte := covers.inByte
  subset name inFeature :=
    covers.subset name (List.mem_flatMap.mpr ⟨feature,member,inFeature⟩)

theorem Grown.length_le {added after : List String} (grown : Grown names added after)
    (distinct : names.Nodup) (namesInside : ∀ name ∈ names, name ∈ union)
    (addedInside : ∀ name ∈ added, name ∈ union) : after.length ≤ union.length := by
  have subset : after ⊆ union := fun name member =>
    (grown.bounded name member).elim (namesInside name) (addedInside name)
  exact ((grown.nodup distinct).subperm subset).length_le

/-- A feature after both passes: it names no field, or its position was mapped
into the fields of the source. -/
theorem feature_resolved {agg resolved : AggregationDescriptor Expr}
    (succeeded : resolveFieldIndices agg schema union = .ok resolved)
    (covers : Covers union (aggFields agg)) {feature : NamedAggOp Expr}
    (member : feature ∈ resolved.features) :
    (declaredFields feature.descriptor = [] ∧ Unresolved feature.descriptor) ∨
      ∃ names before, feature = mapFeature names (unionLookup union) before ∧
        Covers union (declaredFields before.descriptor) ∧ Assigned names before.descriptor ∧
          names.length ≤ 255 := by
  have assignedCovers : Covers union
      ((assignFeatures [] agg.features).2.flatMap fun feature =>
        declaredFields feature.descriptor) := by
    have sameFields :
        aggFields { agg with features := (assignFeatures [] agg.features).2 } = aggFields agg :=
      aggFields_eq_of_declared (assignFeatures_declared [] agg.features)
    rw [← sameFields] at covers
    exact covers
  unfold resolveFieldIndices at succeeded
  split at succeeded
  · cases succeeded
  · cases succeeded
    simp only at member
    split at member
    · rename_i noUnion
      have assigned := assignFeatures_assigned [] agg.features member
      have featureCovers := assignedCovers.feature member
      have noFields : declaredFields feature.descriptor = [] := by
        refine List.eq_nil_iff_forall_not_mem.mpr fun name inFields => ?_
        have inUnion := featureCovers.subset name inFields
        rw [List.isEmpty_iff.mp noUnion] at inUnion
        cases inUnion
      refine .inl ⟨noFields,?_⟩
      simp only [declaredFields,List.append_eq_nil_iff,Option.toList_eq_nil_iff] at noFields
      exact ⟨assigned.noField noFields.1.1,assigned.noCoordinates (.inl noFields.1.2)⟩
    · obtain ⟨before,beforeMember,rfl⟩ := List.mem_map.mp member
      have namesInByte := (assignFeatures_grown [] agg.features).length_le List.nodup_nil
        (fun _ inNil => nomatch inNil) covers.subset
      exact .inr ⟨_,before,rfl,assignedCovers.feature beforeMember,
        assignFeatures_assigned [] agg.features beforeMember,
        Nat.le_trans namesInByte covers.inByte⟩

theorem featureInput_resolved {agg resolved : AggregationDescriptor Expr}
    (succeeded : resolveFieldIndices agg schema union = .ok resolved)
    (covers : Covers union (aggFields agg)) {feature : NamedAggOp Expr}
    (member : feature ∈ resolved.features) (row aggRow : Row) (nowMs : Int64) :
    featureInput env feature.descriptor (union.map row.get) aggRow nowMs =
      readInput env true feature.descriptor row aggRow nowMs := by
  rcases feature_resolved succeeded covers member with
    ⟨noFields,unresolved⟩ | ⟨names,before,rfl,featureCovers,assigned,namesInByte⟩
  · rw [readInput_of_noFields env noFields true false]
    exact unresolved.featureInput_eq env _ row aggRow nowMs
  · rw [featureInput_mapFeature env featureCovers assigned namesInByte]
    exact readInput_congr env
      (congrArg NamedAggOp.descriptor (mapFeature_declared _ _ before)).symm true row aggRow nowMs

end Beava.Apply
