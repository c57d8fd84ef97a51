/-
The positions that resolution writes.

A position is kept in a byte, and 255 stands for no position.  With at most 256
names in each list every position that is written is unset or the place of its
field: the field that stands at place 255 is taken for unset, and the byte of a
later place is the place of another field.
-/

import Beava.Registry.Contents
import Mathlib.Data.List.Dedup

namespace Beava.Registry

open Beava.Core Beava.Apply

variable {Expr : Type}
variable {names : List String} {position : Nat} {name : String} {agg : AggregationDescriptor Expr}
variable {feature : NamedAggOp Expr} {schema : Schema}
variable {resolved : AggregationDescriptor Expr}

def IndexTrue (names : List String) (field : Option String) (index : UInt8) : Prop :=
  index = fieldIdxNone ∨ ∃ name, field = some name ∧ names.idxOf? name = some index.toNat

instance (names : List String) (field : Option String) (index : UInt8) :
    Decidable (IndexTrue names field index) :=
  match field with
  | none =>
      decidable_of_iff (index = fieldIdxNone)
        (by simp only [IndexTrue,reduceCtorEq,false_and,exists_const,or_false])
  | some name =>
      decidable_of_iff (index = fieldIdxNone ∨ names.idxOf? name = some index.toNat)
        (by simp only [IndexTrue,Option.some.injEq,exists_eq_left'])

theorem idxOf?_of_getElem? (distinct : names.Nodup) (atPosition : names[position]? = some name) :
    names.idxOf? name = some position := by
  obtain ⟨inBounds,isName⟩ := List.getElem?_eq_some_iff.mp atPosition
  refine List.idxOf?_eq_some_iff.mpr ⟨inBounds,isName,?_⟩
  intro earlier before sameName
  have samePlace := (distinct.getElem_inj_iff).mp (sameName.trans isName.symm)
  omega

theorem indexTrue_ofNat (distinct : names.Nodup) (inByte : names.length ≤ 256)
    (atPosition : names[position]? = some name) :
    IndexTrue names (some name) (UInt8.ofNat position) := by
  have inBounds := (List.getElem?_eq_some_iff.mp atPosition).1
  have positionEq : (UInt8.ofNat position).toNat = position := by
    rw [UInt8.toNat_ofNat']
    omega
  refine .inr ⟨name,rfl,?_⟩
  rw [positionEq]
  exact idxOf?_of_getElem? distinct atPosition

theorem not_indexTrue_ofNat (distinct : names.Nodup) (atPosition : names[position]? = some name)
    (beyond : 256 ≤ position) (notNone : position % 256 ≠ 255) :
    ¬ IndexTrue names (some name) (UInt8.ofNat position) := by
  have byteEq : (UInt8.ofNat position).toNat = position % 256 := UInt8.toNat_ofNat'
  rintro (isNone | ⟨other,isName,atByte⟩)
  · rw [isNone] at byteEq
    exact notNone byteEq.symm
  · cases isName
    rw [idxOf?_of_getElem? distinct atPosition,byteEq] at atByte
    have samePlace := Option.some.inj atByte
    omega

/-- Every index of the feature is unset or the place of its field: `field_idx`
in the names of the aggregation, the others in the names of the source. -/
structure IndicesTrue (names sourceNames : List String) (descriptor : AggOpDescriptor Expr) :
    Prop where
  field : IndexTrue names descriptor.field descriptor.fieldIdx
  lat : IndexTrue sourceNames descriptor.ext.latField descriptor.ext.latIdx
  lon : IndexTrue sourceNames descriptor.ext.lonField descriptor.ext.lonIdx
  extracted : ∀ (position : Nat) (index : UInt8),
    descriptor.fieldIdxIntoEventExtracted[position]? = some index →
      IndexTrue sourceNames names[position]? index

theorem indicesTrue_declared (names sourceNames : List String)
    (descriptor : AggOpDescriptor Expr) :
    IndicesTrue names sourceNames (declared descriptor) where
  field := .inl rfl
  lat := .inl rfl
  lon := .inl rfl
  extracted position index found := by
    rw [declared,List.getElem?_nil] at found
    cases found

theorem indicesTrue_of_fresh (fresh : Fresh agg) (names sourceNames : List String)
    (member : feature ∈ agg.features) : IndicesTrue names sourceNames feature.descriptor := by
  rw [← fresh] at member
  obtain ⟨before,-,rfl⟩ := List.mem_map.mp member
  exact indicesTrue_declared names sourceNames before.descriptor

/-- What the first pass leaves unset. -/
structure Cleared (descriptor : AggOpDescriptor Expr) : Prop where
  extracted : descriptor.fieldIdxIntoEventExtracted = []
  noLat : descriptor.ext.latField = none ∨ descriptor.ext.lonField = none →
    descriptor.ext.latIdx = fieldIdxNone
  noLon : descriptor.ext.latField = none ∨ descriptor.ext.lonField = none →
    descriptor.ext.lonIdx = fieldIdxNone

theorem assignCoordinates_none (names : List String) {lat lon : Option String}
    (missing : lat = none ∨ lon = none) :
    assignCoordinates names lat lon = (names,fieldIdxNone,fieldIdxNone) := by
  rcases missing with rfl | rfl
  · rfl
  · cases lat <;> rfl

theorem assignFeature_cleared (names : List String) (feature : NamedAggOp Expr) :
    Cleared (assignFeature names feature).2.descriptor where
  extracted := rfl
  noLat missing := by
    simp only [assignFeature] at missing ⊢
    rw [assignCoordinates_none _ missing]
  noLon missing := by
    simp only [assignFeature] at missing ⊢
    rw [assignCoordinates_none _ missing]

theorem assignFeatures_cleared (names : List String) (features : List (NamedAggOp Expr))
    (member : feature ∈ (assignFeatures names features).2) : Cleared feature.descriptor := by
  induction features generalizing names with
  | nil => cases member
  | cons head rest ih =>
      rcases List.mem_cons.mp member with rfl | inRest
      · exact assignFeature_cleared names head
      · exact ih (assignFeature names head).1 inRest

structure Addressable (sourceNames fields : List String) : Prop where
  nodup : sourceNames.Nodup
  inByte : sourceNames.length ≤ 256
  subset : ∀ name ∈ fields, name ∈ sourceNames

theorem Addressable.lookup {sourceNames fields : List String}
    (addressable : Addressable sourceNames fields) (member : name ∈ fields) :
    ∃ index, (unionLookup sourceNames)[name]? = some index ∧
      IndexTrue sourceNames (some name) index := by
  obtain ⟨position,atPosition,found⟩ :=
    unionLookup_getElem? addressable.nodup (addressable.subset name member)
  exact ⟨_,found,indexTrue_ofNat addressable.nodup addressable.inByte atPosition⟩

theorem indexTrue_lookup {sourceNames : List String} (distinct : sourceNames.Nodup)
    (inByte : sourceNames.length ≤ 256) (name : String) :
    IndexTrue sourceNames (some name) ((unionLookup sourceNames).getD name fieldIdxNone) := by
  rw [Std.ExtTreeMap.getD_eq_getD_getElem?]
  by_cases member : name ∈ sourceNames
  · obtain ⟨position,atPosition,found⟩ := unionLookup_getElem? distinct member
    rw [found]
    exact indexTrue_ofNat distinct inByte atPosition
  · rw [unionLookup_of_notMem member]
    exact .inl rfl

section Mapped

variable {sourceNames names : List String} {feature : NamedAggOp Expr}
  (addressable : Addressable sourceNames (declaredFields feature.descriptor))

include addressable

theorem mapFeature_coordinates (cleared : Cleared feature.descriptor) :
    IndexTrue sourceNames feature.descriptor.ext.latField
        (mapFeature names (unionLookup sourceNames) feature).descriptor.ext.latIdx ∧
      IndexTrue sourceNames feature.descriptor.ext.lonField
        (mapFeature names (unionLookup sourceNames) feature).descriptor.ext.lonIdx := by
  cases hasLat : feature.descriptor.ext.latField with
  | none =>
      have unset := And.intro (cleared.noLat (.inl hasLat)) (cleared.noLon (.inl hasLat))
      unfold mapFeature
      split
      · exact ⟨.inl unset.1,.inl unset.2⟩
      · simp only [hasLat,Option.bind_none]
        exact ⟨.inl unset.1,.inl unset.2⟩
  | some lat =>
      cases hasLon : feature.descriptor.ext.lonField with
      | none =>
          have unset := And.intro (cleared.noLat (.inr hasLon)) (cleared.noLon (.inr hasLon))
          unfold mapFeature
          split
          · exact ⟨.inl unset.1,.inl unset.2⟩
          · simp only [hasLat,hasLon,Option.bind_some,Option.bind_none]
            cases (unionLookup sourceNames)[lat]? <;> exact ⟨.inl unset.1,.inl unset.2⟩
      | some lon =>
          obtain ⟨latIndex,latFound,latTrue⟩ :=
            addressable.lookup (mem_declaredFields_lat hasLat)
          obtain ⟨lonIndex,lonFound,lonTrue⟩ :=
            addressable.lookup (mem_declaredFields_lon hasLon)
          have notEmpty : (declaredFields feature.descriptor).isEmpty = false := by
            simp [declaredFields,hasLat]
          simp only [mapFeature,notEmpty,Bool.false_eq_true,if_false,hasLat,hasLon,
            Option.bind_some,latFound,lonFound]
          exact ⟨latTrue,lonTrue⟩

theorem mapFeature_indicesTrue (distinct : names.Nodup) (inByte : names.length ≤ 256)
    (assigned : Assigned names feature.descriptor) (cleared : Cleared feature.descriptor) :
    IndicesTrue names sourceNames
      (mapFeature names (unionLookup sourceNames) feature).descriptor := by
  have fieldTrue : IndexTrue names feature.descriptor.field feature.descriptor.fieldIdx := by
    cases hasField : feature.descriptor.field with
    | none => exact .inl (assigned.noField hasField)
    | some name =>
        obtain ⟨position,indexEq,atPosition⟩ := assigned.field name hasField
        rw [indexEq]
        exact indexTrue_ofNat distinct inByte atPosition
  obtain ⟨latTrue,lonTrue⟩ := @mapFeature_coordinates _ _ names _ addressable cleared
  unfold mapFeature at latTrue lonTrue ⊢
  split at latTrue
  · rename_i noFields
    rw [if_pos noFields] at lonTrue ⊢
    refine ⟨fieldTrue,latTrue,lonTrue,?_⟩
    intro position index found
    rw [cleared.extracted,List.getElem?_nil] at found
    cases found
  · rename_i someFields
    rw [if_neg someFields] at lonTrue ⊢
    refine ⟨fieldTrue,latTrue,lonTrue,?_⟩
    intro position index found
    rw [List.getElem?_map] at found
    obtain ⟨name,atPosition,rfl⟩ := Option.map_eq_some_iff.mp found
    rw [atPosition]
    exact indexTrue_lookup addressable.nodup addressable.inByte name

end Mapped

theorem resolveFieldIndices_indicesTrue {sourceNames : List String}
    (succeeded : resolveFieldIndices agg schema sourceNames = .ok resolved)
    (addressable : Addressable sourceNames (aggFields agg)) (member : feature ∈ resolved.features) :
    IndicesTrue resolved.fieldNames sourceNames feature.descriptor := by
  have grown := assignFeatures_grown [] agg.features
  have distinct := grown.nodup List.nodup_nil
  have inByte : (assignFeatures [] agg.features).1.length ≤ 256 := by
    refine Nat.le_trans ?_ addressable.inByte
    refine grown.length_le List.nodup_nil ?_ addressable.subset
    intro name inNil
    cases inNil
  have fieldsOf : ∀ feature ∈ (assignFeatures [] agg.features).2,
      Addressable sourceNames (declaredFields feature.descriptor) := by
    intro feature member
    refine ⟨addressable.nodup,addressable.inByte,fun name inFields => ?_⟩
    have sameFields :
        aggFields { agg with features := (assignFeatures [] agg.features).2 } = aggFields agg :=
      aggFields_eq_of_declared (assignFeatures_declared [] agg.features)
    refine addressable.subset name ?_
    rw [← sameFields]
    exact List.mem_flatMap.mpr ⟨feature,member,inFields⟩
  unfold resolveFieldIndices at succeeded
  split at succeeded
  · cases succeeded
  · cases succeeded
    simp only at member
    split at member
    · rename_i noNames
      have assigned := assignFeatures_assigned [] agg.features member
      have cleared := assignFeatures_cleared [] agg.features member
      have noFields : declaredFields feature.descriptor = [] := by
        refine List.eq_nil_iff_forall_not_mem.mpr fun name inFields => ?_
        have inSource := (fieldsOf feature member).subset name inFields
        rw [List.isEmpty_iff.mp noNames] at inSource
        cases inSource
      have mapped := mapFeature_indicesTrue (fieldsOf feature member) distinct inByte assigned
        cleared
      rw [mapFeature,if_pos (List.isEmpty_iff.mpr noFields)] at mapped
      exact mapped
    · obtain ⟨before,beforeMember,rfl⟩ := List.mem_map.mp member
      exact mapFeature_indicesTrue (fieldsOf before beforeMember) distinct inByte
        (assignFeatures_assigned [] agg.features beforeMember)
        (assignFeatures_cleared [] agg.features beforeMember)

/-- The second pass leaves the names of the aggregation and every `field_idx`. -/
theorem resolveFieldIndices_assigned {sourceNames : List String}
    (succeeded : resolveFieldIndices agg schema sourceNames = .ok resolved) :
    resolved.fieldNames = (assignFeatures [] agg.features).1 ∧
      ∀ feature ∈ resolved.features, ∃ before ∈ (assignFeatures [] agg.features).2,
        before.descriptor.field = feature.descriptor.field ∧
          before.descriptor.fieldIdx = feature.descriptor.fieldIdx := by
  unfold resolveFieldIndices at succeeded
  split at succeeded
  · cases succeeded
  · cases succeeded
    refine ⟨rfl,?_⟩
    simp only
    split
    · exact fun feature member => ⟨feature,member,rfl,rfl⟩
    · intro feature member
      obtain ⟨before,inAssigned,rfl⟩ := List.mem_map.mp member
      refine ⟨before,inAssigned,?_⟩
      unfold mapFeature
      split <;> exact ⟨rfl,rfl⟩

/-- With more than 256 fields and no coordinates some `field_idx` is the place of
another field. -/
theorem resolveFieldIndices_beyond
    {sourceNames : List String}
    (succeeded : resolveFieldIndices agg schema sourceNames = .ok resolved)
    (onlyFields : ∀ feature ∈ resolved.features,
      declaredFields feature.descriptor = feature.descriptor.field.toList)
    (beyond : 256 < (aggFields resolved).dedup.length) :
    ∃ feature ∈ resolved.features,
      ¬ IndexTrue resolved.fieldNames feature.descriptor.field feature.descriptor.fieldIdx := by
  obtain ⟨namesEq,ofAssigned⟩ := resolveFieldIndices_assigned succeeded
  have grown := assignFeatures_grown [] agg.features
  rw [← namesEq] at grown
  have distinct := grown.nodup List.nodup_nil
  have sameFields : aggFields agg = aggFields resolved := by
    obtain ⟨-,names,features,rfl,same⟩ := resolveFieldIndices_ok succeeded
    exact (aggFields_eq_of_declared same).symm
  have placed : ∀ name ∈ aggFields resolved, ∃ feature ∈ resolved.features, ∃ position,
      feature.descriptor.field = some name ∧
        feature.descriptor.fieldIdx = UInt8.ofNat position ∧
          resolved.fieldNames[position]? = some name := by
    intro name inFields
    obtain ⟨feature,member,inFeature⟩ := List.mem_flatMap.mp inFields
    rw [onlyFields feature member] at inFeature
    have hasField := Option.mem_toList.mp inFeature
    obtain ⟨before,inAssigned,fieldEq,indexEq⟩ := ofAssigned feature member
    obtain ⟨position,isPosition,atPosition⟩ :=
      (assignFeatures_assigned [] agg.features inAssigned).field name (fieldEq.trans hasField)
    rw [← namesEq] at atPosition
    exact ⟨feature,member,position,hasField,indexEq ▸ isPosition,atPosition⟩
  have wide : 256 < resolved.fieldNames.length := by
    refine Nat.lt_of_lt_of_le beyond
      ((List.nodup_dedup (aggFields resolved)).subperm ?_).length_le
    intro name member
    obtain ⟨-,-,position,-,-,atPosition⟩ := placed name (List.mem_dedup.mp member)
    exact List.mem_of_getElem? atPosition
  obtain ⟨name,atWrap⟩ : ∃ name, resolved.fieldNames[256]? = some name :=
    ⟨_,List.getElem?_eq_getElem wide⟩
  have isField := (grown.bounded name (List.mem_of_getElem? atWrap)).resolve_left
    List.not_mem_nil
  obtain ⟨feature,member,position,hasField,indexEq,atPosition⟩ :=
    placed name (sameFields ▸ isField)
  have samePlace : position = 256 := by
    have first := idxOf?_of_getElem? distinct atPosition
    rw [idxOf?_of_getElem? distinct atWrap] at first
    exact (Option.some.inj first).symm
  refine ⟨feature,member,?_⟩
  rw [hasField,indexEq,samePlace]
  exact not_indexTrue_ofNat distinct atWrap (Nat.le_refl 256) (by decide)

/-- An aggregation that does not find its fields in an event is as declared. -/
def FreshUnlessResolved (registry : RegistryInner Expr) : Prop :=
  ∀ (name : String) (agg : AggregationDescriptor Expr),
    registry.compiledAggregations[name]? = some agg → resolvedIn registry agg = false → Fresh agg

theorem freshUnlessResolved_empty : FreshUnlessResolved (.empty : RegistryInner Expr) := by
  intro name agg compiled
  simp [RegistryInner.empty] at compiled

section Fresh

variable {env : Env Expr} {registry : RegistryInner Expr}
variable {batch : Batch Expr}

theorem numberAggregation_fresh {compiled : AggregationDescriptor Expr} (fresh : Fresh compiled)
    (notResolved : resolvedIn registry (numberAggregation env registry compiled) = false) :
    Fresh (numberAggregation env registry compiled) := by
  rw [Fresh,numberAggregation_features env notResolved]
  exact fresh

theorem Installed.notResolved {newVersion : Nat} {after : RegistryInner Expr}
    (installed : Installed newVersion registry after) {agg : AggregationDescriptor Expr}
    (notResolved : resolvedIn after agg = false) : resolvedIn registry agg = false := by
  cases source : registry.events[agg.sourceNodeName]? with
  | none => rw [resolvedIn,source]
  | some event =>
      rw [← notResolved]
      exact resolvedIn_congr rfl (by rw [source,installed.events source])

theorem installNode_fresh (wellFormed : WellFormed env registry) {node : PayloadNode}
    (compiledFor : ∀ derivation, node = .derivation derivation → BatchFor env batch derivation)
    (fresh : FreshUnlessResolved registry) :
    FreshUnlessResolved (installNode env batch registry node) := by
  intro name agg compiled notResolved
  obtain ⟨-,installed⟩ := installNode_spec wellFormed compiledFor
  cases before : registry.compiledAggregations[name]? with
  | some old =>
      rw [installed.aggs before] at compiled
      cases compiled
      exact fresh name agg before (installed.notResolved notResolved)
  | none =>
      obtain ⟨derivation,fromBatch,rfl,-,-,hasAgg,rfl⟩ :=
        installNode_numbered wellFormed compiled before
      refine numberAggregation_fresh (compiledFor derivation rfl fromBatch hasAgg).2 ?_
      rw [← notResolved]
      refine resolvedIn_congr rfl ?_
      rw [installNode,installDerivation_events]
      rfl

theorem foldl_installNode_fresh {nodes : List PayloadNode} (wellFormed : WellFormed env registry)
    (compiled : Compiled env batch nodes) (fresh : FreshUnlessResolved registry) :
    FreshUnlessResolved (nodes.foldl (installNode env batch) registry) := by
  induction nodes generalizing registry with
  | nil => exact fresh
  | cons node rest ih =>
      have here := compiled node List.mem_cons_self
      have next := (installNode_spec wellFormed here).1
      exact ih next (fun other member => compiled other (List.mem_cons_of_mem node member))
        (installNode_fresh wellFormed here fresh)

theorem refreshSource_freshUnless (wellFormed : WellFormed env registry)
    (fresh : FreshUnlessResolved registry) (source : String) :
    FreshUnlessResolved (refreshSource registry source) := by
  intro name agg compiled notResolved
  cases isEvent : registry.events[source]? with
  | none =>
      rw [refreshSource_of_noEvent isEvent] at compiled notResolved
      exact fresh name agg compiled notResolved
  | some event =>
      rw [refreshSource_compiled wellFormed isEvent] at compiled
      obtain ⟨before,compiledBefore,isAgg⟩ := Option.map_eq_some_iff.mp compiled
      have same := refreshed_same registry source event before
      rw [isAgg] at same
      have notBefore : resolvedIn registry before = false := by
        rw [← notResolved]
        refine resolvedIn_congr same.core.symm ?_
        rw [same.sourceNodeName,refreshSource_events isEvent,KeyMap.lookup_insert]
        split
        · rename_i sameName
          rw [← sameName,isEvent]
          rfl
        · rfl
      have unchanged : agg = before := by
        rw [← isAgg,refreshed]
        split
        · rename_i fromSource
          rw [resolvedIn,fromSource,isEvent] at notBefore
          exact resolveOrKeep_of_missing notBefore _
        · rfl
      rw [unchanged]
      exact fresh name before compiledBefore notBefore

theorem foldl_refreshSource_fresh {sources : List String} (wellFormed : WellFormed env registry)
    (fresh : FreshUnlessResolved registry) :
    FreshUnlessResolved (sources.foldl refreshSource registry) := by
  induction sources generalizing registry with
  | nil => exact fresh
  | cons source rest ih =>
      exact ih (refreshSource_wellFormed wellFormed source)
        (refreshSource_freshUnless wellFormed fresh source)

end Fresh

/-- The names that a position from the extracted fields of a source refers to. -/
def sourceNames (registry : RegistryInner Expr) (source : String) : List String :=
  (registry.events[source]?.map EventDescriptor.applyFieldNames).getD []

/-- The aggregation is as declared, or all its positions are those of its fields
in the names its event extracts. -/
def Placed (registry : RegistryInner Expr) (agg : AggregationDescriptor Expr) : Prop :=
  Fresh agg ∨ ∃ event, registry.events[agg.sourceNodeName]? = some event ∧
    ∀ feature ∈ agg.features,
      IndicesTrue agg.fieldNames event.applyFieldNames feature.descriptor

theorem Placed.indicesTrue {registry : RegistryInner Expr} (placed : Placed registry agg)
    (member : feature ∈ agg.features) :
    IndicesTrue agg.fieldNames (sourceNames registry agg.sourceNodeName) feature.descriptor := by
  rcases placed with fresh | ⟨event,isEvent,indices⟩
  · exact indicesTrue_of_fresh fresh _ _ member
  · rw [sourceNames,isEvent]
    exact indices feature member

theorem Placed.congr {before after : RegistryInner Expr} (placed : Placed before agg)
    (sameEvent : after.events[agg.sourceNodeName]? = before.events[agg.sourceNodeName]?) :
    Placed after agg := by
  rw [Placed,sameEvent]
  exact placed

theorem Placed.installed {newVersion : Nat} {before after : RegistryInner Expr}
    (placed : Placed before agg) (installed : Installed newVersion before after) :
    Placed after agg := by
  rcases placed with fresh | ⟨event,isEvent,indices⟩
  · exact .inl fresh
  · exact .inr ⟨event,installed.events isEvent,indices⟩

/-- The aggregations of every source declare at most 256 names. -/
def NamesFit (registry : RegistryInner Expr) : Prop :=
  ∀ source : String, (fieldUnion (registry.aggregationsForSource source)).length ≤ 256

section Registered

variable {env : Env Expr} {registry : RegistryInner Expr}
variable {name : String} {agg : AggregationDescriptor Expr}

theorem refreshSource_placed (wellFormed : WellFormed env registry)
    (fresh : FreshUnlessResolved registry) (fit : NamesFit registry)
    (compiled : (refreshSource registry agg.sourceNodeName).compiledAggregations[name]? =
      some agg) :
    Placed (refreshSource registry agg.sourceNodeName) agg := by
  cases resolved : resolvedIn (refreshSource registry agg.sourceNodeName) agg with
  | false =>
      exact .inl (refreshSource_freshUnless wellFormed fresh agg.sourceNodeName name agg compiled
        resolved)
  | true =>
      obtain ⟨before,event,inSource,eventAfter,succeeded⟩ :=
        refreshSource_resolved wellFormed compiled rfl resolved
      refine .inr ⟨_,eventAfter,fun feature member => ?_⟩
      refine resolveFieldIndices_indicesTrue succeeded ⟨?_,fit agg.sourceNodeName,?_⟩ member
      · exact KeyMap.nodup_sortDedup _
      · intro field inFields
        rw [fieldUnion,KeyMap.mem_sortDedup]
        exact List.mem_flatMap.mpr ⟨before,inSource,inFields⟩

variable {nodes : List PayloadNode} {validated : ValidatedPayload Expr}

/-- The names that the aggregations of a source declare once those of the payload
are registered too. -/
def declaredFor (registry : RegistryInner Expr) (validated : ValidatedPayload Expr)
    (source : String) : List String :=
  (registry.aggregationsForSource source ++
    (Batch.ofValidated registry validated).aggsOf source).flatMap aggFields

def DeclaresWithinByte (registry : RegistryInner Expr) (validated : ValidatedPayload Expr) :
    Prop :=
  ∀ source : String, (declaredFor registry validated source).dedup.length ≤ 256

variable (wellFormed : WellFormed env registry) (accepted : Accepted env registry nodes validated)

include wellFormed accepted

theorem installNodes_origin {source : String}
    (member : agg ∈ (installNodes env registry validated).aggregationsForSource source) :
    ∃ origin ∈ registry.aggregationsForSource source ++
        (Batch.ofValidated registry validated).aggsOf source, aggCore origin = aggCore agg := by
  obtain ⟨installedOk,installed⟩ := installNodes_spec wellFormed accepted
  obtain ⟨compiled,fromSource⟩ := installedOk.grouped.mp member
  cases before : registry.compiledAggregations[agg.nodeName]? with
  | some old =>
      rw [installed.aggs before] at compiled
      cases compiled
      exact ⟨agg,List.mem_append_left _ (wellFormed.grouped.mpr ⟨before,fromSource⟩),rfl⟩
  | none =>
      have coreEq := @foldl_installNode_aggs _ env registry
        (Batch.ofValidated registry validated) nodes wellFormed accepted.compiled agg.nodeName
      rw [← accepted.nodes_eq] at coreEq
      have isAfter := (congrArg (Option.map aggCore) compiled).symm.trans coreEq
      rw [Option.map_some,aggAfter,before] at isAfter
      cases present : registry.derivations[agg.nodeName]? with
      | some derivation =>
          rw [present] at isAfter
          cases isAfter
      | none =>
          rw [present] at isAfter
          obtain ⟨entry,-,ofBatch⟩ := Option.bind_eq_some_iff.mp isAfter.symm
          obtain ⟨origin,inBatch,sameCore⟩ := Option.map_eq_some_iff.mp ofBatch
          rcases KeyMap.insertAll_eq_some inBatch with inEntries | ⟨-,inEmpty⟩
          · refine ⟨origin,List.mem_append_right _ ?_,sameCore⟩
            rw [Batch.aggsOf,List.mem_filter,decide_eq_true_eq]
            refine ⟨List.mem_map.mpr ⟨_,inEntries,rfl⟩,?_⟩
            exact (sourceNodeName_of_core sameCore).trans fromSource
          · simp at inEmpty

theorem installNodes_namesFit (within : DeclaresWithinByte registry validated) :
    NamesFit (installNodes env registry validated) := by
  intro source
  refine Nat.le_trans ?_ (within source)
  have distinct : (fieldUnion
      ((installNodes env registry validated).aggregationsForSource source)).Nodup :=
    KeyMap.nodup_sortDedup _
  refine (distinct.subperm ?_).length_le
  intro name member
  rw [fieldUnion,KeyMap.mem_sortDedup] at member
  obtain ⟨agg,inSource,inFields⟩ := List.mem_flatMap.mp member
  obtain ⟨origin,isOrigin,sameCore⟩ := installNodes_origin wellFormed accepted inSource
  rw [List.mem_dedup]
  refine List.mem_flatMap.mpr ⟨origin,isOrigin,?_⟩
  rw [aggFields_eq_of_core sameCore]
  exact inFields

theorem installNodes_fresh (fresh : FreshUnlessResolved registry) :
    FreshUnlessResolved (installNodes env registry validated) := by
  rw [installNodes,accepted.nodes_eq]
  exact foldl_installNode_fresh wellFormed accepted.compiled fresh

theorem applyRegistration_fresh (fresh : FreshUnlessResolved registry) :
    FreshUnlessResolved (applyRegistration env registry validated) := by
  rw [applyRegistration_eq]
  exact foldl_refreshSource_fresh (installNodes_spec wellFormed accepted).1
    (installNodes_fresh wellFormed accepted fresh)

theorem applyRegistration_placed (within : DeclaresWithinByte registry validated)
    (fresh : FreshUnlessResolved registry)
    (placed : ∀ (name : String) (agg : AggregationDescriptor Expr),
      registry.compiledAggregations[name]? = some agg → Placed registry agg)
    (compiled : (applyRegistration env registry validated).compiledAggregations[name]? =
      some agg) :
    Placed (applyRegistration env registry validated) agg := by
  obtain ⟨-,installed⟩ := installNodes_spec wellFormed accepted
  refine applyRegistration_every wellFormed accepted
    (fun registry => FreshUnlessResolved registry ∧ NamesFit registry) ?_
    ⟨installNodes_fresh wellFormed accepted fresh,
      installNodes_namesFit wellFormed accepted within⟩ Placed ?_ Placed.congr ?_
    compiled
  · intro registry ok good source
    refine ⟨refreshSource_freshUnless ok good.1 source,fun other => ?_⟩
    rw [refreshSource_fieldUnion ok]
    exact good.2 other
  · intro registry name agg ok good compiled
    exact refreshSource_placed ok good.1 good.2 compiled
  · intro name agg compiledBefore
    exact (placed name agg compiledBefore).installed installed

theorem applyRegistration_resolved
    (noneBefore : ∀ name : String, registry.compiledAggregations[name]? = none)
    (compiled : (applyRegistration env registry validated).compiledAggregations[name]? = some agg)
    (resolved : resolvedIn (applyRegistration env registry validated) agg = true) :
    ∃ before schema sourceNames, resolveFieldIndices before schema sourceNames = .ok agg := by
  refine applyRegistration_every wellFormed accepted (fun _ => True) (fun _ _ _ => trivial) trivial
    (fun registry agg => resolvedIn registry agg = true →
      ∃ before schema sourceNames, resolveFieldIndices before schema sourceNames = .ok agg)
    ?_ ?_ ?_ compiled resolved
  · intro registry name agg ok _ compiled resolved
    obtain ⟨before,event,-,-,succeeded⟩ := refreshSource_resolved ok compiled rfl resolved
    exact ⟨before,event.schema,_,succeeded⟩
  · intro before after agg ofBefore sameEvent resolved
    apply ofBefore
    rw [← resolved]
    exact resolvedIn_congr rfl (by rw [sameEvent])
  · intro name agg compiledBefore
    rw [noneBefore name] at compiledBefore
    cases compiledBefore

end Registered

end Beava.Registry
