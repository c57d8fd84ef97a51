/-
The columns an aggregation uses and the event that feeds it.

The apply loop sees the pushed row of one event and what the operators before
the `group_by` make of it.  Validation looks a column up in a schema that is
resolved through the payload, through propagated schemas and through sibling
derivations, and some columns it does not look up at all.
-/

import Beava.Server.Representation

namespace Beava.Server

open Beava.Core Beava.Apply Beava.Registry

variable {Expr : Type} (env : Env Expr)
variable {opIndex nodeIdx opIdx : Nat} {column source : String} {schema : Schema}
variable {keys : List String} {feature : NamedAggOp Expr} {current : RegistryInner Expr}
variable {payload : List PayloadNode} {propagated : List (String × Schema)}
variable {derivation : DerivationDescriptor} {agg : AggregationDescriptor Expr}
variable {validated : ValidatedPayload Expr}
variable (state : Propagated)
variable {result : Unit} {params : AggParams} {ast : Expr} {featureName upstream : String}
variable {spec : AggSpec} {specs : StrMap AggSpec} {fields : StrMap FieldType}

/-- The columns an operator puts into a row under a name of its own. -/
def producedBy : OpNode → List String
  | .rename mapping => mapping.toList.map Prod.snd
  | .withColumns exprs => exprs.toList.map Prod.fst
  | .map exprs => exprs.toList.map Prod.fst
  | _ => []

def producedColumns (ops : List OpNode) : List String := ops.flatMap producedBy

def whereColumns (feature : NamedAggOp Expr) : List String :=
  feature.descriptor.whereExpr.toList.flatMap env.referencedFields

def usedColumns (agg : AggregationDescriptor Expr) : List String :=
  agg.groupKeys ++
    agg.features.flatMap fun feature =>
      declaredFields feature.descriptor ++ whereColumns env feature

/-- The columns validation does not look up: coordinates, and the field of a kind
that needs none. -/
def uncheckedColumns (feature : NamedAggOp Expr) : List String :=
  (if feature.descriptor.kind.needsField then [] else feature.descriptor.field.toList) ++
    feature.descriptor.ext.latField.toList ++ feature.descriptor.ext.lonField.toList

/-- The source is an event of the registry, and each column is in its schema or
produced by the operators before the `group_by`. -/
def Fed (registry : RegistryInner Expr) (agg : AggregationDescriptor Expr)
    (prefixOps : List OpNode) : Prop :=
  ∃ event, registry.events[agg.sourceNodeName]? = some event ∧
    ∀ column ∈ usedColumns env agg,
      column ∈ event.schema.fields ∨ column ∈ producedColumns prefixOps

/-- The schema of the event a name has after the registration: a registered
event stays as it is. -/
def storedEventSchema (current : RegistryInner Expr) (payload : List PayloadNode)
    (source : String) : Option Schema :=
  match current.events[source]? with
  | some held => some held.schema
  | none =>
      payload.findSome? fun node =>
        match node with
        | .event event => if event.name = source then some event.schema else none
        | _ => none

def siblings (payload : List PayloadNode) (source : String) : List DerivationDescriptor :=
  (payload.filterMap PayloadNode.asDerivation).filter fun derivation =>
    derivation.outputKind = .event && derivation.upstreams = [source]

/-- The first upstream is an event; no column is taken only from a payload node
that redeclares a registered event or only from the declared schema of a
sibling; and the columns that are not looked up exist. -/
structure Feedable (current : RegistryInner Expr) (payload : List PayloadNode)
    (propagated : List (String × Schema)) (agg : AggregationDescriptor Expr)
    (prefixOps : List OpNode) (stored : Schema) : Prop where
  redeclared : current.events.contains agg.sourceNodeName = true →
    ∀ node ∈ payload, node.name = agg.sourceNodeName →
      ∀ bare, resolveBareUpstreamSchema agg.sourceNodeName payload current propagated = some bare →
        ∀ column ∈ usedColumns env agg, column ∈ bare.fields →
          column ∈ stored.fields ∨ column ∈ producedColumns prefixOps
  declaredBySibling : prefixOps = [] → ∀ sibling ∈ siblings payload agg.sourceNodeName,
    ∀ column ∈ usedColumns env agg, column ∈ sibling.schema.fields → column ∈ stored.fields
  unchecked : ∀ feature ∈ agg.features, ∀ column ∈ uncheckedColumns feature,
    column ∈ stored.fields ∨ column ∈ producedColumns prefixOps

variable {env}

theorem foldl_fields {α σ : Type} {step : σ → α → σ} {schemaOf : σ → Schema}
    {allowed : String → Prop} {items : List α}
    (adds : ∀ state, ∀ item ∈ items, ∀ column, column ∈ (schemaOf (step state item)).fields →
      column ∈ (schemaOf state).fields ∨ allowed column)
    (start : σ) {column : String}
    (member : column ∈ (schemaOf (items.foldl step start)).fields) :
    column ∈ (schemaOf start).fields ∨ allowed column := by
  induction items generalizing start with
  | nil => exact .inl member
  | cons item rest ih =>
      have later := ih (fun state other isOther => adds state other (List.mem_cons_of_mem _ isOther))
        (step start item) member
      rcases later with inStep | isAllowed
      · exact adds start item List.mem_cons_self column inStep
      · exact .inr isAllowed

theorem selectField_fields {current : Schema} (field column : String)
    (member : column ∈ (selectField opIndex current state field).1.fields) :
    column ∈ state.1.fields ∨ column ∈ current.fields := by
  unfold selectField at member
  split at member
  · rename_i fieldType found
    rcases KeyMap.mem_insert_iff.mp member with same | before
    · rw [← same]
      exact .inr (KeyMap.mem_of_lookup found)
    · exact .inl before
  · exact .inl member

theorem dropField_fields (field column : String)
    (member : column ∈ (dropField opIndex state field).1.fields) : column ∈ state.1.fields := by
  unfold dropField at member
  split at member
  · exact Std.ExtTreeMap.mem_of_mem_erase member
  · exact member

theorem renameField_fields {mapping : StrMap String} {current : Schema} (schema : Schema)
    {entry : String × FieldType} (inCurrent : entry ∈ current.fields.toList)
    (member : column ∈ (renameField mapping current schema entry).fields) :
    column ∈ schema.fields ∨ column ∈ current.fields ∨ column ∈ mapping.toList.map Prod.snd := by
  rcases KeyMap.mem_insert_iff.mp member with same | before
  · refine .inr ?_
    rw [Std.ExtTreeMap.getD_eq_getD_getElem?] at same
    cases found : mapping[entry.1]? with
    | none =>
        rw [found,Option.getD_none] at same
        rw [← same]
        exact .inl (KeyMap.mem_of_mem_toList inCurrent)
    | some target =>
        rw [found,Option.getD_some] at same
        rw [← same]
        exact .inr (List.mem_map.mpr
          ⟨(entry.1,target),Std.ExtTreeMap.mem_toList_iff_getElem?_eq_some.mpr found,rfl⟩)
  · exact .inl before

theorem addColumn_fields (entry : String × String) (column : String)
    (member : column ∈ (addColumn env opIndex state entry).1.fields) :
    column ∈ state.1.fields ∨ column = entry.1 := by
  unfold addColumn at member
  split at member
  · exact .inl member
  · simp only at member
    split at member
    · exact (KeyMap.mem_insert_iff.mp member).symm.imp_right Eq.symm
    · exact (KeyMap.mem_insert_iff.mp member).symm.imp_right Eq.symm
    · exact .inl member

theorem castField_fields (entry : String × String) (column : String)
    (member : column ∈ (castField env opIndex state entry).1.fields) : column ∈ state.1.fields := by
  unfold castField at member
  split at member
  · exact member
  · rename_i sourceType found
    split at member
    · exact member
    · split at member
      · rcases KeyMap.mem_insert_iff.mp member with same | before
        · rw [← same]
          exact KeyMap.mem_of_lookup found
        · exact before
      · exact member

theorem fillField_fields (entry : String × Json) :
    (fillField opIndex state entry).1.fields = state.1.fields := by
  unfold fillField
  split <;> rfl

theorem propagateOp_fields {op : OpNode} {current : Schema}
    (member : column ∈ (propagateOp env opIndex op current).1.fields) :
    column ∈ current.fields ∨ column ∈ producedBy op := by
  cases op with
  | filter expr => exact .inl member
  | select fields =>
      have found := @foldl_fields _ _ (selectField opIndex current) Prod.fst
        (fun column => column ∈ current.fields) fields
        (fun state field _ column => selectField_fields state field column) _ column member
      rcases found with inNew | inCurrent
      · exact absurd inNew Std.ExtTreeMap.not_mem_empty
      · exact .inl inCurrent
  | drop fields =>
      have found := @foldl_fields _ _ (dropField opIndex) Prod.fst (fun _ => False) fields
        (fun state field _ column isIn => .inl (dropField_fields state field column isIn)) _ column
        member
      exact .inl (found.resolve_right id)
  | rename mapping =>
      have found := @foldl_fields _ _ (renameField mapping current) id
        (fun column => column ∈ current.fields ∨ column ∈ mapping.toList.map Prod.snd)
        current.fields.toList
        (fun schema _ inCurrent _ isIn => renameField_fields schema inCurrent isIn) _ column member
      rcases found with inNew | allowed
      · exact absurd inNew Std.ExtTreeMap.not_mem_empty
      · exact allowed
  | withColumns exprs | map exprs =>
      refine @foldl_fields _ _ (addColumn env opIndex) Prod.fst
        (fun column => column ∈ exprs.toList.map Prod.fst) exprs.toList ?_ _ column member
      intro state entry inExprs column isIn
      rcases addColumn_fields state entry column isIn with before | isNew
      · exact .inl before
      · rw [isNew]
        exact .inr (List.mem_map_of_mem inExprs)
  | cast typeMap =>
      have found := @foldl_fields _ _ (castField env opIndex) Prod.fst (fun _ => False)
        typeMap.toList
        (fun state entry _ column isIn => .inl (castField_fields state entry column isIn)) _ column
        member
      exact .inl (found.resolve_right id)
  | fillna defaults =>
      have found := @foldl_fields _ _ (fillField opIndex) Prod.fst (fun _ => False) defaults.toList
        (fun state entry _ column isIn => .inl (by rwa [fillField_fields] at isIn)) _ column member
      exact .inl (found.resolve_right id)
  | groupBy keys agg => exact .inl member

theorem propagateFrom_fields {ops : List OpNode} {current : Schema}
    (member : column ∈ (propagateFrom env opIndex ops current).1.fields) :
    column ∈ current.fields ∨ column ∈ producedColumns ops := by
  induction ops generalizing opIndex current with
  | nil => exact .inl member
  | cons op rest ih =>
      rw [producedColumns,List.flatMap_cons,List.mem_append]
      rcases ih member with inHere | produced
      · exact (propagateOp_fields inHere).imp_right Or.inl
      · exact .inr (.inr produced)

theorem mem_fields_of_contains (contained : schema.fields.contains column = true) :
    column ∈ schema.fields :=
  Std.ExtTreeMap.contains_iff_mem.mp contained

theorem groupKeyErrors_nil (noErrors : groupKeyErrors schema nodeIdx opIdx keys = []) {key : String}
    (isKey : key ∈ keys) : key ∈ schema.fields := by
  obtain ⟨index,atIndex⟩ := List.mem_iff_getElem?.mp isKey
  have passed := List.filterMap_eq_nil_iff.mp noErrors (key,index)
    (List.mk_mem_zipIdx_iff_getElem?.mpr atIndex)
  cases found : schema.fields[key]? with
  | none =>
      simp only [found] at passed
      cases passed
  | some fieldType => exact KeyMap.mem_of_lookup found

theorem require_ok {holds : Bool} {code : ErrorCode} {path reason : String}
    (ok : require holds code path reason = .ok result) : holds = true := by
  cases holds with
  | true => rfl
  | false => cases ok

theorem checkField_ok {path op : String} {kind : AggKind}
    (ok : checkField schema path op kind params = .ok result) (needs : kind.needsField = true)
    {field : String} (isField : params.field = some field) : field ∈ schema.fields := by
  unfold checkField at ok
  rw [if_pos needs,isField] at ok
  exact mem_fields_of_contains (require_ok ok)

theorem compileWhere_fields {path : String} {whereExpr : Option Expr}
    (ok : compileWhere env schema path params = .ok whereExpr) (isWhere : whereExpr = some ast)
    (mentioned : column ∈ env.referencedFields ast) : column ∈ schema.fields := by
  unfold compileWhere at ok
  split at ok
  · cases ok
    cases isWhere
  · split at ok
    · cases ok
    · split at ok
      · rename_i noneUnknown
        cases ok
        cases isWhere
        have passed := List.filterMap_eq_nil_iff.mp noneUnknown column mentioned
        by_cases contained : schema.fields.contains column = true
        · exact mem_fields_of_contains contained
        · rw [if_neg contained] at passed
          cases passed
      · cases ok

theorem compileFeature_columns
    (ok : compileFeature env schema nodeIdx opIdx keys featureName spec = .ok feature)
    (used : column ∈ declaredFields feature.descriptor ++ whereColumns env feature) :
    column ∈ schema.fields ∨ column ∈ uncheckedColumns feature := by
  unfold compileFeature at ok
  obtain ⟨kind,-,ok⟩ := Checked.bind_eq_ok ok
  obtain ⟨_,-,ok⟩ := Checked.bind_eq_ok ok
  obtain ⟨_,-,ok⟩ := Checked.bind_eq_ok ok
  obtain ⟨_,-,ok⟩ := Checked.bind_eq_ok ok
  obtain ⟨_,fieldOk,ok⟩ := Checked.bind_eq_ok ok
  obtain ⟨_,-,ok⟩ := Checked.bind_eq_ok ok
  obtain ⟨_,-,ok⟩ := Checked.bind_eq_ok ok
  obtain ⟨_,-,ok⟩ := Checked.bind_eq_ok ok
  obtain ⟨_,-,ok⟩ := Checked.bind_eq_ok ok
  obtain ⟨windowMs,-,ok⟩ := Checked.bind_eq_ok ok
  obtain ⟨whereExpr,whereOk,ok⟩ := Checked.bind_eq_ok ok
  cases ok
  rw [List.mem_append,declaredFields,List.mem_append,List.mem_append] at used
  rw [uncheckedColumns,List.mem_append,List.mem_append]
  rcases used with ((isField | isLat) | isLon) | mentioned
  · cases needs : kind.needsField with
    | true => exact .inl (checkField_ok fieldOk needs (Option.mem_toList.mp isField))
    | false =>
        refine .inr (.inl (.inl ?_))
        simp only [assembleFeature,needs]
        exact isField
  · exact .inr (.inl (.inr isLat))
  · exact .inr (.inr isLon)
  · obtain ⟨ast,isWhere,inAst⟩ := List.mem_flatMap.mp mentioned
    exact .inl (compileWhere_fields whereOk (Option.mem_toList.mp isWhere) inAst)

theorem compileFeature_where
    (ok : compileFeature env schema nodeIdx opIdx keys featureName spec = .ok feature)
    (isWhere : feature.descriptor.whereExpr = some ast)
    (mentioned : column ∈ env.referencedFields ast) : column ∈ schema.fields := by
  unfold compileFeature at ok
  obtain ⟨kind,-,ok⟩ := Checked.bind_eq_ok ok
  iterate 8 obtain ⟨_,-,ok⟩ := Checked.bind_eq_ok ok
  obtain ⟨windowMs,-,ok⟩ := Checked.bind_eq_ok ok
  obtain ⟨whereExpr,whereOk,ok⟩ := Checked.bind_eq_ok ok
  cases ok
  exact compileWhere_fields whereOk isWhere mentioned

theorem compileFeatures_mem {specs : List (String × AggSpec)}
    (member : feature ∈ (compileFeatures env schema nodeIdx opIdx keys specs).2) :
    ∃ entry ∈ specs,
      compileFeature env schema nodeIdx opIdx keys entry.1 entry.2 = .ok feature := by
  induction specs with
  | nil => cases member
  | cons entry rest ih =>
      simp only [compileFeatures] at member
      split at member
      · rename_i found compiled
        rcases List.mem_cons.mp member with isHead | inRest
        · exact ⟨entry,List.mem_cons_self,isHead ▸ compiled⟩
        · obtain ⟨other,isOther,ok⟩ := ih inRest
          exact ⟨other,List.mem_cons_of_mem entry isOther,ok⟩
      · obtain ⟨other,isOther,ok⟩ := ih member
        exact ⟨other,List.mem_cons_of_mem entry isOther,ok⟩

/-- The aggregation is what the `group_by` of the derivation at the position
compiles to. -/
structure CompiledAt (env : Env Expr) (current : RegistryInner Expr) (payload : List PayloadNode)
    (propagated : List (String × Schema)) (derivation : DerivationDescriptor) (opIdx : Nat)
    (agg : AggregationDescriptor Expr) : Prop where
  declared : .derivation derivation ∈ payload
  compiled : ∃ nodeIdx keys specs, derivation.ops[opIdx]? = some (.groupBy keys specs) ∧
    (compileGroupBy env payload current propagated nodeIdx derivation opIdx keys specs).2 = some agg

/-- An aggregation that compiled has its keys in the schema of the `group_by`, and
each of its features compiled over it. -/
theorem compileGroupBy_parts
    (compiled : (compileGroupBy env payload current propagated nodeIdx derivation opIdx keys
      specs).2 = some agg) :
    ∃ schema,
      groupBySchema env payload current propagated agg.sourceNodeName
          ((derivation.ops.take opIdx).filter fun op => !op.isGroupBy) = some schema ∧
        (∀ key ∈ agg.groupKeys, key ∈ schema.fields) ∧
        ∀ feature ∈ agg.features, ∃ entry : String × AggSpec,
          compileFeature env schema nodeIdx opIdx keys entry.1 entry.2 = .ok feature := by
  unfold compileGroupBy at compiled
  split at compiled
  · cases compiled
  · split at compiled
    · cases compiled
    · simp only at compiled
      split at compiled
      · cases compiled
      · rename_i schema isSchema
        split at compiled
        · rename_i noErrors
          cases compiled
          rw [List.isEmpty_iff,List.append_eq_nil_iff] at noErrors
          refine ⟨schema,isSchema,fun key isKey => groupKeyErrors_nil noErrors.1 isKey,?_⟩
          intro feature isFeature
          obtain ⟨entry,-,ok⟩ := compileFeatures_mem isFeature
          exact ⟨entry,ok⟩
        · cases compiled

theorem compileGroupBy_columns
    (compiled : (compileGroupBy env payload current propagated nodeIdx derivation opIdx keys
      specs).2 = some agg) :
    ∃ schema,
      groupBySchema env payload current propagated agg.sourceNodeName
          ((derivation.ops.take opIdx).filter fun op => !op.isGroupBy) = some schema ∧
        ∀ column ∈ usedColumns env agg, column ∈ schema.fields ∨
          ∃ feature ∈ agg.features, column ∈ uncheckedColumns feature := by
  obtain ⟨schema,isSchema,keysFound,featuresOk⟩ := compileGroupBy_parts compiled
  refine ⟨schema,isSchema,?_⟩
  intro column used
  rcases List.mem_append.mp used with isKey | ofFeature
  · exact .inl (keysFound column isKey)
  · obtain ⟨feature,isFeature,inFeature⟩ := List.mem_flatMap.mp ofFeature
    obtain ⟨entry,ok⟩ := featuresOk feature isFeature
    exact (compileFeature_columns ok inFeature).imp_right
      fun unchecked => ⟨feature,isFeature,unchecked⟩

theorem mem_compileAggregations {name : String}
    (member : (name,agg) ∈ (compileAggregationsFromNodes env payload current propagated).1) :
    ∃ derivation opIdx, CompiledAt env current payload propagated derivation opIdx agg := by
  simp only [compileAggregationsFromNodes,apply_ite Prod.fst,ite_self] at member
  obtain ⟨result,inResults,inResult⟩ := List.mem_flatMap.mp member
  obtain ⟨⟨node,nodeIdx⟩,inPayload,isResult⟩ := List.mem_filterMap.mp inResults
  cases node with
  | derivation derivation =>
      cases isResult
      simp only [compileDerivation,List.mem_filterMap] at inResult
      obtain ⟨found,⟨⟨op,opIdx⟩,inOps,isFound⟩,named⟩ := inResult
      cases op with
      | groupBy keys specs =>
          cases isFound
          obtain ⟨compiledAgg,compiled,pairEq⟩ := Option.map_eq_some_iff.mp named
          cases pairEq
          exact ⟨derivation,opIdx,
            List.fst_mem_of_mem_zipIdx inPayload,nodeIdx,keys,specs,
            List.mk_mem_zipIdx_iff_getElem?.mp inOps,compiled⟩
      | _ => cases isFound
  | _ => cases isResult

theorem addSiblingFields_mem {node : PayloadNode}
    (member : column ∈ addSiblingFields upstream fields node) :
    column ∈ fields ∨ ∃ derivation, node.asDerivation = some derivation ∧
      derivation.outputKind = .event ∧ derivation.upstreams = [upstream] ∧
        column ∈ derivation.schema.fields := by
  unfold addSiblingFields at member
  split at member
  · rename_i derivation
    split at member
    · rename_i isSibling
      simp only [Bool.and_eq_true,decide_eq_true_eq] at isSibling
      change column ∈ KeyMap.insertAll fields derivation.schema.fields.toList at member
      obtain ⟨fieldType,found⟩ := KeyMap.mem_iff_exists.mp member
      rcases KeyMap.insertAll_eq_some found with declared | ⟨-,before⟩
      · exact .inr ⟨derivation,rfl,isSibling.1,isSibling.2,KeyMap.mem_of_mem_toList declared⟩
      · exact .inl (KeyMap.mem_of_lookup before)
    · exact .inl member
  · exact .inl member

theorem foldl_addSiblingFields_mem {nodes : List PayloadNode}
    (member : column ∈ nodes.foldl (addSiblingFields upstream) fields) :
    column ∈ fields ∨ ∃ sibling ∈ siblings nodes upstream, column ∈ sibling.schema.fields := by
  induction nodes generalizing fields with
  | nil => exact .inl member
  | cons node rest ih =>
      have inSiblings : ∀ sibling, (sibling ∈ siblings rest upstream ∨
          (node.asDerivation = some sibling ∧ sibling.outputKind = .event ∧
            sibling.upstreams = [upstream])) → sibling ∈ siblings (node :: rest) upstream := by
        intro sibling found
        rw [siblings,List.mem_filter,List.mem_filterMap]
        rcases found with inRest | ⟨isHead,isEvent,readsOnly⟩
        · obtain ⟨inDerivations,passes⟩ := List.mem_filter.mp inRest
          obtain ⟨other,isOther,same⟩ := List.mem_filterMap.mp inDerivations
          exact ⟨⟨other,List.mem_cons_of_mem node isOther,same⟩,passes⟩
        · exact ⟨⟨node,List.mem_cons_self,isHead⟩,by simp [isEvent,readsOnly]⟩
      rcases ih member with inHead | ⟨sibling,inRest,declared⟩
      · rcases addSiblingFields_mem inHead with before | ⟨sibling,isHead,isEvent,only,declared⟩
        · exact .inl before
        · exact .inr ⟨sibling,inSiblings sibling (.inr ⟨isHead,isEvent,only⟩),declared⟩
      · exact .inr ⟨sibling,inSiblings sibling (.inl inRest),declared⟩

theorem groupBySchema_fields {prefixOps : List OpNode}
    (found : groupBySchema env payload current propagated source prefixOps = some schema)
    (member : column ∈ schema.fields) :
    (∃ bare, resolveBareUpstreamSchema source payload current propagated = some bare ∧
      column ∈ bare.fields) ∨
    column ∈ producedColumns prefixOps ∨
    (prefixOps = [] ∧ ∃ sibling ∈ siblings payload source, column ∈ sibling.schema.fields) := by
  unfold groupBySchema at found
  split at found
  · rename_i noOps
    obtain ⟨bare,isBare,isSchema⟩ := Option.map_eq_some_iff.mp found
    split at isSchema
    · cases isSchema
      rcases foldl_addSiblingFields_mem member with inBare | declared
      · exact .inl ⟨bare,isBare,inBare⟩
      · exact .inr (.inr ⟨List.isEmpty_iff.mp noOps,declared⟩)
    · rw [← isSchema] at member
      exact .inl ⟨bare,isBare,member⟩
  · split at found
    · cases found
    · rename_i _ bare isBare
      unfold propagateSchema at found
      simp only at found
      split at found
      · rename_i result isResult
        split at isResult
        · cases isResult
          cases found
          rcases propagateFrom_fields member with inBare | produced
          · exact .inl ⟨bare,isBare,inBare⟩
          · exact .inr (.inl produced)
        · cases isResult
      · cases found

theorem findSome?_eventEntry_schema (batch : Batch Expr) (payload : List PayloadNode)
    (source : String) :
    (payload.findSome? (eventEntry batch source)).map EventDescriptor.schema =
      payload.findSome? fun node =>
        match node with
        | .event event => if event.name = source then some event.schema else none
        | _ => none := by
  rw [List.map_findSome?]
  congr 1
  funext node
  cases node with
  | event event =>
      simp only [Function.comp_apply,eventEntry]
      split <;> rfl
  | table table => rfl
  | derivation derivation => rfl

theorem applyRegistration_eventSchema (wellFormed : WellFormed env current)
    (accepted : Accepted env current payload validated) (source : String) :
    (applyRegistration env current validated).events[source]?.map EventDescriptor.schema =
      storedEventSchema current payload source := by
  have coreSchema : ∀ found : Option EventDescriptor,
      found.map EventDescriptor.schema = (found.map eventCore).map EventDescriptor.schema := by
    intro found
    rw [Option.map_map]
    rfl
  rw [coreSchema,applyRegistration_events wellFormed accepted,← coreSchema]
  unfold storedEventSchema
  cases held : current.events[source]? with
  | some event => rw [Option.some_or,Option.map_some]
  | none => rw [Option.none_or,findSome?_eventEntry_schema]

/-- A column of the bare schema is stored, or the payload has a node of the name
of a registered event. -/
theorem bare_fields (accepted : Accepted env current payload validated) {stored bare : Schema}
    (isStored : storedEventSchema current payload source = some stored)
    (isBare : resolveBareUpstreamSchema source payload current propagated = some bare) :
    bare = stored ∨
      (current.events.contains source = true ∧ ∃ node ∈ payload, node.name = source) := by
  unfold storedEventSchema at isStored
  unfold resolveBareUpstreamSchema at isBare
  cases held : current.events[source]? with
  | some event =>
      rw [held] at isStored
      cases isStored
      cases inPayload : payload.find? fun node => node.name = source with
      | some node =>
          refine .inr ⟨(KeyMap.contains_iff_exists _ _).mpr ⟨event,held⟩,node,
            List.mem_of_find?_eq_some inPayload,?_⟩
          simpa using List.find?_some inPayload
      | none =>
          simp only [inPayload,RegistryInner.schemaOf,held] at isBare
          exact .inl (Option.some.inj isBare).symm
  | none =>
      rw [held] at isStored
      obtain ⟨node,isNode,ofNode⟩ := List.exists_of_findSome?_eq_some isStored
      cases node with
      | event event =>
          simp only at ofNode
          split at ofNode
          · rename_i named
            cases ofNode
            cases inPayload : payload.find? fun node => node.name = source with
            | some other =>
                have otherNamed : other.name = source := by simpa using List.find?_some inPayload
                have same := accepted.eq_of_name (List.mem_of_find?_eq_some inPayload) isNode
                  (otherNamed.trans named.symm)
                rw [inPayload,same] at isBare
                exact .inl (Option.some.inj isBare).symm
            | none =>
                have notNamed := List.find?_eq_none.mp inPayload _ isNode
                exact absurd (decide_eq_true named) notNamed
          · cases ofNode
      | table table => cases ofNode
      | derivation derivation => cases ofNode

theorem uncheckedColumns_used (isFeature : feature ∈ agg.features)
    (unchecked : column ∈ uncheckedColumns feature) : column ∈ usedColumns env agg := by
  refine List.mem_append_right _ (List.mem_flatMap.mpr ⟨feature,isFeature,?_⟩)
  refine List.mem_append_left _ ?_
  rw [declaredFields,List.mem_append,List.mem_append]
  rw [uncheckedColumns,List.mem_append,List.mem_append] at unchecked
  rcases unchecked with (isField | isLat) | isLon
  · split at isField
    · cases isField
    · exact .inl (.inl isField)
  · exact .inl (.inr isLat)
  · exact .inr isLon

/-- Whether the stored event has the columns is decided by the columns that are
looked up elsewhere or nowhere. -/
theorem CompiledAt.columns_iff (accepted : Accepted env current payload validated)
    (compiled : CompiledAt env current payload propagated derivation opIdx agg) {stored : Schema}
    (isStored : storedEventSchema current payload agg.sourceNodeName = some stored) :
    (∀ column ∈ usedColumns env agg, column ∈ stored.fields ∨
      column ∈ producedColumns ((derivation.ops.take opIdx).filter fun op => !op.isGroupBy)) ↔
    Feedable env current payload propagated agg
      ((derivation.ops.take opIdx).filter fun op => !op.isGroupBy) stored := by
  constructor
  · intro fed
    constructor
    · intro _ _ _ _ _ _ column used _
      exact fed column used
    · intro noOps sibling _ column used _
      have found := fed column used
      rw [noOps] at found
      exact found.resolve_right List.not_mem_nil
    · intro feature isFeature column unchecked
      exact fed column (uncheckedColumns_used isFeature unchecked)
  · intro feedable column used
    obtain ⟨nodeIdx,keys,specs,-,isAgg⟩ := compiled.compiled
    obtain ⟨schema,isSchema,covered⟩ := compileGroupBy_columns isAgg
    rcases covered column used with inSchema | ⟨feature,isFeature,unchecked⟩
    · rcases groupBySchema_fields isSchema inSchema with
        ⟨bare,isBare,inBare⟩ | produced | ⟨noOps,sibling,isSibling,declared⟩
      · rcases bare_fields accepted isStored isBare with same | ⟨registered,node,isNode,named⟩
        · exact .inl (same ▸ inBare)
        · exact feedable.redeclared registered node isNode named bare isBare column used inBare
      · exact .inr produced
      · exact .inl (feedable.declaredBySibling noOps sibling isSibling column used declared)
    · exact feedable.unchecked feature isFeature column unchecked

/-- An accepted aggregation is fed exactly when its first upstream is an event
and the event has the columns that validation found elsewhere. -/
theorem fed_iff (env : Env Expr) (operations : List RegistryOp)
    (meets : Machine.Meets (stepRegistry env) Admissible RegistryInner.empty operations)
    (payload : List PayloadNode) (validated : ValidatedPayload Expr)
    (valid : validatePayload env (registryRun env operations) payload = .ok validated)
    (name : String) (agg : AggregationDescriptor Expr)
    (member : (name,agg) ∈ validated.compiledAggregations) :
    ∃ derivation opIdx,
      CompiledAt env (registryRun env operations) payload validated.propagatedSchemas derivation
        opIdx agg ∧
      (Fed env (applyRegistration env (registryRun env operations) validated) agg
          ((derivation.ops.take opIdx).filter fun op => !op.isGroupBy) ↔
        ∃ stored,
          storedEventSchema (registryRun env operations) payload agg.sourceNodeName = some stored ∧
          Feedable env (registryRun env operations) payload validated.propagatedSchemas agg
            ((derivation.ops.take opIdx).filter fun op => !op.isGroupBy) stored) := by
  have notEmpty : payload ≠ [] := by
    intro isEmpty
    rw [isEmpty] at valid
    cases valid
    cases member
  have accepted := validatePayload_ok env notEmpty valid
  have wellFormed : WellFormed env (registryRun env operations) :=
    (kept_empty.run meets).wellFormed
  rw [accepted.result] at member
  obtain ⟨derivation,opIdx,compiled⟩ := mem_compileAggregations member
  have sameSchemas : validated.propagatedSchemas =
      (validateExpressions env payload (registryRun env operations)).propagatedSchemas := by
    rw [accepted.result]
  rw [← sameSchemas] at compiled
  refine ⟨derivation,opIdx,compiled,?_⟩
  have schemaEq := applyRegistration_eventSchema wellFormed accepted agg.sourceNodeName
  constructor
  · rintro ⟨event,isEvent,columns⟩
    rw [isEvent,Option.map_some] at schemaEq
    exact ⟨event.schema,schemaEq.symm,(compiled.columns_iff accepted schemaEq.symm).mp columns⟩
  · rintro ⟨stored,isStored,feedable⟩
    rw [isStored] at schemaEq
    obtain ⟨event,isEvent,sameSchema⟩ := Option.map_eq_some_iff.mp schemaEq
    refine ⟨event,isEvent,?_⟩
    rw [sameSchema]
    exact (compiled.columns_iff accepted isStored).mpr feedable

def acceptedSources (env : Env Expr) (current : RegistryInner Expr) (payload : List PayloadNode) :
    List String :=
  match validatePayload env current payload with
  | .ok validated => validated.compiledAggregations.map fun entry => entry.2.sourceNodeName
  | .error _ => []

theorem exists_of_acceptedSources (isSource : source ∈ acceptedSources env current payload) :
    ∃ validated name agg, validatePayload env current payload = .ok validated ∧
      (name,agg) ∈ validated.compiledAggregations ∧ agg.sourceNodeName = source := by
  unfold acceptedSources at isSource
  split at isSource
  · rename_i validated valid
    obtain ⟨⟨name,agg⟩,member,same⟩ := List.mem_map.mp isSource
    exact ⟨validated,name,agg,valid,member,same⟩
  · cases isSource

def directPayload : List PayloadNode :=
  [sampleEvent "E",sampleTable "A" "E" [] "a" "last" "x"]

theorem directPayload_fed_iff :
    ∃ validated name agg,
      validatePayload sampleEnv (registryRun sampleEnv []) directPayload = .ok validated ∧
      (name,agg) ∈ validated.compiledAggregations ∧
      ∃ derivation opIdx,
        CompiledAt sampleEnv (registryRun sampleEnv []) directPayload validated.propagatedSchemas
          derivation opIdx agg ∧
        (Fed sampleEnv (applyRegistration sampleEnv (registryRun sampleEnv []) validated) agg
            ((derivation.ops.take opIdx).filter fun op => !op.isGroupBy) ↔
          ∃ stored,
            storedEventSchema (registryRun sampleEnv []) directPayload agg.sourceNodeName =
              some stored ∧
            Feedable sampleEnv (registryRun sampleEnv []) directPayload validated.propagatedSchemas
              agg ((derivation.ops.take opIdx).filter fun op => !op.isGroupBy) stored) := by
  have isSource : "E" ∈ acceptedSources sampleEnv (registryRun sampleEnv []) directPayload := by
    decide
  obtain ⟨validated,name,agg,valid,member,-⟩ := exists_of_acceptedSources isSource
  exact ⟨validated,name,agg,valid,member,
    fed_iff sampleEnv [] trivial directPayload validated valid name agg member⟩

def streamPayload : List PayloadNode :=
  [sampleEvent "E",sampleStream "S" "E",sampleTable "A" "S" [] "a" "last" "x"]

/-- The table on the stream is accepted, and no push reaches it. -/
theorem streamPayload_not_fed :
    ∃ validated name agg,
      validatePayload sampleEnv (registryRun sampleEnv []) streamPayload = .ok validated ∧
      (name,agg) ∈ validated.compiledAggregations ∧
      ∀ prefixOps, ¬Fed sampleEnv
        (applyRegistration sampleEnv (registryRun sampleEnv []) validated) agg prefixOps := by
  have isSource : "S" ∈ acceptedSources sampleEnv (registryRun sampleEnv []) streamPayload := by
    decide
  have noEvent : (registryRun sampleEnv [.register streamPayload]).events["S"]? = none :=
    Option.isNone_iff_eq_none.mp (by decide)
  obtain ⟨validated,name,agg,valid,member,source⟩ := exists_of_acceptedSources isSource
  refine ⟨validated,name,agg,valid,member,?_⟩
  rintro prefixOps ⟨event,isEvent,-⟩
  have applied : registryRun sampleEnv [.register streamPayload] =
      applyRegistration sampleEnv (registryRun sampleEnv []) validated := by
    change stepRegistry sampleEnv (registryRun sampleEnv []) (.register streamPayload) = _
    simp only [stepRegistry,valid]
  rw [← applied,source,noEvent] at isEvent
  cases isEvent

end Beava.Server
