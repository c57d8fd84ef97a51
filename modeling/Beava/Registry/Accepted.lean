/-
What an accepted payload satisfies.

A payload that `validatePayload` accepts has distinct names, no upstream after
the derivation that reads it, and every aggregation compiled from it is the one
its `group_by` declares.
-/

import Beava.Lib.Checked
import Beava.Lib.KeyMap
import Beava.Registry.Apply

namespace Beava.Registry

open Beava.Core

variable {Expr : Type} (env : Env Expr)
variable {schema : Schema} {specs : List (String × AggSpec)} {payload : List PayloadNode}
variable {current : RegistryInner Expr} {validated : ValidatedPayload Expr}
variable {kind : AggKind} {params : AggParams} {keys : List String} {feature : NamedAggOp Expr}
variable {α : Type}

/-! ### Features -/

def windowOf : Option String → Option (Option Nat)
  | none => some none
  | some text =>
      match parseDurationToMs text with
      | .ok windowMs => some windowMs
      | .error _ => none

def whereOf : Option String → Option (Option Expr)
  | none => some none
  | some text =>
      match env.parse text with
      | .ok ast => some (some ast)
      | .error _ => none

/-- The feature a specification declares; the schema only decides whether it is
accepted. -/
def featureOfSpec (entry : String × AggSpec) : Option (NamedAggOp Expr) :=
  let params := extractAggParams env entry.2.params
  match parseAggKind entry.2.op, windowOf params.window, whereOf env params.whereStr with
  | some kind, some windowMs, some whereExpr =>
      some (assembleFeature entry.1 kind params windowMs whereExpr)
  | _, _, _ => none

theorem checkKind_ok {path op : String} (ok : checkKind path op = .ok kind) :
    parseAggKind op = some kind := by
  unfold checkKind at ok
  split at ok
  · rename_i found
    cases ok
    exact found
  · cases ok

theorem parseWindow_ok {path op : String} {windowMs : Option Nat}
    (ok : parseWindow path op kind params = .ok windowMs) :
    windowOf params.window = some windowMs := by
  unfold parseWindow at ok
  unfold windowOf
  split at ok
  · cases ok
    simp_all
  · split at ok
    · cases ok
    · split at ok
      · cases ok
      · cases ok
        simp_all

theorem compileWhere_ok {path : String} {whereExpr : Option Expr}
    (ok : compileWhere env schema path params = .ok whereExpr) :
    whereOf env params.whereStr = some whereExpr := by
  unfold compileWhere at ok
  unfold whereOf
  split at ok
  · cases ok
    simp_all
  · split at ok
    · cases ok
    · split at ok
      · cases ok
        simp_all
      · cases ok

theorem compileFeature_ok {nodeIdx opIdx : Nat} {featureName : String} {spec : AggSpec}
    (ok : compileFeature env schema nodeIdx opIdx keys featureName spec = .ok feature) :
    featureOfSpec env (featureName,spec) = some feature := by
  unfold compileFeature at ok
  obtain ⟨kind,kindOk,ok⟩ := Checked.bind_eq_ok ok
  obtain ⟨_,-,ok⟩ := Checked.bind_eq_ok ok
  obtain ⟨_,-,ok⟩ := Checked.bind_eq_ok ok
  obtain ⟨_,-,ok⟩ := Checked.bind_eq_ok ok
  obtain ⟨_,-,ok⟩ := Checked.bind_eq_ok ok
  obtain ⟨_,-,ok⟩ := Checked.bind_eq_ok ok
  obtain ⟨_,-,ok⟩ := Checked.bind_eq_ok ok
  obtain ⟨_,-,ok⟩ := Checked.bind_eq_ok ok
  obtain ⟨_,-,ok⟩ := Checked.bind_eq_ok ok
  obtain ⟨windowMs,windowOk,ok⟩ := Checked.bind_eq_ok ok
  obtain ⟨whereExpr,whereOk,ok⟩ := Checked.bind_eq_ok ok
  cases ok
  simp only [featureOfSpec,checkKind_ok kindOk,parseWindow_ok windowOk,
    compileWhere_ok env whereOk]

/-- A check that fails says why. -/
def Reports {α : Type} (check : Checks α) : Prop :=
  check ≠ .error []

theorem Reports.bind {β : Type} {check : Checks α} {next : α → Checks β} (reports : Reports check)
    (nextReports : ∀ value, Reports (next value)) : Reports (check >>= next) := by
  cases check with
  | error errors =>
      intro same
      exact reports (congrArg Except.error (Except.error.inj same))
  | ok value => exact nextReports value

theorem reports_ok (value : α) : Reports (.ok value) :=
  fun same => nomatch same

theorem reports_error (first : ValidationError) (rest : List ValidationError) :
    Reports (.error (first :: rest) : Checks α) :=
  fun same => nomatch same

theorem require_reports (holds : Bool) (code : ErrorCode) (path reason : String) :
    Reports (require holds code path reason) := by
  unfold require
  split
  · exact reports_ok ()
  · exact reports_error _ []

theorem checkKind_reports (path op : String) : Reports (checkKind path op) := by
  unfold checkKind
  split
  · exact reports_ok _
  · exact reports_error _ []

theorem checkField_reports (schema : Schema) (path op : String) (kind : AggKind)
    (params : AggParams) : Reports (checkField schema path op kind params) := by
  unfold checkField
  split
  · split <;> exact require_reports _ _ _ _
  · exact reports_ok ()

theorem checkN_reports (path op : String) (kind : AggKind) (params : AggParams) :
    Reports (checkN path op kind params) := by
  unfold checkN
  split
  · split
    · exact reports_error _ []
    · exact require_reports _ _ _ _
  · exact reports_ok ()

theorem checkSketch_reports (path : String) (kind : AggKind) (params : AggParams) :
    Reports (checkSketch env path kind params) := by
  unfold checkSketch
  split
  · exact reports_ok ()
  · rename_i notNil
    intro same
    exact notNil (Except.error.inj same)

theorem parseWindow_reports (path op : String) (kind : AggKind) (params : AggParams) :
    Reports (parseWindow path op kind params) := by
  unfold parseWindow
  split
  · exact reports_ok none
  · split
    · exact reports_error _ []
    · split
      · exact reports_error _ []
      · exact reports_ok _

theorem compileWhere_reports (schema : Schema) (path : String) (params : AggParams) :
    Reports (compileWhere env schema path params) := by
  unfold compileWhere
  split
  · exact reports_ok none
  · split
    · exact reports_error _ []
    · split
      · exact reports_ok _
      · rename_i notNil
        intro same
        exact notNil (Except.error.inj same)

theorem compileFeature_reports (schema : Schema) (nodeIdx opIdx : Nat) (keys : List String)
    (featureName : String) (spec : AggSpec) :
    Reports (compileFeature env schema nodeIdx opIdx keys featureName spec) := by
  refine (checkKind_reports _ _).bind fun kind => ?_
  refine (require_reports _ _ _ _).bind fun _ => ?_
  refine (require_reports _ _ _ _).bind fun _ => ?_
  refine (require_reports _ _ _ _).bind fun _ => ?_
  refine (checkField_reports _ _ _ _ _).bind fun _ => ?_
  refine (checkN_reports _ _ _ _).bind fun _ => ?_
  refine (require_reports _ _ _ _).bind fun _ => ?_
  refine (require_reports _ _ _ _).bind fun _ => ?_
  refine (checkSketch_reports env _ _ _).bind fun _ => ?_
  refine (parseWindow_reports _ _ _ _).bind fun _ => ?_
  refine (compileWhere_reports env _ _ _).bind fun _ => ?_
  exact reports_ok _

theorem featureOfSpec_fresh {entry : String × AggSpec}
    (compiled : featureOfSpec env entry = some feature) : declaredFeature feature = feature := by
  unfold featureOfSpec at compiled
  simp only at compiled
  split at compiled
  · cases compiled
    rfl
  · cases compiled

theorem compileFeatures_noErrors {nodeIdx opIdx : Nat}
    (noErrors : (compileFeatures env schema nodeIdx opIdx keys specs).1 = []) :
    specs.map (featureOfSpec env) =
      (compileFeatures env schema nodeIdx opIdx keys specs).2.map some := by
  induction specs with
  | nil => rfl
  | cons entry rest ih =>
      obtain ⟨featureName,spec⟩ := entry
      simp only [compileFeatures] at noErrors ⊢
      cases compiled : compileFeature env schema nodeIdx opIdx keys featureName spec with
      | error errors =>
          rw [compiled] at noErrors
          obtain ⟨rfl,-⟩ := List.append_eq_nil_iff.mp noErrors
          exact absurd compiled (compileFeature_reports env _ _ _ _ _ _)
      | ok feature =>
          rw [compiled] at noErrors
          simp only [List.map_cons,compileFeature_ok env compiled,ih noErrors]

/-- The aggregation is the one a `group_by` of the derivation declares. -/
structure CompiledFrom (derivation : DerivationDescriptor) (agg : AggregationDescriptor Expr) :
    Prop where
  nodeName : agg.nodeName = derivation.name
  source : derivation.upstreams.head? = some agg.sourceNodeName
  groupBy : ∃ (opIdx : Nat) (specs : StrMap AggSpec),
    derivation.ops[opIdx]? = some (.groupBy agg.groupKeys specs) ∧
      specs.toList.map (featureOfSpec env) = (agg.features.map declaredFeature).map some

/-- A compiled aggregation has no positions yet. -/
def Fresh (agg : AggregationDescriptor Expr) : Prop :=
  agg.features.map declaredFeature = agg.features

theorem fresh_of_specs {features : List (NamedAggOp Expr)}
    (compiled : specs.map (featureOfSpec env) = features.map some) :
    features.map declaredFeature = features := by
  refine (List.map_congr_left fun feature member => ?_).trans (List.map_id features)
  have inImage : some feature ∈ specs.map (featureOfSpec env) := by
    rw [compiled]
    exact List.mem_map_of_mem member
  obtain ⟨entry,-,entryCompiled⟩ := List.mem_map.mp inImage
  exact featureOfSpec_fresh env entryCompiled

section Compiled

variable {payload : List PayloadNode} {current : RegistryInner Expr}
  {propagated : List (String × Schema)}
variable {derivation : DerivationDescriptor} {agg : AggregationDescriptor Expr}
variable {name : String}

theorem compileGroupBy_some {nodeIdx opIdx : Nat}
    {keys : List String} {specs : StrMap AggSpec}
    (atOp : derivation.ops[opIdx]? = some (.groupBy keys specs))
    (compiled : (compileGroupBy env payload current propagated nodeIdx derivation opIdx keys
      specs).2 = some agg) :
    CompiledFrom env derivation agg ∧ Fresh agg := by
  unfold compileGroupBy at compiled
  split at compiled
  · cases compiled
  · rename_i upstream hasUpstream
    split at compiled
    · cases compiled
    · simp only at compiled
      split at compiled
      · cases compiled
      · split at compiled
        · rename_i noErrors
          cases compiled
          rw [List.isEmpty_iff,List.append_eq_nil_iff] at noErrors
          have features := compileFeatures_noErrors env noErrors.2
          have fresh := fresh_of_specs env features
          refine ⟨⟨rfl,hasUpstream,opIdx,specs,atOp,?_⟩,fresh⟩
          rw [fresh]
          exact features
        · cases compiled

theorem mem_compileDerivation {nodeIdx : Nat}
    (member : (name,agg) ∈
      (compileDerivation env payload current propagated nodeIdx derivation).2) :
    name = derivation.name ∧ CompiledFrom env derivation agg ∧ Fresh agg := by
  simp only [compileDerivation,List.mem_filterMap] at member
  obtain ⟨result,⟨entry,inOps,isResult⟩,named⟩ := member
  obtain ⟨op,opIdx⟩ := entry
  cases op with
  | groupBy keys specs =>
      cases isResult
      obtain ⟨compiledAgg,compiled,pairEq⟩ := Option.map_eq_some_iff.mp named
      cases pairEq
      have atOp := List.mk_mem_zipIdx_iff_getElem?.mp inOps
      exact ⟨rfl,compileGroupBy_some env atOp compiled⟩
  | _ => cases isResult

theorem mem_compileAggregationsFromNodes
    (member : (name,agg) ∈ (compileAggregationsFromNodes env payload current propagated).1) :
    ∃ derivation, .derivation derivation ∈ payload ∧ derivation.name = name ∧
      CompiledFrom env derivation agg ∧ Fresh agg := by
  simp only [compileAggregationsFromNodes,apply_ite Prod.fst,ite_self] at member
  obtain ⟨result,inResults,inResult⟩ := List.mem_flatMap.mp member
  obtain ⟨⟨node,nodeIdx⟩,inPayload,isResult⟩ := List.mem_filterMap.mp inResults
  cases node with
  | derivation derivation =>
      cases isResult
      obtain ⟨nameEq,compiled⟩ := mem_compileDerivation env inResult
      exact ⟨derivation,List.fst_mem_of_mem_zipIdx inPayload,nameEq.symm,compiled⟩
  | _ => cases isResult

end Compiled

theorem uniquenessErrors_nil {seen : StrMap Nat} {start : Nat}
    (noErrors : uniquenessErrors seen start payload = []) :
    (payload.map PayloadNode.name).Nodup ∧
      ∀ node ∈ payload, seen[node.name]? = none := by
  induction payload generalizing seen start with
  | nil => exact ⟨List.nodup_nil,fun _ member => nomatch member⟩
  | cons node rest ih =>
      unfold uniquenessErrors at noErrors
      split at noErrors
      · cases noErrors
      · rename_i notSeen
        obtain ⟨distinct,fresh⟩ := ih noErrors
        have notLater : ∀ other ∈ rest, node.name ≠ other.name ∧ seen[other.name]? = none := by
          intro other member
          have absent := fresh other member
          rw [KeyMap.lookup_insert] at absent
          split at absent
          · cases absent
          · rename_i different
            exact ⟨different,absent⟩
        refine ⟨?_,?_⟩
        · rw [List.map_cons,List.nodup_cons]
          refine ⟨fun inRest => ?_,distinct⟩
          obtain ⟨other,member,sameName⟩ := List.mem_map.mp inRest
          exact (notLater other member).1 sameName.symm
        · intro other member
          rcases List.mem_cons.mp member with rfl | inRest
          · exact notSeen
          · exact (notLater other inRest).2

theorem upstreamErrors_nil {check : Nat → Nat → String → Option ValidationError}
    (noErrors : upstreamErrors check payload = []) {position : Nat}
    {derivation : DerivationDescriptor}
    (atPosition : payload[position]? = some (.derivation derivation)) {upstream : String}
    (member : upstream ∈ derivation.upstreams) : ∃ j, check position j upstream = none := by
  obtain ⟨j,atUpstream⟩ := List.getElem?_of_mem member
  refine ⟨j,?_⟩
  have here := List.flatMap_eq_nil_iff.mp noErrors (.derivation derivation,position)
    (List.mk_mem_zipIdx_iff_getElem?.mpr atPosition)
  exact List.filterMap_eq_nil_iff.mp here (upstream,j)
    (List.mk_mem_zipIdx_iff_getElem?.mpr atUpstream)

/-! ### Acceptance -/

def Validates (current : RegistryInner Expr) (payload : List PayloadNode) : Prop :=
  ∃ validated, validatePayload env current payload = .ok validated

theorem validates_iff_isOk :
    (validatePayload env current payload).isOk = true ↔ Validates env current payload := by
  unfold Validates
  cases validatePayload env current payload with
  | ok | error => simp [Except.isOk,Except.toBool]

instance (current : RegistryInner Expr) (payload : List PayloadNode) :
    Decidable (Validates env current payload) :=
  decidable_of_iff _ (validates_iff_isOk env)

/-- What `validatePayload` promises of the result. -/
structure Accepted (current : RegistryInner Expr) (payload : List PayloadNode)
    (validated : ValidatedPayload Expr) : Prop where
  structural : structuralErrors current payload = []
  expressions : (validateExpressions env payload current).errors = []
  aggregations : (compileAggregationsFromNodes env payload current
    (validateExpressions env payload current).propagatedSchemas).2 = []
  result : validated =
    { nodes := payload
      compiledChains := (validateExpressions env payload current).compiledChains
      propagatedSchemas := (validateExpressions env payload current).propagatedSchemas
      compiledAggregations := (compileAggregationsFromNodes env payload current
        (validateExpressions env payload current).propagatedSchemas).1 }

theorem validatePayload_ok (notEmpty : payload ≠ [])
    (ok : validatePayload env current payload = .ok validated) :
    Accepted env current payload validated := by
  unfold validatePayload at ok
  rw [if_neg (by simpa using notEmpty)] at ok
  split at ok
  · rename_i structural
    simp only at ok
    split at ok
    · rename_i expressions
      split at ok
      · rename_i aggregations
        cases ok
        exact ⟨structural,expressions,aggregations,rfl⟩
      · cases ok
    · cases ok
  · cases ok

theorem validatePayload_nodes (ok : validatePayload env current payload = .ok validated) :
    validated.nodes = payload := by
  by_cases isEmpty : payload = []
  · subst isEmpty
    cases ok
    rfl
  · rw [(validatePayload_ok env isEmpty ok).result]

theorem validatePayload_of_accepted (notEmpty : payload ≠ [])
    (accepted : Accepted env current payload validated) :
    validatePayload env current payload = .ok validated := by
  unfold validatePayload
  rw [if_neg (by simpa using notEmpty),accepted.structural]
  simp only [accepted.expressions,accepted.aggregations]
  rw [accepted.result]

namespace Accepted

variable {env} {current : RegistryInner Expr} {payload : List PayloadNode}
  {validated : ValidatedPayload Expr}

theorem rules (accepted : Accepted env current payload validated) :
    (((validateUniquenessWithinPayload payload = [] ∧
      payload.zipIdx.flatMap (fun entry => validateNode entry.2 entry.1) = []) ∧
      validateUpstreams payload current = []) ∧
      validateTopologicalOrder payload = []) ∧
      validateAcyclicity payload current = [] := by
  have structural := accepted.structural
  simp only [structuralErrors,List.append_eq_nil_iff] at structural
  exact structural

theorem nodup (accepted : Accepted env current payload validated) :
    (payload.map PayloadNode.name).Nodup :=
  (uniquenessErrors_nil accepted.rules.1.1.1.1).1

theorem eq_of_name (accepted : Accepted env current payload validated) {first second : PayloadNode}
    (firstMember : first ∈ payload) (secondMember : second ∈ payload)
    (sameName : first.name = second.name) : first = second :=
  List.inj_on_of_nodup_map accepted.nodup firstMember secondMember sameName

end Accepted

end Beava.Registry
