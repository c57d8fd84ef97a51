/-
Reading a table by a textual key.

A push finds its entity by the values of the group keys: one column gives a
tagged word or a string, several columns give their texts.  A read has only a
text, cuts it at the separators and looks the parts up as strings.  The two meet
in the same entity only where the text determines the key.
-/

import Beava.Apply.EntityKeys
import Beava.Server.Push
import Beava.Server.Reached

namespace Beava.Server

open Beava.Core Beava.Apply Beava.Registry

variable {Expr Op : Type}
variable {row : Row} {keys : List String} {entity : EntityKeyShape}
variable {texts : List String} {live : Live Expr Op}

def splitAtPipe (text : String) : List String :=
  (text.toList.splitOn '|').map String.ofList

def parseEntityKey (keyStr : String) (groupKeys : List String) : Option CompoundKey :=
  if groupKeys.isEmpty && keyStr.isEmpty then some []
  else if (splitAtPipe keyStr).length ≠ groupKeys.length then none
  else some (groupKeys.zip (splitAtPipe keyStr))

theorem length_splitOn {α : Type} [DecidableEq α] (separator : α) (items : List α) :
    (items.splitOn separator).length = items.count separator + 1 := by
  induction items with
  | nil => rfl
  | cons item rest ih =>
      rw [List.splitOn_cons_eq_if_modifyHead,List.count_cons]
      split
      · rw [List.length_cons,ih]
      · rw [List.length_modifyHead,ih,Nat.add_zero]

theorem length_splitOn_intercalate {α : Type} [DecidableEq α] {separator : α}
    {parts : List (List α)} (someParts : parts ≠ []) :
    (([separator].intercalate parts).splitOn separator).length = parts.length ↔
      ∀ part ∈ parts, separator ∉ part := by
  have counted : ∀ {parts : List (List α)}, parts ≠ [] →
      ([separator].intercalate parts).count separator + 1 =
        (parts.map (List.count separator)).sum + parts.length := by
    intro parts
    induction parts with
    | nil => exact fun isNil => absurd rfl isNil
    | cons part rest ih =>
        intro _
        cases rest with
        | nil => simp [List.intercalate]
        | cons next others =>
            have later := ih (List.cons_ne_nil next others)
            rw [List.intercalate_cons_cons,List.count_append,List.count_append,
              List.map_cons,List.sum_cons,List.length_cons]
            simp only [List.count_singleton_self]
            omega
  rw [length_splitOn,counted someParts]
  constructor
  · intro sameLength part member
    have noSeparators : (parts.map (List.count separator)).sum = 0 := by omega
    rw [List.sum_eq_zero_iff_forall_eq_nat] at noSeparators
    exact List.count_eq_zero.mp (noSeparators _ (List.mem_map_of_mem member))
  · intro free
    have noSeparators : (parts.map (List.count separator)).sum = 0 := by
      rw [List.sum_eq_zero_iff_forall_eq_nat]
      intro count member
      obtain ⟨part,inParts,rfl⟩ := List.mem_map.mp member
      exact List.count_eq_zero.mpr (free part inParts)
    omega

def entityOps (table : AggStateTable Op) (key : CompoundKey) : Option (List Op) :=
  match key with
  | [(_,text)] => (table.rows.get (.singleStr text)).or (table.rows.get (.multi key))
  | key => table.rows.get (.multi key)

/-- `query_feature`; `query` reads the value of an operator state. -/
def queryFeature (query : Op → Int64 → Value) (table : AggStateTable Op) (key : CompoundKey)
    (featureIndex : Nat) (queryTimeMs : Int64) : Option Value :=
  ((entityOps table key).bind fun ops => ops[featureIndex]?).map fun op => query op queryTimeMs

inductive GetResponse where
  | value (value : Value)
  | row (features : List (String × Value))
  | notFound (code : String)
  | internalError (reason : String)
  deriving DecidableEq

def queryRow (query : Op → Int64 → Value) (agg : AggregationDescriptor Expr)
    (table : AggStateTable Op) (key : CompoundKey) (queryTimeMs : Int64) :
    List (String × Value) :=
  agg.features.zipIdx.filterMap fun entry =>
    (queryFeature query table key entry.2 queryTimeMs).map fun value =>
      (entry.1.featureName,value)

/-- `dispatch_get_single`: a feature first, then an aggregation. -/
def dispatchGetSingle (query : Op → Int64 → Value) (registry : RegistryInner Expr)
    (tables : StateTables Op) (feature key : String) (queryTimeMs : Int64) : GetResponse :=
  match registry.featureIndex[feature]? with
  | some (aggNode,featureIdx) =>
      match registry.compiledAggregations[aggNode]? with
      | none => .internalError "internal_error"
      | some agg =>
          match parseEntityKey key agg.groupKeys with
          | none => .notFound "key_parse_failure"
          | some entityKey =>
              match queryFeature query (StateTables.tableAt tables agg.aggId) entityKey
                  featureIdx queryTimeMs with
              | some value => .value value
              | none => .notFound "key_not_found"
  | none =>
      match registry.compiledAggregations[feature]? with
      | none => .notFound "feature_not_found"
      | some agg =>
          match parseEntityKey key agg.groupKeys with
          | none => .notFound "key_parse_failure"
          | some entityKey =>
              match queryRow query agg (StateTables.tableAt tables agg.aggId) entityKey
                  queryTimeMs with
              | [] => .notFound "key_not_found"
              | features => .row features

/-- The table of an aggregation with other states for one entity. -/
def withStates (tables : StateTables Op) (aggId : Nat) (entity : EntityKeyShape)
    (states : List Op) : StateTables Op :=
  let table := StateTables.tableAt tables aggId
  StateTables.setTable tables aggId { table with rows := table.rows.insert entity states }

/-- What a read by name answers of an entity with these states: one value where the name
is that of a feature, all features of the table otherwise. -/
def entityAnswer (query : Op → Int64 → Value) (registry : RegistryInner Expr) (name : String)
    (agg : AggregationDescriptor Expr) (states : List Op) (queryTimeMs : Int64) : GetResponse :=
  match registry.featureIndex[name]? with
  | some (_,featureIdx) =>
      match states[featureIdx]? with
      | some op => .value (query op queryTimeMs)
      | none => .notFound "key_not_found"
  | none =>
      match agg.features.zipIdx.filterMap fun entry =>
          states[entry.2]?.map fun op => (entry.1.featureName,query op queryTimeMs) with
      | [] => .notFound "key_not_found"
      | features => .row features

/-- A table without features has nothing to answer with. -/
def AnswersNothing (registry : RegistryInner Expr) (name : String)
    (agg : AggregationDescriptor Expr) : Prop :=
  registry.featureIndex[name]? = none ∧ agg.features = []

/-- The read answers of the entity and of no other: its answer is that of the states of the
entity, and of any states that are put in their place. -/
structure AnswersFrom (registry : RegistryInner Expr) (tables : StateTables Op)
    (name key : String) (agg : AggregationDescriptor Expr) (entity : EntityKeyShape) : Prop where
  answer : ∀ states, (StateTables.tableAt tables agg.aggId).rows.get entity = some states →
    ∀ query queryTimeMs, dispatchGetSingle query registry tables name key queryTimeMs =
      entityAnswer query registry name agg states queryTimeMs
  follows : ∀ states query queryTimeMs,
    dispatchGetSingle query registry (withStates tables agg.aggId entity states) name key
        queryTimeMs =
      entityAnswer query registry name agg states queryTimeMs

variable (env : Env Expr)

/-- The texts of the group keys: integers in decimal, flags as `true` and
`false`. -/
def keyTexts (row : Row) (groupKeys : List String) : Option (List String) :=
  groupKeys.mapM fun key => (row.get key).bind (canonicalText env)

def renderedKey (texts : List String) : String :=
  "|".intercalate texts

variable {env}

theorem length_keyTexts (rendered : keyTexts env row keys = some texts) :
    texts.length = keys.length := by
  induction keys generalizing texts with
  | nil => cases rendered; rfl
  | cons key rest ih =>
      rw [keyTexts,List.mapM_cons] at rendered
      simp only [Option.bind_eq_bind,Option.bind_eq_some_iff,Option.pure_def,
        Option.some_inj] at rendered
      obtain ⟨text,-,others,restEq,rfl⟩ := rendered
      exact congrArg (· + 1) (ih restEq)

theorem compoundPairs_eq_keyTexts (row : Row) (keys : List String) :
    compoundPairs env row keys = (keyTexts env row keys).map keys.zip := by
  induction keys with
  | nil => rfl
  | cons key rest ih =>
      rw [compoundPairs,ih,keyTexts,keyTexts,List.mapM_cons]
      cases (row.get key).bind (canonicalText env) with
      | none => rfl
      | some text =>
          cases rest.mapM fun key => (row.get key).bind (canonicalText env) <;> rfl

theorem parseEntityKey_rendered (sameLength : texts.length = keys.length) :
    parseEntityKey (renderedKey texts) keys =
      if ∀ text ∈ texts, '|' ∉ text.toList then some (keys.zip texts) else none := by
  cases texts with
  | nil =>
      have noKeys : keys = [] := List.length_eq_zero_iff.mp sameLength.symm
      subst noKeys
      rfl
  | cons text rest =>
      have someKeys : keys.isEmpty = false := by
        cases keys <;> simp_all
      have joined : (renderedKey (text :: rest)).toList =
          ['|'].intercalate ((text :: rest).map String.toList) := String.toList_intercalate
      have partsLength : ((text :: rest).map String.toList).length = keys.length := by
        rw [List.length_map,sameLength]
      have someParts : (text :: rest).map String.toList ≠ [] := by simp
      have lengthIff := @length_splitOn_intercalate Char _ '|' _ someParts
      have freeIff : (∀ part ∈ (text :: rest).map String.toList, '|' ∉ part) ↔
          ∀ other ∈ text :: rest, '|' ∉ other.toList := List.forall_mem_map
      rw [parseEntityKey,someKeys,Bool.false_and,splitAtPipe,joined,List.length_map]
      rw [partsLength,freeIff] at lengthIff
      by_cases free : ∀ other ∈ text :: rest, '|' ∉ other.toList
      · have parts := List.splitOn_intercalate '|' (freeIff.mpr free) someParts
        rw [if_pos free,if_neg (not_not_intro (lengthIff.mpr free)),if_neg (by decide),parts,
          List.map_map]
        congr 2
        exact (List.map_congr_left fun other _ => String.ofList_toList).trans (List.map_id _)
      · rw [if_neg free,if_neg (by decide),if_pos fun same => free (lengthIff.mp same)]

theorem canonicalText_of_singleShape {value : Value} {entity : EntityKeyShape}
    (shape : singleShape value = some entity) : ∃ text, canonicalText env value = some text := by
  cases value with
  | f64 number =>
      rw [singleShape] at shape
      rw [canonicalText]
      split at shape
      · cases shape
      · rename_i notNaN
        exact ⟨env.debugF64 number,if_neg notNaN⟩
  | _ => first | cases shape; done | exact ⟨_,rfl⟩

theorem singleShape_cases {value : Value} (shape : singleShape value = some entity) :
    (∃ text, value = .str text ∧ entity = .singleStr text) ∨ ∃ word, entity = .singleU64 word := by
  cases value with
  | str text => exact .inl ⟨text,rfl,(Option.some_inj.mp shape).symm⟩
  | f64 number =>
      rw [singleShape] at shape
      split at shape
      · cases shape
      · exact .inr ⟨_,(Option.some_inj.mp shape).symm⟩
  | _ => first | cases shape; done | exact .inr ⟨_,(Option.some_inj.mp shape).symm⟩

theorem keyTexts_of_fromRow (shape : EntityKeyShape.fromRow env keys row = some entity) :
    ∃ texts, keyTexts env row keys = some texts := by
  by_cases single : ∃ key, keys = [key]
  · obtain ⟨key,rfl⟩ := single
    rw [EntityKeyShape.fromRow,Option.bind_eq_some_iff] at shape
    obtain ⟨value,valueEq,shape⟩ := shape
    obtain ⟨text,textEq⟩ := @canonicalText_of_singleShape _ env _ _ shape
    exact ⟨[text],by simp [keyTexts,valueEq,textEq]⟩
  · rw [fromRow_of_several env fun key same => single ⟨key,same⟩,compoundPairs_eq_keyTexts] at shape
    cases texts : keyTexts env row keys with
    | none => rw [texts] at shape; cases shape
    | some found => exact ⟨found,rfl⟩

def SingleKeyIsStr (groupKeys : List String) (row : Row) : Prop :=
  ∀ key, groupKeys = [key] → ∃ text, row.get key = some (.str text)

theorem singleKeyIsStr_or_word (shape : EntityKeyShape.fromRow env keys row = some entity) :
    SingleKeyIsStr keys row ∨ ∃ word, entity = .singleU64 word := by
  by_cases single : ∃ key, keys = [key]
  · obtain ⟨key,rfl⟩ := single
    rw [EntityKeyShape.fromRow,Option.bind_eq_some_iff] at shape
    obtain ⟨value,valueEq,shape⟩ := shape
    rcases singleShape_cases shape with ⟨text,rfl,-⟩ | isWord
    · left
      intro other same
      cases same
      exact ⟨text,valueEq⟩
    · exact .inr isWord
  · exact .inl fun key same => absurd ⟨key,same⟩ single

/-- The parts of the text find the states of the entity, if a key of one column is a string. -/
theorem entityOps_texts {table : AggStateTable Op}
    (shape : EntityKeyShape.fromRow env keys row = some entity)
    (rendered : keyTexts env row keys = some texts) (isStr : SingleKeyIsStr keys row)
    {states : List Op} (present : table.rows.get entity = some states) :
    entityOps table (keys.zip texts) = some states := by
  by_cases single : ∃ key, keys = [key]
  · obtain ⟨key,rfl⟩ := single
    obtain ⟨text,textEq⟩ := isStr key rfl
    rw [EntityKeyShape.fromRow,textEq] at shape
    cases shape
    have textsEq : [text] = texts := by simpa [keyTexts,textEq,canonicalText] using rendered
    subst textsEq
    simp [entityOps,present]
  · have several : ∀ key, keys ≠ [key] := fun key same => single ⟨key,same⟩
    rw [fromRow_of_several env several,compoundPairs_eq_keyTexts,rendered] at shape
    cases shape
    have lengthEq := length_keyTexts rendered
    have notSingle : ∀ pair, keys.zip texts ≠ [pair] := by
      intro pair same
      have zipped := congrArg List.length same
      rw [List.length_zip,lengthEq,Nat.min_self,List.length_singleton,
        List.length_eq_one_iff] at zipped
      exact single zipped
    unfold entityOps
    split
    · rename_i same
      exact absurd same (notSingle _)
    · exact present

theorem entityOps_insert_word (table : AggStateTable Op) (word : UInt64) (states : List Op)
    (key : CompoundKey) :
    entityOps { table with rows := table.rows.insert (.singleU64 word) states } key =
      entityOps table key := by
  unfold entityOps
  split <;> rfl

/-! ### The answer of a read -/

theorem tableAt_withStates (tables : StateTables Op) (aggId other : Nat) (entity : EntityKeyShape)
    (states : List Op) :
    StateTables.tableAt (withStates tables aggId entity states) other =
      if aggId = other then
        { StateTables.tableAt tables aggId with
          rows := (StateTables.tableAt tables aggId).rows.insert entity states }
      else StateTables.tableAt tables other :=
  StateTables.tableAt_setTable ..

section Answers

variable {registry : RegistryInner Expr} {name : String} {agg : AggregationDescriptor Expr}
  (compiled : registry.compiledAggregations[name]? = some agg)
  (query : Op → Int64 → Value) (queryTimeMs : Int64)

theorem entityAnswer_nil :
    entityAnswer query registry name agg [] queryTimeMs = .notFound "key_not_found" := by
  unfold entityAnswer
  cases registry.featureIndex[name]? with
  | none =>
      have noFeatures : (agg.features.zipIdx.filterMap fun entry =>
          ([] : List Op)[entry.2]?.map fun op =>
            (entry.1.featureName,query op queryTimeMs)) = [] :=
        List.filterMap_eq_nil_iff.mpr fun entry _ => rfl
      simp only [noFeatures]
  | some owner => rfl

theorem entityAnswer_found (answers : ¬ AnswersNothing registry name agg) (op : Op) :
    ∃ states, ∀ code, entityAnswer query registry name agg states queryTimeMs ≠ .notFound code := by
  unfold entityAnswer
  cases indexed : registry.featureIndex[name]? with
  | none =>
      refine ⟨[op],fun code => ?_⟩
      have someFeature : agg.features ≠ [] := fun noFeatures => answers ⟨indexed,noFeatures⟩
      obtain ⟨feature,rest,features⟩ := List.exists_cons_of_ne_nil someFeature
      simp [features]
  | some owner => exact ⟨List.replicate (owner.2 + 1) op,fun code => by simp⟩

theorem entityAnswer_of_answersNothing (nothing : AnswersNothing registry name agg)
    (states : List Op) :
    entityAnswer query registry name agg states queryTimeMs = .notFound "key_not_found" := by
  obtain ⟨noOwner,noFeatures⟩ := nothing
  simp only [entityAnswer,noOwner,noFeatures,List.zipIdx_nil,List.filterMap_nil]

include compiled

theorem dispatchGetSingle_own (own : ∀ owner ∈ registry.featureIndex[name]?, owner.1 = name)
    (tables : StateTables Op) (key : String) :
    dispatchGetSingle query registry tables name key queryTimeMs =
      match parseEntityKey key agg.groupKeys with
      | none => .notFound "key_parse_failure"
      | some entityKey =>
          entityAnswer query registry name agg
            ((entityOps (StateTables.tableAt tables agg.aggId) entityKey).getD []) queryTimeMs := by
  unfold dispatchGetSingle
  cases indexed : registry.featureIndex[name]? with
  | none =>
      simp only [compiled]
      cases parseEntityKey key agg.groupKeys with
      | none => rfl
      | some entityKey =>
          simp only [entityAnswer,indexed,queryRow,queryFeature]
          cases entityOps (StateTables.tableAt tables agg.aggId) entityKey with
          | none =>
              have noFeatures : (agg.features.zipIdx.filterMap fun entry =>
                  ((none : Option (List Op)).getD [])[entry.2]?.map fun op =>
                    (entry.1.featureName,query op queryTimeMs)) = [] :=
                List.filterMap_eq_nil_iff.mpr fun entry _ => rfl
              have noRow : (agg.features.zipIdx.filterMap fun entry =>
                  (((none : Option (List Op)).bind fun ops => ops[entry.2]?).map fun op =>
                    query op queryTimeMs).map fun value => (entry.1.featureName,value)) = [] :=
                List.filterMap_eq_nil_iff.mpr fun entry _ => rfl
              simp only [noFeatures,noRow]
          | some states =>
              simp only [Option.bind_some,Option.map_map,Option.getD_some]
              rfl
  | some owner =>
      obtain ⟨node,featureIdx⟩ := owner
      cases own _ indexed
      simp only [compiled]
      cases parseEntityKey key agg.groupKeys with
      | none => rfl
      | some entityKey =>
          simp only [entityAnswer,indexed,queryFeature]
          cases entityOps (StateTables.tableAt tables agg.aggId) entityKey with
          | none => rfl
          | some states =>
              simp only [Option.bind_some,Option.getD_some]
              cases states[featureIdx]? <;> rfl

omit compiled in
theorem dispatchGetSingle_other (distinct : ∀ {other : String}
      {otherAgg : AggregationDescriptor Expr},
      registry.compiledAggregations[other]? = some otherAgg → agg.aggId = otherAgg.aggId →
        name = other)
    {owner : String × Nat} (indexed : registry.featureIndex[name]? = some owner)
    (different : owner.1 ≠ name) (tables : StateTables Op) (key : String)
    (entity : EntityKeyShape) (states : List Op) :
    dispatchGetSingle query registry (withStates tables agg.aggId entity states) name key
        queryTimeMs =
      dispatchGetSingle query registry tables name key queryTimeMs := by
  unfold dispatchGetSingle
  simp only [indexed]
  cases other : registry.compiledAggregations[owner.1]? with
  | none => rfl
  | some otherAgg =>
      have apart : agg.aggId ≠ otherAgg.aggId := fun same => different (distinct other same).symm
      simp only [tableAt_withStates,if_neg apart]

end Answers

/-- The key is readable by its text: the name of the table is not the name of a
feature of another table, no part contains the separator, and a key of one column
is a string, unless there is nothing to read. -/
def ReadableByText (registry : RegistryInner Expr) (name : String)
    (agg : AggregationDescriptor Expr) (row : Row) (texts : List String) : Prop :=
  (∀ owner ∈ registry.featureIndex[name]?, owner.1 = name) ∧
    (∀ text ∈ texts, '|' ∉ text.toList) ∧
    (SingleKeyIsStr agg.groupKeys row ∨ AnswersNothing registry name agg)

section Readable

variable {registry : RegistryInner Expr} {name : String} {agg : AggregationDescriptor Expr}
  {row : Row} {texts : List String} {entity : EntityKeyShape}
  (compiled : registry.compiledAggregations[name]? = some agg)
  (shape : EntityKeyShape.fromRow env agg.groupKeys row = some entity)
  (rendered : keyTexts env row agg.groupKeys = some texts)

include compiled shape rendered

theorem answersFrom_of_readable (readable : ReadableByText registry name agg row texts)
    (tables : StateTables Op) :
    AnswersFrom registry tables name (renderedKey texts) agg entity := by
  obtain ⟨own,free,isStr⟩ := readable
  have parsed := parseEntityKey_rendered (length_keyTexts rendered)
  rw [if_pos free] at parsed
  have answers : ∀ tables states,
      (StateTables.tableAt tables agg.aggId).rows.get entity = some states →
        ∀ (query : Op → Int64 → Value) (queryTimeMs : Int64),
          dispatchGetSingle query registry tables name (renderedKey texts) queryTimeMs =
            entityAnswer query registry name agg states queryTimeMs := by
    intro tables states present query queryTimeMs
    rw [dispatchGetSingle_own compiled query queryTimeMs own]
    simp only [parsed]
    rcases isStr with isStr | nothing
    · rw [entityOps_texts shape rendered isStr present,Option.getD_some]
    · rw [entityAnswer_of_answersNothing query queryTimeMs nothing,
        entityAnswer_of_answersNothing query queryTimeMs nothing]
  refine ⟨answers tables,fun states => answers _ states ?_⟩
  rw [tableAt_withStates,if_pos rfl]
  exact (ShapeMap.get_insert ..).trans (if_pos rfl)

/-- Where the key is not readable by its text, the answer does not depend on the states of the
entity, or it is not that of any states. -/
theorem readable_of_answersFrom (distinct : ∀ {other : String}
      {otherAgg : AggregationDescriptor Expr},
      registry.compiledAggregations[other]? = some otherAgg → agg.aggId = otherAgg.aggId →
        name = other)
    (op : Op) {tables : StateTables Op}
    (answers : AnswersFrom registry tables name (renderedKey texts) agg entity) :
    ReadableByText registry name agg row texts := by
  let query : Op → Int64 → Value := fun _ _ => .null
  have none := (answers.follows [] query 0).trans (entityAnswer_nil query 0)
  have own : ∀ owner ∈ registry.featureIndex[name]?, owner.1 = name := by
    intro owner indexed
    by_contra different
    have someAnswer : ¬ AnswersNothing registry name agg := by
      rintro ⟨noOwner,-⟩
      rw [noOwner] at indexed
      cases indexed
    obtain ⟨states,found⟩ := entityAnswer_found query 0 someAnswer op
    have some := answers.follows states query 0
    rw [dispatchGetSingle_other query 0 distinct indexed different] at none some
    exact found _ (some.symm.trans none)
  have parsed := parseEntityKey_rendered (length_keyTexts rendered)
  rw [dispatchGetSingle_own compiled query 0 own] at none
  have free : ∀ text ∈ texts, '|' ∉ text.toList := by
    by_contra notFree
    rw [if_neg notFree] at parsed
    simp only [parsed,GetResponse.notFound.injEq] at none
    exact absurd none (by decide)
  refine ⟨own,free,or_iff_not_imp_right.mpr fun someAnswer => ?_⟩
  obtain ⟨states,found⟩ := entityAnswer_found query 0 someAnswer op
  have some := answers.follows states query 0
  rw [dispatchGetSingle_own compiled query 0 own] at some
  rw [if_pos free] at parsed
  refine (singleKeyIsStr_or_word shape).resolve_right ?_
  rintro ⟨word,rfl⟩
  simp only [parsed,tableAt_withStates,if_true,entityOps_insert_word] at none some
  exact found _ (some.symm.trans none)

end Readable

/-! ### Runs -/

variable {ops : Operators Expr Op}

def liveAfter (env : Env Expr) (ops : Operators Expr Op) (actions : List Action) : Live Expr Op :=
  Machine.run (Live.next env ops) Live.start actions

theorem next_reached (reached : Reached env live.registry) (action : Action) :
    Reached env (live.next env ops action).registry := by
  cases action with
  | register call append => exact reached.step call append
  | push eventName row nowMs =>
      simp only [Live.next]
      cases pushError live.registry eventName row <;> exact reached

theorem liveAfter_reached (env : Env Expr) (ops : Operators Expr Op) (actions : List Action) :
    Reached env (liveAfter env ops actions).registry := by
  have runs : ∀ {live : Live Expr Op}, Reached env live.registry →
      Reached env (Machine.run (Live.next env ops) live actions).registry := by
    induction actions with
    | nil => exact id
    | cons action rest ih => exact fun reached => ih (next_reached reached action)
  exact runs reached_empty

theorem push_states (wellFormed : WellFormed env live.registry)
    (signatures : SignaturesExact env live.registry) {name eventName : String}
    {agg : AggregationDescriptor Expr}
    (compiled : live.registry.compiledAggregations[name]? = some agg)
    (source : agg.sourceNodeName = eventName)
    (accepted : pushError live.registry eventName row = none)
    (updates : updatedEntity env live.registry agg row = some entity) (nowMs : Int64) :
    (live.next env ops (.push eventName row nowMs)).registry = live.registry ∧
      ∃ states, (StateTables.tableAt (live.next env ops (.push eventName row nowMs)).tables
        agg.aggId).rows.get entity = some states := by
  simp only [Live.next,accepted,true_and]
  have member := (mem_aggregationsForSource wellFormed compiled).mpr source.symm
  rw [applyEvent,applyEventWithDescs_stepTable wellFormed (List.Sublist.refl _) signatures compiled
    _ _ _ _ member]
  exact (stepTable_rows ops updates ..).1

/-- A read by the text of the pushed key answers of the entity of the push exactly when the
key is readable by its text. -/
theorem get_addresses_pushed_iff (env : Env Expr) (ops : Operators Expr Op)
    (actions : List Action) (eventName : String) (row : Row) (nowMs : Int64) (name : String)
    (agg : AggregationDescriptor Expr) (entity : EntityKeyShape)
    (signatures : SignaturesExact env (liveAfter env ops actions).registry)
    (accepted : pushError (liveAfter env ops actions).registry eventName row = none)
    (compiled : (liveAfter env ops actions).registry.compiledAggregations[name]? = some agg)
    (source : agg.sourceNodeName = eventName)
    (updates : updatedEntity env (liveAfter env ops actions).registry agg row = some entity) :
    ∃ texts states, keyTexts env row agg.groupKeys = some texts ∧
      (StateTables.tableAt
          ((liveAfter env ops actions).next env ops (.push eventName row nowMs)).tables
          agg.aggId).rows.get entity = some states ∧
      (AnswersFrom ((liveAfter env ops actions).next env ops (.push eventName row nowMs)).registry
          ((liveAfter env ops actions).next env ops (.push eventName row nowMs)).tables name
          (renderedKey texts) agg entity ↔
        ReadableByText (liveAfter env ops actions).registry name agg row texts) := by
  have wellFormed := (liveAfter_reached env ops actions).wellFormed
  have shape := fromRow_of_updatedEntity updates
  obtain ⟨texts,rendered⟩ := keyTexts_of_fromRow shape
  obtain ⟨sameRegistry,states,present⟩ :=
    push_states wellFormed signatures compiled source accepted updates nowMs
  refine ⟨texts,states,rendered,present,?_⟩
  rw [sameRegistry]
  exact ⟨readable_of_answersFrom compiled shape rendered
      (fun other same => wellFormed.idsDistinct compiled other same)
      (ops.new ⟨.count,none,none,none,none,none,none,none,none,
        extractExtParams env .null,0,[]⟩),
    fun readable => answersFrom_of_readable compiled shape rendered readable _⟩

def keyedRun : List Action :=
  [sampleRegister
    [sampleEvent "E",sampleTable "A" "E" [] "a" "last" "x",
      .derivation
        { name := "B"
          outputKind := .table
          upstreams := ["E"]
          ops := [.groupBy ["x"]
            (.ofList [("b",AggSpec.mk "last" (.object [("field",.string "y")]))])]
          schema := ⟨.ofList [("x",FieldType.i64),("b",FieldType.i64)],[]⟩
          tablePrimaryKey := some ["x"]
          registeredAtVersion := 0 }] false]

abbrev keyedRegistry : RegistryInner Empty :=
  (liveAfter sampleEnv sampleOps keyedRun).registry

def aggregationByText : AggregationDescriptor Empty :=
  keyedRegistry.compiledAggregations["A"]?.get (by decide)

def aggregationByNumber : AggregationDescriptor Empty :=
  keyedRegistry.compiledAggregations["B"]?.get (by decide)

def sampleQuery (state : Option Int64) (_queryTimeMs : Int64) : Value :=
  (state.map Value.i64).getD .null

abbrev keyedPushed : Live Empty (Option Int64) :=
  (liveAfter sampleEnv sampleOps keyedRun).next sampleEnv sampleOps
    (.push "E" (sampleRow "u" 1 2) 7)

theorem get_addresses_pushed_text :
    ∃ texts states,
      keyTexts sampleEnv (sampleRow "u" 1 2) aggregationByText.groupKeys = some texts ∧
      (StateTables.tableAt keyedPushed.tables aggregationByText.aggId).rows.get (.singleStr "u") =
        some states ∧
      (AnswersFrom keyedPushed.registry keyedPushed.tables "A" (renderedKey texts)
          aggregationByText (.singleStr "u") ↔
        ReadableByText keyedRegistry "A" aggregationByText (sampleRow "u" 1 2) texts) :=
  get_addresses_pushed_iff sampleEnv sampleOps keyedRun "E" (sampleRow "u" 1 2) 7 "A"
    aggregationByText (.singleStr "u") (by decide) (by decide)
    (Option.some_get _).symm (by decide) (by decide)

/-- The push updates the entity of the number 1, and a read by the text `1` does not answer
with its feature. -/
theorem numberKey_not_addressed :
    pushError keyedRegistry "E" (sampleRow "u" 1 2) = none ∧
    aggregationByNumber.sourceNodeName = "E" ∧
    updatedEntity sampleEnv keyedRegistry aggregationByNumber (sampleRow "u" 1 2) =
      some (.singleU64 (tagU64 .i64 1)) ∧
    keyTexts sampleEnv (sampleRow "u" 1 2) aggregationByNumber.groupKeys = some ["1"] ∧
    (StateTables.tableAt keyedPushed.tables aggregationByNumber.aggId).rows.get
      (.singleU64 (tagU64 .i64 1)) = some [some 2] ∧
    entityAnswer sampleQuery keyedPushed.registry "B" aggregationByNumber [some 2] 7 =
      .row [("b",.i64 2)] ∧
    dispatchGetSingle sampleQuery keyedPushed.registry keyedPushed.tables "B" (renderedKey ["1"])
      7 = .notFound "key_not_found" := by
  decide

/-- Two rows that reach the table of an aggregation update the same entity when
they have the same key. -/
theorem sameEntity_iff_sameKey (env : Env Expr) (registry : RegistryInner Expr)
    (agg : AggregationDescriptor Expr) (first second : Row) (entity other : EntityKeyShape)
    (updates : updatedEntity env registry agg first = some entity)
    (otherUpdates : updatedEntity env registry agg second = some other)
    (keyed : ∀ key ∈ agg.groupKeys, IsKeyValue (first.get key) ∧ IsKeyValue (second.get key)) :
    entity = other ↔ SameKey agg.groupKeys first second := by
  rw [← fromRow_eq_iff env keyed,fromRow_of_updatedEntity updates,
    fromRow_of_updatedEntity otherUpdates,Option.some_inj]

theorem sameEntity_iff_sameKey_texts :
    EntityKeyShape.singleStr "u" = .singleStr "v" ↔
      SameKey aggregationByText.groupKeys (sampleRow "u" 1 2) (sampleRow "v" 1 2) :=
  sameEntity_iff_sameKey sampleEnv keyedRegistry aggregationByText (sampleRow "u" 1 2)
    (sampleRow "v" 1 2) (.singleStr "u") (.singleStr "v") (by decide) (by decide)
    (by decide)

/-- Two numbers that differ in the bits above the sixtieth update one entity. -/
theorem wideNumbers_sameEntity :
    pushError keyedRegistry "E" (sampleRow "u" 0 2) = none ∧
    pushError keyedRegistry "E" (sampleRow "u" 1152921504606846976 2) = none ∧
    aggregationByNumber.groupKeys = ["x"] ∧
    updatedEntity sampleEnv keyedRegistry aggregationByNumber (sampleRow "u" 0 2) =
      some (.singleU64 (tagU64 .i64 0)) ∧
    updatedEntity sampleEnv keyedRegistry aggregationByNumber
      (sampleRow "u" 1152921504606846976 2) = some (.singleU64 (tagU64 .i64 0)) ∧
    (sampleRow "u" 0 2).get "x" ≠ (sampleRow "u" 1152921504606846976 2).get "x" := by
  decide

end Beava.Server
