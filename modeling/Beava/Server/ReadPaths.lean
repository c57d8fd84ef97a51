/-
The four ways to read a feature.

A feature is read by its name, in the row of its table, in a batch of keys and
features, or in a batch of tables and keys.  Each path finds the table, the entity
and the position of the feature on its own, and they find the same; but the batch
of tables and keys reads at the time of the last push, where the others read at
the wall clock when that is later.  What an operator reports at two times is told
by its kind and its state.
-/

import Beava.Agg.Inputs
import Beava.Core.ValueText
import Beava.Server.Lookup
import Beava.Server.Representation

namespace Beava.Server

open Beava.Core Beava.Apply Beava.Registry Beava.Agg

variable {watermark : Nat} {wall : Int64}

def isFinite (number : F64) : Bool :=
  number.bits &&& 0x7FF0000000000000 ≠ 0x7FF0000000000000

def jsonOfI64 (number : Int64) : Json :=
  .number (if 0 ≤ number then .posInt number.toUInt64 else .negInt number)

mutual

def valueToJson : Value → Json
  | .null => .null
  | .bool flag => .bool flag
  | .i64 number => jsonOfI64 number
  | .f64 number => if isFinite number then .number (.float number) else .null
  | .str text => .string text
  | .bytes _ => .null
  | .datetime millis => jsonOfI64 millis
  | .json content => content
  | .list items => .array (itemsToJson items)
  | .map entries => .object (entriesToJson entries)

def itemsToJson : List Value → List Json
  | [] => []
  | item :: rest => valueToJson item :: itemsToJson rest

def entriesToJson : List (String × Value) → List (String × Json)
  | [] => []
  | (key,value) :: rest => (key,valueToJson value) :: entriesToJson rest

end

/-! ### The paths -/

structure ReadServer (Expr Op : Type) where
  registry : RegistryInner Expr
  tables : StateTables Op
  queryTimeMs : Nat

structure BatchGetReqEntry where
  table : String
  key : String
  features : Option (List String)

inductive BatchGetResult where
  | row (features : StrMap Json)
  | error (code message : String)

inductive RowResponse where
  | queryResult (row : StrMap Json)
  | queryNotFound (code : String)
  | internalError (reason : String)

def effectiveQueryTimeMs (watermark : Nat) (wall : Int64) : Int64 :=
  max (Int64.ofNat watermark) wall

theorem effectiveQueryTimeMs_of_le (notLater : wall ≤ Int64.ofNat watermark) :
    effectiveQueryTimeMs watermark wall = Int64.ofNat watermark := by
  show (if Int64.ofNat watermark ≤ wall then wall else Int64.ofNat watermark) = _
  split
  · rename_i later
    exact Int64.le_antisymm notLater later
  · rfl

theorem effectiveQueryTimeMs_of_not_le (later : ¬ wall ≤ Int64.ofNat watermark) :
    effectiveQueryTimeMs watermark wall = wall :=
  if_pos ((Int64.le_total _ _).resolve_right later)

def batchCap : Nat := 10000

section Paths

variable {Expr Op : Type} (env : Env Expr) (query : Op → Int64 → Value)

namespace ReadServer

variable (server : ReadServer Expr Op)

/-- The query time of `dispatch_batch_get_sync`. -/
def batchQueryTimeMs : Int64 :=
  if server.queryTimeMs = 0 then 0 else Int64.ofNat server.queryTimeMs

def table (agg : AggregationDescriptor Expr) : AggStateTable Op :=
  StateTables.tableAt server.tables agg.aggId

/-- What an entity of an aggregation shows at a position. -/
def cell (agg : AggregationDescriptor Expr) (key : CompoundKey) (position : Nat)
    (timeMs : Int64) : Option Json :=
  (queryFeature query (server.table agg) key position timeMs).map valueToJson

def unknownFeatures (agg : AggregationDescriptor Expr) (filter : Option (List String)) :
    List String :=
  (filter.getD []).filter fun name => !agg.features.any fun feature => feature.featureName = name

def selected (filter : Option (List String)) (name : String) : Bool :=
  match filter with
  | none => true
  | some names => names.any fun other => other = name

/-- The loop over the features of a row. -/
def rowOf (agg : AggregationDescriptor Expr) (key : CompoundKey) (filter : Option (List String))
    (timeMs : Int64) : StrMap Json :=
  KeyMap.insertAll ∅ (agg.features.zipIdx.filterMap fun entry =>
    if selected filter entry.1.featureName then
      (server.cell query agg key entry.2 timeMs).map fun value => (entry.1.featureName,value)
    else none)

def featureNotFound (unknown : List String) (table : String) : String :=
  "feature_not_found: missing=" ++ debugSeq (unknown.map env.debugStr) ++ " table=" ++ table

def dispatchGetSingleVerbStyleSync (table key : String) (features : Option (List String))
    (wall : Int64) : RowResponse :=
  match server.registry.compiledAggregations[table]? with
  | none => .queryNotFound "unknown_table"
  | some agg =>
      match unknownFeatures agg features with
      | [] =>
          match parseEntityKey key agg.groupKeys with
          | none => .queryNotFound "key_parse_failure"
          | some entityKey =>
              if server.tables.length ≤ agg.aggId then .queryNotFound "key_not_found"
              else
                .queryResult (server.rowOf query agg entityKey features
                  (effectiveQueryTimeMs server.queryTimeMs wall))
      | unknown => .internalError (featureNotFound env unknown table)

/-- The row of one key of `dispatch_get_batch`. -/
def batchRow (features : List String) (timeMs : Int64) (key : String) : StrMap Json :=
  KeyMap.insertAll ∅ (features.filterMap fun feature => do
    let (aggNode,position) ← server.registry.featureIndex[feature]?
    let agg ← server.registry.compiledAggregations[aggNode]?
    let entityKey ← parseEntityKey key agg.groupKeys
    let value ← server.cell query agg entityKey position timeMs
    return (feature,value))

/-- The texts are the reasons of the errors. -/
def dispatchGetBatch (keys features : List String) (wall : Int64) :
    Except String (StrMap (StrMap Json)) :=
  let cellCount := keys.length * features.length
  if batchCap < cellCount then
    .error ("batch_too_large: cells=" ++ toString cellCount ++ " cap=" ++ toString batchCap)
  else
    match features.filter fun feature => !server.registry.featureIndex.contains feature with
    | [] =>
        .ok (KeyMap.insertAll ∅ (keys.filterMap fun key =>
          let row := server.batchRow query features
            (effectiveQueryTimeMs server.queryTimeMs wall) key
          if row.isEmpty then none else some (key,row)))
    | missing => .error ("feature_not_found: missing=" ++ debugSeq (missing.map env.debugStr))

/-- One tuple of `dispatch_batch_get_sync`. -/
def batchGetEntry (entry : BatchGetReqEntry) : BatchGetResult :=
  match server.registry.compiledAggregations[entry.table]? with
  | none =>
      .error "unknown_table" ("table '" ++ entry.table ++ "' is not a registered aggregation")
  | some agg =>
      match parseEntityKey entry.key agg.groupKeys with
      | none =>
          .error "key_parse_failure" ("key '" ++ entry.key ++ "' does not match table '" ++
            entry.table ++ "' group_keys arity (" ++ toString agg.groupKeys.length ++ ")")
      | some entityKey =>
          .row (if server.tables.length ≤ agg.aggId then ∅
            else server.rowOf query agg entityKey entry.features server.batchQueryTimeMs)

/-- The first tuple that asks for a feature its table does not have. -/
def batchGetRejects (entry : BatchGetReqEntry) : Option String :=
  server.registry.compiledAggregations[entry.table]?.bind fun agg =>
    match unknownFeatures agg entry.features with
    | [] => none
    | unknown => some (featureNotFound env unknown entry.table)

def dispatchBatchGetSync (requests : List BatchGetReqEntry) :
    Except String (List BatchGetResult) :=
  match requests.findSome? (server.batchGetRejects env) with
  | some reason => .error reason
  | none => .ok (requests.map (server.batchGetEntry query))

end ReadServer

def GetResponse.reported (feature : String) : GetResponse → Option Json
  | .value shown => some (valueToJson shown)
  | .row features =>
      (KeyMap.insertAll (∅ : StrMap Json)
        (features.map fun entry => (entry.1,valueToJson entry.2)))[feature]?
  | _ => none

def RowResponse.reported (feature : String) : RowResponse → Option Json
  | .queryResult row => row[feature]?
  | _ => none

def BatchGetResult.reported (feature : String) : BatchGetResult → Option Json
  | .row features => features[feature]?
  | .error _ _ => none

def BatchGetReqEntry.Asks (entry : BatchGetReqEntry) (table key feature : String) : Prop :=
  entry.table = table ∧ entry.key = key ∧ ReadServer.selected entry.features feature = true

namespace ReadServer

variable (server : ReadServer Expr Op)

/-- What every tuple of every batch of tables and keys reports of a feature is what
the other paths report: by the name of the feature, by the name of its table, in
its row and in every batch of keys and features. -/
def PathsAgree (wall : Int64) (table key feature : String) : Prop :=
  ∀ (requests : List BatchGetReqEntry) (index : Nat) (entry : BatchGetReqEntry) results,
    requests[index]? = some entry → entry.Asks table key feature →
    server.dispatchBatchGetSync env query requests = .ok results →
      let reported := results[index]?.bind (BatchGetResult.reported feature)
      let timeMs := effectiveQueryTimeMs server.queryTimeMs wall
      reported =
          (dispatchGetSingle query server.registry server.tables feature key timeMs).reported
            feature ∧
        (server.registry.featureIndex[table]? = none → reported =
          (dispatchGetSingle query server.registry server.tables table key timeMs).reported
            feature) ∧
        (∀ filter, selected filter feature = true →
          (∀ name ∈ filter.getD [], ∃ agg, server.registry.compiledAggregations[table]? = some agg ∧
            agg.features.any fun other => other.featureName = name) →
          reported =
            (server.dispatchGetSingleVerbStyleSync env query table key filter wall).reported
              feature) ∧
        ∀ keys features response, key ∈ keys → feature ∈ features →
          server.dispatchGetBatch env query keys features wall = .ok response →
            reported = response[key]?.bind fun row => row[feature]?

/-- The cell of the operator that the entity has at the position is the same at the time of
the last push and at the wall clock, unless the wall clock is not later. -/
def CellsSame (wall : Int64) (agg : AggregationDescriptor Expr) (key : String) (position : Nat) :
    Prop :=
  ∀ entityKey ∈ parseEntityKey key agg.groupKeys,
    ∀ op ∈ (entityOps (server.table agg) entityKey).bind fun ops => ops[position]?,
      wall ≤ Int64.ofNat server.queryTimeMs ∨
        valueToJson (query op (Int64.ofNat server.queryTimeMs)) = valueToJson (query op wall)

instance (wall : Int64) (agg : AggregationDescriptor Expr) (key : String) (position : Nat) :
    Decidable (server.CellsSame query wall agg key position) :=
  inferInstanceAs (Decidable (∀ entityKey ∈ parseEntityKey key agg.groupKeys, _))

end ReadServer

end Paths

section Reports

variable {Expr Op : Type} {env : Env Expr} {query : Op → Int64 → Value}
  {server : ReadServer Expr Op} (exact_ : FeaturesExact server.registry) {name : String}
  {agg : AggregationDescriptor Expr}
  (compiled : server.registry.compiledAggregations[name]? = some agg) {position : Nat}
  {feature : String}
  (isFeature : agg.features[position]?.map NamedAggOp.featureName = some feature)

namespace ReadServer

variable {filter : Option (List String)}
variable {key : String}

include exact_ compiled isFeature

theorem featureIndex_eq : server.registry.featureIndex[feature]? = some (name,position) :=
  (exact_ feature name position).mpr ⟨agg,compiled,isFeature⟩

theorem position_unique {other : Nat}
    (sameName : agg.features[other]?.map NamedAggOp.featureName = some feature) :
    other = position := by
  have here := featureIndex_eq exact_ compiled isFeature
  rw [featureIndex_eq exact_ compiled sameName] at here
  cases here
  rfl

theorem rowOf_lookup (isSelected : selected filter feature = true) (key : CompoundKey)
    (timeMs : Int64) :
    (server.rowOf query agg key filter timeMs)[feature]? =
      server.cell query agg key position timeMs := by
  apply KeyMap.insertAll_of_iff
  intro value
  rw [List.mem_filterMap]
  constructor
  · rintro ⟨⟨named,other⟩,member,shown⟩
    have found := List.mem_zipIdx_iff_getElem?.mp member
    split at shown
    · rw [Option.map_eq_some_iff] at shown
      obtain ⟨held,atOther,same⟩ := shown
      cases same
      have sameName : agg.features[other]?.map NamedAggOp.featureName = some named.featureName := by
        rw [found]
        rfl
      rwa [← position_unique exact_ compiled isFeature sameName]
    · cases shown
  · intro shown
    obtain ⟨named,found,sameName⟩ := Option.map_eq_some_iff.mp isFeature
    refine ⟨(named,position),List.mem_zipIdx_iff_getElem?.mpr found,?_⟩
    subst sameName
    rw [if_pos isSelected,shown]
    rfl

theorem getSingle_reported (key : String) (timeMs : Int64) :
    (dispatchGetSingle query server.registry server.tables feature key timeMs).reported feature =
      (parseEntityKey key agg.groupKeys).bind fun entityKey =>
        server.cell query agg entityKey position timeMs := by
  unfold dispatchGetSingle
  simp only [featureIndex_eq exact_ compiled isFeature,compiled]
  cases parsed : parseEntityKey key agg.groupKeys with
  | none => rfl
  | some entityKey =>
      simp only [Option.bind_some,cell,table]
      cases queryFeature query (StateTables.tableAt server.tables agg.aggId) entityKey position
        timeMs <;> rfl

theorem getSingle_table_reported (notFeature : server.registry.featureIndex[name]? = none)
    (key : String) (timeMs : Int64) :
    (dispatchGetSingle query server.registry server.tables name key timeMs).reported feature =
      (parseEntityKey key agg.groupKeys).bind fun entityKey =>
        server.cell query agg entityKey position timeMs := by
  unfold dispatchGetSingle
  simp only [notFeature,compiled]
  cases parsed : parseEntityKey key agg.groupKeys with
  | none => rfl
  | some entityKey =>
      have whole : (server.rowOf query agg entityKey none timeMs)[feature]? =
          server.cell query agg entityKey position timeMs :=
        rowOf_lookup exact_ compiled isFeature rfl entityKey timeMs
      have sameRow : (queryRow query agg (StateTables.tableAt server.tables agg.aggId) entityKey
            timeMs).map (fun entry => (entry.1,valueToJson entry.2)) =
          agg.features.zipIdx.filterMap fun entry =>
            if selected none entry.1.featureName then
              (server.cell query agg entityKey entry.2 timeMs).map fun value =>
                (entry.1.featureName,value)
            else none := by
        rw [queryRow,List.map_filterMap]
        congr 1
        funext entry
        simp only [selected,if_true,cell,table,Option.map_map]
        rfl
      rw [Option.bind_some,← whole,rowOf,← sameRow]
      dsimp only
      cases queryRow query agg (StateTables.tableAt server.tables agg.aggId) entityKey timeMs with
      | nil => exact Std.ExtTreeMap.getElem?_empty.symm
      | cons entry rest => rfl

omit exact_ compiled isFeature in
theorem cell_of_missing (missing : server.tables.length ≤ agg.aggId) (key : CompoundKey)
    (timeMs : Int64) : server.cell query agg key position timeMs = none := by
  have blank : server.table agg = AggStateTable.new := by
    rw [table,StateTables.tableAt,List.getD_eq_getElem?_getD,List.getElem?_eq_none missing]
    rfl
  have noRow : entityOps (AggStateTable.new : AggStateTable Op) key = none := by
    unfold entityOps
    split <;> rfl
  rw [cell,blank,queryFeature,noRow]
  rfl

theorem verbStyle_reported (isSelected : selected filter feature = true)
    (known : unknownFeatures agg filter = []) (key : String) (wall : Int64) :
    (server.dispatchGetSingleVerbStyleSync env query name key filter wall).reported feature =
      (parseEntityKey key agg.groupKeys).bind fun entityKey =>
        server.cell query agg entityKey position
          (effectiveQueryTimeMs server.queryTimeMs wall) := by
  simp only [dispatchGetSingleVerbStyleSync,compiled,known]
  cases parsed : parseEntityKey key agg.groupKeys with
  | none => rfl
  | some entityKey =>
      rw [Option.bind_some]
      dsimp only
      split
      · rename_i missing
        exact (cell_of_missing missing entityKey _).symm
      · exact server.rowOf_lookup exact_ compiled isFeature isSelected entityKey _

theorem batchGetEntry_reported {entry : BatchGetReqEntry} (asks : entry.Asks name key feature) :
    (server.batchGetEntry query entry).reported feature =
      (parseEntityKey key agg.groupKeys).bind fun entityKey =>
        server.cell query agg entityKey position server.batchQueryTimeMs := by
  obtain ⟨rfl,rfl,isSelected⟩ := asks
  simp only [batchGetEntry,compiled]
  cases parsed : parseEntityKey entry.key agg.groupKeys with
  | none => rfl
  | some entityKey =>
      rw [Option.bind_some]
      dsimp only
      split
      · rename_i missing
        exact (cell_of_missing missing entityKey _).symm
      · exact server.rowOf_lookup exact_ compiled isFeature isSelected entityKey _

theorem batchRow_lookup {features : List String} (member : feature ∈ features) (timeMs : Int64)
    (key : String) :
    (server.batchRow query features timeMs key)[feature]? =
      (parseEntityKey key agg.groupKeys).bind fun entityKey =>
        server.cell query agg entityKey position timeMs := by
  apply KeyMap.insertAll_of_iff
  intro value
  have indexed := featureIndex_eq exact_ compiled isFeature
  rw [List.mem_filterMap]
  constructor
  · rintro ⟨other,-,shown⟩
    simp only [Option.bind_eq_bind,Option.bind_eq_some_iff,Option.pure_def,
      Option.some_inj] at shown
    obtain ⟨⟨node,place⟩,found,foundAgg,compiledAgg,entityKey,parsed,held,shown,same⟩ :=
      shown
    cases same
    rw [indexed] at found
    cases found
    rw [compiled] at compiledAgg
    cases compiledAgg
    rw [parsed]
    exact shown
  · intro shown
    rw [Option.bind_eq_some_iff] at shown
    obtain ⟨entityKey,parsed,shown⟩ := shown
    refine ⟨feature,member,?_⟩
    simp [indexed,compiled,parsed,shown]

theorem getBatch_reported {keys features : List String} {response : StrMap (StrMap Json)}
    {wall : Int64} (keyMember : key ∈ keys) (member : feature ∈ features)
    (answered : server.dispatchGetBatch env query keys features wall = .ok response) :
    (response[key]?.bind fun row => row[feature]?) =
      (parseEntityKey key agg.groupKeys).bind fun entityKey =>
        server.cell query agg entityKey position
          (effectiveQueryTimeMs server.queryTimeMs wall) := by
  simp only [dispatchGetBatch] at answered
  split at answered
  · cases answered
  · split at answered
    · cases answered
      rw [← batchRow_lookup exact_ compiled isFeature member]
      generalize rowEq : server.batchRow query features
        (effectiveQueryTimeMs server.queryTimeMs wall) key = row
      have rowOfKey : (KeyMap.insertAll (∅ : StrMap (StrMap Json)) (keys.filterMap fun key =>
          let row := server.batchRow query features
            (effectiveQueryTimeMs server.queryTimeMs wall) key
          if row.isEmpty then none else some (key,row)))[key]? =
            if row.isEmpty then none else some row := by
        apply KeyMap.insertAll_of_iff
        intro held
        rw [List.mem_filterMap]
        constructor
        · rintro ⟨other,-,shown⟩
          dsimp only at shown
          split at shown
          · cases shown
          · rename_i notEmpty
            cases shown
            rw [rowEq] at notEmpty ⊢
            exact if_neg notEmpty
        · intro shown
          refine ⟨key,keyMember,?_⟩
          dsimp only
          rw [rowEq]
          split at shown
          · cases shown
          · rename_i notEmpty
            cases shown
            exact if_neg notEmpty
      rw [rowOfKey]
      split
      · rename_i isEmpty
        have nothing : row = ∅ := Std.ExtTreeMap.isEmpty_iff.mp isEmpty
        rw [nothing,Std.ExtTreeMap.getElem?_empty]
        rfl
      · rfl
    · cases answered

omit exact_ compiled isFeature in
theorem batchQueryTimeMs_eq : server.batchQueryTimeMs = Int64.ofNat server.queryTimeMs := by
  unfold batchQueryTimeMs
  split
  · rename_i zero
    rw [zero]
    rfl
  · rfl

omit exact_ compiled isFeature in
theorem cells_eq_iff (wall : Int64) (key : String) :
    ((parseEntityKey key agg.groupKeys).bind fun entityKey =>
        server.cell query agg entityKey position server.batchQueryTimeMs) =
      ((parseEntityKey key agg.groupKeys).bind fun entityKey =>
        server.cell query agg entityKey position
          (effectiveQueryTimeMs server.queryTimeMs wall)) ↔
      server.CellsSame query wall agg key position := by
  rw [batchQueryTimeMs_eq,CellsSame]
  cases parsed : parseEntityKey key agg.groupKeys with
  | none => simp
  | some entityKey =>
      simp only [Option.bind_some,cell,queryFeature,Option.mem_def,Option.some_inj,
        forall_eq']
      cases held : (entityOps (server.table agg) entityKey).bind fun ops => ops[position]? with
      | none => simp
      | some op =>
          simp only [Option.map_some,Option.some_inj,forall_eq']
          by_cases later : wall ≤ Int64.ofNat server.queryTimeMs
          · rw [effectiveQueryTimeMs_of_le later]
            exact iff_of_true rfl (.inl later)
          · rw [effectiveQueryTimeMs_of_not_le later]
            exact ⟨.inr,fun either => either.resolve_left later⟩

/-- The paths agree on a feature of an entity exactly when its cells at the
two query times are the same. -/
theorem pathsAgree_iff_cellsSame (key : String) (wall : Int64) :
    server.PathsAgree env query wall name key feature ↔
      server.CellsSame query wall agg key position := by
  rw [← cells_eq_iff]
  constructor
  · intro agree
    have asks : (BatchGetReqEntry.mk name key none).Asks name key feature := ⟨rfl,rfl,rfl⟩
    have answered : server.dispatchBatchGetSync env query [⟨name,key,none⟩] =
        .ok [server.batchGetEntry query ⟨name,key,none⟩] := by
      simp [dispatchBatchGetSync,batchGetRejects,compiled,unknownFeatures]
    have bySingle := (agree _ 0 _ _ rfl asks answered).1
    rw [getSingle_reported exact_ compiled isFeature] at bySingle
    rw [← bySingle]
    exact (batchGetEntry_reported exact_ compiled isFeature asks).symm
  · intro same requests index entry results atIndex asks answered
    have reported : results[index]?.bind (BatchGetResult.reported feature) =
        (parseEntityKey key agg.groupKeys).bind fun entityKey =>
          server.cell query agg entityKey position
            (effectiveQueryTimeMs server.queryTimeMs wall) := by
      simp only [dispatchBatchGetSync] at answered
      split at answered
      · cases answered
      · cases answered
        rw [List.getElem?_map,atIndex,Option.map_some,Option.bind_some,
          batchGetEntry_reported exact_ compiled isFeature asks,same]
    refine ⟨?_,?_,?_,?_⟩
    · rw [reported,getSingle_reported exact_ compiled isFeature]
    · intro notFeature
      rw [reported,getSingle_table_reported exact_ compiled isFeature notFeature]
    · intro filter isSelected known
      have allKnown : unknownFeatures agg filter = [] := by
        rw [unknownFeatures,List.filter_eq_nil_iff]
        intro other member
        obtain ⟨found,compiledFound,has⟩ := known other member
        rw [compiled] at compiledFound
        cases compiledFound
        simp only [has,Bool.not_true,Bool.false_eq_true,not_false_eq_true]
      rw [reported,verbStyle_reported exact_ compiled isFeature isSelected allKnown]
    · intro keys features response keyMember member batchAnswered
      rw [reported,getBatch_reported exact_ compiled isFeature keyMember member batchAnswered]

end ReadServer

end Reports

/-! ### Operators at two times -/

theorem jsonOfI64_inj {first second : Int64} : jsonOfI64 first = jsonOfI64 second ↔ first = second := by
  unfold jsonOfI64
  constructor
  · intro same
    split at same <;> split at same
    · have sameBits : first.toUInt64 = second.toUInt64 := by simpa using same
      exact Int64.toBitVec_inj.mp (congrArg UInt64.toBitVec sameBits)
    · cases same
    · cases same
    · simpa using same
  · rintro rfl
    rfl

/-- No time has passed since, neither at the first time nor at the second. -/
def NoneElapsed (first second since : Int64) : Prop := first - since ≤ 0 ∧ second - since ≤ 0

theorem elapsedMs_eq_iff {first second : Int64} (differ : first ≠ second) (since : Int64) :
    elapsedMs first since = elapsedMs second since ↔ NoneElapsed first second since := by
  have apart : first - since ≠ second - since := fun same => differ ((Int64.sub_left_inj _).mp same)
  have elapsed : ∀ later : Int64, elapsedMs later since =
      if later - since ≤ 0 then 0 else later - since := fun later => rfl
  rw [elapsed,elapsed,NoneElapsed]
  split
  · rename_i notYet
    split
    · rename_i notYetEither
      exact iff_of_true rfl ⟨notYet,notYetEither⟩
    · rename_i passed
      exact iff_of_false (fun same => passed (same ▸ Int64.le_refl 0)) fun both => passed both.2
  · rename_i passed
    refine iff_of_false ?_ fun both => passed both.1
    split
    · exact fun same => passed (same ▸ Int64.le_refl 0)
    · exact apart

section Alike

variable {kernel : Kernel} (first second : Int64)
variable {op : WindowedOp kernel}

def countedBy : LifetimeOp kernel → Nat
  | .count state => state.n
  | _ => 0

/-- The last event is inside the window at the time. -/
def InsideWindow (state : FirstSeenInWindowState) (queryTimeMs last : Int64) : Prop :=
  0 ≤ queryTimeMs - last ∧ (queryTimeMs - last).toInt.toNat < state.windowMs

/-- The state of an operator without a window for which two times are alike. -/
def LifetimeAlike : LifetimeOp kernel → Prop
  | .age state => ∀ seen ∈ state.firstMs, NoneElapsed first second seen
  | .timeSince state => ∀ last ∈ state.lastMs, NoneElapsed first second last
  | .timeSinceLastN state => state.n ≤ state.timesMs.length →
      ∀ oldest ∈ state.timesMs.head?, NoneElapsed first second oldest
  | .firstSeenInWindow state => ∀ last ∈ state.lastMs,
      (InsideWindow state first last ↔ InsideWindow state second last)
  | _ => True

/-- The events counted by the buckets that are inside the window at one time only. -/
def countedOnlyAt (inside outside : Int64) (op : WindowedOp kernel) : Nat :=
  ((op.buckets.filter fun bucket => WindowedOp.active op.windowMs inside bucket.1 &&
    !WindowedOp.active op.windowMs outside bucket.1).map fun bucket => countedBy bucket.2).sum

/-- As many counted events enter the window between the times as leave it, up to the width
of the report; for the other kinds, no bucket that holds something enters or leaves it. -/
def WindowAlike (op : WindowedOp kernel) : Prop :=
  if op.innerKind = .count then
    countedOnlyAt first second op % 2 ^ 64 = countedOnlyAt second first op % 2 ^ 64
  else
    ∀ bucket ∈ op.buckets, WindowedOp.holding bucket.2 →
      WindowedOp.active op.windowMs first bucket.1 = WindowedOp.active op.windowMs second bucket.1

def ReadsAlike : AggOp kernel → Prop
  | .lifetime op => LifetimeAlike first second op
  | .windowed op => WindowAlike first second op

/-- The state decides whether two times are alike.  What the other kinds report of two sets
of buckets is left to the arithmetic, to the sketches and to the order of the values. -/
def DecidedByState : AggOp kernel → Prop
  | .lifetime _ => True
  | .windowed op => op.innerKind = .count

variable {first second}

theorem lifetime_alike_iff (differ : first ≠ second) (op : LifetimeOp kernel) :
    valueToJson (op.query first) = valueToJson (op.query second) ↔
      LifetimeAlike first second op := by
  cases op with
  | age state =>
      simp only [LifetimeOp.query,SeenState.queryAge,LifetimeAlike]
      cases state.firstMs with
      | none => simp
      | some seen => simp [valueToJson,jsonOfI64_inj,elapsedMs_eq_iff differ]
  | timeSince state =>
      simp only [LifetimeOp.query,SeenState.queryTimeSince,LifetimeAlike]
      cases state.lastMs with
      | none => simp
      | some last => simp [valueToJson,jsonOfI64_inj,elapsedMs_eq_iff differ]
  | timeSinceLastN state =>
      simp only [LifetimeOp.query,TimeSinceLastNState.query,LifetimeAlike]
      by_cases few : state.timesMs.length < state.n
      · simp [few,Nat.not_le.mpr few]
      · cases state.timesMs.head? with
        | none =>
            have zero : ∀ timeMs : Int64, elapsedMs timeMs timeMs = 0 := by
              intro timeMs
              rw [elapsedMs,Int64.sub_self]
              rfl
            simp [few,zero]
        | some oldest =>
            simp [few,Nat.le_of_not_lt few,valueToJson,jsonOfI64_inj,elapsedMs_eq_iff differ]
  | firstSeenInWindow state =>
      simp only [LifetimeOp.query,FirstSeenInWindowState.query,LifetimeAlike]
      cases state.lastMs with
      | none => simp
      | some last =>
          simp only [valueToJson,Json.bool.injEq,Option.mem_def,Option.some_inj,forall_eq']
          rw [Bool.eq_iff_iff]
          simp [InsideWindow]
  | _ => exact iff_of_true rfl trivial

theorem counts_total (ops : List (LifetimeOp kernel)) :
    (WindowedOp.counts ops).foldl (fun total state => total + state.n) 0 =
      (ops.map countedBy).sum := by
  have from_ : ∀ start, (WindowedOp.counts ops).foldl (fun total state => total + state.n) start =
      start + (ops.map countedBy).sum := by
    induction ops with
    | nil => exact fun _ => rfl
    | cons op rest ih =>
        intro start
        cases op with
        | count state => exact (ih (start + state.n)).trans (Nat.add_assoc ..)
        | _ => exact (ih start).trans (congrArg (start + ·) (Nat.zero_add _).symm)
  exact (from_ 0).trans (Nat.zero_add _)

theorem query_count (isCount : op.innerKind = .count) (time : Int64) :
    op.query time = Kernel.reportCount
      ((op.buckets.filter fun bucket => WindowedOp.active op.windowMs time bucket.1).map
        fun bucket => countedBy bucket.2).sum := by
  rw [WindowedOp.query,isCount,WindowedOp.foldBuckets,counts_total,WindowedOp.activeOps,
    List.map_map]
  rfl

theorem sum_filter_split {α : Type} (weight : α → Nat) (here there : α → Bool) (items : List α) :
    ((items.filter here).map weight).sum =
      ((items.filter fun item => here item && there item).map weight).sum +
        ((items.filter fun item => here item && !there item).map weight).sum := by
  induction items with
  | nil => rfl
  | cons item rest ih =>
      simp only [List.filter_cons]
      cases here item with
      | false => exact ih
      | true =>
          cases there item <;> simp [ih] <;> omega

theorem ofNat_eq_iff (first second : Nat) :
    Int64.ofNat first = Int64.ofNat second ↔ first % 2 ^ 64 = second % 2 ^ 64 := by
  rw [← Int64.toBitVec_inj,← BitVec.toNat_inj]
  rfl

theorem count_alike_iff (isCount : op.innerKind = .count) :
    valueToJson (op.query first) = valueToJson (op.query second) ↔
      WindowAlike first second op := by
  rw [WindowAlike,if_pos isCount,query_count isCount,query_count isCount]
  simp only [Kernel.reportCount,valueToJson,jsonOfI64_inj,ofNat_eq_iff]
  have split_ := fun here there : Int64 => sum_filter_split
    (fun bucket : Int64 × LifetimeOp kernel => countedBy bucket.2)
    (fun bucket => WindowedOp.active op.windowMs here bucket.1)
    (fun bucket => WindowedOp.active op.windowMs there bucket.1) op.buckets
  rw [split_ first second,split_ second first]
  simp only [Bool.and_comm (WindowedOp.active op.windowMs second _),countedOnlyAt]
  omega

theorem query_of_windowAlike (notCount : op.innerKind ≠ .count)
    (alike : WindowAlike first second op) : op.query first = op.query second := by
  rw [WindowAlike,if_neg notCount] at alike
  have sameHeld : (op.activeOps first).filter WindowedOp.holding =
      (op.activeOps second).filter WindowedOp.holding := by
    simp only [WindowedOp.activeOps,List.filter_map,List.filter_filter]
    refine congrArg _ (List.filter_congr fun bucket member => ?_)
    cases held : WindowedOp.holding bucket.2 with
    | false => simp [held]
    | true => rw [alike bucket member held]
  rw [WindowedOp.query,WindowedOp.query,← WindowedOp.foldBuckets_holding,sameHeld,
    WindowedOp.foldBuckets_holding]

theorem reads_of_alike (differ : first ≠ second) {op : AggOp kernel}
    (alike : ReadsAlike first second op) :
    valueToJson (op.query first) = valueToJson (op.query second) := by
  cases op with
  | lifetime op => exact (lifetime_alike_iff differ op).mpr alike
  | windowed op =>
      by_cases isCount : op.innerKind = .count
      · exact (count_alike_iff isCount).mpr alike
      · exact congrArg valueToJson (query_of_windowAlike isCount alike)

theorem alike_of_reads (differ : first ≠ second) {op : AggOp kernel} (decided : DecidedByState op)
    (same : valueToJson (op.query first) = valueToJson (op.query second)) :
    ReadsAlike first second op := by
  cases op with
  | lifetime op => exact (lifetime_alike_iff differ op).mp same
  | windowed op => exact (count_alike_iff decided).mp same

end Alike

section Agree

variable {Expr : Type} {kernel : Kernel}

def featureQuery (op : AggOp kernel) (queryTimeMs : Int64) : Value := op.query queryTimeMs

/-- The wall clock is not later than the last push, or the entity has no operator at the
position, or one for which the two times are alike. -/
def ReadServer.ShowsSame (server : ReadServer Expr (AggOp kernel)) (wall : Int64)
    (agg : AggregationDescriptor Expr) (key : String) (position : Nat) : Prop :=
  ∀ entityKey ∈ parseEntityKey key agg.groupKeys,
    ∀ op ∈ (entityOps (server.table agg) entityKey).bind fun ops => ops[position]?,
      wall ≤ Int64.ofNat server.queryTimeMs ∨
        ReadsAlike (Int64.ofNat server.queryTimeMs) wall op

/-- The operator at the position, if the entity has one, is without a window or a count. -/
def ReadServer.DecidedAt (server : ReadServer Expr (AggOp kernel))
    (agg : AggregationDescriptor Expr) (key : String) (position : Nat) : Prop :=
  ∀ entityKey ∈ parseEntityKey key agg.groupKeys,
    ∀ op ∈ (entityOps (server.table agg) entityKey).bind fun ops => ops[position]?,
      DecidedByState op

variable {server : ReadServer Expr (AggOp kernel)} {wall : Int64}
  {agg : AggregationDescriptor Expr} {key : String} {position : Nat}

theorem ReadServer.ShowsSame.cellsSame (shows_ : server.ShowsSame wall agg key position) :
    server.CellsSame featureQuery wall agg key position := by
  intro entityKey parsed op held
  refine or_iff_not_imp_left.mpr fun later => ?_
  have differ : Int64.ofNat server.queryTimeMs ≠ wall := fun same => later (same ▸ Int64.le_refl _)
  exact reads_of_alike differ ((shows_ entityKey parsed op held).resolve_left later)

theorem ReadServer.CellsSame.showsSame (decided : server.DecidedAt agg key position)
    (same : server.CellsSame featureQuery wall agg key position) :
    server.ShowsSame wall agg key position := by
  intro entityKey parsed op held
  refine or_iff_not_imp_left.mpr fun later => ?_
  have differ : Int64.ofNat server.queryTimeMs ≠ wall := fun same => later (same ▸ Int64.le_refl _)
  exact alike_of_reads differ (decided entityKey parsed op held)
    ((same entityKey parsed op held).resolve_left later)

/-- In every state that is reached, all paths agree on a feature of an entity when the
wall clock is not later than the last push or the operator of the feature is in a state
for which the two times are alike; and only then, where the state decides it. -/
theorem readPaths_agree (env : Env Expr) (operations : List RegistryOp)
    (meets : Machine.Meets (stepRegistry env) Admissible RegistryInner.empty operations)
    (tables : StateTables (AggOp kernel)) (queryTimeMs : Nat) (wall : Int64) (name : String)
    (agg : AggregationDescriptor Expr)
    (compiled : (registryRun env operations).compiledAggregations[name]? = some agg)
    (position : Nat) (feature : String)
    (isFeature : agg.features[position]?.map NamedAggOp.featureName = some feature)
    (key : String) :
    let server : ReadServer Expr (AggOp kernel) :=
      ⟨registryRun env operations,tables,queryTimeMs⟩
    (server.ShowsSame wall agg key position →
        server.PathsAgree env featureQuery wall name key feature) ∧
      (server.DecidedAt agg key position →
        server.PathsAgree env featureQuery wall name key feature →
          server.ShowsSame wall agg key position) := by
  intro server
  have kept : Kept env server.registry := kept_empty.run meets
  have agrees : server.PathsAgree env featureQuery wall name key feature ↔
      server.CellsSame featureQuery wall agg key position :=
    ReadServer.pathsAgree_iff_cellsSame kept.features compiled isFeature key wall
  exact ⟨fun shows_ => agrees.mpr shows_.cellsSame,
    fun decided agree => (agrees.mp agree).showsSame decided⟩

end Agree

def seenOperations : List RegistryOp :=
  [.register [sampleEvent "E",sampleTable "A" "E" [] "a" "time_since" "x"]]

def seenServer : ReadServer Empty (AggOp wholeKernel) :=
  { registry := registryRun sampleEnv seenOperations
    tables := applyEvent sampleEnv (aggOperators wholeKernel Empty)
      (registryRun sampleEnv seenOperations) "E" (sampleRow "u" 1 2) 1000 none [AggStateTable.new]
    queryTimeMs := 1000 }

def seenAggregation : AggregationDescriptor Empty :=
  seenServer.registry.compiledAggregations["A"]?.get (by decide)

/-- Before the clock moves on, the paths agree. -/
theorem readPaths_agree_seen :
    ReadServer.PathsAgree sampleEnv featureQuery seenServer 1000 "A" "u" "a" :=
  (readPaths_agree sampleEnv seenOperations ⟨trivial,trivial⟩ seenServer.tables
    1000 1000 "A" seenAggregation (Option.some_get _).symm 0 "a" (by decide) "u").1
      fun _ _ _ _ => .inl (by decide)

/-- Four seconds later they do not: the batch still says that no time has passed. -/
theorem readPaths_disagree_later :
    ¬ ReadServer.PathsAgree sampleEnv featureQuery seenServer 5000 "A" "u" "a" := by
  have kept : Kept sampleEnv seenServer.registry := kept_empty.run ⟨trivial,trivial⟩
  have compiled : seenServer.registry.compiledAggregations["A"]? = some seenAggregation :=
    (Option.some_get _).symm
  have isFeature : seenAggregation.features[0]?.map NamedAggOp.featureName = some "a" := by
    decide
  rw [ReadServer.pathsAgree_iff_cellsSame kept.features compiled isFeature]
  decide

end Beava.Server
