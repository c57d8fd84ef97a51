/-
The difference between a registry and a payload.

`classifyRegisterDiff` decides whether a registration needs `force` and which
names count as new.  It compares a payload node with the registered descriptor
of the same kind and name, attribute by attribute.
-/

import Beava.Registry.Descriptor
import Mathlib.Data.List.Sort

namespace Beava.Registry

open Beava.Core

inductive DiffEntry where
  | rename (source target : String)
  | typeChange (field source target : String)
  | opRemoval (table agg : String)
  | aggRemoval (table agg : String)
  | windowChange (agg source target : String)
  | keyColsChange (table : String) (source target : List String)
  | newDescriptor (descriptorKind name : String)
  | newAgg (table agg source : String)
  | newField (event field fieldType : String)
  deriving DecidableEq, Repr

structure RegisterDiff where
  additive : List DiffEntry
  destructive : List DiffEntry
  alreadyPresent : List String
  deriving DecidableEq, Repr

namespace RegisterDiff

def append (first second : RegisterDiff) : RegisterDiff :=
  { additive := first.additive ++ second.additive
    destructive := first.destructive ++ second.destructive
    alreadyPresent := first.alreadyPresent ++ second.alreadyPresent }

end RegisterDiff

/-- `{:?}` of a list of names, as the sort key prints it. -/
def debugNames (debugStr : String → String) (names : List String) : String :=
  "[" ++ ", ".intercalate (names.map debugStr) ++ "]"

def DiffEntry.sortKey (debugStr : String → String) : DiffEntry → Nat × String × String
  | .rename source target => (0,source,target)
  | .typeChange field source target => (1,field,source ++ "->" ++ target)
  | .opRemoval table agg => (2,table,agg)
  | .aggRemoval table agg => (3,table,agg)
  | .windowChange agg source target => (4,agg,source ++ "->" ++ target)
  | .keyColsChange table source target =>
      (5,table,debugNames debugStr source ++ "->" ++ debugNames debugStr target)
  | .newDescriptor descriptorKind name => (6,descriptorKind,name)
  | .newAgg table agg source => (7,table,agg ++ "@" ++ source)
  | .newField event field fieldType => (8,event,field ++ ":" ++ fieldType)

def sortKeyLe (first second : Nat × String × String) : Bool :=
  first.1 < second.1 ||
    (first.1 = second.1 &&
      (first.2.1 < second.2.1 || (first.2.1 = second.2.1 && first.2.2 ≤ second.2.2)))

def sortEntries (debugStr : String → String) (entries : List DiffEntry) : List DiffEntry :=
  entries.insertionSort fun first second =>
    sortKeyLe (first.sortKey debugStr) (second.sortKey debugStr) = true

def sortNames (names : List String) : List String :=
  names.insertionSort fun first second => first ≤ second

/-! ### Changes of one descriptor -/

def changedFieldType (owner : String) (newFields : StrMap FieldType)
    (entry : String × FieldType) : Option DiffEntry :=
  match newFields[entry.1]? with
  | none => some (.typeChange (owner ++ "." ++ entry.1) entry.2.debugLower "<absent>")
  | some newType =>
      if newType = entry.2 then none
      else some (.typeChange (owner ++ "." ++ entry.1) entry.2.debugLower newType.debugLower)

def classifyEventChanges (prev new : EventDescriptor) : RegisterDiff :=
  { additive := new.schema.fields.toList.filterMap fun entry =>
      if prev.schema.fields.contains entry.1 then none
      else some (.newField prev.name entry.1 entry.2.debugLower)
    destructive :=
      prev.schema.fields.toList.filterMap (changedFieldType prev.name new.schema.fields)
    alreadyPresent := [] }

def classifyTableChanges (prev new : TableDescriptor) : RegisterDiff :=
  { additive := []
    destructive :=
      (if prev.primaryKey = new.primaryKey then []
       else [.keyColsChange prev.name prev.primaryKey new.primaryKey]) ++
      prev.schema.fields.toList.filterMap (changedFieldType prev.name new.schema.fields)
    alreadyPresent := [] }

def opLabel (op : OpNode) (idx : Nat) : String :=
  match op with
  | .filter _ => s!"filter[{idx}]"
  | .select _ => s!"select[{idx}]"
  | .drop _ => s!"drop[{idx}]"
  | .rename _ => s!"rename[{idx}]"
  | .withColumns _ => s!"with_columns[{idx}]"
  | .map _ => s!"map[{idx}]"
  | .cast _ => s!"cast[{idx}]"
  | .fillna _ => s!"fillna[{idx}]"
  | .groupBy .. => s!"group_by[{idx}]"

def removedOps (prev new : DerivationDescriptor) : List DiffEntry :=
  (prev.ops.zipIdx.drop new.ops.length).map fun entry =>
    .opRemoval prev.name (opLabel entry.1 entry.2)

def windowText (spec : AggSpec) : String :=
  (spec.params.getStr "window").getD ""

/-- The changes of one feature that both `group_by`s declare. -/
def classifySpecChange (table agg : String) (prevSpec newSpec : AggSpec) : RegisterDiff :=
  { additive := if prevSpec.op = newSpec.op then [] else [.newAgg table agg newSpec.op]
    destructive :=
      (if windowText prevSpec = windowText newSpec then []
       else [.windowChange (table ++ "." ++ agg) (windowText prevSpec) (windowText newSpec)]) ++
      (if prevSpec.op = newSpec.op then [] else [.aggRemoval table agg])
    alreadyPresent := [] }

def classifyPrevSpec (table : String) (newAgg : StrMap AggSpec) (entry : String × AggSpec) :
    RegisterDiff :=
  match newAgg[entry.1]? with
  | none => ⟨[],[.aggRemoval table entry.1],[]⟩
  | some newSpec => classifySpecChange table entry.1 entry.2 newSpec

def concatDiffs (diffs : List RegisterDiff) : RegisterDiff :=
  diffs.foldl RegisterDiff.append ⟨[],[],[]⟩

theorem concatDiffs_eq (diffs : List RegisterDiff) :
    concatDiffs diffs =
      ⟨diffs.flatMap RegisterDiff.additive,diffs.flatMap RegisterDiff.destructive,
        diffs.flatMap RegisterDiff.alreadyPresent⟩ := by
  have general : ∀ start : RegisterDiff, diffs.foldl RegisterDiff.append start =
      ⟨start.additive ++ diffs.flatMap RegisterDiff.additive,
        start.destructive ++ diffs.flatMap RegisterDiff.destructive,
        start.alreadyPresent ++ diffs.flatMap RegisterDiff.alreadyPresent⟩ := by
    induction diffs with
    | nil => intro start; simp
    | cons diff rest ih =>
        intro start
        rw [List.foldl_cons,ih]
        simp [RegisterDiff.append]
  rw [concatDiffs,general]
  simp

/-- Two operators at the same position; only two `group_by`s are compared. -/
def classifyOpChange (table : String) (prevOp newOp : OpNode) : RegisterDiff :=
  match prevOp, newOp with
  | .groupBy prevKeys prevAgg, .groupBy newKeys newAgg =>
      concatDiffs
        [⟨[],if prevKeys = newKeys then [] else [.keyColsChange table prevKeys newKeys],[]⟩,
         concatDiffs (prevAgg.toList.map (classifyPrevSpec table newAgg)),
         ⟨newAgg.toList.filterMap fun entry =>
            if prevAgg.contains entry.1 then none
            else some (.newAgg table entry.1 entry.2.op),[],[]⟩]
  | _, _ => ⟨[],[],[]⟩

def classifyDerivationChanges (prev new : DerivationDescriptor) : RegisterDiff :=
  concatDiffs
    [⟨[],removedOps prev new,[]⟩,
     concatDiffs (List.zipWith (classifyOpChange prev.name) prev.ops new.ops),
     ⟨[],
      if (prev.outputKind = .table || new.outputKind = .table) &&
          prev.tablePrimaryKey ≠ new.tablePrimaryKey then
        [.keyColsChange prev.name (prev.tablePrimaryKey.getD []) (new.tablePrimaryKey.getD [])]
      else [],[]⟩]

/-! ### The whole payload -/

variable {Expr : Type}

def currentNames (prev : RegistryInner Expr) : List String :=
  prev.events.keys ++ prev.tables.keys ++ prev.derivations.keys

def currentDescriptorKind (prev : RegistryInner Expr) (name : String) : String :=
  if prev.events.contains name then "event"
  else if prev.tables.contains name then "table"
  else if prev.derivations.contains name then "derivation"
  else "unknown"

def removedNames (prev : RegistryInner Expr) (payload : List PayloadNode) : List String :=
  (currentNames prev).dedup.filter fun name => !(payload.map PayloadNode.name).contains name

def addedNodes (prev : RegistryInner Expr) (payload : List PayloadNode) : List PayloadNode :=
  payload.filter fun node => !prev.known node.name

/-- The added node a removed name is paired with: the first of its kind that is
not paired yet. -/
def pairRename (prev : RegistryInner Expr) (added : List PayloadNode)
    (paired : List (String × String)) (removed : String) : List (String × String) :=
  match added.find? fun node =>
      !(paired.map Prod.snd).contains node.name &&
        node.kindStr = currentDescriptorKind prev removed with
  | some node => paired ++ [(removed,node.name)]
  | none => paired

/-- Pairs of a removed and an added name, the removed names in the order the
hash set yields them. -/
def pairRenames (prev : RegistryInner Expr) (payload : List PayloadNode)
    (removed : List String) : List (String × String) :=
  removed.foldl (pairRename prev (addedNodes prev payload)) []

/-- The changes of a node whose name is registered; a descriptor of another
kind under this name is not looked at. -/
def classifyPresentNode (prev : RegistryInner Expr) (node : PayloadNode) : RegisterDiff :=
  match node with
  | .event new =>
      match prev.events[new.name]? with
      | some old => classifyEventChanges old new
      | none => ⟨[],[],[]⟩
  | .table new =>
      match prev.tables[new.name]? with
      | some old => classifyTableChanges old new
      | none => ⟨[],[],[]⟩
  | .derivation new =>
      match prev.derivations[new.name]? with
      | some old => classifyDerivationChanges old new
      | none => ⟨[],[],[]⟩

def classifyNode (prev : RegistryInner Expr) (paired : List (String × String))
    (node : PayloadNode) : RegisterDiff :=
  if prev.known node.name then
    let changes := classifyPresentNode prev node
    if changes.additive.isEmpty && changes.destructive.isEmpty then ⟨[],[],[node.name]⟩
    else changes
  else if (paired.map Prod.snd).contains node.name then ⟨[],[],[]⟩
  else ⟨[.newDescriptor node.kindStr node.name],[],[]⟩

/-- `classify_register_diff` with the removed names in the order `removed`. -/
def classifyInOrder (debugStr : String → String) (prev : RegistryInner Expr)
    (payload : List PayloadNode) (removed : List String) : RegisterDiff :=
  let paired := pairRenames prev payload removed
  let renames : List DiffEntry := paired.map fun pair => .rename pair.1 pair.2
  let lost : List DiffEntry :=
    (removed.filter fun name => !(paired.map Prod.fst).contains name).map fun name =>
      .aggRemoval name ""
  let nodes := concatDiffs (payload.map (classifyNode prev paired))
  { additive := sortEntries debugStr nodes.additive
    destructive := sortEntries debugStr (renames ++ lost ++ nodes.destructive)
    alreadyPresent := sortNames nodes.alreadyPresent }

/-- `classify_register_diff`; the hash set is walked kind by kind. -/
def classifyRegisterDiff (debugStr : String → String) (prev : RegistryInner Expr)
    (payload : List PayloadNode) : RegisterDiff :=
  classifyInOrder debugStr prev payload (removedNames prev payload)

end Beava.Registry
