/-
Which nodes the diff lists as already present.

A name is listed when no change of a node of that name is seen.  The comparison
sees the fields of events, the old fields and the key of tables, and of
derivations the removed operators and what `group_by`s at one position declare.
The attributes it does not see decide whether the list is exact.
-/

import Beava.Server.Installed
import Beava.Server.Lookup

namespace Beava.Server

open Beava.Core Beava.Registry

variable {Expr : Type}
variable (registry : RegistryInner Expr) (table : String)
variable {node : PayloadNode}

def EventSeenEqual (held event : EventDescriptor) : Prop :=
  held.schema.fields = event.schema.fields

def TableSeenEqual (held table : TableDescriptor) : Prop :=
  held.primaryKey = table.primaryKey ∧
    ∀ (field : String) (fieldType : FieldType), held.schema.fields[field]? = some fieldType →
      table.schema.fields[field]? = some fieldType

/-- Of a feature the operator and the window are seen. -/
def seenSpec (spec : AggSpec) : String × String := (spec.op,windowText spec)

/-- Only two `group_by`s are compared. -/
def OpSeenEqual : OpNode → OpNode → Prop
  | .groupBy heldKeys heldAgg, .groupBy keys agg =>
      heldKeys = keys ∧
        ∀ feature : String, heldAgg[feature]?.map seenSpec = agg[feature]?.map seenSpec
  | _, _ => True

/-- An operator behind the end of the held list is not seen. -/
def DerivationSeenEqual (held derivation : DerivationDescriptor) : Prop :=
  held.ops.length ≤ derivation.ops.length ∧
    (∀ pair ∈ held.ops.zip derivation.ops, OpSeenEqual pair.1 pair.2) ∧
    (held.outputKind = .table ∨ derivation.outputKind = .table →
      held.tablePrimaryKey = derivation.tablePrimaryKey)

/-- The name is registered and no descriptor of the node's kind has a change that
is seen. -/
def SeenEqual (registry : RegistryInner Expr) (node : PayloadNode) : Prop :=
  registry.known node.name = true ∧
    match node with
    | .event event => ∀ held ∈ registry.events[event.name]?, EventSeenEqual held event
    | .table table => ∀ held ∈ registry.tables[table.name]?, TableSeenEqual held table
    | .derivation derivation =>
        ∀ held ∈ registry.derivations[derivation.name]?, DerivationSeenEqual held derivation

def EventUnseenEqual (held event : EventDescriptor) : Prop :=
  held.name = event.name ∧ held.schema.optionalFields = event.schema.optionalFields ∧
    held.dedupeKey = event.dedupeKey ∧ held.dedupeWindowMs = event.dedupeWindowMs ∧
    held.keepEventsForMs = event.keepEventsForMs ∧ held.coldAfterMs = event.coldAfterMs

def TableUnseenEqual (held table : TableDescriptor) : Prop :=
  held.name = table.name ∧
    (∀ field : String, held.schema.fields[field]? = none → table.schema.fields[field]? = none) ∧
    held.schema.optionalFields = table.schema.optionalFields ∧ held.ttlMs = table.ttlMs ∧
    held.temporal = table.temporal ∧ held.retentionMs = table.retentionMs

/-- The parameters of a feature that both declare, and any other pair of
operators. -/
def OpUnseenEqual : OpNode → OpNode → Prop
  | .groupBy _ heldAgg, .groupBy _ agg =>
      ∀ (feature : String) (heldSpec spec : AggSpec), heldAgg[feature]? = some heldSpec →
        agg[feature]? = some spec → heldSpec.params = spec.params
  | heldOp, op => heldOp = op

def DerivationUnseenEqual (held derivation : DerivationDescriptor) : Prop :=
  held.name = derivation.name ∧ held.outputKind = derivation.outputKind ∧
    held.upstreams = derivation.upstreams ∧
    derivation.ops.length ≤ held.ops.length ∧
    (∀ pair ∈ held.ops.zip derivation.ops, OpUnseenEqual pair.1 pair.2) ∧
    (held.outputKind = .event ∧ derivation.outputKind = .event →
      held.tablePrimaryKey = derivation.tablePrimaryKey)

/-- A descriptor of the node's kind is there and the attributes that are not
compared agree. -/
def UnseenEqual (registry : RegistryInner Expr) : PayloadNode → Prop
  | .event event => ∃ held ∈ registry.events[event.name]?, EventUnseenEqual held event
  | .table table => ∃ held ∈ registry.tables[table.name]?, TableUnseenEqual held table
  | .derivation derivation =>
      ∃ held ∈ registry.derivations[derivation.name]?, DerivationUnseenEqual held derivation

/-- No node has only changes that are not seen, and no name has one node with a
seen change and one without. -/
def ChangesSeen (registry : RegistryInner Expr) (payload : List PayloadNode) : Prop :=
  ∀ node ∈ payload, SeenEqual registry node →
    UnseenEqual registry node ∧
      ∀ twin ∈ payload, twin.name = node.name → SeenEqual registry twin

/-! ### Seen and unseen attributes make up a descriptor -/

theorem eventMatches_iff (held event : EventDescriptor) :
    EventMatches held event ↔ EventSeenEqual held event ∧ EventUnseenEqual held event := by
  obtain ⟨name,⟨fields,optionalFields⟩,dedupeKey,dedupeWindowMs,keepEventsForMs,
    coldAfterMs,version,names⟩ := held
  cases event
  simp only [EventMatches,EventSeenEqual,EventUnseenEqual,EventDescriptor.mk.injEq]
  constructor
  · rintro ⟨rfl,rfl,rfl,rfl,rfl,rfl,-,-⟩
    exact ⟨rfl,rfl,rfl,rfl,rfl,rfl,rfl⟩
  · rintro ⟨rfl,rfl,rfl,rfl,rfl,rfl,rfl⟩
    exact ⟨rfl,rfl,rfl,rfl,rfl,rfl,trivial,trivial⟩

theorem fields_eq_iff (held fields : StrMap FieldType) :
    held = fields ↔
      (∀ (field : String) (fieldType : FieldType), held[field]? = some fieldType →
        fields[field]? = some fieldType) ∧
      ∀ field : String, held[field]? = none → fields[field]? = none := by
  constructor
  · rintro rfl
    exact ⟨fun _ _ found => found,fun _ absent => absent⟩
  · rintro ⟨kept,noneNew⟩
    apply Std.ExtTreeMap.ext_getElem?
    intro field
    cases found : held[field]? with
    | none => exact (noneNew field found).symm
    | some fieldType => exact (kept field fieldType found).symm

theorem tableMatches_iff (held table : TableDescriptor) :
    TableMatches held table ↔ TableSeenEqual held table ∧ TableUnseenEqual held table := by
  obtain ⟨name,primaryKey,⟨fields,optionalFields⟩,ttlMs,version,temporal,retentionMs⟩ := held
  obtain ⟨newName,newKey,⟨newFields,newOptional⟩,newTtl,newVersion,newTemporal,
    newRetention⟩ := table
  simp only [TableMatches,TableSeenEqual,TableUnseenEqual,TableDescriptor.mk.injEq,
    Schema.mk.injEq,fields_eq_iff]
  constructor
  · rintro ⟨rfl,rfl,⟨⟨kept,noneNew⟩,rfl⟩,rfl,-,rfl,rfl⟩
    exact ⟨⟨rfl,kept⟩,rfl,noneNew,rfl,rfl,rfl,rfl⟩
  · rintro ⟨⟨rfl,kept⟩,rfl,noneNew,rfl,rfl,rfl,rfl⟩
    exact ⟨rfl,rfl,⟨⟨kept,noneNew⟩,rfl⟩,rfl,trivial,rfl,rfl⟩

theorem specs_eq_of_seen {heldAgg agg : StrMap AggSpec}
    (seen : ∀ feature : String, heldAgg[feature]?.map seenSpec = agg[feature]?.map seenSpec)
    (params : ∀ (feature : String) (heldSpec spec : AggSpec), heldAgg[feature]? = some heldSpec →
      agg[feature]? = some spec → heldSpec.params = spec.params) : heldAgg = agg := by
  apply Std.ExtTreeMap.ext_getElem?
  intro feature
  have seenHere := seen feature
  cases heldFound : heldAgg[feature]? with
  | none =>
      rw [heldFound,Option.map_none] at seenHere
      exact (Option.map_eq_none_iff.mp seenHere.symm).symm
  | some heldSpec =>
      rw [heldFound,Option.map_some] at seenHere
      obtain ⟨spec,found,sameSeen⟩ := Option.map_eq_some_iff.mp seenHere.symm
      have sameParams := params feature heldSpec spec heldFound found
      have sameOp : spec.op = heldSpec.op := congrArg Prod.fst sameSeen
      rw [found]
      cases heldSpec
      cases spec
      cases sameOp
      cases sameParams
      rfl

theorem op_eq_iff (heldOp op : OpNode) :
    heldOp = op ↔ OpSeenEqual heldOp op ∧ OpUnseenEqual heldOp op := by
  constructor
  · rintro rfl
    cases heldOp with
    | groupBy keys agg =>
        refine ⟨⟨rfl,fun _ => rfl⟩,?_⟩
        intro feature heldSpec spec heldFound found
        rw [heldFound] at found
        cases found
        rfl
    | _ => exact ⟨trivial,rfl⟩
  · rintro ⟨seen,unseen⟩
    cases heldOp with
    | groupBy heldKeys heldAgg =>
        cases op with
        | groupBy keys agg => rw [seen.1,specs_eq_of_seen seen.2 unseen]
        | _ => exact unseen
    | _ => exact unseen

theorem ops_eq_iff (heldOps ops : List OpNode) :
    heldOps = ops ↔
      (heldOps.length ≤ ops.length ∧ ∀ pair ∈ heldOps.zip ops, OpSeenEqual pair.1 pair.2) ∧
      ops.length ≤ heldOps.length ∧ ∀ pair ∈ heldOps.zip ops, OpUnseenEqual pair.1 pair.2 := by
  induction heldOps generalizing ops with
  | nil => cases ops <;> simp
  | cons heldOp heldRest ih =>
      cases ops with
      | nil => simp
      | cons op rest =>
          simp only [List.cons.injEq,op_eq_iff heldOp op,ih rest,List.length_cons,
            List.zip_cons_cons,List.forall_mem_cons,Nat.add_le_add_iff_right]
          tauto

theorem derivationMatches_iff (held derivation : DerivationDescriptor) :
    DerivationMatches held derivation ↔
      DerivationSeenEqual held derivation ∧ DerivationUnseenEqual held derivation := by
  obtain ⟨name,kind,upstreams,ops,schema,primaryKey,version⟩ := held
  obtain ⟨newName,newKind,newUpstreams,newOps,newSchema,newPrimaryKey,newVersion⟩ := derivation
  simp only [DerivationMatches,DerivationSeenEqual,DerivationUnseenEqual,
    DerivationDescriptor.mk.injEq,ops_eq_iff ops newOps]
  constructor
  · rintro ⟨rfl,rfl,rfl,⟨seen,unseen⟩,-,rfl,-⟩
    exact ⟨⟨seen.1,seen.2,fun _ => rfl⟩,rfl,rfl,rfl,unseen.1,unseen.2,fun _ => rfl⟩
  · rintro ⟨⟨shorter,seen,keySeen⟩,rfl,rfl,rfl,longer,unseen,keyUnseen⟩
    refine ⟨rfl,rfl,rfl,⟨⟨shorter,seen⟩,longer,unseen⟩,trivial,?_,trivial⟩
    cases kind with
    | event => exact keyUnseen ⟨rfl,rfl⟩
    | table => exact keySeen (.inl rfl)

theorem exists_and_iff {α : Type} {found : Option α} {matches_ seen unseen : α → Prop}
    (split_ : ∀ value, matches_ value ↔ seen value ∧ unseen value) :
    (∃ value ∈ found, matches_ value) ↔
      (∀ value ∈ found, seen value) ∧ ∃ value ∈ found, unseen value := by
  cases found with
  | none => simp
  | some value => simp [split_ value]

theorem known_of_nodeHeld {registry : RegistryInner Expr} (held : NodeHeld registry node) :
    registry.known node.name = true := by
  rw [RegistryInner.known,Bool.or_eq_true,Bool.or_eq_true]
  cases node with
  | event event =>
      obtain ⟨descriptor,found,-⟩ := held
      exact .inl (.inl ((KeyMap.contains_iff_exists _ _).mpr ⟨descriptor,found⟩))
  | table table =>
      obtain ⟨descriptor,found,-⟩ := held
      exact .inl (.inr ((KeyMap.contains_iff_exists _ _).mpr ⟨descriptor,found⟩))
  | derivation derivation =>
      obtain ⟨descriptor,found,-⟩ := held
      exact .inr ((KeyMap.contains_iff_exists _ _).mpr ⟨descriptor,found⟩)

theorem nodeHeld_iff (node : PayloadNode) :
    NodeHeld registry node ↔ SeenEqual registry node ∧ UnseenEqual registry node := by
  constructor
  · intro held
    have isKnown := known_of_nodeHeld held
    cases node with
    | event event =>
        obtain ⟨seen,unseen⟩ := (exists_and_iff fun value => eventMatches_iff value event).mp held
        exact ⟨⟨isKnown,seen⟩,unseen⟩
    | table table =>
        obtain ⟨seen,unseen⟩ := (exists_and_iff fun value => tableMatches_iff value table).mp held
        exact ⟨⟨isKnown,seen⟩,unseen⟩
    | derivation derivation =>
        obtain ⟨seen,unseen⟩ :=
          (exists_and_iff fun value => derivationMatches_iff value derivation).mp held
        exact ⟨⟨isKnown,seen⟩,unseen⟩
  · rintro ⟨⟨-,seen⟩,unseen⟩
    cases node with
    | event event =>
        exact (exists_and_iff fun value => eventMatches_iff value event).mpr ⟨seen,unseen⟩
    | table table =>
        exact (exists_and_iff fun value => tableMatches_iff value table).mpr ⟨seen,unseen⟩
    | derivation derivation =>
        exact (exists_and_iff fun value => derivationMatches_iff value derivation).mpr
          ⟨seen,unseen⟩

/-! ### The comparison reports what it sees -/

def NoChange (diff : RegisterDiff) : Prop :=
  diff.additive = [] ∧ diff.destructive = []

theorem noChange_concatDiffs (diffs : List RegisterDiff) :
    NoChange (concatDiffs diffs) ↔ ∀ diff ∈ diffs, NoChange diff := by
  rw [concatDiffs_eq,NoChange]
  simp only [List.flatMap_eq_nil_iff,NoChange]
  exact forall₂_and.symm

theorem mem_toList_iff {β : Type} (map : StrMap β) (entry : String × β) :
    entry ∈ map.toList ↔ map[entry.1]? = some entry.2 :=
  Std.ExtTreeMap.mem_toList_iff_getElem?_eq_some

theorem changedFieldType_none (owner : String) (fields : StrMap FieldType)
    (entry : String × FieldType) :
    changedFieldType owner fields entry = none ↔ fields[entry.1]? = some entry.2 := by
  unfold changedFieldType
  cases fields[entry.1]? with
  | none => simp
  | some newType =>
      by_cases same : newType = entry.2 <;> simp [same]

theorem fieldTypes_noChange (owner : String) (held fields : StrMap FieldType) :
    held.toList.filterMap (changedFieldType owner fields) = [] ↔
      ∀ (field : String) (fieldType : FieldType), held[field]? = some fieldType →
        fields[field]? = some fieldType := by
  rw [List.filterMap_eq_nil_iff]
  constructor
  · intro noneChanged field fieldType found
    exact (changedFieldType_none owner fields (field,fieldType)).mp
      (noneChanged _ ((mem_toList_iff held (field,fieldType)).mpr found))
  · intro kept entry member
    exact (changedFieldType_none owner fields entry).mpr
      (kept _ _ ((mem_toList_iff held entry).mp member))

theorem newEntries_nil {β γ : Type} (held map : StrMap β) (report : String × β → γ) :
    (map.toList.filterMap fun entry =>
        if held.contains entry.1 then none else some (report entry)) = [] ↔
      ∀ key : String, held[key]? = none → map[key]? = none := by
  rw [List.filterMap_eq_nil_iff]
  constructor
  · intro noneNew key absent
    cases found : map[key]? with
    | none => rfl
    | some value =>
        have nothing := noneNew (key,value) ((mem_toList_iff map (key,value)).mpr found)
        rw [Std.ExtTreeMap.contains_eq_isSome_getElem?,absent] at nothing
        cases nothing
  · intro noneNew entry member
    have present : held.contains entry.1 = true := by
      rw [Std.ExtTreeMap.contains_eq_isSome_getElem?,Option.isSome_iff_ne_none]
      intro absent
      have alsoAbsent := noneNew entry.1 absent
      rw [(mem_toList_iff map entry).mp member] at alsoAbsent
      cases alsoAbsent
    rw [if_pos present]

theorem event_noChange (held event : EventDescriptor) :
    NoChange (classifyEventChanges held event) ↔ EventSeenEqual held event := by
  rw [EventSeenEqual,fields_eq_iff,NoChange,classifyEventChanges,newEntries_nil,
    fieldTypes_noChange,and_comm]

theorem table_noChange (held table : TableDescriptor) :
    NoChange (classifyTableChanges held table) ↔ TableSeenEqual held table := by
  rw [TableSeenEqual,NoChange,classifyTableChanges,List.append_eq_nil_iff,fieldTypes_noChange]
  by_cases same : held.primaryKey = table.primaryKey <;> simp [same]

theorem prevSpec_noChange (agg : StrMap AggSpec) (entry : String × AggSpec) :
    NoChange (classifyPrevSpec table agg entry) ↔
      agg[entry.1]?.map seenSpec = some (seenSpec entry.2) := by
  unfold classifyPrevSpec
  cases agg[entry.1]? with
  | none => simp [NoChange]
  | some spec =>
      simp only [NoChange,classifySpecChange,Option.map_some,Option.some.injEq,seenSpec,
        Prod.mk.injEq]
      by_cases sameOp : entry.2.op = spec.op
      · by_cases sameWindow : windowText entry.2 = windowText spec
        · simp [sameOp,sameWindow]
        · simp [sameOp,sameWindow,Ne.symm sameWindow]
      · simp [sameOp,Ne.symm sameOp]

theorem groupBys_noChange (heldKeys keys : List String) (heldAgg agg : StrMap AggSpec) :
    NoChange (classifyOpChange table (.groupBy heldKeys heldAgg) (.groupBy keys agg)) ↔
      OpSeenEqual (.groupBy heldKeys heldAgg) (.groupBy keys agg) := by
  have keysPart : NoChange
      ⟨[],if heldKeys = keys then [] else [.keyColsChange table heldKeys keys],[]⟩ ↔
        heldKeys = keys := by
    by_cases same : heldKeys = keys <;> simp [NoChange,same]
  have heldPart : NoChange (concatDiffs (heldAgg.toList.map (classifyPrevSpec table agg))) ↔
      ∀ (feature : String) (spec : AggSpec), heldAgg[feature]? = some spec →
        agg[feature]?.map seenSpec = some (seenSpec spec) := by
    rw [noChange_concatDiffs,List.forall_mem_map]
    constructor
    · intro unchanged feature spec found
      exact (prevSpec_noChange table agg (feature,spec)).mp
        (unchanged _ ((mem_toList_iff heldAgg (feature,spec)).mpr found))
    · intro kept entry member
      exact (prevSpec_noChange table agg entry).mpr
        (kept _ _ ((mem_toList_iff heldAgg entry).mp member))
  have newPart := newEntries_nil heldAgg agg fun entry => DiffEntry.newAgg table entry.1 entry.2.op
  rw [classifyOpChange,noChange_concatDiffs]
  simp only [List.forall_mem_cons,List.not_mem_nil,IsEmpty.forall_iff,implies_true,and_true,
    keysPart,heldPart]
  rw [NoChange,newPart]
  simp only [and_true,OpSeenEqual]
  apply and_congr_right
  intro _
  constructor
  · rintro ⟨kept,noneNew⟩ feature
    cases found : heldAgg[feature]? with
    | none => rw [noneNew feature found]
    | some spec => exact (kept feature spec found).symm
  · intro same
    constructor
    · intro feature spec found
      rw [← same feature,found,Option.map_some]
    · intro feature absent
      have sameHere := same feature
      rw [absent,Option.map_none] at sameHere
      exact Option.map_eq_none_iff.mp sameHere.symm

theorem op_noChange (heldOp op : OpNode) :
    NoChange (classifyOpChange table heldOp op) ↔ OpSeenEqual heldOp op := by
  cases heldOp with
  | groupBy heldKeys heldAgg =>
      cases op with
      | groupBy keys agg => exact groupBys_noChange table heldKeys keys heldAgg agg
      | _ => simp [classifyOpChange,NoChange,OpSeenEqual]
  | _ => simp [classifyOpChange,NoChange,OpSeenEqual]

theorem removedOps_nil (held derivation : DerivationDescriptor) :
    removedOps held derivation = [] ↔ held.ops.length ≤ derivation.ops.length := by
  rw [removedOps,List.map_eq_nil_iff,List.drop_eq_nil_iff,List.length_zipIdx]

theorem derivation_noChange (held derivation : DerivationDescriptor) :
    NoChange (classifyDerivationChanges held derivation) ↔
      DerivationSeenEqual held derivation := by
  have opsPart : NoChange
      (concatDiffs (List.zipWith (classifyOpChange held.name) held.ops derivation.ops)) ↔
        ∀ pair ∈ held.ops.zip derivation.ops, OpSeenEqual pair.1 pair.2 := by
    rw [noChange_concatDiffs,← List.map_uncurry_zip_eq_zipWith,List.forall_mem_map]
    exact forall₂_congr fun pair _ => op_noChange held.name pair.1 pair.2
  rw [classifyDerivationChanges,noChange_concatDiffs]
  simp only [List.forall_mem_cons,List.not_mem_nil,IsEmpty.forall_iff,implies_true,and_true,
    opsPart,DerivationSeenEqual]
  rw [NoChange,NoChange,removedOps_nil]
  by_cases sameKey : held.tablePrimaryKey = derivation.tablePrimaryKey
  · simp [sameKey]
  · by_cases isTable : held.outputKind = .table ∨ derivation.outputKind = .table <;>
      simp [sameKey,isTable]

theorem presentNode_noChange (isKnown : registry.known node.name = true) :
    NoChange (classifyPresentNode registry node) ↔ SeenEqual registry node := by
  rw [SeenEqual.eq_def,and_iff_right isKnown]
  cases node with
  | event event =>
      simp only [classifyPresentNode]
      cases registry.events[event.name]? with
      | none => simp [NoChange]
      | some held => simp [event_noChange]
  | table table =>
      simp only [classifyPresentNode]
      cases registry.tables[table.name]? with
      | none => simp [NoChange]
      | some held => simp [table_noChange]
  | derivation derivation =>
      simp only [classifyPresentNode]
      cases registry.derivations[derivation.name]? with
      | none => simp [NoChange]
      | some held => simp [derivation_noChange]

theorem classifyPrevSpec_alreadyPresent (agg : StrMap AggSpec) (entry : String × AggSpec) :
    (classifyPrevSpec table agg entry).alreadyPresent = [] := by
  unfold classifyPrevSpec
  cases agg[entry.1]? <;> rfl

theorem classifyOpChange_alreadyPresent (heldOp op : OpNode) :
    (classifyOpChange table heldOp op).alreadyPresent = [] := by
  unfold classifyOpChange
  split
  · simp only [concatDiffs_eq,List.flatMap_cons,List.flatMap_map,
      classifyPrevSpec_alreadyPresent]
    simp
  · rfl

theorem classifyPresentNode_alreadyPresent (node : PayloadNode) :
    (classifyPresentNode registry node).alreadyPresent = [] := by
  cases node with
  | event event => simp only [classifyPresentNode]; cases registry.events[event.name]? <;> rfl
  | table table => simp only [classifyPresentNode]; cases registry.tables[table.name]? <;> rfl
  | derivation derivation =>
      simp only [classifyPresentNode]
      cases registry.derivations[derivation.name]? with
      | none => rfl
      | some held =>
          simp only [classifyDerivationChanges,concatDiffs_eq,List.flatMap_cons,
            ← List.map_uncurry_zip_eq_zipWith,List.flatMap_map,Function.uncurry_def,
            classifyOpChange_alreadyPresent]
          simp

theorem classifyNode_alreadyPresent (paired : List (String × String)) (node : PayloadNode)
    (name : String) :
    name ∈ (classifyNode registry paired node).alreadyPresent ↔
      name = node.name ∧ SeenEqual registry node := by
  unfold classifyNode
  by_cases isKnown : registry.known node.name = true
  · have sameCondition : ((classifyPresentNode registry node).additive.isEmpty &&
        (classifyPresentNode registry node).destructive.isEmpty) = true ↔
          SeenEqual registry node := by
      rw [Bool.and_eq_true,List.isEmpty_iff,List.isEmpty_iff]
      exact presentNode_noChange registry isKnown
    simp only [isKnown,if_true]
    by_cases seen : SeenEqual registry node
    · rw [if_pos (sameCondition.mpr seen)]
      simp [seen]
    · rw [if_neg (fun holds => seen (sameCondition.mp holds))]
      simp [classifyPresentNode_alreadyPresent,seen]
  · have notSeen : ¬SeenEqual registry node := fun seen => isKnown seen.1
    rw [if_neg isKnown]
    split <;> simp [notSeen]

theorem mem_alreadyPresent (debugStr : String → String) (registry : RegistryInner Expr)
    (payload : List PayloadNode) (name : String) :
    name ∈ (classifyRegisterDiff debugStr registry payload).alreadyPresent ↔
      ∃ node ∈ payload, node.name = name ∧ SeenEqual registry node := by
  simp only [classifyRegisterDiff,classifyInOrder,sortNames,List.mem_insertionSort,
    concatDiffs_eq,List.mem_flatMap,List.mem_map,exists_exists_and_eq_and,
    classifyNode_alreadyPresent]
  exact exists_congr fun node => and_congr_right fun _ => and_congr_left fun _ => eq_comm

/-- The list is exact when no change escapes the comparison. -/
theorem alreadyPresent_exact_iff (debugStr : String → String) (registry : RegistryInner Expr)
    (payload : List PayloadNode) :
    (∀ node ∈ payload,
      node.name ∈ (classifyRegisterDiff debugStr registry payload).alreadyPresent ↔
        NodeHeld registry node) ↔
      ChangesSeen registry payload := by
  simp only [mem_alreadyPresent,nodeHeld_iff]
  constructor
  · intro listed node member seen
    refine ⟨((listed node member).mp ⟨node,member,rfl,seen⟩).2,?_⟩
    intro twin twinMember sameName
    exact ((listed twin twinMember).mp ⟨node,member,sameName.symm,seen⟩).1
  · intro changesSeen node member
    constructor
    · rintro ⟨twin,twinMember,sameName,twinSeen⟩
      have seen := (changesSeen twin twinMember twinSeen).2 node member sameName.symm
      exact ⟨seen,(changesSeen node member seen).1⟩
    · rintro ⟨seen,-⟩
      exact ⟨node,member,rfl,seen⟩

/-- The event of the samples with a setting that is not compared. -/
def coldEvent : PayloadNode :=
  .event
    { name := "E"
      schema := ⟨.ofList sampleColumns,[]⟩
      dedupeKey := none
      dedupeWindowMs := none
      keepEventsForMs := none
      coldAfterMs := some 5000
      registeredAtVersion := 0
      applyFieldNames := [] }

def eventRegistry : RegistryInner Empty :=
  (liveAfter sampleEnv sampleOps [sampleRegister [sampleEvent "E"] false]).registry

instance (registry : RegistryInner Expr) : (node : PayloadNode) → Decidable (NodeHeld registry node)
  | .event event => inferInstanceAs (Decidable (∃ held ∈ registry.events[event.name]?, _))
  | .table table => inferInstanceAs (Decidable (∃ held ∈ registry.tables[table.name]?, _))
  | .derivation derivation =>
      inferInstanceAs (Decidable (∃ held ∈ registry.derivations[derivation.name]?, _))

theorem coldEvent_alreadyPresent :
    "E" ∈ (classifyRegisterDiff sampleEnv.debugStr eventRegistry [coldEvent]).alreadyPresent ∧
      ¬NodeHeld eventRegistry coldEvent := by
  decide

end Beava.Server
