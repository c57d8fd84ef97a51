/-
Rows that hold no field twice.

Lookups, the operators of a chain and the checks of a push all take a field for
the first entry under its name.  They are right about the row when the names are
distinct, which every operator keeps and which the reading of a body does not
establish.
-/

import Beava.Core.Deserialize
import Beava.Core.OpEffects
import Beava.Server.History
import Beava.Wal.Record

namespace Beava.Core

variable {Expr : Type} {env : Env Expr} {row result : Row} {op : CompiledOp Expr}
variable {field : String} {value : Value}

def Row.FieldsOnce (row : Row) : Prop := (row.fields.map Prod.fst).Nodup

instance (row : Row) : Decidable row.FieldsOnce :=
  inferInstanceAs (Decidable (List.Nodup _))

theorem Row.FieldsOnce.withField (once : row.FieldsOnce) (field : String) (value : Value) :
    (row.withField field value).FieldsOnce := by
  have before := Row.nodup_names_iff.mp once
  apply Row.nodup_names_iff.mpr
  intro name
  rw [Row.valuesOf_withField]
  split
  · have length := before name
    rw [List.length_cons,List.length_tail]
    omega
  · exact before name

theorem Row.FieldsOnce.of_length_le (once : row.FieldsOnce)
    (shorter : ∀ field, (result.valuesOf field).length ≤ (row.valuesOf field).length) :
    result.FieldsOnce :=
  Row.nodup_names_iff.mpr fun field =>
    (shorter field).trans (Row.nodup_names_iff.mp once field)

theorem setColumn_once (once : row.FieldsOnce) (entry : String × Expr) :
    (setColumn env row entry).FieldsOnce :=
  once.withField _ _

theorem castColumn_once (once : row.FieldsOnce) (entry : String × CastTarget) :
    (castColumn env row entry).FieldsOnce := by
  unfold castColumn
  split
  · exact once.withField _ _
  · exact once

theorem fillColumn_once (once : row.FieldsOnce) (entry : String × Value) :
    (fillColumn row entry).FieldsOnce := by
  unfold fillColumn
  split
  · split
    · exact once.withField _ _
    · exact once
  · exact once

theorem CompiledOp.apply_once (once : row.FieldsOnce) (applied : op.apply env row = some result) :
    result.FieldsOnce := by
  cases op with
  | filter ast =>
      rw [CompiledOp.apply] at applied
      split at applied
      · cases applied
        exact once
      · cases applied
  | select fields =>
      cases applied
      apply Row.nodup_names_iff.mpr
      intro field
      rw [selectRow_values]
      exact Option.length_toList_le
  | drop fields =>
      cases applied
      apply once.of_length_le
      intro field
      rw [drop_values]
      exact (List.drop_sublist ..).length_le
  | rename mapping =>
      cases applied
      refine List.foldlRecOn _ _ ?_ fun row once entry _ => once.withField _ _
      apply once.of_length_le
      intro field
      rw [takeRenamed_values]
      exact (List.drop_sublist ..).length_le
  | withColumns exprs =>
      cases applied
      exact List.foldlRecOn _ _ once fun row once entry _ => setColumn_once once entry
  | cast entries =>
      cases applied
      exact List.foldlRecOn _ _ once fun row once entry _ => castColumn_once once entry
  | fillna defaults =>
      cases applied
      exact List.foldlRecOn _ _ once fun row once entry _ => fillColumn_once once entry

/-- The operator puts values of its own under the name. -/
def CompiledOp.writes (op : CompiledOp Expr) (field : String) : Prop :=
  match op with
  | .filter _ | .select _ | .drop _ => False
  | .rename mapping => ∃ entry ∈ mapping.toList, entry.2 = field
  | .withColumns exprs => field ∈ exprs.map Prod.fst
  | .cast entries => field ∈ entries.map Prod.fst
  | .fillna defaults => field ∈ defaults.map Prod.fst

theorem CompiledOp.apply_values (unwritten : ¬op.writes field)
    (applied : op.apply env row = some result) (member : value ∈ result.valuesOf field) :
    value ∈ row.valuesOf field := by
  cases op with
  | filter ast =>
      rw [CompiledOp.apply] at applied
      split at applied
      · cases applied
        exact member
      · cases applied
  | select fields =>
      cases applied
      rw [selectRow_values,Option.mem_toList] at member
      exact List.mem_of_mem_take (List.mem_of_getLast? member)
  | drop fields =>
      cases applied
      rw [drop_values] at member
      exact List.mem_of_mem_drop member
  | rename mapping =>
      cases applied
      have noValues : renamedValues mapping row field = [] := renamedValues_nil unwritten row
      have values := renamedRow_values mapping row field
      rw [noValues] at values
      exact List.mem_of_mem_drop (values ▸ member)
  | withColumns exprs =>
      cases applied
      have kept : (exprs.foldl (setColumn env) row).valuesOf field = row.valuesOf field := by
        refine List.foldlRecOn (motive := fun current : Row => current.valuesOf field =
          row.valuesOf field) _ _ rfl fun current same entry inExprs => ?_
        have differs : entry.1 ≠ field :=
          fun named => unwritten (List.mem_map.mpr ⟨entry,inExprs,named⟩)
        rw [setColumn,Row.valuesOf_withField,if_neg differs,same]
      rwa [kept] at member
  | cast entries =>
      cases applied
      rwa [foldl_values_of_notMem castColumn_values unwritten] at member
  | fillna defaults =>
      cases applied
      rwa [foldl_values_of_notMem fillColumn_values unwritten] at member

variable {chain : OpChain Expr} {reached : Row}

theorem OpChain.apply_once (once : row.FieldsOnce) (applied : chain.apply env row = some reached) :
    reached.FieldsOnce := by
  obtain ⟨ops⟩ := chain
  unfold OpChain.apply at applied
  induction ops generalizing row with
  | nil =>
      cases applied
      exact once
  | cons op rest ih =>
      rw [List.foldlM_cons,Option.bind_eq_bind,Option.bind_eq_some_iff] at applied
      obtain ⟨current,step,later⟩ := applied
      exact ih (CompiledOp.apply_once once step) later

theorem OpChain.apply_values (unwritten : ∀ op ∈ chain.ops, ¬op.writes field)
    (applied : chain.apply env row = some reached) (member : value ∈ reached.valuesOf field) :
    value ∈ row.valuesOf field := by
  obtain ⟨ops⟩ := chain
  unfold OpChain.apply at applied
  induction ops generalizing row with
  | nil =>
      cases applied
      exact member
  | cons op rest ih =>
      rw [List.foldlM_cons,Option.bind_eq_bind,Option.bind_eq_some_iff] at applied
      obtain ⟨current,step,later⟩ := applied
      have inCurrent := ih (fun op inRest => unwritten op (List.mem_cons_of_mem _ inRest)) later
      exact CompiledOp.apply_values (unwritten op List.mem_cons_self) step inCurrent

theorem OpChain.apply_concat :
    OpChain.apply env ⟨chain.ops ++ [op]⟩ row =
      (chain.apply env row).bind fun reached => op.apply env reached := by
  rw [OpChain.apply,List.foldlM_append]
  simp only [List.foldlM_cons,List.foldlM_nil,Option.bind_eq_bind,Option.pure_def,
    Option.bind_fun_some]
  rfl

theorem Row.FieldsOnce.eq_singleton (once : row.FieldsOnce) (found : row.get field = some value) :
    row.valuesOf field = [value] := by
  have length := Row.nodup_names_iff.mp once field
  rw [Row.get_eq_head] at found
  cases values : row.valuesOf field with
  | nil =>
      rw [values] at found
      cases found
  | cons first rest =>
      rw [values,List.length_cons] at length
      rw [values,List.head?_cons] at found
      have noRest : rest = [] := List.length_eq_zero_iff.mp (by omega)
      rw [noRest,Option.some.inj found]

theorem drop_absent (once : row.FieldsOnce) {fields : List String} (member : field ∈ fields) :
    (fields.foldl Row.withoutField row).get field = none := by
  rw [Row.get_eq_head,drop_values,List.head?_eq_none_iff,List.drop_eq_nil_iff]
  exact (Row.nodup_names_iff.mp once field).trans (List.count_pos_iff.mpr member)

theorem rename_absent (once : row.FieldsOnce) {mapping : StrMap String} {entry : String × String}
    (member : entry ∈ mapping.toList)
    (notTarget : ¬∃ other ∈ mapping.toList, other.2 = entry.1) :
    (renamedRow mapping row).get entry.1 = none := by
  have isMapped : entry.1 ∈ mapping := KeyMap.mem_of_mem_toList member
  rw [Row.get_eq_head,renamedRow_values,renamedValues_nil notTarget,List.getLast?_nil]
  rw [List.head?_eq_none_iff,List.drop_eq_nil_iff]
  exact (Row.nodup_names_iff.mp once entry.1).trans (count_keys_pos isMapped)

end Beava.Core

namespace Beava.Server

open Beava.Core Beava.Registry Beava.Wal

/-- What holds of the row of a push and of the chains that run over it when no
field is there twice. -/
structure HeldOnce {Expr : Type} (env : Env Expr) (event : EventDescriptor) (row : Row) : Prop where
  distinct : ∀ (chain : OpChain Expr) reached, chain.apply env row = some reached →
    reached.FieldsOnce
  dropped : ∀ (chain : OpChain Expr) fields reached,
    OpChain.apply env ⟨chain.ops ++ [.drop fields]⟩ row = some reached →
      ∀ field ∈ fields, reached.get field = none
  renamed : ∀ (chain : OpChain Expr) (mapping : StrMap String) reached,
    OpChain.apply env ⟨chain.ops ++ [.rename mapping]⟩ row = some reached →
      ∀ entry ∈ mapping.toList, (¬∃ other ∈ mapping.toList, other.2 = entry.1) →
        reached.get entry.1 = none
  checked : ∀ field fieldType, event.schema.fields[field]? = some fieldType →
    field ∉ event.schema.optionalFields →
      ∃ value, valueTypeCompatible value fieldType = true ∧
        ∀ (chain : OpChain Expr) reached, (∀ op ∈ chain.ops, ¬op.writes field) →
          chain.apply env row = some reached →
            ∀ seen, reached.get field = some seen → seen = value

variable {Expr : Type} {env : Env Expr} {registry : RegistryInner Expr} {eventName : String}
  {event : EventDescriptor} {row : Row}

theorem heldOnce_of_fieldsOnce (known : registry.events[eventName]? = some event)
    (accepted : pushError registry eventName row = none) (once : row.FieldsOnce) :
    HeldOnce env event row where
  distinct chain reached applied := OpChain.apply_once once applied
  dropped chain fields reached applied field member := by
    rw [OpChain.apply_concat,Option.bind_eq_some_iff] at applied
    obtain ⟨current,earlier,last⟩ := applied
    cases last
    exact drop_absent (OpChain.apply_once once earlier) member
  renamed chain mapping reached applied entry member notTarget := by
    rw [OpChain.apply_concat,Option.bind_eq_some_iff] at applied
    obtain ⟨current,earlier,last⟩ := applied
    cases last
    exact rename_absent (OpChain.apply_once once earlier) member notTarget
  checked field fieldType declared required := by
    obtain ⟨value,found,compatible⟩ := checked_of_accepted accepted known declared required
    refine ⟨value,compatible,fun chain reached unwritten applied seen isSeen => ?_⟩
    rw [Row.get_eq_head] at isSeen
    have inRow := OpChain.apply_values unwritten applied (List.mem_of_mem_head? isSeen)
    rw [once.eq_singleton found,List.mem_singleton] at inRow
    exact inRow

theorem heldOnce_names_iff (members : List (String × Data))
    (known : registry.events[eventName]? = some event)
    (accepted : pushError registry eventName (visitMap env.f64OfInt members) = none) :
    HeldOnce env event (visitMap env.f64OfInt members) ↔ (members.map Prod.fst).Nodup := by
  rw [← visitMap_names env.f64OfInt members]
  exact ⟨fun held => held.distinct ⟨[]⟩ _ rfl,heldOnce_of_fieldsOnce known accepted⟩

/-- The row of an accepted push, whatever its format, holds each field once exactly
when the map of its body has no key twice. -/
theorem heldOnce_iff (env : Env Expr) (readers : BodyReaders) (bodyFormat : UInt8)
    (body : List UInt8) (registry : RegistryInner Expr) (eventName : String)
    (event : EventDescriptor) (row : Row)
    (isRow : readers.row env.f64OfInt bodyFormat body = some row)
    (known : registry.events[eventName]? = some event)
    (accepted : pushError registry eventName row = none) :
    HeldOnce env event row ↔ readers.KeysOnce bodyFormat body := by
  obtain ⟨members,isRead,rfl⟩ := Option.map_eq_some_iff.mp isRow
  rw [heldOnce_names_iff members known accepted,BodyReaders.KeysOnce,isRead]
  constructor
  · intro nodup found same
    cases same
    exact nodup
  · intro each
    exact each members rfl

def sampleReaders (known : List UInt8) (members : List (String × Data)) : BodyReaders :=
  { json := fun body => if body = known then some members else none
    msgpack := fun _ => none }

theorem sampleReaders_read (known : List UInt8) (members : List (String × Data)) :
    (sampleReaders known members).read ctJson known = some members := by
  rw [BodyReaders.read,if_neg (by decide)]
  exact if_pos rfl

abbrev sampleRegistry : RegistryInner Empty :=
  (dispatchRegister sampleEnv .empty ⟨[sampleEvent "E"],false,false⟩ .durable).registry

def registeredEvent : EventDescriptor := sampleRegistry.events["E"]?.get (by decide)

def distinctMembers : List (String × Data) := [("k",.str "u"),("x",.u64 1),("y",.u64 2)]

def repeatedMembers : List (String × Data) := distinctMembers ++ [("x",.str "unchecked")]

def distinctBody : List UInt8 := strAsBytes "\x7b\"k\":\"u\",\"x\":1,\"y\":2\x7d"

theorem distinctMembers_heldOnce :
    HeldOnce sampleEnv registeredEvent (visitMap sampleEnv.f64OfInt distinctMembers) ↔
      (sampleReaders distinctBody distinctMembers).KeysOnce ctJson distinctBody :=
  heldOnce_iff sampleEnv (sampleReaders distinctBody distinctMembers) ctJson distinctBody
    sampleRegistry "E" registeredEvent (visitMap sampleEnv.f64OfInt distinctMembers)
    (congrArg (Option.map _) (sampleReaders_read _ _)) (Option.some_get _).symm (by decide)

/-- The second value of a repeated key is never checked and comes up when the field
is dropped. -/
theorem repeatedMembers_heldTwice :
    pushError sampleRegistry "E" (visitMap sampleEnv.f64OfInt repeatedMembers) = none ∧
    (OpChain.apply sampleEnv ⟨[.drop ["x"]]⟩
      (visitMap sampleEnv.f64OfInt repeatedMembers)).bind (Row.get · "x") =
        some (.str "unchecked") ∧
    ¬HeldOnce sampleEnv registeredEvent (visitMap sampleEnv.f64OfInt repeatedMembers) := by
  have known : sampleRegistry.events["E"]? = some registeredEvent := (Option.some_get _).symm
  have accepted : pushError sampleRegistry "E" (visitMap sampleEnv.f64OfInt repeatedMembers) =
      none := by decide
  refine ⟨accepted,by decide,?_⟩
  rw [heldOnce_names_iff repeatedMembers known accepted]
  decide

end Beava.Server
