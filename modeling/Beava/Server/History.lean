/-
Runs of the server.

A run is a sequence of register calls and pushes.  A register call that changes
the registry leaves a bump in the log of the bumps.
-/

import Beava.Apply.Loop
import Beava.Lib.Machine
import Beava.Server.Register

namespace Beava.Server

open Beava.Core Beava.Apply Beava.Registry

/-! ### Accepting a push -/

/-- `char::is_control`. -/
def isControl (ch : Char) : Bool :=
  ch.val < 0x20 || (0x7F ≤ ch.val && ch.val ≤ 0x9F)

def stringHasControlChars (text : String) : Bool :=
  text.toList.any isControl

mutual

def jsonValueHasControlChars : Json → Bool
  | .string text => stringHasControlChars text
  | .array items => jsonItemsHaveControlChars items
  | .object members => jsonMembersHaveControlChars members
  | _ => false

def jsonItemsHaveControlChars : List Json → Bool
  | [] => false
  | item :: rest => jsonValueHasControlChars item || jsonItemsHaveControlChars rest

def jsonMembersHaveControlChars : List (String × Json) → Bool
  | [] => false
  | (key,value) :: rest =>
      stringHasControlChars key || jsonValueHasControlChars value ||
        jsonMembersHaveControlChars rest

end

mutual

def valueHasControlChars : Value → Bool
  | .str text => stringHasControlChars text
  | .json content => jsonValueHasControlChars content
  | .list items => itemsHaveControlChars items
  | .map entries => entriesHaveControlChars entries
  | _ => false

def itemsHaveControlChars : List Value → Bool
  | [] => false
  | item :: rest => valueHasControlChars item || itemsHaveControlChars rest

def entriesHaveControlChars : List (String × Value) → Bool
  | [] => false
  | (key,value) :: rest =>
      stringHasControlChars key || valueHasControlChars value || entriesHaveControlChars rest

end

def valueTypeCompatible (value : Value) (fieldType : FieldType) : Bool :=
  match fieldType, value with
  | .i64, .i64 _ | .i64, .f64 _ | .f64, .i64 _ | .f64, .f64 _ => true
  | .str, .str _ => true
  | .bool, .bool _ => true
  | .bytes, value | .datetime, value | .json, value => !value.isNull
  | _, _ => false

def validateRowAgainstDescriptor (event : EventDescriptor) (row : Row) : Bool :=
  event.schema.fields.toList.all fun entry =>
    event.schema.optionalFields.contains entry.1 ||
      match row.get entry.1 with
      | some value => valueTypeCompatible value entry.2
      | none => false

def unknownField (event : EventDescriptor) (row : Row) : Option String :=
  (row.fields.map Prod.fst).find? fun field =>
    !event.schema.fields.contains field && !event.schema.optionalFields.contains field

variable {Expr Op : Type} (env : Env Expr) (ops : Operators Expr Op)

/-- The code of the answer to a push that is refused. -/
def pushError (registry : RegistryInner Expr) (eventName : String) (row : Row) : Option String :=
  if stringHasControlChars eventName || entriesHaveControlChars row.fields then
    some "control_character_in_string"
  else
    match registry.events[eventName]? with
    | none => some "event_not_found"
    | some event =>
        match unknownField event row with
        | some field =>
            if field = "event_time" || field = "event_time_ms" then
              some "unknown_field_event_time_v0"
            else some "unknown_field_v0"
        | none =>
            if validateRowAgainstDescriptor event row then none else some "invalid_event"

section Accepted

variable {registry : RegistryInner Expr} {eventName : String} {row : Row} {event : EventDescriptor}

theorem validateRow_of_accepted (accepted : pushError registry eventName row = none)
    (known : registry.events[eventName]? = some event) :
    validateRowAgainstDescriptor event row = true := by
  simp only [pushError,known] at accepted
  split at accepted
  · cases accepted
  · split at accepted
    · split at accepted <;> cases accepted
    · split at accepted
      · assumption
      · cases accepted

theorem checked_of_accepted (accepted : pushError registry eventName row = none)
    (known : registry.events[eventName]? = some event) {field : String} {fieldType : FieldType}
    (declared : event.schema.fields[field]? = some fieldType)
    (required : field ∉ event.schema.optionalFields) :
    ∃ value, row.get field = some value ∧ valueTypeCompatible value fieldType = true := by
  have valid := validateRow_of_accepted accepted known
  have member : (field,fieldType) ∈ event.schema.fields.toList :=
    Std.ExtTreeMap.mem_toList_iff_getElem?_eq_some.mpr declared
  have checked := List.all_eq_true.mp valid _ member
  simp only [List.contains_eq_mem,decide_eq_false required,Bool.false_or] at checked
  cases held : row.get field with
  | none =>
      rw [held] at checked
      cases checked
  | some value =>
      rw [held] at checked
      exact ⟨value,rfl,checked⟩

end Accepted

structure Live (Expr Op : Type) where
  registry : RegistryInner Expr
  tables : StateTables Op
  bumps : List RegistryBump

def Live.start : Live Expr Op := ⟨.empty,[],[]⟩

inductive Action where
  | register (call : RegisterCall) (append : AppendOutcome)
  | push (eventName : String) (row : Row) (nowMs : Int64)

def coldAfterMsOf (registry : RegistryInner Expr) (eventName : String) : Option Nat :=
  registry.events[eventName]?.bind EventDescriptor.coldAfterMs

def Live.next (live : Live Expr Op) : Action → Live Expr Op
  | .register call append =>
      let result := dispatchRegister env live.registry call append
      { live with
        registry := result.registry
        tables := StateTables.ensureCapacityFor live.tables result.registry.nextAggId
        bumps := live.bumps ++ result.record.toList }
  | .push eventName row nowMs =>
      match pushError live.registry eventName row with
      | some _ => live
      | none =>
          { live with
            tables := applyEvent env ops live.registry eventName row nowMs
              (coldAfterMsOf live.registry eventName) live.tables }

def AcceptedAction (live : Live Expr Op) : Action → Prop
  | .register call append => (dispatchRegister env live.registry call append).outcome.accepted = true
  | .push eventName row _ => pushError live.registry eventName row = none

instance (live : Live Expr Op) : ∀ action, Decidable (AcceptedAction env live action)
  | .register call append =>
      inferInstanceAs
        (Decidable ((dispatchRegister env live.registry call append).outcome.accepted = true))
  | .push eventName row _ =>
      inferInstanceAs (Decidable (pushError live.registry eventName row = none))

/-- The bumps of `replay_wal_from_lsn`; a bump that does not apply stops the
recovery. -/
def replayBumps : RegistryInner Expr → List RegistryBump → Except String (RegistryInner Expr)
  | registry, [] => .ok registry
  | registry, bump :: rest =>
      if bump.newVersion ≤ registry.version then replayBumps registry rest
      else
        match applyRegistryBump env registry bump with
        | (applied,.ok ()) => replayBumps applied rest
        | (_,.error reason) => .error reason

/-! ### Samples

Payloads without expressions and operators that keep an integer, for the runs
that are evaluated below. -/

def sampleEnv : Env Empty :=
  { parse := fun _ => .error ⟨0,"expected an expression"⟩
    referencedFields := fun ast => nomatch ast
    inferExprType := fun ast => nomatch ast
    eval := fun ast => nomatch ast
    castBuiltin := fun value _ => value
    debugStr := fun text => "\"" ++ text ++ "\""
    displayF64 := fun _ => "0"
    debugF64 := fun _ => "0.0"
    parseF64 := fun _ => none
    f64OfInt := fun _ => ⟨0⟩
    clusterSignature := fun keys =>
      UInt64.ofNat (keys.foldl
        (fun hash key => key.toList.foldl (fun hash ch => hash * 257 + ch.toNat) (hash + 1)) 0) }

/-- `first` and `last` on integers. -/
def sampleOps : Operators Empty (Option Int64) :=
  { new := fun _ => none
    update := fun descriptor state input =>
      match descriptor.kind, state, input.value with
      | .first, some number, _ => some number
      | _, _, some (.i64 number) => some number
      | _, state, _ => state }

def sampleColumns : List (String × FieldType) := [("k",.str),("x",.i64),("y",.i64)]

def sampleEvent (name : String) : PayloadNode :=
  .event
    { name := name
      schema := ⟨.ofList sampleColumns,[]⟩
      dedupeKey := none
      dedupeWindowMs := none
      keepEventsForMs := none
      coldAfterMs := none
      registeredAtVersion := 0
      applyFieldNames := [] }

def sampleStream (name upstream : String) : PayloadNode :=
  .derivation
    { name := name
      outputKind := .event
      upstreams := [upstream]
      ops := []
      schema := ⟨.ofList sampleColumns,[]⟩
      tablePrimaryKey := none
      registeredAtVersion := 0 }

/-- A table with one feature that reads one field, by `k`. -/
def sampleTable (name upstream : String) (ops : List OpNode) (feature op field : String) :
    PayloadNode :=
  .derivation
    { name := name
      outputKind := .table
      upstreams := [upstream]
      ops := ops ++
        [.groupBy ["k"] (.ofList [(feature,AggSpec.mk op (.object [("field",.string field)]))])]
      schema := ⟨.ofList [("k",FieldType.str),(feature,FieldType.i64)],[]⟩
      tablePrimaryKey := some ["k"]
      registeredAtVersion := 0 }

def swapColumns : List OpNode := [.rename (.ofList [("x","y"),("y","x")])]

def sampleRow (key : String) (x y : Int64) : Row :=
  ⟨[("k",.str key),("x",.i64 x),("y",.i64 y)]⟩

def sampleRegister (nodes : List PayloadNode) (force : Bool) : Action :=
  .register ⟨nodes,force,false⟩ .durable

def entityStates (registry : RegistryInner Expr) (tables : StateTables Op) (name : String) :
    Option (ShapeMap (List Op)) :=
  registry.compiledAggregations[name]?.map fun agg => (StateTables.tableAt tables agg.aggId).rows

def statesOf (registry : RegistryInner Expr) (tables : StateTables Op) (name key : String) :
    Option (List Op) :=
  (entityStates registry tables name).bind fun rows => rows.get (.singleStr key)

end Beava.Server
