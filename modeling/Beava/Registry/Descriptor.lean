/-
Descriptors, payload nodes and the registry.

The registry holds the descriptors by kind and name together with what was
compiled from them: a chain and an aggregation per derivation, the aggregations
of each source, and the index from feature names to aggregations.
-/

import Beava.Core.Aggregation

namespace Beava.Registry

open Beava.Core

inductive OutputKind where
  | event
  | table
  deriving DecidableEq, Repr

structure EventDescriptor where
  name : String
  schema : Schema
  dedupeKey : Option String
  dedupeWindowMs : Option Nat
  keepEventsForMs : Option Nat
  coldAfterMs : Option Nat
  registeredAtVersion : Nat
  applyFieldNames : List String
  deriving DecidableEq

structure TableDescriptor where
  name : String
  primaryKey : List String
  schema : Schema
  ttlMs : Option Nat
  registeredAtVersion : Nat
  temporal : Bool
  retentionMs : Option Nat
  deriving DecidableEq

structure DerivationDescriptor where
  name : String
  outputKind : OutputKind
  upstreams : List String
  ops : List OpNode
  schema : Schema
  tablePrimaryKey : Option (List String)
  registeredAtVersion : Nat
  deriving DecidableEq

namespace DerivationDescriptor

def hasGroupBy (descriptor : DerivationDescriptor) : Bool :=
  descriptor.ops.any OpNode.isGroupBy

def rowOps (descriptor : DerivationDescriptor) : List OpNode :=
  descriptor.ops.filter fun op => !op.isGroupBy

end DerivationDescriptor

inductive PayloadNode where
  | event (descriptor : EventDescriptor)
  | table (descriptor : TableDescriptor)
  | derivation (descriptor : DerivationDescriptor)
  deriving DecidableEq

namespace PayloadNode

def name : PayloadNode → String
  | .event descriptor => descriptor.name
  | .table descriptor => descriptor.name
  | .derivation descriptor => descriptor.name

def kindStr : PayloadNode → String
  | .event _ => "event"
  | .table _ => "table"
  | .derivation _ => "derivation"

def asDerivation : PayloadNode → Option DerivationDescriptor
  | .derivation descriptor => some descriptor
  | _ => none

end PayloadNode

structure RegistryInner (Expr : Type) where
  version : Nat
  events : StrMap EventDescriptor
  tables : StrMap TableDescriptor
  derivations : StrMap DerivationDescriptor
  compiledChains : StrMap (OpChain Expr)
  compiledAggregations : StrMap (AggregationDescriptor Expr)
  featureIndex : StrMap (String × Nat)
  aggregationsBySource : StrMap (List (AggregationDescriptor Expr))
  nextAggId : Nat
  clusterIdBySignature : Std.ExtTreeMap UInt64 Nat
  nextClusterId : Nat

namespace RegistryInner

variable {Expr : Type}

/-- `RegistryInner::default`. -/
def empty : RegistryInner Expr :=
  { version := 0
    events := ∅
    tables := ∅
    derivations := ∅
    compiledChains := ∅
    compiledAggregations := ∅
    featureIndex := ∅
    aggregationsBySource := ∅
    nextAggId := 0
    clusterIdBySignature := ∅
    nextClusterId := 0 }

def known (registry : RegistryInner Expr) (name : String) : Bool :=
  registry.events.contains name || registry.tables.contains name ||
    registry.derivations.contains name

/-- `compiled_aggregations_for_source`. -/
def aggregationsForSource (registry : RegistryInner Expr) (source : String) :
    List (AggregationDescriptor Expr) :=
  registry.aggregationsBySource.getD source []

/-- `compiled_aggregations_for_source_at_rv`. -/
def aggregationsForSourceAtRv (registry : RegistryInner Expr) (source : String) (maxRv : Nat) :
    List (AggregationDescriptor Expr) :=
  (registry.aggregationsForSource source).filter fun agg =>
    match registry.derivations[agg.nodeName]? with
    | some descriptor => descriptor.registeredAtVersion ≤ maxRv
    | none => false

end RegistryInner

def PayloadNode.schema : PayloadNode → Schema
  | .event descriptor => descriptor.schema
  | .table descriptor => descriptor.schema
  | .derivation descriptor => descriptor.schema

/-- The schema of a registered name: events first, then tables, then
derivations. -/
def RegistryInner.schemaOf {Expr : Type} (registry : RegistryInner Expr) (name : String) :
    Option Schema :=
  match registry.events[name]? with
  | some descriptor => some descriptor.schema
  | none =>
  match registry.tables[name]? with
  | some descriptor => some descriptor.schema
  | none =>
  match registry.derivations[name]? with
  | some descriptor => some descriptor.schema
  | none => none

end Beava.Registry
