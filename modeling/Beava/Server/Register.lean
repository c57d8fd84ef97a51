/-
The register call.

The dispatcher classifies the payload against the registry, refuses destructive
changes without `force`, and with `force` computes the names to remove and
everything downstream of them.  The payload is validated against the registry
before the removal; the bump that is then written to the log removes the names
and validates the payload again.
-/

import Beava.Registry.Apply
import Beava.Registry.Diff

namespace Beava.Server

open Beava.Core Beava.Registry

variable {Expr : Type} (env : Env Expr)

def beforeDot (text : String) : Option String :=
  if text.toList.contains '.' then some (String.ofList (text.toList.takeWhile (· ≠ '.')))
  else none

def replacedName : DiffEntry → Option String
  | .rename source _ => some source
  | .typeChange field _ _ => beforeDot field
  | .opRemoval table _ => some table
  | .aggRemoval table _ => some table
  | .windowChange agg _ _ => beforeDot agg
  | .keyColsChange table _ _ => some table
  | .newField event _ _ => some event
  | .newAgg table _ _ => some table
  | .newDescriptor .. => none

def replacedNames (diff : RegisterDiff) : List String :=
  KeyMap.sortDedup compare ((diff.destructive ++ diff.additive).filterMap replacedName)

def downstreamOf (derivations : StrMap DerivationDescriptor) (removed : List String) :
    List String :=
  (derivations.toList.filter fun entry =>
    !removed.contains entry.1 && entry.2.upstreams.any removed.contains).map Prod.fst

def cascade (derivations : StrMap DerivationDescriptor) : Nat → List String → List String
  | 0, removed => removed
  | rounds + 1, removed =>
      let additions := downstreamOf derivations removed
      if additions.isEmpty then removed
      else cascade derivations rounds (KeyMap.sortDedup compare (removed ++ additions))

def descriptorCount (registry : RegistryInner Expr) : Nat :=
  registry.events.size + registry.tables.size + registry.derivations.size

def forceRemoved (registry : RegistryInner Expr) (diff : RegisterDiff) : List String :=
  cascade registry.derivations (descriptorCount registry) (replacedNames diff)

structure RegistryBump where
  newVersion : Nat
  payloadNodes : List PayloadNode
  forceRemovedDescriptors : List String

def applyRegistryBump (registry : RegistryInner Expr) (bump : RegistryBump) :
    RegistryInner Expr × Except String Unit :=
  let removed := forceRemoveDescriptors registry bump.forceRemovedDescriptors
  match validatePayload env removed bump.payloadNodes with
  | .ok validated => (applyRegistration env removed validated,.ok ())
  | .error errors =>
      let first :=
        match errors with
        | [] => "None"
        | failure :: _ => "Some(" ++ env.debugStr failure.reason ++ ")"
      (removed,.error ("validation failed during recovery (first error: " ++ first ++ ")"))

inductive RegisterOutcome where
  | success (version : Nat) (registeredDescriptors added alreadyPresent : List String)
  | emptyPayload (version : Nat)
  | noop (version : Nat) (registeredDescriptors alreadyPresent : List String)
  | validationFailed (version : Nat) (errors : List ValidationError)
  | walUnavailable (version : Nat)
  | unsupportedNodeKind (kind : String)
  | dryRun (diff : RegisterDiff)
  | forceRequired (diff : RegisterDiff)

namespace RegisterOutcome

/-- The outcomes that are answered with status 200 and claim the payload is in
force. -/
def accepted : RegisterOutcome → Bool
  | .success .. => true
  | .noop .. => true
  | _ => false

end RegisterOutcome

/-- The registry after the call, the record the call left in the log, and its
outcome. -/
structure RegisterResult (Expr : Type) where
  registry : RegistryInner Expr
  record : Option RegistryBump
  outcome : RegisterOutcome

def newDescriptorNames (diff : RegisterDiff) : List String :=
  diff.additive.filterMap fun entry =>
    match entry with
    | .newDescriptor _ name => some name
    | _ => none

def applyDurable (registry : RegistryInner Expr) (validated : ValidatedPayload Expr)
    (bump : RegistryBump) (added alreadyPresent : List String) : RegisterResult Expr :=
  let names := validated.nodes.map PayloadNode.name
  if bump.forceRemovedDescriptors.isEmpty then
    let applied := applyRegistration env registry validated
    ⟨applied,some bump,.success applied.version names added alreadyPresent⟩
  else
    match applyRegistryBump env registry bump with
    | (applied,.ok ()) =>
        ⟨applied,some bump,.success applied.version names added alreadyPresent⟩
    | (applied,.error _) => ⟨applied,some bump,.walUnavailable registry.version⟩

/-- What becomes of an appended record.  It is in the file before its fsync, and
stays there when that fails. -/
inductive AppendOutcome where
  | notWritten
  | notSynced
  | durable
  deriving DecidableEq

/-- `execute_register_inner`. -/
def executeRegister (registry : RegistryInner Expr) (nodes : List PayloadNode)
    (removed : List String) (append : AppendOutcome) : RegisterResult Expr :=
  if nodes.isEmpty then ⟨registry,none,.emptyPayload registry.version⟩
  else
    match validatePayload env registry nodes with
    | .error errors => ⟨registry,none,.validationFailed registry.version errors⟩
    | .ok validated =>
        let diff := classifyRegisterDiff env.debugStr registry validated.nodes
        if !diff.destructive.isEmpty && removed.isEmpty then
          ⟨registry,none,.walUnavailable registry.version⟩
        else
          let names := validated.nodes.map PayloadNode.name
          let added := if removed.isEmpty then newDescriptorNames diff else names
          if added.isEmpty && removed.isEmpty then
            ⟨registry,none,.noop registry.version names diff.alreadyPresent⟩
          else
            let bump := ⟨registry.version + 1,validated.nodes,removed⟩
            match append with
            | .notWritten => ⟨registry,none,.walUnavailable registry.version⟩
            | .notSynced => ⟨registry,some bump,.walUnavailable registry.version⟩
            | .durable => applyDurable env registry validated bump added diff.alreadyPresent

/-- A register request.  Parsing leaves the cached field list of an event
empty. -/
structure RegisterCall where
  nodes : List PayloadNode
  force : Bool
  dryRun : Bool

def PayloadNode.parsed : PayloadNode → PayloadNode
  | .event descriptor => .event { descriptor with applyFieldNames := [] }
  | node => node

def dispatchRegister (registry : RegistryInner Expr) (call : RegisterCall)
    (append : AppendOutcome) : RegisterResult Expr :=
  let nodes := call.nodes.map PayloadNode.parsed
  match nodes.find? fun node => node.kindStr = "table" with
  | some node => ⟨registry,none,.unsupportedNodeKind node.kindStr⟩
  | none =>
      let diff := classifyRegisterDiff env.debugStr registry nodes
      if call.dryRun then ⟨registry,none,.dryRun diff⟩
      else if !diff.destructive.isEmpty && !call.force then ⟨registry,none,.forceRequired diff⟩
      else
        executeRegister env registry nodes
          (if call.force then forceRemoved registry diff else []) append

end Beava.Server
