/-
Operator lists as runs over a schema and a row.

One step takes the schema through the propagation of an operator and the row
through its compiled form.  Compiling and applying a chain is a run, and every
prefix of an accepted list is accepted.
-/

import Beava.Core.OpChain
import Beava.Lib.Checked
import Beava.Lib.Machine

namespace Beava.Core

variable {Expr : Type} (env : Env Expr)
variable {compiled : List (CompiledOp Expr)} {ops : List OpNode} {chain : OpChain Expr}
variable {index : Nat}

/-- The schema and the row before an operator; the row is gone after a filter
dropped it. -/
structure Stage where
  index : Nat
  schema : Schema
  row : Option Row

def runOp (index : Nat) (op : OpNode) (row : Row) : Option Row :=
  match compileOp env index op with
  | .ok (some compiled) => compiled.apply env row
  | .ok none => some row
  | .error _ => none

def stage (state : Stage) (op : OpNode) : Stage :=
  { index := state.index + 1
    schema := (propagateOp env state.index op state.schema).1
    row := state.row.bind (runOp env state.index op) }

def AcceptedOp (state : Stage) (op : OpNode) : Prop :=
  (propagateOp env state.index op state.schema).2 = []

variable {env}

theorem propagateFrom_nil_iff {index : Nat} {ops : List OpNode} {schema : Schema}
    {row : Option Row} :
    (propagateFrom env index ops schema).2 = [] ↔
      Machine.Meets (stage env) (AcceptedOp env) ⟨index,schema,row⟩ ops := by
  induction ops generalizing index schema row with
  | nil => exact ⟨fun _ => trivial,fun _ => rfl⟩
  | cons op rest ih =>
      simp only [propagateFrom,List.append_eq_nil_iff]
      exact and_congr_right fun _ => ih

theorem compileOps_cons {op : OpNode} {rest : List OpNode}
    (ok : compileOps env index (op :: rest) = .ok compiled) :
    ∃ first others, compileOp env index op = .ok first ∧
      compileOps env (index + 1) rest = .ok others ∧ compiled = first.toList ++ others := by
  unfold compileOps at ok
  obtain ⟨first,firstOk,ok⟩ := Checked.bind_eq_ok ok
  obtain ⟨others,othersOk,ok⟩ := Checked.bind_eq_ok ok
  cases ok
  exact ⟨first,others,firstOk,othersOk,rfl⟩

theorem compileOps_take (ok : compileOps env index ops = .ok compiled) (count : Nat) :
    ∃ fewer, compileOps env index (ops.take count) = .ok fewer := by
  induction ops generalizing index compiled count with
  | nil => exact ⟨[],by rw [List.take_nil]; rfl⟩
  | cons op rest ih =>
      cases count with
      | zero => exact ⟨[],rfl⟩
      | succ count =>
          obtain ⟨first,others,firstOk,othersOk,-⟩ := compileOps_cons ok
          obtain ⟨fewer,fewerOk⟩ := ih othersOk count
          refine ⟨first.toList ++ fewer,?_⟩
          rw [List.take_succ_cons]
          simp only [compileOps,firstOk,fewerOk]
          rfl

/-- A run ends with the propagated schema and the row the compiled operators
make. -/
theorem run_stage (ok : compileOps env index ops = .ok compiled) (schema : Schema)
    (row : Option Row) :
    Machine.run (stage env) ⟨index,schema,row⟩ ops =
      { index := index + ops.length
        schema := (propagateFrom env index ops schema).1
        row := row.bind fun row => compiled.foldlM (fun row op => op.apply env row) row } := by
  induction ops generalizing index schema row compiled with
  | nil =>
      cases ok
      cases row <;> rfl
  | cons op rest ih =>
      obtain ⟨first,others,firstOk,othersOk,rfl⟩ := compileOps_cons ok
      rw [Machine.run_cons]
      simp only [stage]
      rw [ih othersOk]
      simp only [propagateFrom,List.length_cons,Stage.mk.injEq]
      refine ⟨by omega,trivial,?_⟩
      rw [Option.bind_assoc]
      congr 1
      funext before
      simp only [runOp,firstOk]
      cases first with
      | none => rfl
      | some compiledOp =>
          rw [Option.toList_some,List.singleton_append,List.foldlM_cons]
          rfl

theorem compile_eq_ok {schema final : Schema} :
    OpChain.compile env schema ops = .ok (chain,final) ↔
      (propagateFrom env 0 ops schema).2 = [] ∧ compileOps env 0 ops = .ok chain.ops ∧
        (propagateFrom env 0 ops schema).1 = final := by
  unfold OpChain.compile propagateSchema
  constructor
  · intro ok
    obtain ⟨propagated,propagatedOk,ok⟩ := Checked.bind_eq_ok ok
    obtain ⟨compiled,compiledOk,ok⟩ := Checked.bind_eq_ok ok
    cases ok
    simp only at propagatedOk
    split at propagatedOk
    · rename_i noErrors
      cases propagatedOk
      exact ⟨List.isEmpty_iff.mp noErrors,compiledOk,rfl⟩
    · cases propagatedOk
  · rintro ⟨noErrors,compiledOk,isFinal⟩
    simp only [noErrors,List.isEmpty_nil,if_true,compiledOk,isFinal]
    rfl

/-- Every prefix of an accepted list is accepted, and what its chain makes of a
row is where the run stands. -/
theorem compile_take {schema final : Schema}
    (ok : OpChain.compile env schema ops = .ok (chain,final)) (count : Nat) (row : Row) :
    ∃ shorter cut, OpChain.compile env schema (ops.take count) = .ok (shorter,cut) ∧
      (Machine.run (stage env) ⟨0,schema,some row⟩ (ops.take count)).schema = cut ∧
      (Machine.run (stage env) ⟨0,schema,some row⟩ (ops.take count)).row =
        shorter.apply env row := by
  obtain ⟨noErrors,compiledOk,-⟩ := compile_eq_ok.mp ok
  obtain ⟨fewer,fewerOk⟩ := compileOps_take compiledOk count
  have accepted : (propagateFrom env 0 (ops.take count) schema).2 = [] :=
    (@propagateFrom_nil_iff _ _ _ _ _ (some row)).mpr
      ((propagateFrom_nil_iff.mp noErrors).take (stage env) count)
  refine ⟨⟨fewer⟩,_,compile_eq_ok.mpr ⟨accepted,fewerOk,rfl⟩,?_,?_⟩
  · rw [run_stage fewerOk]
  · rw [run_stage fewerOk]
    rfl

/-- With a condition that is exact for one operator: the property holds of what
an accepted list makes of a row if every step meets the condition, and it holds
of what each prefix makes of the row exactly then. -/
theorem prefixes_iff_meets {property : Schema → Row → Prop}
    {condition : Nat → OpNode → Schema → Row → Prop}
    (exact : ∀ (index : Nat) (op : OpNode) (schema : Schema) (row : Row),
      (propagateOp env index op schema).2 = [] → property schema row →
        ((∀ result, runOp env index op row = some result →
            property (propagateOp env index op schema).1 result) ↔
          condition index op schema row))
    {schema final : Schema}
    (ok : OpChain.compile env schema ops = .ok (chain,final)) {row : Row}
    (holds : property schema row) :
    (Machine.Meets (stage env)
        (fun state op => ∀ row ∈ state.row, condition state.index op state.schema row)
        ⟨0,schema,some row⟩ ops →
      ∀ result, chain.apply env row = some result → property final result) ∧
    ((∀ (count : Nat) (shorter : OpChain Expr) (cut : Schema) (result : Row),
        OpChain.compile env schema (ops.take count) = .ok (shorter,cut) →
          shorter.apply env row = some result → property cut result) ↔
      Machine.Meets (stage env)
        (fun state op => ∀ row ∈ state.row, condition state.index op state.schema row)
        ⟨0,schema,some row⟩ ops) := by
  have accepted : Machine.Meets (stage env) (AcceptedOp env) ⟨0,schema,some row⟩ ops :=
    propagateFrom_nil_iff.mp (compile_eq_ok.mp ok).1
  have exactStage : ∀ (state : Stage) (op : OpNode), AcceptedOp env state op →
      (∀ row ∈ state.row, property state.schema row) →
        ((∀ row ∈ (stage env state op).row, property (stage env state op).schema row) ↔
          ∀ row ∈ state.row, condition state.index op state.schema row) := by
    rintro ⟨index,before,current⟩ op isAccepted invariant
    cases current with
    | none =>
        constructor
        · intro _ row member
          cases member
        · intro _ row member
          cases member
    | some current =>
        have step := exact index op before current isAccepted (invariant current rfl)
        constructor
        · intro after row member
          cases member
          exact step.mp fun result isResult => after result isResult
        · intro meets result isResult
          exact step.mpr (meets current rfl) result isResult
  have atStart : ∀ found ∈ some row, property schema found := by
    intro found member
    cases member
    exact holds
  have reachedIff := Machine.reached_iff_meets (stage env) exactStage atStart accepted
  have prefixesIff : (∀ (count : Nat) (shorter : OpChain Expr) (cut : Schema) (result : Row),
      OpChain.compile env schema (ops.take count) = .ok (shorter,cut) →
        shorter.apply env row = some result → property cut result) ↔
      Machine.Meets (stage env)
        (fun state op => ∀ row ∈ state.row, condition state.index op state.schema row)
        ⟨0,schema,some row⟩ ops := by
    rw [← reachedIff]
    constructor
    · intro prefixes count result isResult
      obtain ⟨shorter,cut,shorterOk,sameSchema,sameRow⟩ := compile_take ok count row
      rw [sameSchema]
      rw [sameRow] at isResult
      exact prefixes count shorter cut result shorterOk isResult
    · intro reached count shorter cut result shorterOk isResult
      obtain ⟨found,foundCut,foundOk,sameSchema,sameRow⟩ := compile_take ok count row
      rw [foundOk] at shorterOk
      cases shorterOk
      rw [← sameSchema]
      exact reached count result (sameRow.trans isResult)
  refine ⟨fun meets result isResult => ?_,prefixesIff⟩
  refine prefixesIff.mpr meets ops.length chain final result ?_ isResult
  rwa [List.take_length]

end Beava.Core
