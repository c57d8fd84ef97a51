/-
Runs of a deterministic machine under a condition on its steps.

A machine is a function from a state and an action to the next state.  The
condition speaks of the state before a step.  An invariant that every step
meeting the condition keeps holds in every state of a run that meets it.
-/

import Mathlib.Data.List.Basic

namespace Machine

variable {σ α : Type} (next : σ → α → σ)
variable {condition : σ → α → Prop} {state : σ} {actions : List α} {invariant : σ → Prop}
variable {legal : σ → α → Prop}

def run (state : σ) (actions : List α) : σ :=
  actions.foldl next state

/-- Every step of the run meets the condition in the state it starts from. -/
def Meets (condition : σ → α → Prop) : σ → List α → Prop
  | _, [] => True
  | state, action :: rest => condition state action ∧ Meets condition (next state action) rest

instance Meets.instDecidable (condition : σ → α → Prop)
    [∀ state action, Decidable (condition state action)] :
    ∀ state actions, Decidable (Meets next condition state actions)
  | _, [] => .isTrue trivial
  | state, action :: rest =>
      have := Meets.instDecidable condition (next state action) rest
      inferInstanceAs (Decidable (_ ∧ _))

@[simp] theorem run_nil (state : σ) : run next state [] = state := rfl

@[simp] theorem run_cons (state : σ) (action : α) (rest : List α) :
    run next state (action :: rest) = run next (next state action) rest := rfl

theorem run_append (state : σ) (first second : List α) :
    run next state (first ++ second) = run next (run next state first) second :=
  List.foldl_append ..

theorem Meets.take (meets : Meets next condition state actions) (count : Nat) :
    Meets next condition state (actions.take count) := by
  induction actions generalizing state count with
  | nil =>
      rw [List.take_nil]
      exact trivial
  | cons action rest ih =>
      cases count with
      | zero => exact trivial
      | succ count =>
          rw [List.take_succ_cons]
          exact ⟨meets.1,ih meets.2 count⟩

theorem Meets.and {first second : σ → α → Prop} (meetsFirst : Meets next first state actions)
    (meetsSecond : Meets next second state actions) :
    Meets next (fun state action => first state action ∧ second state action) state actions := by
  induction actions generalizing state with
  | nil => exact trivial
  | cons action rest ih =>
      exact ⟨⟨meetsFirst.1,meetsSecond.1⟩,ih meetsFirst.2 meetsSecond.2⟩

theorem meets_append {first second : List α} :
    Meets next condition state (first ++ second) ↔
      Meets next condition state first ∧ Meets next condition (run next state first) second := by
  induction first generalizing state with
  | nil => exact ⟨fun meets => ⟨trivial,meets⟩,fun both => both.2⟩
  | cons action rest ih =>
      rw [List.cons_append,run_cons]
      exact (and_congr_right fun _ => ih).trans and_assoc.symm

theorem invariant_run {condition : σ → α → Prop} {invariant : σ → Prop}
    (keeps : ∀ state action, invariant state → condition state action →
      invariant (next state action))
    {state : σ} {actions : List α} (initial : invariant state)
    (meets : Meets next condition state actions) : invariant (run next state actions) := by
  induction actions generalizing state with
  | nil => exact initial
  | cons action rest ih => exact ih (keeps state action initial meets.1) meets.2

theorem invariant_reached
    (keeps : ∀ state action, invariant state → condition state action →
      invariant (next state action))
    (initial : invariant state)
    (meets : Meets next condition state actions) (count : Nat) :
    invariant (run next state (actions.take count)) :=
  invariant_run next keeps initial (meets.take next count)

theorem run_take_succ (state : σ) (action : α) (rest : List α) (count : Nat) :
    run next state ((action :: rest).take (count + 1)) =
      run next (next state action) (rest.take count) := by
  rw [List.take_succ_cons,run_cons]

/-- When the condition says exactly which legal steps keep the invariant, the
invariant holds all along a legal run exactly when all its steps meet the
condition. -/
theorem reached_iff_meets
    (exact : ∀ state action, legal state action → invariant state →
      (invariant (next state action) ↔ condition state action))
    (initial : invariant state)
    (isLegal : Meets next legal state actions) :
    (∀ count, invariant (run next state (actions.take count))) ↔
      Meets next condition state actions := by
  induction actions generalizing state with
  | nil => exact ⟨fun _ => trivial,fun _ count => by rwa [List.take_nil]⟩
  | cons action rest ih =>
      have here := exact state action isLegal.1 initial
      constructor
      · intro reached
        have after : invariant (next state action) := by
          have first := reached 1
          rwa [run_take_succ,List.take_zero] at first
        refine ⟨here.mp after,(ih after isLegal.2).mp fun count => ?_⟩
        have later := reached (count + 1)
        rwa [run_take_succ] at later
      · rintro ⟨meetsHere,meetsRest⟩ count
        have after := here.mpr meetsHere
        cases count with
        | zero => exact initial
        | succ count =>
            rw [run_take_succ]
            exact (ih after isLegal.2).mpr meetsRest count

/-- When a legal step into a good state must have met the condition, a legal run
through good states meets it all along. -/
theorem meets_of_reached {good : σ → Prop}
    (keeps : ∀ state action, invariant state → legal state action → invariant (next state action))
    (forced : ∀ state action, invariant state → good (next state action) → condition state action)
    (initial : invariant state) (isLegal : Meets next legal state actions)
    (reached : ∀ count, good (run next state (actions.take count))) :
    Meets next condition state actions := by
  induction actions generalizing state with
  | nil => exact trivial
  | cons action rest ih =>
      have after : good (next state action) := by
        have first := reached 1
        rwa [run_take_succ,List.take_zero] at first
      refine ⟨forced state action initial after,?_⟩
      apply ih (keeps state action initial isLegal.1) isLegal.2
      intro count
      have later := reached (count + 1)
      rwa [run_take_succ] at later

end Machine
