/-
Runs without end.

A schedule says which action a machine takes at each moment.  When every action
is taken again and again, a rank that some action always lowers and no action
raises leads to a goal.
-/

import Beava.Lib.Machine
import Mathlib.Order.WellFounded

namespace Machine

variable {σ α ρ : Type} (next : σ → α → σ)
variable {schedule : Nat → α}
variable {state : σ}

def follow (schedule : Nat → α) (state : σ) : Nat → σ
  | 0 => state
  | moment + 1 => next (follow schedule state moment) (schedule moment)

def Fair (schedule : Nat → α) : Prop :=
  ∀ action moment, ∃ later, moment ≤ later ∧ schedule later = action

theorem Fair.tail (fair : Fair schedule) : Fair fun moment => schedule (moment + 1) := by
  intro action moment
  obtain ⟨later,isLater,taken⟩ := fair action (moment + 1)
  refine ⟨later - 1,by omega,?_⟩
  show schedule (later - 1 + 1) = action
  rw [Nat.sub_add_cancel (by omega)]
  exact taken

theorem follow_tail (schedule : Nat → α) (state : σ) (moment : Nat) :
    follow next (fun moment => schedule (moment + 1)) (next state (schedule 0)) moment =
      follow next schedule state (moment + 1) := by
  induction moment with
  | zero => rfl
  | succ moment ih =>
      rw [follow,ih]
      rfl

theorem invariant_follow {invariant : σ → Prop}
    (keeps : ∀ state action, invariant state → invariant (next state action))
    (initial : invariant state) (moment : Nat) : invariant (follow next schedule state moment) := by
  induction moment with
  | zero => exact initial
  | succ moment ih => exact keeps _ _ ih

/-- In every state short of the goal one action lowers the rank, and it stays
that action until the rank is lowered. -/
structure Progress [LT ρ] (invariant goal : σ → Prop) (rank : σ → ρ) (helpful : σ → α) :
    Prop where
  keeps : ∀ state action, invariant state → invariant (next state action)
  helps : ∀ state, invariant state → ¬ goal state →
    goal (next state (helpful state)) ∨ rank (next state (helpful state)) < rank state
  waits : ∀ state action, invariant state → ¬ goal state →
    goal (next state action) ∨ rank (next state action) < rank state ∨
      (rank (next state action) = rank state ∧ helpful (next state action) = helpful state)

theorem Progress.reaches [Preorder ρ] [WellFoundedLT ρ] {invariant goal : σ → Prop} {rank : σ → ρ}
    {helpful : σ → α} (progress : Progress next invariant goal rank helpful) (fair : Fair schedule)
    (holds : invariant state) : ∃ moment, goal (follow next schedule state moment) := by
  -- The outer induction is on the rank, the inner one on the wait for the helpful action.
  induction current : rank state using WellFoundedLT.induction generalizing state schedule with
  | ind level ihRank =>
      have afterLower : ∀ {schedule : Nat → α} {state : σ}, Fair schedule → invariant state →
          rank (next state (schedule 0)) < level →
          ∃ moment, goal (follow next schedule state moment) := by
        intro schedule state fair holds lower
        obtain ⟨moment,there⟩ := ihRank _ lower fair.tail (progress.keeps _ _ holds) rfl
        rw [follow_tail] at there
        exact ⟨moment + 1,there⟩
      obtain ⟨wait,-,taken⟩ := fair (helpful state) 0
      induction wait generalizing state schedule with
      | zero =>
          by_cases reached : goal state
          · exact ⟨0,reached⟩
          · have helps := progress.helps state holds reached
            rw [← taken,current] at helps
            rcases helps with there | lower
            · exact ⟨1,there⟩
            · exact afterLower fair holds lower
      | succ wait ihWait =>
          by_cases reached : goal state
          · exact ⟨0,reached⟩
          · have waits := progress.waits state (schedule 0) holds reached
            rw [current] at waits
            rcases waits with there | lower | ⟨sameRank,sameHelp⟩
            · exact ⟨1,there⟩
            · exact afterLower fair holds lower
            · obtain ⟨moment,there⟩ := ihWait fair.tail (progress.keeps _ _ holds) sameRank
                (taken.trans sameHelp.symm)
              rw [follow_tail] at there
              exact ⟨moment + 1,there⟩

end Machine
