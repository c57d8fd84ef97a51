/-
What a run does to one part of a state.

A view is a part of the state that every step changes by what it shows to the view
and by nothing else.  Then a run changes the view by what its actions show, one
after the other, and two runs that show the same leave the same view, however their
other actions are ordered.
-/

import Beava.Lib.Machine

namespace Machine

variable {σ α β γ : Type} (next : σ → α → σ)
variable {state : σ} {inClass : α → Bool}

structure View (good : σ → Prop) (view : σ → β) (shown : α → Option γ) (effect : β → γ → β) :
    Prop where
  keeps : ∀ state action, good state → good (next state action)
  step : ∀ state action, good state →
    view (next state action) =
      match shown action with
      | none => view state
      | some part => effect (view state) part

variable {next} {good : σ → Prop} {view : σ → β} {shown : α → Option γ} {effect : β → γ → β}

theorem View.run (isView : View next good view shown effect) (initial : good state)
    (actions : List α) :
    view (run next state actions) = (actions.filterMap shown).foldl effect (view state) := by
  induction actions generalizing state with
  | nil => rfl
  | cons action rest ih =>
      rw [run_cons,ih (isView.keeps state action initial),isView.step state action initial,
        List.filterMap_cons]
      cases shown action <;> rfl

theorem View.run_eq (isView : View next good view shown effect) (initial : good state)
    {first second : List α} (same : first.filterMap shown = second.filterMap shown) :
    view (Machine.run next state first) = view (Machine.run next state second) := by
  rw [isView.run initial,isView.run initial,same]

theorem filterMap_filter_of_class (outside : ∀ action, inClass action = false → shown action = none)
    (actions : List α) : (actions.filter inClass).filterMap shown = actions.filterMap shown := by
  rw [List.filterMap_filter]
  refine List.filterMap_congr fun action _ => ?_
  cases isMember : inClass action with
  | true => rfl
  | false => exact (outside action isMember).symm

theorem filterMap_eq_of_class (outside : ∀ action, inClass action = false → shown action = none)
    {first second : List α} (same : first.filter inClass = second.filter inClass) :
    first.filterMap shown = second.filterMap shown := by
  rw [← filterMap_filter_of_class outside first,same,filterMap_filter_of_class outside second]

end Machine
