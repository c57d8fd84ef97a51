/-
Sessions of a sequence of events.

Two events that follow each other are close or there is a gap between them.  The
current session is what came since the last gap: the longest suffix without one.
-/

import Mathlib.Data.List.Chain
import Mathlib.Data.List.Infix

namespace Sessions

variable {α : Type} (close : α → α → Bool)
variable {events : List α} {event : α}
variable {session : List α}

/-- The session goes on, or the event starts another. -/
def goOn (session : List α) (event : α) : List α :=
  match session.getLast? with
  | some last => if close last event then session ++ [event] else [event]
  | none => [event]

def current (events : List α) : List α := events.foldl (goOn close) []

/-- The longest suffix without a gap. -/
structure IsCurrent (events session : List α) : Prop where
  suffix : session <:+ events
  noGap : session.IsChain fun first second => close first second = true
  longest : ∀ other, other <:+ events →
    (other.IsChain fun first second => close first second = true) → other <:+ session

variable {close}

theorem current_append_singleton (events : List α) (event : α) :
    current close (events ++ [event]) = goOn close (current close events) event := by
  rw [current,List.foldl_append]
  rfl

theorem suffix_append_singleton {other : List α} (suffix : other <:+ events ++ [event]) :
    other = [] ∨ ∃ before, other = before ++ [event] ∧ before <:+ events := by
  rcases List.eq_nil_or_concat other with isEmpty | ⟨before,last,isConcat⟩
  · exact .inl isEmpty
  · right
    rw [List.concat_eq_append] at isConcat
    subst isConcat
    obtain ⟨lead,whole⟩ := suffix
    rw [← List.append_assoc] at whole
    obtain ⟨sameBefore,sameLast⟩ := List.append_inj' whole rfl
    exact ⟨before,by rw [List.cons.inj sameLast |>.1],lead,sameBefore⟩

theorem noGap_append_singleton {before : List α} :
    ((before ++ [event]).IsChain fun first second => close first second = true) ↔
      (before.IsChain fun first second => close first second = true) ∧
        ∀ last, before.getLast? = some last → close last event = true := by
  rw [List.isChain_append]
  simp

theorem IsCurrent.getLast? (isCurrent : IsCurrent close events session) :
    session.getLast? = events.getLast? := by
  cases isLast : events.getLast? with
  | none =>
      have isEmpty := List.getLast?_eq_none_iff.mp isLast
      have suffix := isCurrent.suffix
      rw [isEmpty,List.suffix_nil] at suffix
      rw [suffix]
      rfl
  | some last =>
      obtain ⟨before,isConcat⟩ := List.getLast?_eq_some_iff.mp isLast
      have alone := isCurrent.longest [last] ⟨before,isConcat.symm⟩ (List.IsChain.singleton last)
      obtain ⟨lead,whole⟩ := alone
      rw [← whole,List.getLast?_append_of_ne_nil _ (List.cons_ne_nil last [])]
      rfl

theorem isCurrent_nil : IsCurrent close [] [] where
  suffix := List.suffix_refl []
  noGap := List.IsChain.nil
  longest _ suffix _ := suffix

theorem IsCurrent.joined (isCurrent : IsCurrent close events session)
    (joins : ∀ last, events.getLast? = some last → close last event = true) :
    IsCurrent close (events ++ [event]) (session ++ [event]) where
  suffix := by
    obtain ⟨lead,whole⟩ := isCurrent.suffix
    exact ⟨lead,by rw [← whole,List.append_assoc]⟩
  noGap := by
    rw [noGap_append_singleton,isCurrent.getLast?]
    exact ⟨isCurrent.noGap,joins⟩
  longest := by
    intro other suffix noGap
    rcases suffix_append_singleton suffix with rfl | ⟨before,rfl,beforeSuffix⟩
    · exact List.nil_suffix
    · rw [noGap_append_singleton] at noGap
      obtain ⟨lead,whole⟩ := isCurrent.longest before beforeSuffix noGap.1
      exact ⟨lead,by rw [← whole,List.append_assoc]⟩

theorem isCurrent_alone {last : α} (isLast : events.getLast? = some last)
    (gap : close last event = false) : IsCurrent close (events ++ [event]) [event] where
  suffix := ⟨events,rfl⟩
  noGap := List.IsChain.singleton event
  longest := by
    intro other suffix noGap
    rcases suffix_append_singleton suffix with rfl | ⟨before,rfl,beforeSuffix⟩
    · exact List.nil_suffix
    · rw [noGap_append_singleton] at noGap
      cases isBefore : before.getLast? with
      | none =>
          rw [List.getLast?_eq_none_iff.mp isBefore,List.nil_append]
      | some lastBefore =>
          obtain ⟨lead,whole⟩ := beforeSuffix
          have notEmpty : before ≠ [] := by
            intro isEmpty
            rw [isEmpty] at isBefore
            cases isBefore
          rw [← whole,List.getLast?_append_of_ne_nil _ notEmpty,isBefore] at isLast
          have joined := noGap.2 lastBefore isBefore
          rw [Option.some.inj isLast,gap] at joined
          cases joined

theorem current_isCurrent (events : List α) : IsCurrent close events (current close events) := by
  induction events using List.reverseRecOn with
  | nil => exact isCurrent_nil
  | append_singleton events event ih =>
      rw [current_append_singleton,goOn,ih.getLast?]
      cases isLast : events.getLast? with
      | none =>
          have isEmpty := List.getLast?_eq_none_iff.mp isLast
          subst isEmpty
          exact ih.joined fun last isLast => by cases isLast
      | some last =>
          dsimp only
          split
          · rename_i joins
            apply ih.joined
            intro other isOther
            rw [isLast] at isOther
            rw [← Option.some.inj isOther]
            exact joins
          · rename_i gap
            exact isCurrent_alone isLast (eq_false_of_ne_true gap)

theorem IsCurrent.unique {first second : List α} (isFirst : IsCurrent close events first)
    (isSecond : IsCurrent close events second) : first = second := by
  have below := isSecond.longest first isFirst.suffix isFirst.noGap
  have above := isFirst.longest second isSecond.suffix isSecond.noGap
  exact below.eq_of_length_le above.length_le

theorem current_eq_self (noGap : events.IsChain fun first second => close first second = true) :
    current close events = events :=
  (current_isCurrent events).unique ⟨List.suffix_refl events,noGap,fun _ suffix _ => suffix⟩

end Sessions
