/-
Summaries that merge.

A summary takes in one item or another summary at a time.  When what it answers is
decided by the items and not by their order, the summaries of the groups of a list
answer together what the summary of the list answers.
-/

import Mathlib.Data.List.Induction
import Mathlib.Data.List.Perm.Subperm

namespace Mergeable

structure Summary (α σ β : Type) where
  empty : σ
  add : α → σ → σ
  merge : σ → σ → σ
  answer : σ → β

namespace Summary

variable {α σ β : Type} (summary : Summary α σ β)

def after (items : List α) : σ :=
  items.foldl (fun state item => summary.add item state) summary.empty

/-- What the merges begin with. -/
inductive Start where
  | fromEmpty
  | fromFirst

def total : Start → List σ → β
  | .fromEmpty, states => summary.answer (states.foldl summary.merge summary.empty)
  | .fromFirst, [] => summary.answer summary.empty
  | .fromFirst, first :: rest => summary.answer (rest.foldl summary.merge first)

/-- Which states stand for a list of items, among the lists that fit, and that what
they answer is the same up to `Same` for the lists of the same items. -/
structure Lawful (Fits : List α → Prop) (Represents : List α → σ → Prop)
    (Same : β → β → Prop) : Prop where
  fits : ∀ {items others : List α}, Fits items → others.Subperm items → Fits others
  empty : Represents [] summary.empty
  add : ∀ {items : List α} {state : σ} (item : α), Fits (items ++ [item]) →
    Represents items state → Represents (items ++ [item]) (summary.add item state)
  merge : ∀ {items others : List α} {state other : σ}, Fits (items ++ others) →
    Represents items state → Represents others other →
    Represents (items ++ others) (summary.merge state other)
  answer : ∀ {items others : List α} {state other : σ}, Fits others → items.Perm others →
    Represents items state → Represents others other →
    Same (summary.answer state) (summary.answer other)

namespace Lawful

variable {summary} {Fits : List α → Prop} {Represents : List α → σ → Prop} {Same : β → β → Prop}
  (lawful : summary.Lawful Fits Represents Same)
variable {items : List α}

include lawful

theorem after_represents (fits : Fits items) : Represents items (summary.after items) := by
  unfold Summary.after
  induction items using List.reverseRecOn with
  | nil => exact lawful.empty
  | append_singleton items item ih =>
      rw [List.foldl_concat]
      have before := lawful.fits fits (List.sublist_append_left items [item]).subperm
      exact lawful.add item fits (ih before)

theorem foldl_merge_represents {state : σ} (groups : List (List α))
    (fits : Fits (items ++ groups.flatten)) (represents : Represents items state) :
    Represents (items ++ groups.flatten)
      ((groups.map summary.after).foldl summary.merge state) := by
  induction groups generalizing items state with
  | nil => rwa [List.flatten_nil,List.append_nil]
  | cons group groups ih =>
      rw [List.flatten_cons,← List.append_assoc] at fits ⊢
      rw [List.map_cons,List.foldl_cons]
      have sofar := lawful.fits fits (List.sublist_append_left _ _).subperm
      have inGroup := lawful.fits sofar (List.sublist_append_right _ _).subperm
      exact ih fits (lawful.merge sofar represents (lawful.after_represents inGroup))

theorem total_after (start : Start) {groups : List (List α)} (fits : Fits items)
    (together : groups.flatten.Perm items) :
    Same (summary.total start (groups.map summary.after)) (summary.answer (summary.after items)) := by
  have allFit := lawful.fits fits together.subperm
  have whole := lawful.after_represents fits
  cases start with
  | fromEmpty =>
      have merged := lawful.foldl_merge_represents groups allFit lawful.empty
      exact lawful.answer fits together merged whole
  | fromFirst =>
      cases groups with
      | nil => exact lawful.answer fits together lawful.empty whole
      | cons group groups =>
          rw [List.flatten_cons] at allFit together
          have inGroup := lawful.fits allFit (List.sublist_append_left _ _).subperm
          have merged := lawful.foldl_merge_represents groups allFit
            (lawful.after_represents inGroup)
          exact lawful.answer fits together merged whole

end Lawful

end Summary

end Mergeable
