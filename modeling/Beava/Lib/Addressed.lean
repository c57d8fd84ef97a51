/-
Messages with addresses.

Messages for different addresses share a queue.  What one address gets out of it
depends on its own messages only, and survives a sorting of the queue by any class
of the addresses that keeps the order inside each class.
-/

import Mathlib.Data.List.Basic

namespace Addressed

variable {α β : Type} [DecidableEq α]
variable {address : α}
variable {other : α} {γ : Type} {classes : List γ}

def forAddress (address : α) (messages : List (α × β)) : List β :=
  (messages.filter fun message => message.1 = address).map Prod.snd

@[simp] theorem forAddress_nil (address : α) : forAddress address ([] : List (α × β)) = [] := rfl

@[simp] theorem forAddress_append (address : α) (first second : List (α × β)) :
    forAddress address (first ++ second) = forAddress address first ++ forAddress address second := by
  rw [forAddress,List.filter_append,List.map_append]
  rfl

theorem forAddress_cons_same (address : α) (body : β) (rest : List (α × β)) :
    forAddress address ((address,body) :: rest) = body :: forAddress address rest := by
  rw [forAddress,List.filter_cons,if_pos (decide_eq_true rfl)]
  rfl

theorem forAddress_cons_other (different : other ≠ address) (body : β) (rest : List (α × β)) :
    forAddress address ((other,body) :: rest) = forAddress address rest := by
  rw [forAddress,List.filter_cons,if_neg (by rw [decide_eq_true_eq]; exact different)]
  rfl

theorem forAddress_map_same (address : α) (bodies : List β) :
    forAddress address (bodies.map fun body => (address,body)) = bodies := by
  induction bodies with
  | nil => rfl
  | cons body rest ih => rw [List.map_cons,forAddress_cons_same,ih]

theorem forAddress_map_other (different : other ≠ address) (bodies : List β) :
    forAddress address (bodies.map fun body => (other,body)) = [] := by
  induction bodies with
  | nil => rfl
  | cons body rest ih => rw [List.map_cons,forAddress_cons_other different,ih]

def grouped {γ : Type} [DecidableEq γ] (classOf : α → γ) (classes : List γ)
    (messages : List (α × β)) : List (α × β) :=
  classes.flatMap fun group => messages.filter fun message => classOf message.1 = group

theorem forAddress_filter [DecidableEq γ] (classOf : α → γ) (group : γ) (address : α)
    (messages : List (α × β)) :
    forAddress address (messages.filter fun message => classOf message.1 = group) =
      if classOf address = group then forAddress address messages else [] := by
  induction messages with
  | nil => rw [List.filter_nil,forAddress_nil,ite_self]
  | cons message rest ih =>
      obtain ⟨other,body⟩ := message
      by_cases inGroup : classOf other = group
      · rw [List.filter_cons,if_pos (decide_eq_true inGroup)]
        by_cases same : other = address
        · subst same
          rw [forAddress_cons_same,forAddress_cons_same,ih,if_pos inGroup,if_pos inGroup]
        · rw [forAddress_cons_other same,forAddress_cons_other same,ih]
      · rw [List.filter_cons,if_neg (by rw [decide_eq_true_eq]; exact inGroup),ih]
        by_cases same : other = address
        · subst same
          rw [if_neg inGroup,if_neg inGroup]
        · rw [forAddress_cons_other same]

theorem forAddress_grouped_other [DecidableEq γ] (classOf : α → γ)
    (unlisted : classOf address ∉ classes) (messages : List (α × β)) :
    forAddress address (grouped classOf classes messages) = [] := by
  unfold grouped
  induction classes with
  | nil => rfl
  | cons group rest ih =>
      rw [List.mem_cons,not_or] at unlisted
      rw [List.flatMap_cons,forAddress_append,forAddress_filter,if_neg unlisted.1,
        List.nil_append]
      exact ih unlisted.2

theorem forAddress_grouped [DecidableEq γ] (classOf : α → γ) (distinct : classes.Nodup)
    (listed : classOf address ∈ classes) (messages : List (α × β)) :
    forAddress address (grouped classOf classes messages) = forAddress address messages := by
  induction classes with
  | nil => cases listed
  | cons group rest ih =>
      rw [List.nodup_cons] at distinct
      have parts : grouped classOf (group :: rest) messages =
          (messages.filter fun message => classOf message.1 = group) ++
            grouped classOf rest messages := List.flatMap_cons ..
      rw [parts,forAddress_append,forAddress_filter]
      rcases List.mem_cons.mp listed with isGroup | inRest
      · rw [if_pos isGroup,forAddress_grouped_other classOf (isGroup ▸ distinct.1),
          List.append_nil]
      · have notGroup : classOf address ≠ group := by
          intro same
          exact distinct.1 (same ▸ inRest)
        rw [if_neg notGroup,List.nil_append]
        exact ih distinct.2 inRest

end Addressed
