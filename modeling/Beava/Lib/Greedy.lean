/-
Greedy assignment of items to requests.

Each request in turn takes the first item it wants that no earlier request has
taken.  The outcome does not depend on the order of the requests exactly when no
two of them want the same item first.
-/

import Mathlib.Data.List.Nodup

namespace Greedy

variable {ρ α : Type} [DecidableEq α] (wanted : ρ → List α)
variable {taken : List (ρ × α)} {entry : ρ × α} {requests : List ρ}
variable {request : ρ}

def take (taken : List (ρ × α)) (request : ρ) : List (ρ × α) :=
  match (wanted request).find? fun item => item ∉ taken.map Prod.snd with
  | some item => taken ++ [(request,item)]
  | none => taken

def assign (requests : List ρ) : List (ρ × α) :=
  requests.foldl (take wanted) []

omit [DecidableEq α] in
/-- What each request takes if it comes first. -/
def firstChoices (requests : List ρ) : List (ρ × α) :=
  requests.filterMap fun request => (wanted request).head?.map fun item => (request,item)

omit [DecidableEq α] in
def Uncontested (requests : List ρ) : Prop :=
  ∀ first ∈ requests, ∀ second ∈ requests, ∀ item ∈ (wanted first).head?,
    item ∈ (wanted second).head? → first = second

variable {wanted}

theorem take_extends (taken : List (ρ × α)) (request : ρ) : taken <+: take wanted taken request := by
  unfold take
  split
  · exact List.prefix_append taken _
  · exact List.prefix_refl taken

theorem mem_take (member : entry ∈ take wanted taken request) :
    entry ∈ taken ∨ entry.1 = request := by
  unfold take at member
  split at member
  · rcases List.mem_append.mp member with earlier | here
    · exact .inl earlier
    · exact .inr (congrArg Prod.fst (List.mem_singleton.mp here))
  · exact .inl member

theorem take_nodup (distinct : (taken.map Prod.snd).Nodup) (request : ρ) :
    ((take wanted taken request).map Prod.snd).Nodup := by
  unfold take
  split
  · rename_i item found
    have isFree := List.find?_some found
    rw [List.map_append,List.nodup_append]
    refine ⟨distinct,List.nodup_singleton _,?_⟩
    intro other member last inLast same
    rw [List.map_singleton,List.mem_singleton] at inLast
    subst same inLast
    exact of_decide_eq_true isFree member
  · exact distinct

theorem take_first (isFree : ∀ item ∈ (wanted request).head?, item ∉ taken.map Prod.snd) :
    take wanted taken request = taken ++ firstChoices wanted [request] := by
  unfold take firstChoices
  cases choices : wanted request with
  | nil => simp [choices]
  | cons item rest =>
      rw [choices] at isFree
      have notTaken := isFree item rfl
      simp [choices,notTaken]

theorem foldl_take_extends (requests : List ρ) (taken : List (ρ × α)) :
    taken <+: requests.foldl (take wanted) taken := by
  induction requests generalizing taken with
  | nil => exact List.prefix_refl taken
  | cons request rest ih => exact (take_extends taken request).trans (ih _)

theorem foldl_take_nodup (distinct : (taken.map Prod.snd).Nodup) (requests : List ρ) :
    ((requests.foldl (take wanted) taken).map Prod.snd).Nodup := by
  induction requests generalizing taken with
  | nil => exact distinct
  | cons request rest ih => exact ih (take_nodup distinct request)

theorem request_mem_of_mem_foldl (member : entry ∈ requests.foldl (take wanted) taken) :
    entry ∈ taken ∨ entry.1 ∈ requests := by
  induction requests generalizing taken with
  | nil => exact .inl member
  | cons request rest ih =>
      rcases ih member with earlier | later
      · rcases mem_take earlier with before | here
        · exact .inl before
        · exact .inr (List.mem_cons.mpr (.inl here))
      · exact .inr (List.mem_cons_of_mem request later)

theorem request_mem_of_mem_assign (member : entry ∈ assign wanted requests) : entry.1 ∈ requests :=
  (request_mem_of_mem_foldl member).resolve_left List.not_mem_nil

theorem assign_nodup (requests : List ρ) : ((assign wanted requests).map Prod.snd).Nodup := by
  have start : (([] : List (ρ × α)).map Prod.snd).Nodup := List.nodup_nil
  exact foldl_take_nodup start requests

omit [DecidableEq α] in
theorem mem_firstChoices :
    entry ∈ firstChoices wanted requests ↔
      entry.1 ∈ requests ∧ entry.2 ∈ (wanted entry.1).head? := by
  simp only [firstChoices,List.mem_filterMap,Option.map_eq_some_iff,Option.mem_def]
  constructor
  · rintro ⟨request,member,item,isFirst,rfl⟩
    exact ⟨member,isFirst⟩
  · rintro ⟨member,isFirst⟩
    exact ⟨entry.1,member,entry.2,isFirst,rfl⟩

theorem foldl_take_of_uncontested {served : List ρ} (distinct : (served ++ requests).Nodup)
    (uncontested : Uncontested wanted (served ++ requests)) :
    requests.foldl (take wanted) (firstChoices wanted served) =
      firstChoices wanted (served ++ requests) := by
  induction requests generalizing served with
  | nil => rw [List.append_nil,List.foldl_nil]
  | cons request rest ih =>
      have isFree : ∀ item ∈ (wanted request).head?,
          item ∉ (firstChoices wanted served).map Prod.snd := by
        intro item isFirst taken
        obtain ⟨entry,member,same⟩ := List.mem_map.mp taken
        subst same
        obtain ⟨isServed,otherFirst⟩ := mem_firstChoices.mp member
        have sameRequest := uncontested entry.1 (List.mem_append_left _ isServed) request
          (List.mem_append_right _ List.mem_cons_self) entry.2 otherFirst isFirst
        exact List.disjoint_of_nodup_append distinct isServed
          (sameRequest ▸ List.mem_cons_self)
      have regroup : served ++ request :: rest = (served ++ [request]) ++ rest := by simp
      rw [List.foldl_cons,take_first isFree]
      have joined : firstChoices wanted served ++ firstChoices wanted [request] =
          firstChoices wanted (served ++ [request]) := (List.filterMap_append ..).symm
      rw [joined,regroup]
      rw [regroup] at distinct uncontested
      exact ih distinct uncontested

theorem assign_of_uncontested (distinct : requests.Nodup)
    (uncontested : Uncontested wanted requests) :
    assign wanted requests = firstChoices wanted requests := by
  rw [← List.nil_append requests] at distinct uncontested
  exact foldl_take_of_uncontested distinct uncontested

theorem mem_assign_cons {item : α} (isFirst : item ∈ (wanted request).head?) (rest : List ρ) :
    (request,item) ∈ assign wanted (request :: rest) := by
  refine (foldl_take_extends rest (take wanted [] request)).subset ?_
  rw [take_first (fun _ _ => List.not_mem_nil),List.nil_append]
  exact mem_firstChoices.mpr ⟨List.mem_singleton_self request,isFirst⟩

omit [DecidableEq α] in
theorem Uncontested.perm {order : List ρ} (uncontested : Uncontested wanted requests)
    (perm : order.Perm requests) : Uncontested wanted order := by
  intro first isFirst second isSecond
  exact uncontested first (perm.mem_iff.mp isFirst) second (perm.mem_iff.mp isSecond)

/-- Two orders of the requests have the same outcome when the requests are
uncontested. -/
theorem assign_perm {first second : List ρ} (perm : first.Perm second) (distinct : second.Nodup)
    (uncontested : Uncontested wanted second) :
    (assign wanted first).Perm (assign wanted second) := by
  rw [assign_of_uncontested (perm.nodup_iff.mpr distinct) (uncontested.perm perm),
    assign_of_uncontested distinct uncontested]
  exact perm.filterMap _

theorem uncontested_of_assign [DecidableEq ρ]
    (same : ∀ first second : List ρ, first.Perm requests → second.Perm requests →
      ∀ entry, entry ∈ assign wanted first → entry ∈ assign wanted second) :
    Uncontested wanted requests := by
  intro first isFirst second isSecond item firstWants secondWants
  have firstOrder := List.perm_cons_erase isFirst
  have secondOrder := List.perm_cons_erase isSecond
  have inFirst := mem_assign_cons firstWants (requests.erase first)
  have inSecond := mem_assign_cons secondWants (requests.erase second)
  have inBoth := same _ _ firstOrder.symm secondOrder.symm _ inFirst
  have sameEntry := List.inj_on_of_nodup_map (assign_nodup (second :: requests.erase second))
    inBoth inSecond rfl
  exact congrArg Prod.fst sameEntry

end Greedy
