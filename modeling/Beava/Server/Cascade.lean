/-
The names a forced register removes, as a least closed set.

The loop adds, round after round, the derivations with an upstream among the
names.  Every round that finds something moves a derivation inside, so that as
many rounds as there are descriptors are enough, whatever the graph; and it adds
only what every closed set with the seeds has.
-/

import Beava.Server.Removal
import Mathlib.Order.Bounds.Defs

namespace Beava.Server

open Beava.Core Beava.Registry

variable {Expr : Type}
variable {removed : List String}

/-- `downstreamOf` with the derivations in the order they are walked. -/
def downstreamIn (entries : List (String × DerivationDescriptor)) (removed : List String) :
    List String :=
  (entries.filter fun entry =>
    !removed.contains entry.1 && entry.2.upstreams.any removed.contains).map Prod.fst

/-- `cascade` where every round walks the derivations in an order of its own. -/
def cascadeIn (orders : Nat → List (String × DerivationDescriptor)) :
    Nat → List String → List String
  | 0, removed => removed
  | rounds + 1, removed =>
      let additions := downstreamIn (orders rounds) removed
      if additions.isEmpty then removed
      else cascadeIn orders rounds (KeyMap.sortDedup compare (removed ++ additions))

section Orders

variable {derivations : StrMap DerivationDescriptor}
  {orders : Nat → List (String × DerivationDescriptor)}
  (isOrder : ∀ round, (orders round).Perm derivations.toList)

include isOrder

theorem downstreamIn_perm (round : Nat) (removed : List String) :
    (downstreamIn (orders round) removed).Perm (downstreamOf derivations removed) :=
  ((isOrder round).filter _).map Prod.fst

theorem cascadeIn_eq (rounds : Nat) (removed : List String) :
    cascadeIn orders rounds removed = cascade derivations rounds removed := by
  induction rounds generalizing removed with
  | zero => rfl
  | succ rounds ih =>
      have perm := downstreamIn_perm isOrder rounds removed
      have sameNext : KeyMap.sortDedup compare (removed ++ downstreamIn (orders rounds) removed) =
          KeyMap.sortDedup compare (removed ++ downstreamOf derivations removed) :=
        KeyMap.sortDedup_congr fun name => (perm.append_left removed).mem_iff
      simp only [cascadeIn,cascade,perm.isEmpty_eq,sameNext,ih]

end Orders

theorem forceRemoved_eq (registry : RegistryInner Expr) (diff : RegisterDiff) :
    forceRemoved registry diff =
      cascadeIn (fun _ => registry.derivations.toList) (descriptorCount registry)
        (KeyMap.sortDedup compare
          ((diff.destructive ++ diff.additive).filterMap replacedName)) :=
  (cascadeIn_eq (fun _ => List.Perm.refl _) _ _).symm

def ClosedSets (derivations : StrMap DerivationDescriptor) (seeds : List String) :
    Set (Set String) :=
  { names | (∀ seed ∈ seeds, seed ∈ names) ∧
    ∀ (name : String) (derivation : DerivationDescriptor),
      derivations[name]? = some derivation →
        (∃ upstream ∈ derivation.upstreams, upstream ∈ names) → name ∈ names }

theorem cascade_subset {derivations : StrMap DerivationDescriptor} {seeds : List String}
    {names : Set String} (closed : names ∈ ClosedSets derivations seeds) (rounds : Nat)
    (inside : ∀ name ∈ removed, name ∈ names) :
    ∀ name ∈ cascade derivations rounds removed, name ∈ names := by
  induction rounds generalizing removed with
  | zero => exact inside
  | succ rounds ih =>
      simp only [cascade]
      split
      · exact inside
      · apply ih
        intro name member
        rcases List.mem_append.mp (KeyMap.mem_sortDedup.mp member) with before | added
        · exact inside name before
        · obtain ⟨derivation,present,-,upstream,reads,isRemoved⟩ :=
            mem_downstreamOf.mp added
          exact closed.2 name derivation present ⟨upstream,reads,inside upstream isRemoved⟩

theorem sorted_sortDedup (items : List String) :
    (KeyMap.sortDedup compare items).Pairwise (· < ·) := by
  have ordered : (KeyMap.sortDedup compare items).Pairwise fun a b => compare a b = .lt :=
    Std.ExtTreeSet.ordered_toList
  exact ordered.imp fun isLess => compareOfLessAndEq_eq_lt.mp isLess

theorem cascade_sorted (derivations : StrMap DerivationDescriptor) (rounds : Nat)
    (sorted : removed.Pairwise (· < ·)) :
    (cascade derivations rounds removed).Pairwise (· < ·) := by
  induction rounds generalizing removed with
  | zero => exact sorted
  | succ rounds ih =>
      simp only [cascade]
      split
      · exact sorted
      · exact ih (sorted_sortDedup _)

/-- In whatever order the derivations are walked, the loop ends with the least
closed set that has the seeds, as a sorted list without repetitions. -/
theorem cascade_least (registry : RegistryInner Expr) (seeds : List String)
    (orders : Nat → List (String × DerivationDescriptor))
    (isOrder : ∀ round, (orders round).Perm registry.derivations.toList) :
    IsLeast (ClosedSets registry.derivations seeds)
        { name | name ∈ cascadeIn orders (descriptorCount registry)
          (KeyMap.sortDedup compare seeds) } ∧
      (cascadeIn orders (descriptorCount registry) (KeyMap.sortDedup compare seeds)).Pairwise
        (· < ·) := by
  rw [cascadeIn_eq isOrder]
  refine ⟨⟨⟨?_,?_⟩,?_⟩,cascade_sorted _ _ (sorted_sortDedup seeds)⟩
  · intro seed isSeed
    exact subset_cascade _ _ _ (KeyMap.mem_sortDedup.mpr isSeed)
  · exact cascade_descriptorCount_closed registry _
  · intro names closed
    apply cascade_subset closed
    intro name isSeed
    exact closed.1 name (KeyMap.mem_sortDedup.mp isSeed)

def readerOf (name upstream : String) : String × DerivationDescriptor :=
  (name,
   { name := name
     outputKind := .event
     upstreams := [upstream]
     ops := []
     schema := Schema.new
     tablePrimaryKey := none
     registeredAtVersion := 0 })

def cyclicRegistry : RegistryInner Empty :=
  { RegistryInner.empty with
    derivations :=
      .ofList [readerOf "A" "B",readerOf "B" "A",readerOf "C" "B",readerOf "D" "E"] }

theorem cascade_least_cycle :
    IsLeast (ClosedSets cyclicRegistry.derivations ["A"]) { name | name ∈ ["A","B","C"] } := by
  have least := (cascade_least cyclicRegistry ["A"] (fun _ => cyclicRegistry.derivations.toList)
    fun _ => List.Perm.refl _).1
  have result : cascadeIn (fun _ => cyclicRegistry.derivations.toList)
      (descriptorCount cyclicRegistry) (KeyMap.sortDedup compare ["A"]) = ["A","B","C"] := by
    decide
  rw [result] at least
  exact least

end Beava.Server
