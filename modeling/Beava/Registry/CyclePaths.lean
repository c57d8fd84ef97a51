/-
The cycle that rule 7 reports.

The search is given with an answer for the case that its recursion is cut off,
and with any order of the start names.  The recursion is never cut off, and what
the search reports is a closed walk along upstream edges: the stack is such a
walk at every moment, so the part of it from the gray neighbor on is one too.
-/

import Beava.Registry.Cycles
import Mathlib.Data.List.Chain

namespace Beava.Registry

open Beava.Core

variable {adj : StrMap (List String)}
variable {stack : List String} {node : String} {state : Dfs} {depth : Nat}
variable {outcome : Except (List String) Dfs}
variable {cycle neighbors starts : List String}

/-- A walk along upstream edges that ends where it began. -/
structure IsCycle (adj : StrMap (List String)) (cycle : List String) : Prop where
  walk : cycle.IsChain (Edge adj)
  closed : cycle.getLast? = cycle.head?
  moves : 2 ≤ cycle.length

/-- The loop over the upstreams of a node; `none` when a call was cut off. -/
def visitWithin (visit : String → Dfs → Option (Except (List String) Dfs)) :
    List String → Dfs → Option (Except (List String) Dfs)
  | [], state => some (.ok state)
  | neighbor :: rest, state =>
      match state.color[neighbor]? with
      | some false => some (.error (state.cycleFrom neighbor))
      | some true => visitWithin visit rest state
      | none =>
          match visit neighbor state with
          | none => none
          | some (.error cycle) => some (.error cycle)
          | some (.ok state) => visitWithin visit rest state

/-- `dfs_cycle`, cut off below `depth` nested calls. -/
def dfsWithin (adj : StrMap (List String)) :
    Nat → String → Dfs → Option (Except (List String) Dfs)
  | 0, _, _ => none
  | depth + 1, node, state =>
      match visitWithin (dfsWithin adj depth) (adj.getD node []) (state.enter node) with
      | none => none
      | some (.error cycle) => some (.error cycle)
      | some (.ok state) => some (.ok (state.leave node))

def searchWithin (adj : StrMap (List String)) (depth : Nat) :
    List String → Dfs → Option (Except (List String) Dfs)
  | [], state => some (.ok state)
  | start :: rest, state =>
      if state.color.contains start then searchWithin adj depth rest state
      else
        match dfsWithin adj depth start state with
        | none => none
        | some (.error cycle) => some (.error cycle)
        | some (.ok state) => searchWithin adj depth rest state

def cycleError (payload : List PayloadNode) (cycle : List String) : ValidationError :=
  let path :=
    match (cycle.filterMap fun name => (payloadIndex payload)[name]?).head? with
    | some idx => s!"nodes[{idx}]"
    | none => "nodes"
  ⟨.registrationCycle,path,"cycle detected: " ++ " -> ".intercalate cycle⟩

def cycleErrors (payload : List PayloadNode) : Except (List String) Dfs → List ValidationError
  | .error cycle => [cycleError payload cycle]
  | .ok _ => []

/-- `validate_acyclicity` with the start names in a given order, which in the
source is the order of the keys of a hash map. -/
def validateAcyclicityIn {Expr : Type} (order : List String) (depth : Nat)
    (payload : List PayloadNode) (current : RegistryInner Expr) : Option (List ValidationError) :=
  (searchWithin (overlayGraph payload current) depth order ⟨∅,[]⟩).map (cycleErrors payload)

theorem reaches_last (walk : (stack ++ [node]).IsChain (Edge adj)) :
    ∀ name ∈ stack, Relation.TransGen (Edge adj) name node := by
  induction stack with
  | nil =>
      intro name member
      cases member
  | cons first rest ih =>
      have restWalk : (rest ++ [node]).IsChain (Edge adj) := walk.tail
      have firstEdge : ∃ next, Edge adj first next ∧
          Relation.ReflTransGen (Edge adj) next node := by
        cases rest with
        | nil => exact ⟨node,(List.isChain_cons_cons.mp walk).1,.refl⟩
        | cons second others =>
            refine ⟨second,(List.isChain_cons_cons.mp walk).1,?_⟩
            exact (ih restWalk second List.mem_cons_self).to_reflTransGen
      intro name member
      rcases List.mem_cons.mp member with rfl | inRest
      · obtain ⟨next,edge,onwards⟩ := firstEdge
        exact Relation.TransGen.head' edge onwards
      · exact ih restWalk name inRest

theorem walk_extend {upstream : String} (walk : (stack ++ [node]).IsChain (Edge adj))
    (edge : Edge adj node upstream) : ((stack ++ [node]) ++ [upstream]).IsChain (Edge adj) := by
  refine List.isChain_append.mpr ⟨walk,List.isChain_singleton upstream,?_⟩
  intro last isLast next isNext
  rw [List.getLast?_concat,Option.mem_some_iff] at isLast
  rw [List.head?_cons,Option.mem_some_iff] at isNext
  rw [← isLast,← isNext]
  exact edge

theorem cycleFrom_isCycle {neighbor : String} (onTop : state.stack = stack ++ [node])
    (walk : (stack ++ [node]).IsChain (Edge adj)) (edge : Edge adj node neighbor)
    (onStack : neighbor ∈ state.stack) : IsCycle adj (state.cycleFrom neighbor) := by
  have found : state.stack.findIdx (· = neighbor) < state.stack.length :=
    List.findIdx_lt_length_of_exists ⟨neighbor,onStack,decide_eq_true rfl⟩
  have atIndex : state.stack[state.stack.findIdx (· = neighbor)] = neighbor := by
    have holds := List.findIdx_getElem (w := found)
    exact of_decide_eq_true holds
  have fromNeighbor := List.drop_eq_getElem_cons found
  rw [atIndex] at fromNeighbor
  have extended := walk_extend walk edge
  rw [← onTop] at extended
  have dropped := extended.drop (state.stack.findIdx (· = neighbor))
  rw [List.drop_append_of_le_length found.le] at dropped
  refine ⟨dropped,?_,?_⟩
  · rw [Dfs.cycleFrom,List.getLast?_concat,fromNeighbor]
    rfl
  · rw [Dfs.cycleFrom,fromNeighbor,List.length_append,List.length_cons,List.length_singleton]
    omega

/-- The bounded search was not cut off and a reported cycle is one. -/
structure Returns (adj : StrMap (List String)) (within : Option (Except (List String) Dfs))
    (outcome : Except (List String) Dfs) : Prop where
  returned : within = some outcome
  reported : ∀ cycle, outcome = .error cycle → IsCycle adj cycle

theorem Returns.ok : Returns adj (some (.ok state)) (.ok state) := by
  refine ⟨rfl,?_⟩
  intro cycle impossible
  cases impossible

theorem Returns.error (isCycle : IsCycle adj cycle) :
    Returns adj (some (.error cycle)) (.error cycle) := by
  refine ⟨rfl,?_⟩
  intro reported same
  cases same
  exact isCycle

theorem visitNeighbors_returns {within : String → Dfs → Option (Except (List String) Dfs)}
    {visit : String → Dfs → Except (List String) Dfs}
    (walk : (stack ++ [node]).IsChain (Edge adj))
    (visits : ∀ neighbor state, Edge adj node neighbor → Searched adj state →
      state.stack = stack ++ [node] → state.color[neighbor]? = none →
      Visits adj [neighbor] state (visit neighbor state) ∧
        Returns adj (within neighbor state) (visit neighbor state))
    (areNeighbors : ∀ neighbor ∈ neighbors, Edge adj node neighbor)
    (searched : Searched adj state) (onTop : state.stack = stack ++ [node]) :
    Returns adj (visitWithin within neighbors state) (visitNeighbors visit neighbors state) := by
  induction neighbors generalizing state with
  | nil => exact .ok
  | cons neighbor rest ih =>
      have edge := areNeighbors neighbor List.mem_cons_self
      have restNeighbors : ∀ other ∈ rest, Edge adj node other :=
        fun other member => areNeighbors other (List.mem_cons_of_mem neighbor member)
      unfold visitWithin visitNeighbors
      cases colored : state.color[neighbor]? with
      | none =>
          obtain ⟨visited,returned,reported⟩ := visits neighbor state edge searched onTop colored
          rw [returned]
          cases outcome : visit neighbor state with
          | error cycle => exact .error (reported cycle outcome)
          | ok between =>
              rw [outcome] at visited
              exact ih restNeighbors visited.1.searched (visited.1.stack.trans onTop)
      | some isBlack =>
          cases isBlack with
          | true => exact ih restNeighbors searched onTop
          | false =>
              have onStack := (searched.gray neighbor).mp colored
              exact .error (cycleFrom_isCycle onTop walk edge onStack)

theorem dfsCycle_returns (searched : Searched adj state) (white : state.color[node]? = none)
    (walk : (state.stack ++ [node]).IsChain (Edge adj))
    (enough : adj.size < depth + state.stack.length) :
    Returns adj (dfsWithin adj depth node state) (dfsCycle adj depth node state) := by
  induction depth generalizing node state with
  | zero =>
      have fits := searched.length_stack_le (reaches_last walk)
      omega
  | succ depth ih =>
      have upstreams : Returns adj
          (visitWithin (dfsWithin adj depth) (adj.getD node []) (state.enter node))
          (visitNeighbors (dfsCycle adj depth) (adj.getD node []) (state.enter node)) := by
        apply visitNeighbors_returns walk ?_ (fun _ => id) (searched.enter white) rfl
        intro neighbor between edge betweenSearched onTop betweenWhite
        have betweenWalk : (between.stack ++ [neighbor]).IsChain (Edge adj) := by
          rw [onTop]
          exact walk_extend walk edge
        have betweenEnough : adj.size < depth + between.stack.length := by
          rw [onTop,List.length_append,List.length_singleton]
          omega
        constructor
        · exact dfsCycle_visits betweenSearched betweenWhite (reaches_last betweenWalk)
            betweenEnough
        · exact ih betweenSearched betweenWhite betweenWalk betweenEnough
      obtain ⟨returned,reported⟩ := upstreams
      unfold dfsWithin dfsCycle
      rw [returned]
      cases outcome : visitNeighbors (dfsCycle adj depth) (adj.getD node [])
          (state.enter node) with
      | error cycle => exact .error (reported cycle outcome)
      | ok between => exact .ok

theorem searchFrom_returns {depth : Nat} (enough : adj.size < depth) {starts : List String}
    {state : Dfs} (searched : Searched adj state) (emptyStack : state.stack = []) :
    Returns adj (searchWithin adj depth starts state) (searchFrom adj depth starts state) := by
  induction starts generalizing state with
  | nil => exact .ok
  | cons start rest ih =>
      unfold searchWithin searchFrom
      split
      · exact ih searched emptyStack
      · rename_i notColored
        have white : state.color[start]? = none := by
          rw [Std.ExtTreeMap.contains_eq_isSome_getElem?] at notColored
          simpa using notColored
        have walk : (state.stack ++ [start]).IsChain (Edge adj) := by
          rw [emptyStack]
          exact List.isChain_singleton start
        have enoughHere : adj.size < depth + state.stack.length := Nat.lt_add_right _ enough
        obtain ⟨returned,reported⟩ := dfsCycle_returns searched white walk enoughHere
        have visited := dfsCycle_visits searched white (reaches_last walk) enoughHere
        rw [returned]
        cases outcome : dfsCycle adj depth start state with
        | error cycle => exact .error (reported cycle outcome)
        | ok between =>
            rw [outcome] at visited
            exact ih visited.1.searched (visited.1.stack.trans emptyStack)

theorem visitWithin_mono {within deeper : String → Dfs → Option (Except (List String) Dfs)}
    (agree : ∀ neighbor state outcome, within neighbor state = some outcome →
      deeper neighbor state = some outcome)
    (returned : visitWithin within neighbors state = some outcome) :
    visitWithin deeper neighbors state = some outcome := by
  induction neighbors generalizing state with
  | nil => exact returned
  | cons neighbor rest ih =>
      unfold visitWithin at returned ⊢
      cases colored : state.color[neighbor]? with
      | some isBlack =>
          simp only [colored] at returned ⊢
          cases isBlack with
          | true => exact ih returned
          | false => exact returned
      | none =>
          simp only [colored] at returned ⊢
          cases visited : within neighbor state with
          | none =>
              rw [visited] at returned
              cases returned
          | some between =>
              rw [visited] at returned
              rw [agree neighbor state between visited]
              cases between with
              | error cycle => exact returned
              | ok between => exact ih returned

theorem dfsWithin_succ (returned : dfsWithin adj depth node state = some outcome) :
    dfsWithin adj (depth + 1) node state = some outcome := by
  induction depth generalizing node state outcome with
  | zero => cases returned
  | succ depth ih =>
      unfold dfsWithin at returned ⊢
      cases visited : visitWithin (dfsWithin adj depth) (adj.getD node []) (state.enter node) with
      | none =>
          rw [visited] at returned
          cases returned
      | some between =>
          rw [visited] at returned
          rw [visitWithin_mono (fun _ _ _ => ih) visited]
          exact returned

theorem searchWithin_succ (returned : searchWithin adj depth starts state = some outcome) :
    searchWithin adj (depth + 1) starts state = some outcome := by
  induction starts generalizing state with
  | nil => exact returned
  | cons start rest ih =>
      unfold searchWithin at returned ⊢
      split
      · rename_i colored
        rw [if_pos colored] at returned
        exact ih returned
      · rename_i notColored
        rw [if_neg notColored] at returned
        cases visited : dfsWithin adj depth start state with
        | none =>
            rw [visited] at returned
            cases returned
        | some between =>
            rw [visited] at returned
            rw [dfsWithin_succ visited]
            cases between with
            | error cycle => exact returned
            | ok between => exact ih returned

theorem searchWithin_of_le {deeper : Nat} (deep : depth ≤ deeper)
    (returned : searchWithin adj depth starts state = some outcome) :
    searchWithin adj deeper starts state = some outcome := by
  induction deep with
  | refl => exact returned
  | step _ ih => exact searchWithin_succ ih

theorem IsCycle.onCycle (isCycle : IsCycle adj cycle) : ∃ name, OnCycle adj name := by
  obtain ⟨walk,closed,moves⟩ := isCycle
  obtain ⟨front,last,rfl⟩ : ∃ front last, cycle = front ++ [last] := by
    rcases List.eq_nil_or_concat cycle with rfl | ⟨front,last,rfl⟩
    · cases moves
    · exact ⟨front,last,List.concat_eq_append⟩
  cases front with
  | nil => exact absurd moves (by simp)
  | cons first rest =>
      rw [List.getLast?_concat,List.cons_append,List.head?_cons,Option.some.injEq] at closed
      have reaches := reaches_last walk first List.mem_cons_self
      rw [closed] at reaches
      exact ⟨first,reaches⟩

section AnyOrder

variable {Expr : Type} {payload : List PayloadNode} {current : RegistryInner Expr}
  {order : List String}

theorem validateAcyclicityIn_keys :
    validateAcyclicityIn (overlayGraph payload current).keys
      ((overlayGraph payload current).size + 2) payload current =
        some (validateAcyclicity payload current) := by
  have enough : (overlayGraph payload current).size <
      (overlayGraph payload current).size + 2 := by omega
  have returned := (@searchFrom_returns _ _ enough (overlayGraph payload current).keys _
    searched_start rfl).returned
  rw [validateAcyclicityIn,returned,validateAcyclicity,findCycle]
  cases searchFrom (overlayGraph payload current) ((overlayGraph payload current).size + 2)
    (overlayGraph payload current).keys ⟨∅,[]⟩ with
  | error cycle => rfl
  | ok state => rfl

/-- The search from every key in some order is not cut off and finds a cycle
exactly when there is one. -/
theorem validateAcyclicity_exact
    (anyOrder : order.Perm (overlayGraph payload current).keys) :
    ∃ errors,
      (∀ depth, (overlayGraph payload current).size < depth →
        validateAcyclicityIn order depth payload current = some errors) ∧
      (errors ≠ [] ↔ ∃ name, OnCycle (overlayGraph payload current) name) ∧
      ∀ error ∈ errors, ∃ cycle,
        IsCycle (overlayGraph payload current) cycle ∧ error = cycleError payload cycle := by
  have enough : (overlayGraph payload current).size <
      (overlayGraph payload current).size + 1 := Nat.lt_succ_self _
  obtain ⟨returned,reported⟩ := @searchFrom_returns _ _ enough order _ searched_start rfl
  have visits := @searchFrom_visits _ _ enough order _ searched_start rfl
  cases outcome : searchFrom (overlayGraph payload current)
      ((overlayGraph payload current).size + 1) order ⟨∅,[]⟩ with
  | error cycle =>
      rw [outcome] at returned
      have isCycle := reported cycle outcome
      refine ⟨[cycleError payload cycle],?_,?_,?_⟩
      · intro depth deep
        rw [validateAcyclicityIn,searchWithin_of_le deep returned]
        rfl
      · constructor
        · intro _
          exact isCycle.onCycle
        · intro _
          exact List.cons_ne_nil _ _
      · intro error member
        exact ⟨cycle,isCycle,List.mem_singleton.mp member⟩
  | ok state =>
      rw [outcome] at returned visits
      refine ⟨[],?_,?_,?_⟩
      · intro depth deep
        rw [validateAcyclicityIn,searchWithin_of_le deep returned]
        rfl
      · constructor
        · intro impossible
          exact absurd rfl impossible
        · rintro ⟨name,onCycle⟩
          obtain ⟨upstream,edge,-⟩ := Relation.TransGen.head'_iff.mp onCycle
          obtain ⟨upstreams,found,-⟩ := edge_iff.mp edge
          have isKey := Std.ExtTreeMap.mem_keys.mpr (KeyMap.mem_of_lookup found)
          have isBlack := visits.2 name (anyOrder.mem_iff.mpr isKey)
          exact absurd onCycle (visits.1.searched.offCycles name isBlack)
      · intro error member
        cases member

end AnyOrder

def plainDerivation (name : String) (upstreams : List String) : DerivationDescriptor :=
  { name, outputKind := .event, upstreams, ops := [], schema := Schema.new,
    tablePrimaryKey := none, registeredAtVersion := 0 }

/-- A registry with one derivation that reads `a`. -/
def readerRegistry : RegistryInner Empty :=
  { RegistryInner.empty with derivations := (∅ : StrMap _).insert "b" (plainDerivation "b" ["a"]) }

theorem validateAcyclicity_exact_reader :
    ∃ errors,
      (∀ depth,
        (overlayGraph [.derivation (plainDerivation "a" ["x","b"])] readerRegistry).size < depth →
        validateAcyclicityIn ["b","a"] depth [.derivation (plainDerivation "a" ["x","b"])]
          readerRegistry = some errors) ∧
      (errors ≠ [] ↔ ∃ name,
        OnCycle (overlayGraph [.derivation (plainDerivation "a" ["x","b"])] readerRegistry) name) ∧
      ∀ error ∈ errors, ∃ cycle,
        IsCycle (overlayGraph [.derivation (plainDerivation "a" ["x","b"])] readerRegistry) cycle ∧
          error = cycleError [.derivation (plainDerivation "a" ["x","b"])] cycle := by
  have anyOrder : ["b","a"].Perm
      (overlayGraph [.derivation (plainDerivation "a" ["x","b"])] readerRegistry).keys := by
    decide +kernel
  exact validateAcyclicity_exact anyOrder

end Beava.Registry
