/-
The cycle check of rule 7.

The depth-first search is exact: it reports a cycle if and only if there is
one.  A gray name is on the stack and reaches the name that is visited; a black
name has only black upstreams and is on no cycle.
-/

import Beava.Lib.KeyMap
import Beava.Registry.Validate
import Mathlib.Logic.Relation

namespace Beava.Registry

open Beava.Core

variable {adj : StrMap (List String)}
variable {node : String}
variable {state : Dfs}

/-- An edge of the graph, from a derivation to one of its upstreams. -/
def Edge (adj : StrMap (List String)) (name upstream : String) : Prop :=
  upstream ∈ adj.getD name []

def OnCycle (adj : StrMap (List String)) (name : String) : Prop :=
  Relation.TransGen (Edge adj) name name

theorem edge_iff {name upstream : String} :
    Edge adj name upstream ↔ ∃ upstreams, adj[name]? = some upstreams ∧ upstream ∈ upstreams := by
  rw [Edge,Std.ExtTreeMap.getD_eq_getD_getElem?]
  cases adj[name]? with
  | none => simp
  | some upstreams => simp

structure Searched (adj : StrMap (List String)) (state : Dfs) : Prop where
  gray : ∀ name : String, state.color[name]? = some false ↔ name ∈ state.stack
  distinct : state.stack.Nodup
  closed : ∀ name upstream : String, state.color[name]? = some true → Edge adj name upstream →
    state.color[upstream]? = some true
  offCycles : ∀ name : String, state.color[name]? = some true → ¬ OnCycle adj name

/-- What a part of the search leaves: the stack is as before and no name loses
its black colour. -/
structure Advanced (adj : StrMap (List String)) (before after : Dfs) : Prop where
  searched : Searched adj after
  stack : after.stack = before.stack
  black : ∀ name : String, before.color[name]? = some true → after.color[name]? = some true

theorem Advanced.trans {first second third : Dfs} (earlier : Advanced adj first second)
    (later : Advanced adj second third) : Advanced adj first third where
  searched := later.searched
  stack := later.stack.trans earlier.stack
  black name isBlack := later.black name (earlier.black name isBlack)

/-- What the search may answer at a name: a cycle that is there, or a state in
which the name is black. -/
def Visits (adj : StrMap (List String)) (names : List String) (before : Dfs) :
    Except (List String) Dfs → Prop
  | .error _ => ∃ name, OnCycle adj name
  | .ok after => Advanced adj before after ∧ ∀ name ∈ names, after.color[name]? = some true

theorem Visits.cons {name : String} {rest : List String} {before between : Dfs}
    {outcome : Except (List String) Dfs} (later : Visits adj rest between outcome)
    (advanced : Advanced adj before between) (isBlack : between.color[name]? = some true) :
    Visits adj (name :: rest) before outcome := by
  cases outcome with
  | error cycle => exact later
  | ok after =>
      refine ⟨advanced.trans later.1,?_⟩
      intro other member
      rcases List.mem_cons.mp member with rfl | inRest
      · exact later.1.black other isBlack
      · exact later.2 other inRest

theorem searched_start : Searched adj ⟨∅,[]⟩ where
  gray name := by simp
  distinct := List.nodup_nil
  closed name _ isBlack := by simp at isBlack
  offCycles name isBlack := by simp at isBlack

section Step

variable {state : Dfs} {node : String}

theorem Searched.enter (searched : Searched adj state) (white : state.color[node]? = none) :
    Searched adj (state.enter node) := by
  have notOnStack : node ∉ state.stack := by
    intro onStack
    rw [(searched.gray node).mpr onStack] at white
    cases white
  have blackBefore : ∀ name : String, (state.enter node).color[name]? = some true →
      state.color[name]? = some true := by
    intro name isBlack
    rw [Dfs.enter,KeyMap.lookup_insert] at isBlack
    split at isBlack
    · cases isBlack
    · exact isBlack
  refine ⟨?_,?_,?_,fun name isBlack => searched.offCycles name (blackBefore name isBlack)⟩
  · intro name
    rw [Dfs.enter,KeyMap.lookup_insert]
    simp only [List.mem_append,List.mem_singleton]
    by_cases same : node = name
    · simp [same]
    · rw [if_neg same,searched.gray]
      exact ⟨.inl,fun either => either.resolve_right (Ne.symm same)⟩
  · refine List.nodup_append.mpr ⟨searched.distinct,List.nodup_singleton node,?_⟩
    intro name onStack other isNode same
    rw [List.mem_singleton] at isNode
    exact notOnStack (by rw [← isNode,← same]; exact onStack)
  · intro name upstream isBlack edge
    have upstreamBlack := searched.closed name upstream (blackBefore name isBlack) edge
    have different : node ≠ upstream := by
      intro same
      rw [same,upstreamBlack] at white
      cases white
    rw [Dfs.enter,KeyMap.lookup_insert_ne _ _ different]
    exact upstreamBlack

theorem Searched.reaches_black (searched : Searched adj state) {name other : String}
    (isBlack : state.color[name]? = some true)
    (reaches : Relation.ReflTransGen (Edge adj) name other) : state.color[other]? = some true := by
  induction reaches with
  | refl => exact isBlack
  | tail _ edge ih => exact searched.closed _ _ ih edge

theorem Searched.leave {stack : List String} (searched : Searched adj state)
    (onTop : state.stack = stack ++ [node])
    (upstreams : ∀ upstream, Edge adj node upstream → state.color[upstream]? = some true) :
    Searched adj (state.leave node) ∧ (state.leave node).stack = stack := by
  have isGray : state.color[node]? = some false := by
    rw [searched.gray,onTop]
    exact List.mem_append_right _ List.mem_cons_self
  have popped : (state.leave node).stack = stack := by
    rw [Dfs.leave,onTop,List.dropLast_concat]
  have distinct := searched.distinct
  rw [onTop,List.nodup_append] at distinct
  have notBelow : node ∉ stack := fun below =>
    distinct.2.2 node below node (List.mem_singleton.mpr rfl) rfl
  have colorEq : ∀ name : String, (state.leave node).color[name]? =
      if node = name then some true else state.color[name]? := by
    intro name
    rw [Dfs.leave,KeyMap.lookup_insert]
  have notOnCycle : ¬ OnCycle adj node := by
    intro onCycle
    obtain ⟨upstream,edge,back⟩ := Relation.TransGen.head'_iff.mp onCycle
    have isBlack := searched.reaches_black (upstreams upstream edge) back
    rw [isGray] at isBlack
    cases isBlack
  refine ⟨⟨?_,?_,?_,?_⟩,popped⟩
  · intro name
    rw [colorEq,popped]
    by_cases same : node = name
    · subst same
      simp [notBelow]
    · rw [if_neg same,searched.gray,onTop,List.mem_append,List.mem_singleton]
      exact ⟨fun either => either.resolve_right (Ne.symm same),.inl⟩
  · rw [popped]
    exact distinct.1
  · intro name upstream isBlack edge
    rw [colorEq] at isBlack ⊢
    split
    · rfl
    · split at isBlack
      · rename_i same
        exact upstreams upstream (by rw [same]; exact edge)
      · exact searched.closed name upstream isBlack edge
  · intro name isBlack
    rw [colorEq] at isBlack
    split at isBlack
    · rename_i same
      rw [← same]
      exact notOnCycle
    · exact searched.offCycles name isBlack

end Step

theorem visitNeighbors_visits {visit : String → Dfs → Except (List String) Dfs}
    {stack : List String} (reachesNode : ∀ name ∈ stack, Relation.TransGen (Edge adj) name node)
    (visits : ∀ neighbor state, Edge adj node neighbor → Searched adj state →
      state.stack = stack ++ [node] → state.color[neighbor]? = none →
      Visits adj [neighbor] state (visit neighbor state))
    {neighbors : List String} (areNeighbors : ∀ neighbor ∈ neighbors, Edge adj node neighbor)
    (searched : Searched adj state) (onTop : state.stack = stack ++ [node]) :
    Visits adj neighbors state (visitNeighbors visit neighbors state) := by
  induction neighbors generalizing state with
  | nil => exact ⟨⟨searched,rfl,fun _ => id⟩,fun _ member => nomatch member⟩
  | cons neighbor rest ih =>
      have edge := areNeighbors neighbor List.mem_cons_self
      have restNeighbors : ∀ other ∈ rest, Edge adj node other :=
        fun other member => areNeighbors other (List.mem_cons_of_mem neighbor member)
      -- Once the neighbor is black, the rest of the list decides.
      have continues : ∀ {between : Dfs}, Advanced adj state between →
          between.color[neighbor]? = some true →
          Visits adj (neighbor :: rest) state (visitNeighbors visit rest between) :=
        fun advanced isBlack => (ih restNeighbors advanced.searched
          (advanced.stack.trans onTop)).cons advanced isBlack
      unfold visitNeighbors
      cases colored : state.color[neighbor]? with
      | none =>
          simp only
          have visited := visits neighbor state edge searched onTop colored
          cases outcome : visit neighbor state with
          | error cycle =>
              rw [outcome] at visited
              exact visited
          | ok between =>
              rw [outcome] at visited
              exact continues visited.1 (visited.2 neighbor List.mem_cons_self)
      | some isBlack =>
          cases isBlack with
          | true => exact continues ⟨searched,rfl,fun _ => id⟩ colored
          | false =>
              have onStack := (searched.gray neighbor).mp colored
              rw [onTop,List.mem_append,List.mem_singleton] at onStack
              refine ⟨neighbor,?_⟩
              rcases onStack with below | rfl
              · exact (reachesNode neighbor below).tail edge
              · exact Relation.TransGen.single edge

/-- The names on the stack have upstreams, so there are no more of them than
there are entries of the graph. -/
theorem Searched.length_stack_le (searched : Searched adj state)
    (reachesNode : ∀ name ∈ state.stack, Relation.TransGen (Edge adj) name node) :
    state.stack.length ≤ adj.size := by
  rw [← Std.ExtTreeMap.length_keys]
  refine searched.distinct.length_le_of_subset fun name onStack => ?_
  obtain ⟨upstream,edge,-⟩ := Relation.TransGen.head'_iff.mp (reachesNode name onStack)
  obtain ⟨upstreams,found,-⟩ := edge_iff.mp edge
  exact Std.ExtTreeMap.mem_keys.mpr (KeyMap.mem_of_lookup found)

theorem dfsCycle_visits {fuel : Nat} (searched : Searched adj state)
    (white : state.color[node]? = none)
    (reachesNode : ∀ name ∈ state.stack, Relation.TransGen (Edge adj) name node)
    (enough : adj.size < fuel + state.stack.length) :
    Visits adj [node] state (dfsCycle adj fuel node state) := by
  induction fuel generalizing node state with
  | zero =>
      have fits := searched.length_stack_le reachesNode
      omega
  | succ fuel ih =>
      have reachesUpstream : ∀ {upstream : String}, Edge adj node upstream →
          ∀ name ∈ state.stack ++ [node], Relation.TransGen (Edge adj) name upstream := by
        intro upstream edge name member
        rcases List.mem_append.mp member with onStack | isNode
        · exact (reachesNode name onStack).tail edge
        · rw [List.mem_singleton.mp isNode]
          exact .single edge
      have upstreams : Visits adj (adj.getD node []) (state.enter node)
          (visitNeighbors (dfsCycle adj fuel) (adj.getD node []) (state.enter node)) := by
        refine visitNeighbors_visits reachesNode ?_ (fun _ => id) (searched.enter white) rfl
        intro neighbor between edge betweenSearched onTop betweenWhite
        refine ih betweenSearched betweenWhite ?_ ?_
        · rw [onTop]
          exact reachesUpstream edge
        · rw [onTop,List.length_append,List.length_singleton]
          omega
      unfold dfsCycle
      cases outcome : visitNeighbors (dfsCycle adj fuel) (adj.getD node []) (state.enter node) with
      | error cycle =>
          rw [outcome] at upstreams
          exact upstreams
      | ok between =>
          rw [outcome] at upstreams
          obtain ⟨advanced,areBlack⟩ := upstreams
          obtain ⟨left,popped⟩ := advanced.searched.leave advanced.stack areBlack
          refine ⟨⟨left,popped,?_⟩,?_⟩
          · intro name isBlack
            have different : node ≠ name := by
              intro same
              rw [same,isBlack] at white
              cases white
            rw [Dfs.leave,KeyMap.lookup_insert_ne _ _ different]
            refine advanced.black name ?_
            rw [Dfs.enter,KeyMap.lookup_insert_ne _ _ different]
            exact isBlack
          · intro name isNode
            rw [List.mem_singleton.mp isNode,Dfs.leave,KeyMap.lookup_insert_self]

theorem searchFrom_visits {fuel : Nat} (enough : adj.size < fuel) {starts : List String}
    {state : Dfs} (searched : Searched adj state) (emptyStack : state.stack = []) :
    Visits adj starts state (searchFrom adj fuel starts state) := by
  induction starts generalizing state with
  | nil => exact ⟨⟨searched,rfl,fun _ => id⟩,fun _ member => nomatch member⟩
  | cons start rest ih =>
      have continues : ∀ {between : Dfs}, Advanced adj state between →
          between.color[start]? = some true →
          Visits adj (start :: rest) state (searchFrom adj fuel rest between) :=
        fun advanced isBlack => (ih advanced.searched
          (advanced.stack.trans emptyStack)).cons advanced isBlack
      unfold searchFrom
      split
      · rename_i colored
        obtain ⟨isBlack,found⟩ := (KeyMap.contains_iff_exists _ _).mp colored
        cases isBlack with
        | true => exact continues ⟨searched,rfl,fun _ => id⟩ found
        | false =>
            have onStack := (searched.gray start).mp found
            rw [emptyStack] at onStack
            cases onStack
      · rename_i notColored
        have white : state.color[start]? = none := by
          rw [Std.ExtTreeMap.contains_eq_isSome_getElem?] at notColored
          simpa using notColored
        have visited : Visits adj [start] state (dfsCycle adj fuel start state) := by
          refine dfsCycle_visits searched white ?_ ?_
          · rw [emptyStack]
            exact fun _ member => nomatch member
          · rw [emptyStack]
            exact enough
        cases outcome : dfsCycle adj fuel start state with
        | error cycle =>
            rw [outcome] at visited
            exact visited
        | ok between =>
            rw [outcome] at visited
            exact continues visited.1 (visited.2 start List.mem_cons_self)

theorem findCycle_none_iff : findCycle adj = none ↔ ∀ name, ¬ OnCycle adj name := by
  have visits : Visits adj adj.keys ⟨∅,[]⟩ (searchFrom adj (adj.size + 2) adj.keys ⟨∅,[]⟩) :=
    searchFrom_visits (by omega) searched_start rfl
  unfold findCycle
  cases outcome : searchFrom adj (adj.size + 2) adj.keys ⟨∅,[]⟩ with
  | error cycle =>
      rw [outcome] at visits
      obtain ⟨name,onCycle⟩ := visits
      constructor
      · intro impossible
        cases impossible
      · intro noCycle
        exact absurd onCycle (noCycle name)
  | ok state =>
      rw [outcome] at visits
      refine ⟨fun _ name onCycle => ?_,fun _ => rfl⟩
      obtain ⟨upstream,edge,-⟩ := Relation.TransGen.head'_iff.mp onCycle
      obtain ⟨upstreams,found,-⟩ := edge_iff.mp edge
      have isBlack := visits.2 name (Std.ExtTreeMap.mem_keys.mpr (KeyMap.mem_of_lookup found))
      exact visits.1.searched.offCycles name isBlack onCycle

section Overlay

variable {Expr : Type} (payload : List PayloadNode)

def payloadEdges : List (String × List String) :=
  payload.filterMap fun node =>
    node.asDerivation.map fun derivation => (derivation.name,derivation.upstreams)

theorem overlayGraph_eq_insertAll (current : RegistryInner Expr) :
    overlayGraph payload current = KeyMap.insertAll
      (current.derivations.map fun _ derivation => derivation.upstreams)
        (payloadEdges payload) := by
  rw [overlayGraph,KeyMap.insertAll,payloadEdges,List.foldl_filterMap]
  refine congrArg (List.foldl · _ payload) (funext fun adj => funext fun node => ?_)
  cases node <;> rfl

theorem overlayGraph_lookup (current : RegistryInner Expr) (name : String) :
    (overlayGraph payload current)[name]? =
      (((payloadEdges payload).reverse.find? fun entry => entry.1 = name).map Prod.snd).or
        (current.derivations[name]?.map DerivationDescriptor.upstreams) := by
  rw [overlayGraph_eq_insertAll,KeyMap.insertAll_lookup,Std.ExtTreeMap.getElem?_map]

theorem payloadEdges_sublist :
    ((payloadEdges payload).map Prod.fst).Sublist (payload.map PayloadNode.name) := by
  induction payload with
  | nil => exact List.Sublist.slnil
  | cons node rest ih =>
      cases node with
      | derivation derivation => exact ih.cons_cons derivation.name
      | event event => exact ih.cons event.name
      | table table => exact ih.cons table.name

theorem overlayGraph_of_mem (current : RegistryInner Expr)
    (distinct : (payload.map PayloadNode.name).Nodup) {derivation : DerivationDescriptor}
    (member : .derivation derivation ∈ payload) :
    (overlayGraph payload current)[derivation.name]? = some derivation.upstreams := by
  rw [overlayGraph_eq_insertAll]
  refine KeyMap.insertAll_of_mem (distinct.sublist (payloadEdges_sublist payload)) ?_
  exact List.mem_filterMap.mpr ⟨.derivation derivation,member,rfl⟩

theorem validateAcyclicity_nil_iff (current : RegistryInner Expr) :
    validateAcyclicity payload current = [] ↔
      ∀ name, ¬ OnCycle (overlayGraph payload current) name := by
  rw [← findCycle_none_iff,validateAcyclicity]
  cases findCycle (overlayGraph payload current) with
  | none => simp
  | some cycle => simp

end Overlay

end Beava.Registry
