/-
The updates of a window in the groups that its buckets make of them.

A query folds one operator for each bucket of the window.  Each of them is an
operator without a window after the updates of its bucket, and together the groups
are the updates of the window.
-/

import Beava.Agg.Readings
import Beava.Agg.WindowMembership

namespace Beava.Agg

open Beava.Core Beava.Apply

variable {kernel : Kernel} {Expr : Type} {env : Env Expr}

/-- What an update is for the operator of its bucket. -/
def WindowedUpdate.lifetime (env : Env Expr) : WindowedUpdate Expr → LifetimeUpdate
  | .update row nowMs field whereMatched => .update row nowMs field whereMatched
  | .updateWithRow row nowMs field whereExpr =>
      .update row nowMs field (evaluateWhere env whereExpr row)
  | .updateAt preVal extracted latIdx lonIdx nowMs whereMatched =>
      .updateWithExtracted preVal nowMs Row.new none extracted latIdx lonIdx whereMatched

theorem WindowedUpdate.change_eq (update : WindowedUpdate Expr) (op : LifetimeOp kernel) :
    update.change env op = LifetimeUpdate.apply op (update.lifetime env) := by
  cases update <;> rfl

namespace WindowedOp

def groups (env : Env Expr) (updates : List (WindowedUpdate Expr)) (op : WindowedOp kernel)
    (queryTimeMs : Int64) : List (List LifetimeUpdate) :=
  (op.folded queryTimeMs).map fun bucket =>
    (bucketUpdates op.windowMs updates bucket.1).map (WindowedUpdate.lifetime env)

/-- The updates whose bucket started in the window. -/
def inWindow (env : Env Expr) (windowMs : Nat) (updates : List (WindowedUpdate Expr))
    (queryTimeMs : Int64) : List LifetimeUpdate :=
  (updates.filter fun update =>
    InWindow windowMs queryTimeMs (epochOf (bucketMsOf windowMs) update.nowMs)).map
      (WindowedUpdate.lifetime env)

variable {windowMs : Nat} {kind : AggKind} {params : SketchParams}
  {updates : List (WindowedUpdate Expr)} {queryTimeMs : Int64}

theorem after_windowMs :
    (after kernel env kind windowMs params updates).windowMs = windowMs := by
  rw [after_eq]
  rfl

theorem after_innerKind :
    (after kernel env kind windowMs params updates).innerKind = kind := by
  rw [after_eq]
  rfl

theorem activeOps_after (finite : windowMs < 2 ^ 63)
    (arrives : Arrives (updates.map WindowedUpdate.nowMs)) :
    (after kernel env kind windowMs params updates).activeOps queryTimeMs =
      (groups env updates (after kernel env kind windowMs params updates) queryTimeMs).map
        fun group => (.newLifetime kind params : LifetimeOp kernel).after group := by
  rw [activeOps_eq,groups,List.map_map]
  apply List.map_congr_left
  intro bucket member
  have holds := @after_holds kernel _ env _ kind params _ finite arrives
  have state := ((holds.mem bucket.1 bucket.2).mp (List.mem_filter.mp member).1).2.2
  rw [stateOf_routed] at state
  rw [state,after_windowMs]
  simp only [Function.comp_apply,LifetimeOp.after,List.foldl_map,WindowedUpdate.change_eq]

theorem groups_perm (positive : 0 < windowMs) (finite : windowMs < 2 ^ 63)
    (arrives : Arrives (updates.map WindowedUpdate.nowMs))
    (notAfter : ∀ update ∈ updates, update.nowMs ≤ queryTimeMs) :
    (groups env updates (after kernel env kind windowMs params updates) queryTimeMs).flatten.Perm
      (inWindow env windowMs updates queryTimeMs) := by
  have counted := (@membership_after kernel _ env kind windowMs params updates queryTimeMs positive
    finite arrives notAfter).counted
  have flat : (groups env updates (after kernel env kind windowMs params updates)
      queryTimeMs).flatten =
        ((((after kernel env kind windowMs params updates).folded queryTimeMs).map
          Prod.fst).flatMap (bucketUpdates windowMs updates)).map (WindowedUpdate.lifetime env) := by
    rw [groups,after_windowMs,List.map_flatMap,List.flatMap_map,List.flatMap_def]
  rw [flat]
  exact counted.map _

end WindowedOp

end Beava.Agg
