/-
Which events the buckets of a window hold.

A window has 64 widths of a bucket, so that the starts of the buckets in the
window are fewer than 64 and none of them has had to leave.  The buckets that are
folded hold the events whose bucket started within the window, each once.
-/

import Beava.Agg.WindowBound
import Beava.Core.ChainTyping

namespace Beava.Agg

open Beava.Core Beava.Apply

variable {kernel : Kernel} {Expr : Type} {env : Env Expr}

/-- The entry points of a windowed operator. -/
inductive WindowedUpdate (Expr : Type) where
  | update (row : Row) (nowMs : Int64) (field : Option String) (whereMatched : Bool)
  | updateWithRow (row : Row) (nowMs : Int64) (field : Option String) (whereExpr : Option Expr)
  | updateAt (preVal : Option Value) (extracted : ExtractedFields) (latIdx lonIdx : UInt8)
      (nowMs : Int64) (whereMatched : Bool)

namespace WindowedUpdate

def nowMs : WindowedUpdate Expr → Int64
  | .update _ nowMs _ _ => nowMs
  | .updateWithRow _ nowMs _ _ => nowMs
  | .updateAt _ _ _ _ nowMs _ => nowMs

def apply (env : Env Expr) (op : WindowedOp kernel) : WindowedUpdate Expr → WindowedOp kernel
  | .update row nowMs field whereMatched => op.update row nowMs field whereMatched
  | .updateWithRow row nowMs field whereExpr => op.updateWithRow env row nowMs field whereExpr
  | .updateAt preVal extracted latIdx lonIdx nowMs whereMatched =>
      op.updateAt preVal extracted latIdx lonIdx nowMs whereMatched

/-- What the update does to the operator of its bucket. -/
def change (env : Env Expr) : WindowedUpdate Expr → LifetimeOp kernel → LifetimeOp kernel
  | .update row nowMs field whereMatched => .update row nowMs field whereMatched
  | .updateWithRow row nowMs field whereExpr => .updateWithRow env row nowMs field whereExpr
  | .updateAt preVal extracted latIdx lonIdx nowMs whereMatched =>
      .updateWithExtractedNoWhere preVal nowMs Row.new none extracted latIdx lonIdx whereMatched

theorem apply_eq_route (update : WindowedUpdate Expr) (op : WindowedOp kernel) :
    update.apply env op = op.route update.nowMs (update.change env) := by
  cases update <;> rfl

end WindowedUpdate

namespace WindowedOp

/-- The operator after the updates. -/
def after (kernel : Kernel) (env : Env Expr) (kind : AggKind) (windowMs : Nat)
    (params : SketchParams) (updates : List (WindowedUpdate Expr)) : WindowedOp kernel :=
  updates.foldl (WindowedUpdate.apply env) (.newWithParams kind windowMs params)

def routed (windowMs : Nat) (updates : List (WindowedUpdate Expr)) :
    List (Int64 × WindowedUpdate Expr) :=
  updates.map fun update => (epochOf (bucketMsOf windowMs) update.nowMs,update)

theorem after_eq (kind : AggKind) (windowMs : Nat) (params : SketchParams)
    (updates : List (WindowedUpdate Expr)) :
    after kernel env kind windowMs params updates =
      { (newWithParams kind windowMs params : WindowedOp kernel) with
        buckets := LatestKeys.touchAll 64 (.newLifetime kind params) (WindowedUpdate.change env)
          (routed windowMs updates) } := by
  have routes : (WindowedUpdate.apply env : WindowedOp kernel → WindowedUpdate Expr → _) =
      fun op update => op.route update.nowMs (update.change env) := by
    funext op update
    exact update.apply_eq_route op
  rw [after,routes,foldl_route WindowedUpdate.nowMs]
  rfl

section Starts

variable {windowMs : Nat} {queryTimeMs time later epoch : Int64} {times : List Int64}
variable {bucketMs : Nat}

/-- The bucket started less than the window before the query, and not after it. -/
def InWindow (windowMs : Nat) (queryTimeMs epoch : Int64) : Prop :=
  queryTimeMs.toInt - windowMs < epoch.toInt ∧ epoch.toInt ≤ queryTimeMs.toInt

instance (windowMs : Nat) (queryTimeMs epoch : Int64) :
    Decidable (InWindow windowMs queryTimeMs epoch) :=
  inferInstanceAs (Decidable (_ ∧ _))

theorem active_iff (finite : windowMs < 2 ^ 63) (querySince : 0 ≤ queryTimeMs)
    (epochSince : 0 ≤ epoch) :
    active windowMs queryTimeMs epoch = true ↔ InWindow windowMs queryTimeMs epoch := by
  rw [Int64.le_iff_toInt_le,Int64.toInt_zero] at querySince epochSince
  have queryBelow := Int64.toInt_lt queryTimeMs
  have epochBelow := Int64.toInt_lt epoch
  have age : (queryTimeMs - epoch).toInt = queryTimeMs.toInt - epoch.toInt := by
    rw [Int64.toInt_sub,Int.bmod_eq_of_le (by omega) (by omega)]
  simp only [active,InWindow,Bool.and_eq_true,decide_eq_true_eq,Int64.le_iff_toInt_le,
    Int64.lt_iff_toInt_lt,Int64.toInt_zero,age,Int64.toInt_ofNat_of_lt finite]
  omega

theorem bucketMsOf_pos (positive : 0 < windowMs) : 0 < bucketMsOf windowMs := by
  rw [bucketMsOf]
  omega

theorem le_bucketMsOf (windowMs : Nat) : windowMs ≤ 64 * bucketMsOf windowMs := by
  rw [bucketMsOf]
  omega

theorem bucketMsOf_lt (finite : windowMs < 2 ^ 63) : bucketMsOf windowMs < 2 ^ 63 := by
  rw [bucketMsOf]
  omega

theorem zero_le_epochOf (inRange : bucketMs < 2 ^ 63) (sinceEpoch : 0 ≤ time) :
    0 ≤ epochOf bucketMs time := by
  rw [Int64.le_iff_toInt_le,Int64.toInt_zero,epochOf_toInt inRange sinceEpoch]
  rw [Int64.le_iff_toInt_le,Int64.toInt_zero] at sinceEpoch
  exact Int.mul_nonneg (Int.ediv_nonneg sinceEpoch (by omega)) (by omega)

theorem lt_epochOf_add (inRange : bucketMs < 2 ^ 63) (positive : 0 < bucketMs)
    (sinceEpoch : 0 ≤ time) : time.toInt < (epochOf bucketMs time).toInt + bucketMs := by
  rw [epochOf_toInt inRange sinceEpoch]
  have remainder := Int.emod_lt_of_pos time.toInt (show (0 : Int) < bucketMs by omega)
  have division := Int.mul_ediv_add_emod time.toInt bucketMs
  rw [Int.mul_comm] at division
  omega

theorem rank_lt_of_inWindow (positive : 0 < windowMs) (finite : windowMs < 2 ^ 63)
    (sinceEpoch : ∀ time ∈ times, 0 ≤ time) (notAfter : ∀ time ∈ times, time ≤ queryTimeMs)
    (member : epoch ∈ times.map (epochOf (bucketMsOf windowMs)))
    (within : InWindow windowMs queryTimeMs epoch) :
    LatestKeys.rank (times.map (epochOf (bucketMsOf windowMs))) epoch < 64 := by
  have inRange := bucketMsOf_lt finite
  have width : (0 : Int) < bucketMsOf windowMs := by
    have := bucketMsOf_pos positive
    omega
  have covers := le_bucketMsOf windowMs
  -- the start of a bucket is known by how many widths it is
  have widths : ∀ start ∈ times.map (epochOf (bucketMsOf windowMs)),
      start.toInt = start.toInt / bucketMsOf windowMs * bucketMsOf windowMs ∧
        start.toInt ≤ queryTimeMs.toInt := by
    intro start isStart
    obtain ⟨time,isTime,rfl⟩ := List.mem_map.mp isStart
    have upTo := Int64.le_iff_toInt_le.mp (Int64.le_trans
      (epochOf_le inRange (sinceEpoch time isTime)) (notAfter time isTime))
    refine ⟨?_,upTo⟩
    rw [epochOf_toInt inRange (sinceEpoch time isTime),Int.mul_ediv_cancel _ width.ne']
  obtain ⟨epochWidths,-⟩ := widths epoch member
  have more : ∀ start ∈ times.map (epochOf (bucketMsOf windowMs)), epoch < start →
      epoch.toInt / bucketMsOf windowMs < start.toInt / bucketMsOf windowMs := by
    intro start isStart above
    apply Int.lt_of_mul_lt_mul_right _ width.le
    rw [← (widths start isStart).1,← epochWidths]
    exact Int64.lt_iff_toInt_lt.mp above
  refine Nat.lt_succ_of_le (LatestKeys.rank_le_of_injOn (fun other =>
    (other.toInt / bucketMsOf windowMs - epoch.toInt / bucketMsOf windowMs - 1).toNat) ?_ ?_)
  · intro other isStart above
    obtain ⟨otherWidths,upTo⟩ := widths other isStart
    have close : (other.toInt / bucketMsOf windowMs - epoch.toInt / bucketMsOf windowMs) *
        bucketMsOf windowMs < 64 * bucketMsOf windowMs := by
      rw [Int.sub_mul,← otherWidths,← epochWidths]
      have := within.1
      omega
    have few := Int.lt_of_mul_lt_mul_right close width.le
    omega
  · intro one oneStart oneAbove other otherStart otherAbove same
    have oneMore := more one oneStart oneAbove
    have otherMore := more other otherStart otherAbove
    have sameWidths : one.toInt / bucketMsOf windowMs = other.toInt / bucketMsOf windowMs := by
      omega
    exact Int64.toInt_inj.mp (by
      rw [(widths one oneStart).1,(widths other otherStart).1,sameWidths])

end Starts

def bucketUpdates (windowMs : Nat) (updates : List (WindowedUpdate Expr)) (epoch : Int64) :
    List (WindowedUpdate Expr) :=
  updates.filter fun update => epochOf (bucketMsOf windowMs) update.nowMs = epoch

def folded (op : WindowedOp kernel) (queryTimeMs : Int64) : List (Int64 × LifetimeOp kernel) :=
  op.buckets.filter fun bucket => active op.windowMs queryTimeMs bucket.1

theorem activeOps_eq (op : WindowedOp kernel) (queryTimeMs : Int64) :
    op.activeOps queryTimeMs = (op.folded queryTimeMs).map Prod.snd := rfl

/-- What the buckets hold after updates, and what a query at a time takes from
them. -/
structure Membership (env : Env Expr) (kind : AggKind) (windowMs : Nat) (params : SketchParams)
    (updates : List (WindowedUpdate Expr)) (op : WindowedOp kernel) (queryTimeMs : Int64) :
    Prop where
  counted : (((op.folded queryTimeMs).map Prod.fst).flatMap (bucketUpdates windowMs updates)).Perm
    (updates.filter fun update =>
      InWindow windowMs queryTimeMs (epochOf (bucketMsOf windowMs) update.nowMs))
  state : ∀ bucket ∈ op.folded queryTimeMs,
    bucket.2 = (bucketUpdates windowMs updates bucket.1).foldl
      (fun state update => update.change env state) (.newLifetime kind params)
  recent : ∀ update ∈ updates,
    queryTimeMs.toInt - update.nowMs.toInt ≤ windowMs - bucketMsOf windowMs →
      InWindow windowMs queryTimeMs (epochOf (bucketMsOf windowMs) update.nowMs)
  old : ∀ update ∈ updates, windowMs ≤ queryTimeMs.toInt - update.nowMs.toInt →
    ¬InWindow windowMs queryTimeMs (epochOf (bucketMsOf windowMs) update.nowMs)
  atMost : op.buckets.length ≤ 64
  distinct : (op.buckets.map Prod.fst).Nodup
  aligned : ∀ bucket ∈ op.buckets, (bucketMsOf windowMs : Int) ∣ bucket.1.toInt
  evicted : ∀ next : WindowedUpdate Expr, (∀ update ∈ updates, update.nowMs ≤ next.nowMs) →
    ∀ bucket ∈ op.buckets, bucket.1 ∉ (next.apply env op).buckets.map Prod.fst →
      ∀ later, next.nowMs ≤ later → active windowMs later bucket.1 = false

section After

variable {windowMs : Nat} {kind : AggKind} {params : SketchParams}
  {updates : List (WindowedUpdate Expr)} {queryTimeMs : Int64}

theorem routed_keys (windowMs : Nat) (updates : List (WindowedUpdate Expr)) :
    (routed windowMs updates).map Prod.fst =
      (updates.map WindowedUpdate.nowMs).map (epochOf (bucketMsOf windowMs)) := by
  rw [routed,List.map_map,List.map_map]
  rfl

theorem after_holds (finite : windowMs < 2 ^ 63)
    (arrives : Arrives (updates.map WindowedUpdate.nowMs)) :
    LatestKeys.Holds 64 (.newLifetime kind params) (WindowedUpdate.change env)
      (routed windowMs updates) (after kernel env kind windowMs params updates).buckets := by
  rw [after_eq]
  apply LatestKeys.touchAll_holds (by decide)
  rw [routed_keys,List.pairwise_map]
  refine arrives.ascending.imp_of_mem fun member _ notBefore => ?_
  exact epochOf_mono (bucketMsOf_lt finite) (arrives.sinceEpoch _ member) notBefore

theorem stateOf_routed (update : LifetimeOp kernel) (epoch : Int64) :
    LatestKeys.stateOf update (WindowedUpdate.change env) (routed windowMs updates) epoch =
      (bucketUpdates windowMs updates epoch).foldl
        (fun state update => update.change env state) update := by
  rw [LatestKeys.stateOf,routed,List.filter_map,List.foldl_map]
  rfl

theorem zero_le_of_key (finite : windowMs < 2 ^ 63)
    (arrives : Arrives (updates.map WindowedUpdate.nowMs)) {epoch : Int64}
    (isKey : epoch ∈ (routed windowMs updates).map Prod.fst) :
    0 ≤ epoch ∧ (bucketMsOf windowMs : Int) ∣ epoch.toInt := by
  rw [routed_keys] at isKey
  obtain ⟨time,member,rfl⟩ := List.mem_map.mp isKey
  have sinceEpoch := arrives.sinceEpoch time member
  refine ⟨zero_le_epochOf (bucketMsOf_lt finite) sinceEpoch,?_⟩
  rw [epochOf_toInt (bucketMsOf_lt finite) sinceEpoch]
  exact Int.dvd_mul_left ..

theorem key_mem_of_inWindow (positive : 0 < windowMs) (finite : windowMs < 2 ^ 63)
    (arrives : Arrives (updates.map WindowedUpdate.nowMs))
    (notAfter : ∀ update ∈ updates, update.nowMs ≤ queryTimeMs) {epoch : Int64}
    (isKey : epoch ∈ (routed windowMs updates).map Prod.fst)
    (within : InWindow windowMs queryTimeMs epoch) :
    epoch ∈ (after kernel env kind windowMs params updates).buckets.map Prod.fst := by
  refine (after_holds finite arrives).key_mem.mpr ⟨isKey,?_⟩
  rw [routed_keys] at isKey ⊢
  refine rank_lt_of_inWindow positive finite arrives.sinceEpoch ?_ isKey within
  intro time member
  obtain ⟨update,inUpdates,rfl⟩ := List.mem_map.mp member
  exact notAfter update inUpdates

theorem folded_keys (positive : 0 < windowMs) (finite : windowMs < 2 ^ 63)
    (arrives : Arrives (updates.map WindowedUpdate.nowMs))
    (notAfter : ∀ update ∈ updates, update.nowMs ≤ queryTimeMs) (epoch : Int64) :
    epoch ∈ ((after kernel env kind windowMs params updates).folded queryTimeMs).map Prod.fst ↔
      epoch ∈ (routed windowMs updates).map Prod.fst ∧ InWindow windowMs queryTimeMs epoch := by
  have querySince : ∀ {epoch : Int64}, epoch ∈ (routed windowMs updates).map Prod.fst →
      0 ≤ queryTimeMs := by
    intro epoch isKey
    rw [routed_keys,List.map_map] at isKey
    obtain ⟨update,inUpdates,-⟩ := List.mem_map.mp isKey
    exact Int64.le_trans (arrives.sinceEpoch _ (List.mem_map_of_mem inUpdates))
      (notAfter update inUpdates)
  have sameWindow : (after kernel env kind windowMs params updates).windowMs = windowMs := by
    rw [after_eq]
    rfl
  constructor
  · intro member
    obtain ⟨bucket,inFolded,rfl⟩ := List.mem_map.mp member
    obtain ⟨inBuckets,isActive⟩ := List.mem_filter.mp inFolded
    have isKey := ((after_holds finite arrives).key_mem.mp
      (List.mem_map_of_mem (f := Prod.fst) inBuckets)).1
    rw [sameWindow,active_iff finite (querySince isKey) (zero_le_of_key finite arrives isKey).1]
      at isActive
    exact ⟨isKey,isActive⟩
  · rintro ⟨isKey,within⟩
    obtain ⟨bucket,inBuckets,rfl⟩ := List.mem_map.mp (@key_mem_of_inWindow kernel _ env _ kind
      params _ _ positive finite arrives notAfter _ isKey within)
    refine List.mem_map_of_mem (List.mem_filter.mpr ⟨inBuckets,?_⟩)
    rw [sameWindow]
    exact (active_iff finite (querySince isKey)
      (zero_le_of_key finite arrives isKey).1).mpr within

variable {next : WindowedUpdate Expr}

theorem arrives_concat (arrives : Arrives (updates.map WindowedUpdate.nowMs))
    (last : ∀ update ∈ updates, update.nowMs ≤ next.nowMs) (sinceEpoch : 0 ≤ next.nowMs) :
    Arrives ((updates ++ [next]).map WindowedUpdate.nowMs) := by
  rw [List.map_append,List.map_singleton]
  constructor
  · rw [List.pairwise_append]
    refine ⟨arrives.ascending,List.pairwise_singleton _ _,?_⟩
    intro time member other isLast
    obtain ⟨update,inUpdates,rfl⟩ := List.mem_map.mp member
    rw [List.mem_singleton.mp isLast]
    exact last update inUpdates
  · intro time member
    rcases List.mem_append.mp member with earlier | isLast
    · exact arrives.sinceEpoch time earlier
    · rw [List.mem_singleton.mp isLast]
      exact sinceEpoch

theorem evicted_inactive (positive : 0 < windowMs) (finite : windowMs < 2 ^ 63)
    (arrives : Arrives (updates.map WindowedUpdate.nowMs))
    (last : ∀ update ∈ updates, update.nowMs ≤ next.nowMs)
    {bucket : Int64 × LifetimeOp kernel}
    (member : bucket ∈ (after kernel env kind windowMs params updates).buckets)
    (left : bucket.1 ∉
      (next.apply env (after kernel env kind windowMs params updates)).buckets.map Prod.fst)
    {later : Int64} (notBefore : next.nowMs ≤ later) :
    active windowMs later bucket.1 = false := by
  have isKey := ((after_holds finite arrives).key_mem.mp
    (List.mem_map_of_mem (f := Prod.fst) member)).1
  obtain ⟨bucketSince,-⟩ := zero_le_of_key finite arrives isKey
  have nextSince : 0 ≤ next.nowMs := by
    rw [routed_keys,List.map_map] at isKey
    obtain ⟨update,inUpdates,-⟩ := List.mem_map.mp isKey
    exact Int64.le_trans (arrives.sinceEpoch _ (List.mem_map_of_mem inUpdates))
      (last update inUpdates)
  by_contra isActive
  rw [Bool.not_eq_false,active_iff finite (Int64.le_trans nextSince notBefore) bucketSince]
    at isActive
  have allBefore : ∀ update ∈ updates ++ [next], update.nowMs ≤ later := by
    intro update inAll
    rcases List.mem_append.mp inAll with earlier | isNext
    · exact Int64.le_trans (last update earlier) notBefore
    · rw [List.mem_singleton.mp isNext]
      exact notBefore
  have isKeyAfter : bucket.1 ∈ (routed windowMs (updates ++ [next])).map Prod.fst := by
    rw [routed,List.map_append,List.map_append]
    exact List.mem_append_left _ isKey
  have kept := @key_mem_of_inWindow kernel _ env _ kind params _ _ positive finite
    (arrives_concat arrives last nextSince) allBefore _ isKeyAfter isActive
  rw [after,List.foldl_append] at kept
  exact left kept

end After

/-- After updates with times that do not decrease, a query at a later time folds what
came into the buckets of its window. -/
theorem membership_after (env : Env Expr) (kind : AggKind) (windowMs : Nat) (params : SketchParams)
    (updates : List (WindowedUpdate Expr)) (queryTimeMs : Int64) (positive : 0 < windowMs)
    (finite : windowMs < 2 ^ 63) (arrives : Arrives (updates.map WindowedUpdate.nowMs))
    (notAfter : ∀ update ∈ updates, update.nowMs ≤ queryTimeMs) :
    Membership env kind windowMs params updates (after kernel env kind windowMs params updates)
      queryTimeMs where
  counted := by
    have holds := @after_holds kernel _ env _ kind params _ finite arrives
    have distinct : (((after kernel env kind windowMs params updates).folded queryTimeMs).map
        Prod.fst).Nodup := holds.nodup.sublist (List.filter_sublist.map Prod.fst)
    refine (LatestKeys.flatMap_filter_perm (fun update : WindowedUpdate Expr =>
      epochOf (bucketMsOf windowMs) update.nowMs) distinct updates).trans (List.Perm.of_eq ?_)
    refine List.filter_congr fun update member => ?_
    have isKey : epochOf (bucketMsOf windowMs) update.nowMs ∈
        (routed windowMs updates).map Prod.fst := by
      rw [routed_keys,List.map_map]
      exact List.mem_map_of_mem member
    have inFolded := @folded_keys kernel _ env _ kind params _ _ positive finite arrives notAfter
      (epochOf (bucketMsOf windowMs) update.nowMs)
    rw [decide_eq_decide]
    exact inFolded.trans (and_iff_right isKey)
  state bucket member := by
    have holds := @after_holds kernel _ env _ kind params _ finite arrives
    rw [← stateOf_routed]
    exact ((holds.mem bucket.1 bucket.2).mp (List.mem_filter.mp member).1).2.2
  recent update member young := by
    have sinceEpoch := arrives.sinceEpoch _ (List.mem_map_of_mem member)
    have started := epochOf_le (bucketMsOf_lt finite) sinceEpoch
    have ends := lt_epochOf_add (bucketMsOf_lt finite) (bucketMsOf_pos positive) sinceEpoch
    have upTo := notAfter update member
    rw [Int64.le_iff_toInt_le] at started upTo
    constructor <;> omega
  old update member isOld within := by
    have started := epochOf_le (bucketMsOf_lt finite)
      (arrives.sinceEpoch _ (List.mem_map_of_mem member))
    rw [Int64.le_iff_toInt_le] at started
    have := within.1
    omega
  atMost := by
    rw [(@after_holds kernel _ env _ kind params _ finite arrives).length]
    exact Nat.min_le_left ..
  distinct := (after_holds finite arrives).nodup
  aligned bucket member := by
    have isKey := ((after_holds finite arrives).key_mem.mp
      (List.mem_map_of_mem (f := Prod.fst) member)).1
    exact (zero_le_of_key finite arrives isKey).2
  evicted next last bucket member left later notBefore :=
    evicted_inactive positive finite arrives last member left notBefore

def sampleUpdates : List (WindowedUpdate Core.Expr) :=
  [.update Row.new 1 none true,.updateWithRow Row.new 3 none none,
    .updateAt none [] 255 255 101 true]

theorem sampleUpdates_arrives : Arrives (sampleUpdates.map WindowedUpdate.nowMs) where
  ascending := by decide
  sinceEpoch := List.forall_mem_cons.mpr ⟨by decide,List.forall_mem_cons.mpr
    ⟨by decide,List.forall_mem_singleton.mpr (by decide)⟩⟩

theorem membership_sampleUpdates :
    Membership sampleHost.env .count 100 ⟨none,none,none,none⟩ sampleUpdates
      (after wholeKernel sampleHost.env .count 100 ⟨none,none,none,none⟩ sampleUpdates) 102 :=
  membership_after sampleHost.env .count 100 ⟨none,none,none,none⟩ sampleUpdates 102 (by decide)
    (by decide) sampleUpdates_arrives
    (List.forall_mem_cons.mpr ⟨by decide,List.forall_mem_cons.mpr
      ⟨by decide,List.forall_mem_singleton.mpr (by decide)⟩⟩)

end WindowedOp

end Beava.Agg
