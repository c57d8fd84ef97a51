/-
What a window sees.

A bucket of the window holds what arrived since its start only, so that events
of the age of the window are in none of the buckets that are folded.  Which
buckets are kept does not depend on them either; the order in which the buckets
stand does, once a bucket has been dropped.
-/

import Beava.Agg.TwoPaths

namespace Beava.Agg

open Beava.Core Beava.Apply

variable {kernel : Kernel} {Expr : Type} {env : Env Expr} {descriptor : AggOpDescriptor Expr}

/-- What the apply loop hands to the operator for one event. -/
structure Arrival where
  preVal : Option Value
  nowMs : Int64
  row : Row
  extracted : ExtractedFields

def AggOp.arrive (env : Env Expr) (descriptor : AggOpDescriptor Expr) (op : AggOp kernel)
    (arrival : Arrival) : AggOp kernel :=
  op.updateWithExtracted env arrival.preVal arrival.nowMs descriptor.whereExpr arrival.row
    descriptor.field arrival.extracted descriptor.ext.latIdx descriptor.ext.lonIdx

def AggOp.after (kernel : Kernel) (env : Env Expr) (descriptor : AggOpDescriptor Expr)
    (arrivals : List Arrival) : AggOp kernel :=
  arrivals.foldl (AggOp.arrive env descriptor) (.new descriptor)

/-- Times since the epoch, none before an earlier one. -/
structure Arrives (times : List Int64) : Prop where
  ascending : times.Pairwise (· ≤ ·)
  sinceEpoch : ∀ time ∈ times, 0 ≤ time

def young (windowMs : Nat) (queryTimeMs time : Int64) : Bool :=
  queryTimeMs.toInt - time.toInt < windowMs

section Epochs

open WindowedOp

variable {bucketMs windowMs : Nat} {queryTimeMs time later epoch : Int64}

theorem epochOf_toInt (inRange : bucketMs < 2 ^ 63) (sinceEpoch : 0 ≤ time) :
    (epochOf bucketMs time).toInt = time.toInt / bucketMs * bucketMs := by
  rw [Int64.le_iff_toInt_le,Int64.toInt_zero] at sinceEpoch
  have notAfter : time.toInt / bucketMs * bucketMs ≤ time.toInt := by
    rcases Nat.eq_zero_or_pos bucketMs with rfl | positive
    · simpa using sinceEpoch
    · exact Int.ediv_mul_le time.toInt (by omega)
  have notBefore : 0 ≤ time.toInt / bucketMs * bucketMs :=
    Int.mul_nonneg (Int.ediv_nonneg sinceEpoch (by omega)) (by omega)
  have bounded := Int64.toInt_lt time
  simp only [epochOf,Int64.toInt_ofNat_of_lt inRange]
  exact Int64.toInt_ofInt_of_le (by omega) (by omega)

theorem epochOf_le (inRange : bucketMs < 2 ^ 63) (sinceEpoch : 0 ≤ time) :
    epochOf bucketMs time ≤ time := by
  rw [Int64.le_iff_toInt_le,epochOf_toInt inRange sinceEpoch]
  rw [Int64.le_iff_toInt_le,Int64.toInt_zero] at sinceEpoch
  rcases Nat.eq_zero_or_pos bucketMs with rfl | positive
  · simpa using sinceEpoch
  · exact Int.ediv_mul_le time.toInt (by omega)

theorem epochOf_mono (inRange : bucketMs < 2 ^ 63) (sinceEpoch : 0 ≤ time)
    (notBefore : time ≤ later) : epochOf bucketMs time ≤ epochOf bucketMs later := by
  rw [Int64.le_iff_toInt_le,epochOf_toInt inRange sinceEpoch,
    epochOf_toInt inRange (Int64.le_trans sinceEpoch notBefore)]
  rw [Int64.le_iff_toInt_le] at notBefore
  rcases Nat.eq_zero_or_pos bucketMs with rfl | positive
  · simp
  · exact Int.mul_le_mul_of_nonneg_right (Int.ediv_le_ediv (by omega) notBefore) (by omega)

/-- A bucket in the window started less than the window ago; when the difference
of the times overflows, it starts after the query. -/
theorem lt_of_active (finite : windowMs < 2 ^ 63)
    (isActive : active windowMs queryTimeMs epoch = true) :
    queryTimeMs.toInt - epoch.toInt < windowMs := by
  simp only [active,Bool.and_eq_true,decide_eq_true_eq,Int64.le_iff_toInt_le,
    Int64.lt_iff_toInt_lt,Int64.toInt_zero,Int64.toInt_sub,
    Int64.toInt_ofNat_of_lt finite] at isActive
  have queryBelow := Int64.toInt_lt queryTimeMs
  have queryAbove := Int64.le_toInt queryTimeMs
  have epochBelow := Int64.toInt_lt epoch
  have epochAbove := Int64.le_toInt epoch
  obtain ⟨notNegative,below⟩ := isActive
  rw [Int.bmod_def] at notNegative below
  split at below
  · omega
  · omega

theorem young_of_active (inRange : bucketMs < 2 ^ 63) (finite : windowMs < 2 ^ 63)
    (sinceEpoch : 0 ≤ time) (isActive : active windowMs queryTimeMs epoch = true)
    (notBefore : epoch ≤ epochOf bucketMs time) : young windowMs queryTimeMs time = true := by
  have startedAfter := lt_of_active finite isActive
  have arrivedAfter := epochOf_le inRange sinceEpoch
  rw [Int64.le_iff_toInt_le] at notBefore arrivedAfter
  rw [young,decide_eq_true_eq]
  omega

end Epochs

section Windowed

open WindowedOp

variable {windowMs : Nat}
variable {queryTimeMs : Int64}

def bucketStep (env : Env Expr) (descriptor : AggOpDescriptor Expr) (arrival : Arrival) :
    LifetimeOp kernel → LifetimeOp kernel :=
  .updateWithExtractedNoWhere arrival.preVal arrival.nowMs Row.new none arrival.extracted
    descriptor.ext.latIdx descriptor.ext.lonIdx (evaluateWhere env descriptor.whereExpr arrival.row)

def keyed (windowMs : Nat) (arrivals : List Arrival) : List (Int64 × Arrival) :=
  arrivals.map fun arrival => (epochOf (bucketMsOf windowMs) arrival.nowMs,arrival)

/-- No bucket has to leave for another. -/
def FewBuckets (windowMs : Nat) (arrivals : List Arrival) : Prop :=
  ((keyed windowMs arrivals).map Prod.fst).toFinset.card ≤ 64

instance (windowMs : Nat) (arrivals : List Arrival) : Decidable (FewBuckets windowMs arrivals) :=
  inferInstanceAs (Decidable (_ ≤ 64))

/-- The value of the buckets of a window does not depend on their order. -/
def OrderFree (kernel : Kernel) (kind : AggKind) : Prop :=
  ∀ ops others : List (LifetimeOp kernel), ops.Perm others →
    foldBuckets kind ops = foldBuckets kind others

theorem orderFree_count (kernel : Kernel) : OrderFree kernel .count := by
  intro ops others perm
  have sameTotal : (counts ops).foldl (fun total state => total + state.n) 0 =
      (counts others).foldl (fun total state => total + state.n) 0 :=
    (perm.filterMap _).foldl_eq'
      (fun one _ other _ total => Nat.add_right_comm total one.n other.n) 0
  exact congrArg Kernel.reportCount sameTotal

theorem orderFree_ratio (kernel : Kernel) : OrderFree kernel .ratio := by
  intro ops others perm
  have sameMatching : (ratios ops).foldl (fun matching state => matching + state.matching) 0 =
      (ratios others).foldl (fun matching state => matching + state.matching) 0 :=
    (perm.filterMap _).foldl_eq'
      (fun one _ other _ total => Nat.add_right_comm total one.matching other.matching) 0
  have sameTotal : (ratios ops).foldl (fun total state => total + state.total) 0 =
      (ratios others).foldl (fun total state => total + state.total) 0 :=
    (perm.filterMap _).foldl_eq'
      (fun one _ other _ total => Nat.add_right_comm total one.total other.total) 0
  simp only [foldBuckets,foldRatios,sameMatching,sameTotal]

def paramsOf (descriptor : AggOpDescriptor Expr) : SketchParams :=
  descriptor.sketchParams.getD ⟨none,none,none,none⟩

theorem foldl_arrive_windowed (op : WindowedOp kernel) (arrivals : List Arrival) :
    arrivals.foldl (AggOp.arrive env descriptor) (.windowed op) =
      .windowed (arrivals.foldl
        (fun op arrival => op.route arrival.nowMs (bucketStep env descriptor arrival)) op) := by
  induction arrivals generalizing op with
  | nil => rfl
  | cons arrival rest ih => exact ih _

theorem after_windowed (wrapped : supportsWindowedWrap descriptor.kind = true)
    (windowed : descriptor.windowMs = some windowMs) (arrivals : List Arrival) :
    AggOp.after kernel env descriptor arrivals =
      .windowed { (newWithParams descriptor.kind windowMs (paramsOf descriptor) :
          WindowedOp kernel) with
        buckets := LatestKeys.touchAll 64 (.newLifetime descriptor.kind (paramsOf descriptor))
          (bucketStep env descriptor) (keyed windowMs arrivals) } := by
  rw [AggOp.after,AggOp.new_windowed windowed wrapped,foldl_arrive_windowed,
    foldl_route Arrival.nowMs]
  rfl

theorem keyed_ascending (finite : windowMs < 2 ^ 63) {arrivals : List Arrival}
    (arrives : Arrives (arrivals.map Arrival.nowMs)) :
    ((keyed windowMs arrivals).map Prod.fst).Pairwise (· ≤ ·) := by
  have inRange : bucketMsOf windowMs < 2 ^ 63 := by
    rw [bucketMsOf]
    omega
  have ascending := arrives.ascending
  rw [List.pairwise_map] at ascending
  rw [keyed,List.map_map,List.pairwise_map]
  refine ascending.imp_of_mem fun member _ notBefore => ?_
  exact epochOf_mono inRange (arrives.sinceEpoch _ (List.mem_map_of_mem member)) notBefore

/-- In the buckets of the window and in later ones, runs that agree on what is
young have the same arrivals. -/
theorem keyed_agree (finite : windowMs < 2 ^ 63)
    {first second : List Arrival} (firstArrives : Arrives (first.map Arrival.nowMs))
    (secondArrives : Arrives (second.map Arrival.nowMs))
    (agree : first.filter (fun arrival => young windowMs queryTimeMs arrival.nowMs) =
      second.filter fun arrival => young windowMs queryTimeMs arrival.nowMs)
    {epoch : Int64} (isActive : active windowMs queryTimeMs epoch = true) :
    (keyed windowMs first).filter (fun arrival => epoch ≤ arrival.1) =
      (keyed windowMs second).filter fun arrival => epoch ≤ arrival.1 := by
  have inRange : bucketMsOf windowMs < 2 ^ 63 := by
    rw [bucketMsOf]
    omega
  have throughYoung : ∀ {arrivals : List Arrival}, Arrives (arrivals.map Arrival.nowMs) →
      (keyed windowMs arrivals).filter (fun arrival => epoch ≤ arrival.1) =
        (keyed windowMs
          (arrivals.filter fun arrival => young windowMs queryTimeMs arrival.nowMs)).filter
            fun arrival => epoch ≤ arrival.1 := by
    intro arrivals arrives
    rw [keyed,keyed,List.filter_map,List.filter_map,List.filter_filter]
    congr 1
    refine List.filter_congr fun arrival member => ?_
    by_cases notBefore : epoch ≤ epochOf (bucketMsOf windowMs) arrival.nowMs
    · have isYoung := young_of_active inRange finite
        (arrives.sinceEpoch _ (List.mem_map_of_mem member)) isActive notBefore
      simp [notBefore,isYoung]
    · simp [notBefore]
  rw [throughYoung firstArrives,throughYoung secondArrives,agree]

/-- A window over buckets sees what is young, and the order in which the buckets
stand. -/
theorem query_windowed_eq (wrapped : supportsWindowedWrap descriptor.kind = true)
    (windowed : descriptor.windowMs = some windowMs) (finite : windowMs < 2 ^ 63)
    {first second : List Arrival} (firstArrives : Arrives (first.map Arrival.nowMs))
    (secondArrives : Arrives (second.map Arrival.nowMs))
    (agree : first.filter (fun arrival => young windowMs queryTimeMs arrival.nowMs) =
      second.filter fun arrival => young windowMs queryTimeMs arrival.nowMs)
    (order : OrderFree kernel descriptor.kind ∨
      FewBuckets windowMs first ∧ FewBuckets windowMs second) :
    (AggOp.after kernel env descriptor first).query queryTimeMs =
      (AggOp.after kernel env descriptor second).query queryTimeMs := by
  have firstHolds := LatestKeys.touchAll_holds (show 0 < 64 by decide)
    (.newLifetime descriptor.kind (paramsOf descriptor) : LifetimeOp kernel)
    (bucketStep env descriptor) (keyed_ascending finite firstArrives)
  have secondHolds := LatestKeys.touchAll_holds (show 0 < 64 by decide)
    (.newLifetime descriptor.kind (paramsOf descriptor) : LifetimeOp kernel)
    (bucketStep env descriptor) (keyed_ascending finite secondArrives)
  have agreeOn := fun epoch (isActive : active windowMs queryTimeMs epoch = true) =>
    keyed_agree finite firstArrives secondArrives agree isActive
  rw [after_windowed wrapped windowed,after_windowed wrapped windowed]
  rcases order with orderFree | ⟨few,otherFew⟩
  · exact orderFree _ _ ((firstHolds.filter_perm secondHolds _ agreeOn).map Prod.snd)
  · have sameBuckets := firstHolds.filter_eq secondHolds _ agreeOn few otherFew
    exact congrArg (fun buckets => foldBuckets descriptor.kind (buckets.map Prod.snd)) sameBuckets

end Windowed

section FirstSeen

variable {windowMs : Nat} {queryTimeMs : Int64}

/-- The times of the events that the predicate holds for. -/
def matchedTimes (env : Env Expr) (descriptor : AggOpDescriptor Expr) (arrivals : List Arrival) :
    List Int64 :=
  (arrivals.filter fun arrival => evaluateWhere env descriptor.whereExpr arrival.row).map
    Arrival.nowMs

theorem foldl_arrive_firstSeen (last : Option Int64) (arrivals : List Arrival) :
    arrivals.foldl (AggOp.arrive env descriptor)
        (.lifetime (.firstSeenInWindow ⟨windowMs,last⟩) : AggOp kernel) =
      .lifetime (.firstSeenInWindow
        ⟨windowMs,(matchedTimes env descriptor arrivals).getLast?.or last⟩) := by
  induction arrivals generalizing last with
  | nil => rfl
  | cons arrival rest ih =>
      have arrived : AggOp.arrive env descriptor
          (.lifetime (.firstSeenInWindow ⟨windowMs,last⟩) : AggOp kernel) arrival =
            .lifetime (.firstSeenInWindow (FirstSeenInWindowState.update arrival.nowMs
              (evaluateWhere env descriptor.whereExpr arrival.row) ⟨windowMs,last⟩)) :=
        rfl
      rw [List.foldl_cons,arrived]
      cases matched : evaluateWhere env descriptor.whereExpr arrival.row with
      | false =>
          have skipped : matchedTimes env descriptor (arrival :: rest) =
              matchedTimes env descriptor rest := by
            simp [matchedTimes,matched]
          rw [skipped]
          exact ih last
      | true =>
          have taken : matchedTimes env descriptor (arrival :: rest) =
              arrival.nowMs :: matchedTimes env descriptor rest := by
            simp [matchedTimes,matched]
          rw [taken,List.getLast?_cons]
          refine (ih (some arrival.nowMs)).trans ?_
          cases (matchedTimes env descriptor rest).getLast? <;> rfl

theorem firstSeen_query_of_old (finite : windowMs < 2 ^ 63) {last : Int64} (sinceEpoch : 0 ≤ last)
    (old : young windowMs queryTimeMs last = false) :
    FirstSeenInWindowState.query queryTimeMs ⟨windowMs,some last⟩ = .bool false := by
  rw [young,decide_eq_false_iff_not] at old
  rw [Int64.le_iff_toInt_le,Int64.toInt_zero] at sinceEpoch
  have queryBelow := Int64.toInt_lt queryTimeMs
  have ageEq : (queryTimeMs - last).toInt = queryTimeMs.toInt - last.toInt := by
    rw [Int64.toInt_sub,Int.bmod_def]
    split
    · omega
    · omega
  simp only [FirstSeenInWindowState.query,ageEq]
  congr 1
  rw [Bool.and_eq_false_iff,decide_eq_false_iff_not,decide_eq_false_iff_not]
  exact .inr (by omega)

theorem firstSeen_query_eq (finite : windowMs < 2 ^ 63) {times : List Int64}
    (arrives : Arrives times) :
    FirstSeenInWindowState.query queryTimeMs ⟨windowMs,times.getLast?⟩ =
      FirstSeenInWindowState.query queryTimeMs
        ⟨windowMs,(times.filter (young windowMs queryTimeMs)).getLast?⟩ := by
  cases times using List.reverseRecOn with
  | nil => rfl
  | append_singleton earlier last =>
      rw [List.getLast?_concat,List.filter_append]
      cases isYoung : young windowMs queryTimeMs last with
      | true => simp [isYoung]
      | false =>
          have allOld : earlier.filter (young windowMs queryTimeMs) = [] := by
            rw [List.filter_eq_nil_iff]
            intro time member isYoungTime
            have notAfter := (List.pairwise_append.mp arrives.ascending).2.2 time member last
              (List.mem_singleton.mpr rfl)
            rw [Int64.le_iff_toInt_le] at notAfter
            simp only [young,decide_eq_true_eq,decide_eq_false_iff_not] at isYoungTime isYoung
            omega
          have sinceEpoch := arrives.sinceEpoch last (by simp)
          rw [allOld,firstSeen_query_of_old finite sinceEpoch isYoung]
          simp [isYoung,FirstSeenInWindowState.query]

theorem matchedTimes_arrives {arrivals : List Arrival}
    (arrives : Arrives (arrivals.map Arrival.nowMs)) :
    Arrives (matchedTimes env descriptor arrivals) where
  ascending := arrives.ascending.sublist (List.filter_sublist.map _)
  sinceEpoch time member := arrives.sinceEpoch time ((List.filter_sublist.map _).subset member)

theorem matchedTimes_young (arrivals : List Arrival) :
    (matchedTimes env descriptor arrivals).filter (young windowMs queryTimeMs) =
      matchedTimes env descriptor
        (arrivals.filter fun arrival => young windowMs queryTimeMs arrival.nowMs) := by
  rw [matchedTimes,matchedTimes,List.filter_map,List.filter_filter,List.filter_filter]
  congr 1
  exact List.filter_congr fun arrival _ => Bool.and_comm _ _

theorem query_firstSeen_eq (isFirstSeen : descriptor.kind = .firstSeenInWindow)
    (windowed : descriptor.windowMs = some windowMs) (finite : windowMs < 2 ^ 63)
    {first second : List Arrival} (firstArrives : Arrives (first.map Arrival.nowMs))
    (secondArrives : Arrives (second.map Arrival.nowMs))
    (agree : first.filter (fun arrival => young windowMs queryTimeMs arrival.nowMs) =
      second.filter fun arrival => young windowMs queryTimeMs arrival.nowMs) :
    (AggOp.after kernel env descriptor first).query queryTimeMs =
      (AggOp.after kernel env descriptor second).query queryTimeMs := by
  have throughYoung : ∀ {arrivals : List Arrival}, Arrives (arrivals.map Arrival.nowMs) →
      (AggOp.after kernel env descriptor arrivals).query queryTimeMs =
        FirstSeenInWindowState.query queryTimeMs ⟨windowMs,(matchedTimes env descriptor
          (arrivals.filter fun arrival =>
            young windowMs queryTimeMs arrival.nowMs)).getLast?⟩ := by
    intro arrivals arrives
    have isNew : (AggOp.new descriptor : AggOp kernel) =
        .lifetime (.firstSeenInWindow ⟨windowMs,none⟩) := by
      simp only [AggOp.new,windowed,if_pos isFirstSeen,FirstSeenInWindowState.new]
    rw [AggOp.after,isNew,foldl_arrive_firstSeen,Option.or_none,← matchedTimes_young]
    exact firstSeen_query_eq finite (matchedTimes_arrives arrives)
  rw [throughYoung firstArrives,throughYoung secondArrives,agree]

end FirstSeen

end Beava.Agg
