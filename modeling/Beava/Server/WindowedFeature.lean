/-
What a feature with a window answers.

Two histories of an entity that agree on the events of the window get the same
answer when the feature keeps buckets, or the time of the last event only.  The
features that a registration accepts with a window and that keep neither see
every event.
-/

import Beava.Agg.WindowBound
import Beava.Server.History
import Beava.Server.Reached

namespace Beava.Server

open Beava.Core Beava.Apply Beava.Registry Beava.Agg

variable {Expr : Type} {env : Env Expr} {registry : RegistryInner Expr}
  {agg : AggregationDescriptor Expr} {descriptor : AggOpDescriptor Expr}

/-- What the pushes of an entity hand to a feature; the chain of the aggregation
can drop a row. -/
def arrivalsOf (env : Env Expr) (registry : RegistryInner Expr) (agg : AggregationDescriptor Expr)
    (descriptor : AggOpDescriptor Expr) (pushes : List (Row × Int64)) : List Arrival :=
  pushes.filterMap fun push =>
    (chainRow env registry agg.nodeName push.1).map fun aggRow =>
      { preVal :=
          preVal descriptor (extractedOf registry agg.sourceNodeName push.1) aggRow
        nowMs := push.2
        row := aggRow
        extracted := extractedOf registry agg.sourceNodeName push.1 }

def featureAfter (kernel : Kernel) (env : Env Expr) (registry : RegistryInner Expr)
    (agg : AggregationDescriptor Expr) (descriptor : AggOpDescriptor Expr)
    (pushes : List (Row × Int64)) : AggOp kernel :=
  AggOp.after kernel env descriptor (arrivalsOf env registry agg descriptor pushes)

theorem arrivalsOf_times (pushes : List (Row × Int64)) :
    ((arrivalsOf env registry agg descriptor pushes).map Arrival.nowMs).Sublist
      (pushes.map Prod.snd) := by
  induction pushes with
  | nil => exact .slnil
  | cons push rest ih =>
      rw [arrivalsOf,List.filterMap_cons]
      cases chainRow env registry agg.nodeName push.1 with
      | none => exact ih.cons push.2
      | some aggRow => exact ih.cons_cons push.2

theorem arrivalsOf_arrives {pushes : List (Row × Int64)}
    (arrives : Arrives (pushes.map Prod.snd)) :
    Arrives ((arrivalsOf env registry agg descriptor pushes).map Arrival.nowMs) where
  ascending := arrives.ascending.sublist (arrivalsOf_times pushes)
  sinceEpoch time member := arrives.sinceEpoch time ((arrivalsOf_times pushes).subset member)

theorem arrivalsOf_filter (keep : Int64 → Bool) (pushes : List (Row × Int64)) :
    (arrivalsOf env registry agg descriptor pushes).filter (fun arrival => keep arrival.nowMs) =
      arrivalsOf env registry agg descriptor (pushes.filter fun push => keep push.2) := by
  induction pushes with
  | nil => rfl
  | cons push rest ih =>
      unfold arrivalsOf at ih ⊢
      rw [List.filterMap_cons]
      cases seen : chainRow env registry agg.nodeName push.1 with
      | none => cases kept : keep push.2 <;> simp [seen,kept,ih]
      | some aggRow => cases kept : keep push.2 <;> simp [seen,kept,ih]

/-- The feature keeps the last time, or buckets whose order makes no difference:
for its kind, or because none of them had to leave. -/
def Bounded (kernel : Kernel) (kind : AggKind) (windowMs : Nat) (first second : List Arrival) :
    Prop :=
  kind = .firstSeenInWindow ∨
    supportsWindowedWrap kind = true ∧
      (OrderFree kernel kind ∨ FewBuckets windowMs first ∧ FewBuckets windowMs second)

/-- The answer depends on the events of the window only. -/
theorem featureAfter_query_eq (kernel : Kernel) (env : Env Expr) (registry : RegistryInner Expr)
    (agg : AggregationDescriptor Expr) {descriptor : AggOpDescriptor Expr} {windowMs : Nat}
    (windowed : descriptor.windowMs = some windowMs) (finite : windowMs < 2 ^ 63)
    {first second : List (Row × Int64)} (firstArrives : Arrives (first.map Prod.snd))
    (secondArrives : Arrives (second.map Prod.snd)) {queryTimeMs : Int64}
    (agree : first.filter (fun push => young windowMs queryTimeMs push.2) =
      second.filter fun push => young windowMs queryTimeMs push.2)
    (bounded : Bounded kernel descriptor.kind windowMs
      (arrivalsOf env registry agg descriptor first)
      (arrivalsOf env registry agg descriptor second)) :
    (featureAfter kernel env registry agg descriptor first).query queryTimeMs =
      (featureAfter kernel env registry agg descriptor second).query queryTimeMs := by
  have agreeOn := congrArg (arrivalsOf env registry agg descriptor) agree
  rw [← arrivalsOf_filter,← arrivalsOf_filter] at agreeOn
  rcases bounded with isFirstSeen | ⟨wrapped,order⟩
  · exact query_firstSeen_eq isFirstSeen windowed finite (arrivalsOf_arrives firstArrives)
      (arrivalsOf_arrives secondArrives) agreeOn
  · exact query_windowed_eq wrapped windowed finite (arrivalsOf_arrives firstArrives)
      (arrivalsOf_arrives secondArrives) agreeOn order

def WindowBounds (kernel : Kernel) (env : Env Expr) (registry : RegistryInner Expr) : Prop :=
  ∀ (name : String) (agg : AggregationDescriptor Expr) (feature : NamedAggOp Expr)
    (windowMs : Nat), registry.compiledAggregations[name]? = some agg → feature ∈ agg.features →
      feature.descriptor.windowMs = some windowMs → windowMs < 2 ^ 63 →
        coldAfterMsOf registry agg.sourceNodeName = none →
          ∀ (first second : List (Row × Int64)) (queryTimeMs : Int64),
            Arrives (first.map Prod.snd) → Arrives (second.map Prod.snd) →
              first.filter (fun push => young windowMs queryTimeMs push.2) =
                second.filter (fun push => young windowMs queryTimeMs push.2) →
                  (featureAfter kernel env registry agg feature.descriptor first).query
                      queryTimeMs =
                    (featureAfter kernel env registry agg feature.descriptor second).query
                      queryTimeMs

def windowedTable (op window : String) : PayloadNode :=
  .derivation
    { name := "T"
      outputKind := .table
      upstreams := ["E"]
      ops := [.groupBy ["k"] (.ofList [("seen",AggSpec.mk op
        (.object [("field",.string "x"),("window",.string window)]))])]
      schema := ⟨.ofList [("k",FieldType.str),("seen",FieldType.i64)],[]⟩
      tablePrimaryKey := some ["k"]
      registeredAtVersion := 0 }

def windowedCalls (op window : String) : List (RegisterCall × AppendOutcome) :=
  [(⟨[sampleEvent "E",windowedTable op window],false,false⟩,.durable)]

def lapsedPushes : List (Row × Int64) :=
  [(sampleRow "a" 1 0,0),(sampleRow "a" 5 0,1000)]

def youngPushes : List (Row × Int64) := [(sampleRow "a" 1 0,999000)]

theorem lapsedPushes_arrives : Arrives ((lapsedPushes ++ youngPushes).map Prod.snd) := by
  refine ⟨by decide,List.forall_mem_cons.mpr ⟨by decide,?_⟩⟩
  exact List.forall_mem_cons.mpr ⟨by decide,List.forall_mem_singleton.mpr (by decide)⟩

theorem youngPushes_arrives : Arrives (youngPushes.map Prod.snd) :=
  ⟨by decide,List.forall_mem_singleton.mpr (by decide)⟩

theorem lapsed_agree :
    (lapsedPushes ++ youngPushes).filter (fun push => young 60000 1000000 push.2) =
      youngPushes.filter fun push => young 60000 1000000 push.2 := by
  decide

theorem lapsed_max_eq :
    ∃ agg feature, (registryAfter sampleEnv (windowedCalls "max" "1m")).compiledAggregations["T"]? =
        some agg ∧ feature ∈ agg.features ∧
      (featureAfter wholeKernel sampleEnv (registryAfter sampleEnv (windowedCalls "max" "1m")) agg
          feature.descriptor (lapsedPushes ++ youngPushes)).query 1000000 =
        (featureAfter wholeKernel sampleEnv (registryAfter sampleEnv (windowedCalls "max" "1m"))
          agg feature.descriptor youngPushes).query 1000000 := by
  have values : ((registryAfter sampleEnv (windowedCalls "max" "1m")).compiledAggregations["T"]?.map
      fun agg => agg.features.map fun feature =>
        (feature.descriptor.windowMs,feature.descriptor.kind,
          decide (FewBuckets 60000 (arrivalsOf sampleEnv
            (registryAfter sampleEnv (windowedCalls "max" "1m")) agg feature.descriptor
            (lapsedPushes ++ youngPushes))),
          decide (FewBuckets 60000 (arrivalsOf sampleEnv
            (registryAfter sampleEnv (windowedCalls "max" "1m")) agg feature.descriptor
            youngPushes)))) = some [(some 60000,.max,true,true)] := by
    decide
  obtain ⟨agg,compiled,ofAgg⟩ := Option.map_eq_some_iff.mp values
  obtain ⟨feature,isFeatures,ofFeature⟩ := List.map_eq_singleton_iff.mp ofAgg
  simp only [Prod.mk.injEq,decide_eq_true_eq] at ofFeature
  obtain ⟨windowed,isMax,few,otherFew⟩ := ofFeature
  refine ⟨agg,feature,compiled,by simp [isFeatures],?_⟩
  exact featureAfter_query_eq wholeKernel sampleEnv _ agg windowed (by decide)
    lapsedPushes_arrives youngPushes_arrives lapsed_agree
    (.inr ⟨by rw [isMax]; rfl,.inr ⟨few,otherFew⟩⟩)

/-- The changes that came before the window are counted. -/
theorem lapsed_changes_counted :
    ¬WindowBounds wholeKernel sampleEnv
      (registryAfter sampleEnv (windowedCalls "value_change_count" "1m")) := by
  have values :
      ((registryAfter sampleEnv
          (windowedCalls "value_change_count" "1m")).compiledAggregations["T"]?.map
        fun agg => agg.features.map fun feature =>
          (feature.descriptor.windowMs,
            coldAfterMsOf (registryAfter sampleEnv (windowedCalls "value_change_count" "1m"))
              agg.sourceNodeName,
            (featureAfter wholeKernel sampleEnv
              (registryAfter sampleEnv (windowedCalls "value_change_count" "1m")) agg
              feature.descriptor (lapsedPushes ++ youngPushes)).query 1000000,
            (featureAfter wholeKernel sampleEnv
              (registryAfter sampleEnv (windowedCalls "value_change_count" "1m")) agg
              feature.descriptor youngPushes).query 1000000)) =
        some [(some 60000,none,.i64 2,.i64 0)] := by
    decide
  obtain ⟨agg,compiled,ofAgg⟩ := Option.map_eq_some_iff.mp values
  obtain ⟨feature,isFeatures,ofFeature⟩ := List.map_eq_singleton_iff.mp ofAgg
  simp only [Prod.mk.injEq] at ofFeature
  obtain ⟨windowed,notCold,withLapsed,without⟩ := ofFeature
  intro bounds
  have same := bounds "T" agg feature 60000 compiled (by simp [isFeatures]) windowed (by decide)
    notCold (lapsedPushes ++ youngPushes) youngPushes 1000000 lapsedPushes_arrives
    youngPushes_arrives lapsed_agree
  rw [withLapsed,without] at same
  cases same

def mixedPushes : List (Row × Int64) :=
  (List.range 64).map fun index =>
    (⟨[("k",.str "a"),("x",if index = 62 then .f64 ⟨0x4014000000000000⟩ else .i64 1),
        ("y",.i64 0)]⟩,Int64.ofNat (index + 1))

/-- The bucket of an old push leaves and another takes its place, so that `min`,
which does not compare integers with other numbers, meets the latter first. -/
example :
    ((registryAfter sampleEnv (windowedCalls "min" "64ms")).compiledAggregations["T"]?.map
      fun agg => agg.features.map fun feature =>
        ((featureAfter wholeKernel sampleEnv
            (registryAfter sampleEnv (windowedCalls "min" "64ms")) agg feature.descriptor
            ((sampleRow "a" 1 0,0) :: mixedPushes)).query 64,
          (featureAfter wholeKernel sampleEnv
            (registryAfter sampleEnv (windowedCalls "min" "64ms")) agg feature.descriptor
            mixedPushes).query 64)) =
      some [(.f64 ⟨0x4014000000000000⟩,.i64 1)] := by
  decide +kernel

end Beava.Server
