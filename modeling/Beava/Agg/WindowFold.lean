/-
A query over buckets and an operator without a window.

The buckets of a window are operators without a window, and their fold answers what
one operator answers that took in all the updates.  It does so whatever the buckets
are and in whatever order they come, for the kinds and the inputs whose summaries
merge.
-/

import Beava.Agg.Summaries

namespace Beava.Agg

open Beava.Core Beava.Apply Beava.Sketch Mergeable

variable {kernel : Kernel}
variable {exact : Exact kernel ℚ}

/-! ### The sketches of the program -/

section Sketches

variable {parts : SketchParts kernel}
variable {exact : Exact kernel ℚ}

def Exact.withSketches {K : Type} [Field K] (exact : Exact kernel K) (parts : SketchParts kernel) :
    Exact (kernel.withSketches parts) K where
  value := exact.value
  ofInt := exact.ofInt
  add := exact.add
  sub := exact.sub
  mul := exact.mul
  div := exact.div
  neg := exact.neg

theorem distinct_lawful (kernel : Kernel) (parts : SketchParts kernel) :
    (distinctSummary (kernel.withSketches parts)).Lawful (fun _ => True)
      (fun items state => CountDistinctState.Represents (items.map kernel.hashValue) state) Eq where
  fits _ _ := trivial
  empty := CountDistinctState.represents_new
  add item _ represents := by
    rw [List.map_append]
    exact represents.addHash (kernel.hashValue item)
  merge _ represents otherRepresents := by
    rw [List.map_append]
    exact represents.merge otherRepresents
  answer _ same represents otherRepresents := by
    apply congrArg Kernel.reportCount
    exact represents.estimate_eq parts.estimateHll otherRepresents
      fun hash => (same.map kernel.hashValue).mem_iff

def ExactOrder (exact : Exact kernel ℚ) : Prop :=
  ∀ first second, kernel.le first second = true ↔ exact.value first ≤ exact.value second

def KeepsNumbers (items : List kernel.Num) (state : PercentileState kernel parts) : Prop :=
  ∃ values alpha0, state = .exact values 256 alpha0 ∧ values.Perm (items.filter kernel.isFinite)

theorem sorted_eq (ordered : ExactOrder exact) {items others : List kernel.Num}
    (same : items.Perm others) : items.mergeSort kernel.le = others.mergeSort kernel.le := by
  have trans : ∀ first second third, kernel.le first second = true →
      kernel.le second third = true → kernel.le first third = true := by
    intro first second third below above
    exact (ordered _ _).mpr (le_trans ((ordered _ _).mp below) ((ordered _ _).mp above))
  have total : ∀ first second, (kernel.le first second || kernel.le second first) = true := by
    intro first second
    rw [Bool.or_eq_true]
    rcases le_total (exact.value first) (exact.value second) with below | above
    · exact .inl ((ordered _ _).mpr below)
    · exact .inr ((ordered _ _).mpr above)
  have perm : (items.mergeSort kernel.le).Perm (others.mergeSort kernel.le) :=
    (List.mergeSort_perm items _).trans (same.trans (List.mergeSort_perm others _).symm)
  apply perm.eq_of_pairwise
  · intro first second _ _ below above
    exact exact.value.injective (le_antisymm ((ordered _ _).mp below) ((ordered _ _).mp above))
  · exact List.pairwise_mergeSort trans total items
  · exact List.pairwise_mergeSort trans total others

theorem quantileOf_perm (ordered : ExactOrder exact) (q : kernel.Num)
    {items others : List kernel.Num} (same : items.Perm others) :
    PercentileState.quantileOf parts q items = PercentileState.quantileOf parts q others := by
  have empty : items.isEmpty = others.isEmpty := by
    rw [Bool.eq_iff_iff,List.isEmpty_iff,List.isEmpty_iff]
    constructor
    · intro none
      rw [none] at same
      exact List.nil_perm.mp same
    · intro none
      rw [none] at same
      exact List.perm_nil.mp same
  rw [PercentileState.quantileOf,PercentileState.quantileOf,empty,sorted_eq ordered same]

theorem keepOrPromote_few {values : List kernel.Num} {alpha0 : kernel.Num}
    (few : values.length ≤ 256) :
    (PercentileState.keepOrPromote values 256 alpha0 : PercentileState kernel parts) =
      .exact values 256 alpha0 :=
  if_neg (Nat.not_lt.mpr few)

theorem percentile_lawful (ordered : ExactOrder exact) (parts : SketchParts kernel)
    (q : kernel.Num) :
    (percentileSummary (kernel.withSketches parts) q).Lawful (fun items => items.length ≤ 256)
      (@KeepsNumbers kernel parts) Eq where
  fits few sub := Nat.le_trans sub.length_le few
  empty := ⟨[],_,rfl,List.Perm.refl _⟩
  add := by
    intro items state item few keeps
    obtain ⟨values,alpha0,rfl,same⟩ := keeps
    show @KeepsNumbers kernel parts (items ++ [item])
      (PercentileState.insert item (.exact values 256 alpha0))
    rw [PercentileState.insert]
    by_cases finite : kernel.isFinite item = true
    · have next : (values ++ [item]).Perm ((items ++ [item]).filter kernel.isFinite) := by
        rw [List.filter_append,List.filter_cons_of_pos finite,List.filter_nil]
        exact same.append_right [item]
      have fits : (values ++ [item]).length ≤ 256 := by
        rw [next.length_eq]
        exact Nat.le_trans (List.length_filter_le _ _) few
      rw [if_pos finite]
      exact ⟨_,alpha0,keepOrPromote_few fits,next⟩
    · rw [if_neg finite]
      refine ⟨values,alpha0,rfl,?_⟩
      rwa [List.filter_append,List.filter_cons_of_neg finite,List.filter_nil,List.append_nil]
  merge := by
    intro items others state other few keeps otherKeeps
    obtain ⟨values,alpha0,rfl,same⟩ := keeps
    obtain ⟨theirs,otherAlpha0,rfl,otherSame⟩ := otherKeeps
    have both : (values ++ theirs).Perm ((items ++ others).filter kernel.isFinite) := by
      rw [List.filter_append]
      exact same.append otherSame
    have fits : (values ++ theirs).length ≤ 256 := by
      rw [both.length_eq]
      exact Nat.le_trans (List.length_filter_le _ _) few
    exact ⟨_,alpha0,keepOrPromote_few fits,both⟩
  answer := by
    intro items others state other _ same keeps otherKeeps
    obtain ⟨values,_,rfl,own⟩ := keeps
    obtain ⟨theirs,_,rfl,other⟩ := otherKeeps
    have values : values.Perm theirs := own.trans ((same.filter _).trans other.symm)
    show Option.getD (Option.map _ (PercentileState.quantileOf parts q _)) _ =
      Option.getD (Option.map _ (PercentileState.quantileOf parts q _)) _
    rw [quantileOf_perm ordered q values]

def KeepsCounts (k : Nat) (items : List TopKValue) (state : TopKState defaultShape) : Prop :=
  ∃ counts, state = .exact counts (max k 1) 1024 ∧ Tally.Tallies (2 ^ 64) items counts

def FewValues (items : List TopKValue) : Prop := items.toFinset.card ≤ 1024

theorem topEntries_new (kernel : Kernel) (parts : SketchParts kernel) (k : Nat) :
    (kernel.withSketches parts).topEntries ((kernel.withSketches parts).newTopK k) = [] := by
  have noEntries : (∅ : Std.ExtTreeMap TopKValue Nat).toList = [] := by
    apply List.eq_nil_of_length_eq_zero
    rw [Std.ExtTreeMap.length_toList,Std.ExtTreeMap.size_empty]
  show List.map topEntry (TopKState.top (TopKState.new defaultShape k 1024)) = []
  rw [TopKState.new,TopKState.top,noEntries,List.mergeSort_nil,List.take_nil,List.map_nil]

theorem topK_lawful (kernel : Kernel) (parts : SketchParts kernel) (k : Nat) :
    (topKSummary (kernel.withSketches parts) k).Lawful FewValues (KeepsCounts k) Eq where
  fits := by
    intro items others few sub
    refine Nat.le_trans (Finset.card_le_card ?_) few
    intro item member
    rw [List.mem_toFinset] at member ⊢
    exact sub.subset member
  empty := ⟨∅,rfl,Tally.tallies_empty⟩
  add := by
    intro items state item few keeps
    obtain ⟨counts,rfl,tallies⟩ := keeps
    have next := tallies.insert item
    have notFull : ¬ 1024 < (counts.insert item ((counts.getD item 0 + 1) % 2 ^ 64)).size := by
      rw [next.size]
      exact Nat.not_lt.mpr few
    exact ⟨_,if_neg notFull,next⟩
  merge := by
    intro items others state other few keeps otherKeeps
    obtain ⟨counts,rfl,tallies⟩ := keeps
    obtain ⟨theirs,rfl,otherTallies⟩ := otherKeeps
    have both := tallies.merge otherTallies
    have notFull : ¬ 1024 < (Tally.addAll (2 ^ 64) counts theirs.toList).size := by
      rw [both.size]
      exact Nat.not_lt.mpr few
    exact ⟨_,if_neg notFull,both⟩
  answer := by
    intro items others state other _ same keeps otherKeeps
    obtain ⟨counts,rfl,tallies⟩ := keeps
    obtain ⟨theirs,rfl,otherTallies⟩ := otherKeeps
    rw [tallies.unique otherTallies same]

end Sketches

/-- The active buckets are the operators of the groups, in this order. -/
structure HoldsGroups (op : WindowedOp kernel) (kind : AggKind) (params : SketchParams)
    (queryTimeMs : Int64) (groups : List (List LifetimeUpdate)) : Prop where
  innerKind : op.innerKind = kind
  active : op.activeOps queryTimeMs =
    groups.map (LifetimeOp.newLifetime kind params : LifetimeOp kernel).after

def categoriesOf (kernel : Kernel) (updates : List LifetimeUpdate) : List String :=
  updates.filterMap (LifetimeUpdate.reading (valueToKeyString kernel))

/-- The kinds with a fold, and the inputs their summaries are exact for. -/
def InLimits (kernel : Kernel) (kind : AggKind) (updates : List LifetimeUpdate) : Prop :=
  match kind with
  | .count => True
  | .sum => True
  | .avg => True
  | .variance => True
  | .stdDev => True
  | .ratio => True
  | .countDistinct => True
  | .min => SameVariant (fieldValues updates)
  | .max => SameVariant (fieldValues updates)
  | .percentile => (numbersOf updates : List kernel.Num).length ≤ 256
  | .topK => FewValues (updates.filterMap (LifetimeUpdate.reading topKValueOf))
  | .entropy => (categoriesOf kernel updates).toFinset.card ≤ 1024
  | _ => False

def FoldsExactly (kernel : Kernel) (kind : AggKind) (updates : List LifetimeUpdate) : Prop :=
  match kind with
  | .min => Comparable (fieldValues updates)
  | .max => Comparable (fieldValues updates)
  | .entropy => Unreserved (categoriesOf kernel updates)
  | _ => True

structure MergesFor (kernel : Kernel) (kind : AggKind) (updates : List LifetimeUpdate) :
    Prop where
  inLimits : InLimits kernel kind updates
  foldsExactly : FoldsExactly kernel kind updates

theorem MergesFor.perm {kind : AggKind} {updates order : List LifetimeUpdate}
    (merges : MergesFor kernel kind updates) (same : order.Perm updates) :
    MergesFor kernel kind order := by
  obtain ⟨inLimits,foldsExactly⟩ := merges
  have values : ∀ value, value ∈ fieldValues order ↔ value ∈ fieldValues updates :=
    fun _ => (same.filterMap _).mem_iff
  have categories : (categoriesOf kernel order).Perm (categoriesOf kernel updates) :=
    same.filterMap _
  have extreme : ∀ {holds : Value → Value → Prop},
      (∀ first ∈ fieldValues updates, ∀ second ∈ fieldValues updates, holds first second) →
        ∀ first ∈ fieldValues order, ∀ second ∈ fieldValues order, holds first second :=
    fun all first isFirst second isSecond =>
      all first ((values first).mp isFirst) second ((values second).mp isSecond)
  cases kind with
  | min | max => exact ⟨extreme inLimits,extreme foldsExactly⟩
  | percentile =>
      refine ⟨?_,trivial⟩
      show (numbersOf order : List kernel.Num).length ≤ 256
      rw [numbersOf,(same.filterMap _).length_eq]
      exact inLimits
  | topK =>
      refine ⟨?_,trivial⟩
      show FewValues _
      rw [FewValues,List.toFinset_eq_of_perm _ _ (same.filterMap _)]
      exact inLimits
  | entropy =>
      refine ⟨?_,?_⟩
      · show (categoriesOf kernel order).toFinset.card ≤ 1024
        rw [List.toFinset_eq_of_perm _ _ categories]
        exact inLimits
      · intro reserved category member
        exact foldsExactly (categories.mem_iff.mp reserved) category (categories.mem_iff.mp member)
  | _ => exact ⟨inLimits,trivial⟩

/-- The values are the same; an extreme is one of several numbers that are equal. -/
def AgreeFor (kind : AggKind) (first second : Value) : Prop :=
  match kind with
  | .min => SameValue first second
  | .max => SameValue first second
  | _ => first = second

variable {parts : SketchParts kernel} {kind : AggKind} {params : SketchParams}
  {groups : List (List LifetimeUpdate)} {updates : List LifetimeUpdate} {queryTimeMs : Int64}

theorem Extreme.foldBuckets_after (extreme : Extreme) (params : SketchParams)
    (groups : List (List LifetimeUpdate)) :
    WindowedOp.foldBuckets extreme.kind
        (groups.map (LifetimeOp.newLifetime extreme.kind params : LifetimeOp kernel).after) =
      (extreme.currentOf ((groups.map fieldValues).filterMap extreme.currentOf)).getD .null := by
  have each : groups.map (LifetimeOp.newLifetime extreme.kind params : LifetimeOp kernel).after =
      (groups.map fieldValues).map fun group =>
        (extreme.op (extreme.currentOf group) : LifetimeOp kernel) := by
    rw [List.map_map]
    apply List.map_congr_left
    intro group _
    rw [newLifetime_eq,after_eq]
    rfl
  rw [each,foldBuckets_op]

theorem Extreme.query_after (extreme : Extreme) (params : SketchParams)
    (updates : List LifetimeUpdate) (queryTimeMs : Int64) :
    ((LifetimeOp.newLifetime extreme.kind params : LifetimeOp kernel).after updates).query
      queryTimeMs = (extreme.currentOf (fieldValues updates)).getD .null := by
  rw [newLifetime_eq,after_eq,query_op]

theorem Extreme.foldBuckets_same (extreme : Extreme) (params : SketchParams)
    (together : groups.flatten.Perm updates) (sameVariant : SameVariant (fieldValues updates))
    (comparable : Comparable (fieldValues updates)) (queryTimeMs : Int64) :
    SameValue
      (WindowedOp.foldBuckets extreme.kind
        (groups.map (LifetimeOp.newLifetime extreme.kind params : LifetimeOp kernel).after))
      (((LifetimeOp.newLifetime extreme.kind params : LifetimeOp kernel).after updates).query
        queryTimeMs) := by
  rcases comparable_cases sameVariant comparable with oneVariant | ⟨value,isolated,alike⟩
  · exact (extreme.keeps params).foldBuckets_same extreme.lawful together oneVariant queryTimeMs
  · have values : (groups.map fieldValues).flatten.Perm (fieldValues updates) := by
      rw [← fieldValues_flatten]
      exact together.filterMap _
    have alikeInGroups : ∀ other ∈ (groups.map fieldValues).flatten, other = value :=
      fun other member => alike other (values.mem_iff.mp member)
    have empty : (groups.map fieldValues).flatten.isEmpty = (fieldValues updates).isEmpty := by
      rw [Bool.eq_iff_iff,List.isEmpty_iff_length_eq_zero,List.isEmpty_iff_length_eq_zero,
        values.length_eq]
    rw [foldBuckets_after,query_after,currentOf_groups_alike isolated alikeInGroups,
      currentOf_alike isolated alikeInGroups,currentOf_alike isolated alike,empty]
    exact .inl rfl

theorem foldBuckets_agrees (ordered : ExactOrder exact) (together : groups.flatten.Perm updates)
    (merges : MergesFor (kernel.withSketches parts) kind updates) :
    AgreeFor kind
      (WindowedOp.foldBuckets kind (groups.map
        (LifetimeOp.newLifetime kind params : LifetimeOp (kernel.withSketches parts)).after))
      (((LifetimeOp.newLifetime kind params : LifetimeOp (kernel.withSketches parts)).after
        updates).query queryTimeMs) := by
  have arithmetic := exact.withSketches parts
  cases kind with
  | count => exact (count_keeps params).foldBuckets_same count_lawful together trivial queryTimeMs
  | sum =>
      exact (sum_keeps params).foldBuckets_same (sum_lawful arithmetic) together trivial queryTimeMs
  | avg =>
      exact (avg_keeps params).foldBuckets_same (avg_lawful arithmetic) together trivial queryTimeMs
  | variance =>
      exact (variance_keeps params).foldBuckets_same (variance_lawful arithmetic id) together
        trivial queryTimeMs
  | stdDev =>
      exact (stdDev_keeps params).foldBuckets_same (variance_lawful arithmetic _) together
        trivial queryTimeMs
  | ratio =>
      exact (ratio_keeps params).foldBuckets_same (ratio_lawful _) together trivial queryTimeMs
  | countDistinct =>
      exact (distinct_keeps params rfl).foldBuckets_same (distinct_lawful kernel parts) together
        trivial queryTimeMs
  | min =>
      exact Extreme.min.foldBuckets_same params together merges.inLimits merges.foldsExactly
        queryTimeMs
  | max =>
      exact Extreme.max.foldBuckets_same params together merges.inLimits merges.foldsExactly
        queryTimeMs
  | percentile =>
      exact (percentile_keeps params rfl).foldBuckets_same (percentile_lawful ordered parts _)
        together merges.inLimits queryTimeMs
  | topK =>
      exact (topK_keeps params (topEntries_new kernel parts _)).foldBuckets_same
        (topK_lawful kernel parts _) together merges.inLimits queryTimeMs
  | entropy =>
      exact (entropy_keeps params).foldBuckets_same (entropy_lawful _) together
        ⟨merges.inLimits,merges.foldsExactly⟩ queryTimeMs
  | _ => exact merges.inLimits.elim

/-- The query of a run answers what one operator does after the updates of the
window. -/
theorem query_inWindow_agrees {Expr : Type} {env : Env Expr} {windowMs : Nat}
    {arrivals : List (WindowedUpdate Expr)} (ordered : ExactOrder exact)
    (positive : 0 < windowMs) (finite : windowMs < 2 ^ 63)
    (arrives : Arrives (arrivals.map WindowedUpdate.nowMs))
    (notAfter : ∀ update ∈ arrivals, update.nowMs ≤ queryTimeMs)
    (merges : MergesFor (kernel.withSketches parts) kind
      (WindowedOp.inWindow env windowMs arrivals queryTimeMs)) :
    AgreeFor kind
      ((WindowedOp.after (kernel.withSketches parts) env kind windowMs params arrivals).query
        queryTimeMs)
      (((LifetimeOp.newLifetime kind params : LifetimeOp (kernel.withSketches parts)).after
        (WindowedOp.inWindow env windowMs arrivals queryTimeMs)).query queryTimeMs) := by
  rw [WindowedOp.query,WindowedOp.after_innerKind,WindowedOp.activeOps_after finite arrives]
  exact foldBuckets_agrees ordered
    (WindowedOp.groups_perm positive finite arrives notAfter) merges

/-! ### When a query agrees -/

/-- What the buckets of an entropy count together. -/
def histogramOf (ops : List (LifetimeOp kernel)) : EntropyHistogram :=
  (WindowedOp.combined EntropyHistogram.merge (WindowedOp.entropies ops)).getD (.new 1024)

theorem entropy_after (params : SketchParams) (updates : List LifetimeUpdate) :
    (LifetimeOp.newLifetime .entropy params : LifetimeOp kernel).after updates =
      .entropy ((EntropyStateWrap.new 1024).insertAll (categoriesOf kernel updates)) := by
  rw [(entropy_keeps params).after_eq,insertAll_wrap]
  rfl

theorem histogramOf_after {β : Type} (answer : EntropyHistogram → β) (params : SketchParams)
    (groups : List (List LifetimeUpdate)) :
    answer (histogramOf (groups.map
        (LifetimeOp.newLifetime .entropy params : LifetimeOp kernel).after)) =
      (categorySummary answer).total .fromFirst
        ((groups.map (categoriesOf kernel)).map (categorySummary answer).after) := by
  have each : WindowedOp.entropies (groups.map
      (LifetimeOp.newLifetime .entropy params : LifetimeOp kernel).after) =
        (groups.map (categoriesOf kernel)).map (categorySummary answer).after := by
    rw [WindowedOp.entropies,List.filterMap_map,List.map_map,← List.filterMap_eq_map]
    apply List.filterMap_congr
    intro group _
    rw [Function.comp_apply,entropy_after,insertAll_wrap answer]
    rfl
  rw [histogramOf,each]
  cases groups <;> rfl

theorem histogramOf_single (params : SketchParams) (updates : List LifetimeUpdate) :
    histogramOf [(LifetimeOp.newLifetime .entropy params : LifetimeOp kernel).after updates] =
      ((EntropyStateWrap.new 1024).insertAll (categoriesOf kernel updates)).inner := by
  rw [entropy_after]
  rfl

/-- The buckets answer what one operator does; those of an entropy count what it does. -/
structure Agrees (op : WindowedOp kernel) (whole : LifetimeOp kernel) (queryTimeMs : Int64) :
    Prop where
  answer : AgreeFor op.innerKind (op.query queryTimeMs) (whole.query queryTimeMs)
  counts : op.innerKind = .entropy →
    (histogramOf (op.activeOps queryTimeMs)).counts = (histogramOf [whole]).counts ∧
      (histogramOf (op.activeOps queryTimeMs)).total = (histogramOf [whole]).total

theorem agrees_of_mergesFor (ordered : ExactOrder exact)
    {op : WindowedOp (kernel.withSketches parts)}
    (holds : HoldsGroups op kind params queryTimeMs groups) (together : groups.flatten.Perm updates)
    (merges : MergesFor (kernel.withSketches parts) kind updates) :
    Agrees op ((LifetimeOp.newLifetime kind params : LifetimeOp (kernel.withSketches parts)).after
      updates) queryTimeMs where
  answer := by
    rw [WindowedOp.query,holds.innerKind,holds.active]
    exact foldBuckets_agrees ordered together merges
  counts isEntropy := by
    have isKind : kind = .entropy := holds.innerKind.symm.trans isEntropy
    subst isKind
    have categories : (groups.map (categoriesOf (kernel.withSketches parts))).flatten.Perm
        (categoriesOf (kernel.withSketches parts) updates) := by
      have flat : (groups.map (categoriesOf (kernel.withSketches parts))).flatten =
          categoriesOf (kernel.withSketches parts) groups.flatten := List.filterMap_flatten.symm
      rw [flat]
      exact together.filterMap _
    have same := (@category_lawful _ (fun histogram => (histogram.counts,histogram.total))
      (fun sameCounts sameTotal => Prod.ext sameCounts sameTotal)).total_after .fromFirst
        ⟨merges.inLimits,merges.foldsExactly⟩ categories
    rw [← histogramOf_after (fun histogram => (histogram.counts,histogram.total)) params] at same
    rw [holds.active,histogramOf_single,insertAll_wrap fun histogram =>
      (histogram.counts,histogram.total)]
    exact Prod.ext_iff.mp same

/-- One bucket, of the time of the query. -/
def oneBucket (kind : AggKind) (params : SketchParams) (queryTimeMs : Int64)
    (bucket : LifetimeOp kernel) : WindowedOp kernel :=
  { (WindowedOp.newWithParams kind 64 params : WindowedOp kernel) with
    buckets := [(queryTimeMs,bucket)] }

theorem holdsGroups_oneBucket (kind : AggKind) (params : SketchParams) (queryTimeMs : Int64)
    (group : List LifetimeUpdate) :
    HoldsGroups
      (oneBucket kind params queryTimeMs
        ((LifetimeOp.newLifetime kind params : LifetimeOp kernel).after group))
      kind params queryTimeMs [group] where
  innerKind := rfl
  active := by
    have isActive : WindowedOp.active 64 queryTimeMs queryTimeMs = true := by
      rw [WindowedOp.active,Int64.sub_self]
      rfl
    rw [WindowedOp.activeOps,oneBucket]
    dsimp only [WindowedOp.newWithParams]
    rw [List.filter_singleton,isActive]
    rfl

theorem exists_headed {α : Type} {reading : LifetimeUpdate → Option α} {item : α}
    (member : item ∈ updates.filterMap reading) :
    ∃ (order : List LifetimeUpdate) (rest : List α),
      order.Perm updates ∧ order.filterMap reading = item :: rest := by
  obtain ⟨update,isUpdate,isItem⟩ := List.mem_filterMap.mp member
  obtain ⟨before,after,rfl⟩ := List.append_of_mem isUpdate
  exact ⟨update :: (before ++ after),_,List.perm_middle.symm,List.filterMap_cons_some isItem⟩

/-- The updates in an order in which the reserved category comes last. -/
theorem exists_reservedLast (kernel : Kernel) (updates : List LifetimeUpdate) :
    ∃ order, order.Perm updates ∧ ReservedLast (categoriesOf kernel order) := by
  let reserved := fun update : LifetimeUpdate =>
    LifetimeUpdate.reading (valueToKeyString kernel) update == some EntropyHistogram.spillKey
  refine ⟨updates.filter (fun update => !reserved update) ++ updates.filter reserved,
    List.perm_append_comm.trans (List.filter_append_perm reserved updates),?_⟩
  intro before after isSplit category member
  rw [categoriesOf,List.filterMap_append] at isSplit
  have early : EntropyHistogram.spillKey ∉ (updates.filter fun update =>
      !reserved update).filterMap (LifetimeUpdate.reading (valueToKeyString kernel)) := by
    intro isEarly
    obtain ⟨update,kept,isReserved⟩ := List.mem_filterMap.mp isEarly
    have not_ := (List.mem_filter.mp kept).2
    simp only [reserved,isReserved,beq_self_eq_true] at not_
    cases not_
  have late : ∀ category ∈ (updates.filter reserved).filterMap
      (LifetimeUpdate.reading (valueToKeyString kernel)), category = EntropyHistogram.spillKey := by
    intro category isLate
    obtain ⟨update,kept,isCategory⟩ := List.mem_filterMap.mp isLate
    have isReserved := (List.mem_filter.mp kept).2
    simp only [reserved,isCategory,beq_iff_eq,Option.some.injEq] at isReserved
    exact isReserved
  left
  rcases List.append_eq_append_iff.mp isSplit with ⟨between,-,isLate⟩ | ⟨between,isEarly,isLate⟩
  · apply late
    rw [isLate]
    exact List.mem_append_right _ (List.mem_cons_of_mem _ member)
  · cases between with
    | nil =>
        apply late
        rw [List.nil_append] at isLate
        rw [← isLate]
        exact List.mem_cons_of_mem _ member
    | cons head tail =>
        rw [isEarly,(List.cons.inj isLate).1] at early
        exact absurd (List.mem_append_right _ List.mem_cons_self) early

/-- Any way to spread the updates over buckets agrees with any order of them. -/
def AlwaysAgrees (kernel : Kernel) (kind : AggKind) (params : SketchParams)
    (updates : List LifetimeUpdate) (queryTimeMs : Int64) : Prop :=
  ∀ (op : WindowedOp kernel) groups order, HoldsGroups op kind params queryTimeMs groups →
    groups.flatten.Perm updates → order.Perm updates →
      Agrees op ((LifetimeOp.newLifetime kind params : LifetimeOp kernel).after order) queryTimeMs

theorem AlwaysAgrees.oneBucket (always : AlwaysAgrees kernel kind params updates queryTimeMs)
    {group order : List LifetimeUpdate} (bucket : group.Perm updates)
    (whole : order.Perm updates) :
    Agrees (oneBucket kind params queryTimeMs
        ((LifetimeOp.newLifetime kind params : LifetimeOp kernel).after group))
      ((LifetimeOp.newLifetime kind params : LifetimeOp kernel).after order) queryTimeMs :=
  always _ [group] order (holdsGroups_oneBucket kind params queryTimeMs group)
    (by rwa [List.flatten_singleton]) whole

theorem Extreme.comparable_of_always (extreme : Extreme)
    (always : AlwaysAgrees kernel extreme.kind params updates queryTimeMs)
    (agreeFor : ∀ first second, AgreeFor extreme.kind first second → SameValue first second)
    (sameVariant : SameVariant (fieldValues updates)) : Comparable (fieldValues updates) := by
  apply @comparable_of_agreeing extreme _ sameVariant
  intro first inFirst second inSecond
  obtain ⟨group,rest,bucket,isGroup⟩ := exists_headed inFirst
  obtain ⟨order,others,whole,isOrder⟩ := exists_headed inSecond
  have agrees := agreeFor _ _ (always.oneBucket bucket whole).answer
  have folded := @Extreme.foldBuckets_after kernel extreme params [group]
  rw [List.map_singleton,List.map_singleton,currentOf_alone] at folded
  rw [WindowedOp.query,(holdsGroups_oneBucket extreme.kind params queryTimeMs group).active,
    query_after,List.map_singleton] at agrees
  exact ⟨rest,others,isGroup ▸ isOrder ▸ folded ▸ agrees⟩

theorem unreserved_of_always (always : AlwaysAgrees kernel .entropy params updates queryTimeMs)
    (few : (categoriesOf kernel updates).toFinset.card ≤ 1024) :
    Unreserved (categoriesOf kernel updates) := by
  intro reserved category member
  obtain ⟨group,bucket,reservedLast⟩ := exists_reservedLast kernel updates
  obtain ⟨order,rest,whole,isOrder⟩ := exists_headed reserved
  have categories : (categoriesOf kernel order).Perm (categoriesOf kernel group) :=
    (whole.trans bucket.symm).filterMap _
  have inGroup : ∀ category, category ∈ categoriesOf kernel group ↔
      category ∈ categoriesOf kernel updates := fun _ => (bucket.filterMap _).mem_iff
  obtain ⟨counts,-⟩ := @countsEach_insertAll 1024 _
    (few_of_subset few fun category member => (inGroup category).mp member) reservedLast
  obtain ⟨sameCounts,-⟩ := (always.oneBucket bucket whole).counts rfl
  rw [(holdsGroups_oneBucket .entropy params queryTimeMs group).active,List.map_singleton,
    histogramOf_single,histogramOf_single] at sameCounts
  have first := @reservedLast_of_tracked 1024 (categoriesOf kernel order)
    (few_of_subset few fun category member => (inGroup category).mp (categories.mem_iff.mp member))
    (by
      intro category member
      rw [← sameCounts,counts.tallies.contains_iff]
      exact categories.mem_iff.mp member)
  have isOrder : categoriesOf kernel order = [] ++ EntropyHistogram.spillKey :: rest := isOrder
  have inOrder : category ∈ categoriesOf kernel order :=
    categories.mem_iff.mpr ((inGroup category).mpr member)
  rw [isOrder,List.nil_append,List.mem_cons] at inOrder
  rcases inOrder with same | later
  · exact same
  · exact (first [] rest isOrder category later).resolve_right List.not_mem_nil

/-- Within the limits of its kind, the fold over the buckets of a window agrees with the
operator without a window, however the updates are spread over buckets and ordered,
exactly when extremes can be compared and no category is reserved among others. -/
theorem query_agrees_iff {exact : Exact kernel ℚ} (ordered : ExactOrder exact)
    (within : InLimits (kernel.withSketches parts) kind updates) :
    AlwaysAgrees (kernel.withSketches parts) kind params updates queryTimeMs ↔
      FoldsExactly (kernel.withSketches parts) kind updates := by
  constructor
  · intro always
    cases kind with
    | min => exact Extreme.min.comparable_of_always always (fun _ _ same => same) within
    | max => exact Extreme.max.comparable_of_always always (fun _ _ same => same) within
    | entropy => exact unreserved_of_always always within
    | _ => trivial
  · intro exactly op groups order holds together same
    exact agrees_of_mergesFor ordered holds (together.trans same.symm)
      (MergesFor.perm ⟨within,exactly⟩ same)

def sampleParts : SketchParts rationalKernel where
  hash64 _ := 0
  estimateHll sketch := (sketch.registers.filter fun register => register != 0).length
  floorIndex (position : ℚ) := position.floor.toNat
  ceilIndex (position : ℚ) := position.ceil.toNat
  UDDSketch := List ℚ
  newUDDSketch _ _ := []
  insertUDDSketch (number : ℚ) seen := seen ++ [number]
  mergeUDDSketch seen other := seen ++ other
  quantileUDDSketch _ seen := seen.head?

theorem rational_ordered : ExactOrder rationalExact := by
  intro (first : ℚ) (second : ℚ)
  exact decide_eq_true_iff

def noParams : SketchParams := ⟨none,none,none,none⟩

def valueUpdate (nowMs : Int64) (value : Value) : LifetimeUpdate :=
  .update ⟨[("value",value)]⟩ nowMs (some "value") true

def sampleOp (kind : AggKind) (values : List (Int64 × Value)) :
    WindowedOp (rationalKernel.withSketches sampleParts) :=
  values.foldl
    (fun op value => op.update ⟨[("value",value.2)]⟩ value.1 (some "value") true)
    (.newWithParams kind 64 noParams)

/-- Three numbers agree however they are spread, and two different flags do not. -/
theorem query_agrees_iff_numbers :
    AlwaysAgrees (rationalKernel.withSketches sampleParts) .percentile noParams
        [valueUpdate 0 (.i64 5),valueUpdate 1 (.i64 1),valueUpdate 1 (.i64 3)] 10 ∧
      ¬ AlwaysAgrees (rationalKernel.withSketches sampleParts) .min noParams
        [valueUpdate 0 (.bool true),valueUpdate 1 (.bool false)] 10 := by
  constructor
  · refine (query_agrees_iff rational_ordered ?_).mpr trivial
    show List.length _ ≤ 256
    decide
  · have sameVariant : InLimits (rationalKernel.withSketches sampleParts) .min
        [valueUpdate 0 (.bool true),valueUpdate 1 (.bool false)] := by
      show SameVariant [.bool true,.bool false]
      simp only [SameVariant,List.forall_mem_cons]
      simp [Value.ctorIdx]
    intro always
    have comparable := (query_agrees_iff rational_ordered sameVariant).mp always
    rcases comparable (.bool true) List.mem_cons_self (.bool false)
      (List.mem_cons_of_mem _ List.mem_cons_self) with less | greater | same | equal
    · cases less
    · cases greater
    · cases same
    · obtain ⟨_,_,isOne,_⟩ := equal
      cases isOne

/-- Flags are never less than one another, and the first of each bucket stays; and
after a category with the name that stands for the others, a histogram takes in no
new one, while two histograms that merge keep theirs. -/
theorem flags_disagree :
    HoldsGroups (sampleOp .min [(0,.bool true),(1,.bool false)]) .min noParams 10
        [[valueUpdate 0 (.bool true)],[valueUpdate 1 (.bool false)]] ∧
      [[valueUpdate 0 (.bool true)],[valueUpdate 1 (.bool false)]].flatten.Perm
        [valueUpdate 1 (.bool false),valueUpdate 0 (.bool true)] ∧
      fieldValues [valueUpdate 1 (.bool false),valueUpdate 0 (.bool true)] =
        [.bool false,.bool true] ∧
      ¬ AgreeFor .min ((sampleOp .min [(0,.bool true),(1,.bool false)]).query 10)
        (((LifetimeOp.newLifetime .min noParams :
          LifetimeOp (rationalKernel.withSketches sampleParts)).after
            [valueUpdate 1 (.bool false),valueUpdate 0 (.bool true)]).query 10) ∧
      (((EntropyHistogram.new 1024).insert "__beava_other__").merge
        ((EntropyHistogram.new 1024).insert "x")).counts["x"]? = some 1 ∧
      (((EntropyHistogram.new 1024).insert "__beava_other__").insert "x").counts["x"]? = none := by
  refine ⟨⟨rfl,rfl⟩,List.Perm.swap _ _ _,rfl,?_,by decide,by decide⟩
  intro agrees
  rcases agrees with same | ⟨one,other,isOne,_⟩
  · cases same
  · cases isOne

end Beava.Agg
