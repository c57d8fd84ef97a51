/-
The decayed sum and the decayed count.

A running total fades by the time between two events when the later one comes.
The total is the sum that is asked for as of the last event; a query does not fade
it any further.
-/

import Beava.Agg.Exact
import Beava.Agg.Readings
import Beava.Agg.WindowBound
import Beava.Core.ExprPanic
import Beava.Lib.Decay

namespace Beava.Agg

open Beava.Core Beava.Apply

variable {kernel : Kernel} {K : Type} [Field K] {exact : Exact kernel K} {halfLifeMs : Nat}
  {weight : Nat → K}

structure Weighs (exact : Exact kernel K) (halfLifeMs : Nat) (weight : Nat → K) : Prop
    extends Decay.Weight weight where
  factor : ∀ age : Nat,
    exact.value
      (kernel.exp (-(kernel.ofInt age) * (ln2 kernel / kernel.ofInt halfLifeMs))) = weight age

/-- The two operators, of which one counts each event as one. -/
inductive Decayed where
  | sum
  | count

namespace Decayed

def new (kernel : Kernel) (halfLifeMs : Nat) : Decayed → LifetimeOp kernel
  | sum => .decayedSum .default halfLifeMs
  | count => .decayedCount .default halfLifeMs

def reading (kernel : Kernel) : Decayed → LifetimeUpdate → Option (Int64 × kernel.Num)
  | sum => LifetimeUpdate.timedReading numeric
  | count => LifetimeUpdate.ifMatched fun update => some (update.nowMs,kernel.one)

/-- The events that the operator takes in: their times and what they add. -/
def readings (kernel : Kernel) (decayed : Decayed) (updates : List LifetimeUpdate) :
    List (Int64 × kernel.Num) :=
  updates.filterMap (decayed.reading kernel)

/-- The operator around the running total; both have the same fields. -/
def wrap (halfLifeMs : Nat) : Decayed → DecayedSumState kernel → LifetimeOp kernel
  | sum, state => .decayedSum state halfLifeMs
  | count, state => .decayedCount ⟨state.total,state.lastNowMs,state.initialized⟩ halfLifeMs

def take (halfLifeMs : Nat) (seen : Int64 × kernel.Num) (state : DecayedSumState kernel) :
    DecayedSumState kernel :=
  state.add seen.1 halfLifeMs seen.2

theorem after_eq (kernel : Kernel) (halfLifeMs : Nat) (decayed : Decayed)
    (updates : List LifetimeUpdate) :
    (decayed.new kernel halfLifeMs).after updates =
      decayed.wrap halfLifeMs ((decayed.readings kernel updates).foldl
        (fun state seen => take halfLifeMs seen state) .default) := by
  have step : ∀ update (state : DecayedSumState kernel),
      LifetimeUpdate.apply (decayed.wrap halfLifeMs state) update =
        decayed.wrap halfLifeMs
          (feed (take halfLifeMs) (decayed.reading kernel update) state) := by
    intro update state
    have bySum : ∀ (row : Row) (nowMs : Int64) (field : Option String) (whereMatched : Bool),
        (DecayedSumState.update row nowMs field whereMatched halfLifeMs state) =
          feed (take halfLifeMs)
            (if whereMatched then
              ((field.bind row.get).bind numeric).map fun seen => (nowMs,seen)
            else none) state := by
      intro row nowMs field whereMatched
      rw [DecayedSumState.update,updateField_eq_feed]
      cases whereMatched with
      | false => rfl
      | true => cases read : (field.bind row.get).bind (@numeric kernel) with
        | none => simp only [if_true,Option.map_none,feed]
        | some seen => simp only [if_true,Option.map_some,feed,take]
    have byCount : ∀ (nowMs : Int64) (whereMatched : Bool),
        LifetimeOp.decayedCount (DecayedCountState.update nowMs whereMatched halfLifeMs
            ⟨state.total,state.lastNowMs,state.initialized⟩) halfLifeMs =
          count.wrap halfLifeMs
            (feed (take halfLifeMs) (if whereMatched then some (nowMs,kernel.one) else none)
              state) := by
      intro nowMs whereMatched
      obtain ⟨total,lastNowMs,initialized⟩ := state
      cases whereMatched <;> cases initialized <;> rfl
    cases decayed with
    | sum => cases update with
      | update => exact congrArg (LifetimeOp.decayedSum · halfLifeMs) (bySum ..)
      | updateWithExtracted => exact congrArg (LifetimeOp.decayedSum · halfLifeMs) (bySum ..)
    | count => cases update with
      | update => exact byCount ..
      | updateWithExtracted => exact byCount ..
  have start : decayed.new kernel halfLifeMs = decayed.wrap halfLifeMs .default := by
    cases decayed <;> rfl
  rw [start]
  exact after_eq_foldl (fun _ => True) (fun update state _ => step update state)
    (fun _ _ _ => trivial) updates trivial

end Decayed

theorem decayFactor_eq (weighs : Weighs exact halfLifeMs weight) (positive : 0 < halfLifeMs)
    {earlier later : Int64} (sinceEpoch : 0 ≤ earlier) (ordered : earlier ≤ later) :
    exact.value (decayFactor kernel later earlier halfLifeMs) =
      weight (later.toInt - earlier.toInt).toNat := by
  rw [Int64.le_iff_toInt_le,Int64.toInt_zero] at sinceEpoch
  rw [Int64.le_iff_toInt_le] at ordered
  have below := Int64.toInt_lt later
  have age : (saturatingSub later earlier).toInt = later.toInt - earlier.toInt := by
    rw [saturatingSub,saturate_of_fits (by omega) (by omega),
      Int64.toInt_ofInt_of_le (by omega) (by omega)]
  have counted : max (later.toInt - earlier.toInt) 0 =
      ((later.toInt - earlier.toInt).toNat : Int) := by
    omega
  rw [decayFactor,if_neg (Nat.pos_iff_ne_zero.mp positive),age,counted]
  exact weighs.factor _

/-- The items of the sum: times and numbers. -/
def itemsOf (exact : Exact kernel K) (readings : List (Int64 × kernel.Num)) : List (Int × K) :=
  readings.map fun seen => (seen.1.toInt,exact.value seen.2)

def agedSum (exact : Exact kernel K) (weight : Nat → K) (readings : List (Int64 × kernel.Num))
    (timeMs : Int64) : K :=
  Decay.sumAt weight timeMs.toInt (itemsOf exact readings)

structure Totals (exact : Exact kernel K) (weight : Nat → K) (readings : List (Int64 × kernel.Num))
    (lastMs : Int64) (state : DecayedSumState kernel) : Prop where
  initialized : state.initialized = true
  last : state.lastNowMs = lastMs
  total : exact.value state.total = agedSum exact weight readings lastMs

variable {readings : List (Int64 × kernel.Num)} {lastMs nowMs : Int64} {number : kernel.Num}
  {state : DecayedSumState kernel}

theorem itemsOf_before (notAfter : ∀ seen ∈ readings, seen.1 ≤ lastMs) :
    ∀ item ∈ itemsOf exact readings, item.1 ≤ lastMs.toInt := by
  intro item member
  obtain ⟨seen,isReading,rfl⟩ := List.mem_map.mp member
  exact Int64.le_iff_toInt_le.mp (notAfter seen isReading)

theorem Totals.take (totals : Totals exact weight readings lastMs state)
    (weighs : Weighs exact halfLifeMs weight) (positive : 0 < halfLifeMs) (sinceEpoch : 0 ≤ lastMs)
    (notAfter : ∀ seen ∈ readings, seen.1 ≤ lastMs) (ordered : lastMs ≤ nowMs)
    (number : kernel.Num) :
    Totals exact weight (readings ++ [(nowMs,number)]) nowMs
      (Decayed.take halfLifeMs (nowMs,number) state) := by
  have taken : Decayed.take halfLifeMs (nowMs,number) state =
      { state with
        total := state.total * decayFactor kernel nowMs state.lastNowMs halfLifeMs + number
        lastNowMs := laterMs nowMs state.lastNowMs } := by
    rw [Decayed.take,DecayedSumState.add,if_pos totals.initialized]
  have later : laterMs nowMs lastMs = nowMs := by
    unfold laterMs
    split
    · rfl
    · rename_i notLater
      rw [Int64.le_iff_toInt_le] at ordered
      rw [Int64.lt_iff_toInt_lt] at notLater
      exact Int64.toInt_inj.mp (by omega)
  have items : itemsOf exact (readings ++ [(nowMs,number)]) =
      itemsOf exact readings ++ [(nowMs.toInt,exact.value number)] := by
    rw [itemsOf,List.map_append]
    rfl
  rw [taken,totals.last,later]
  constructor
  · exact totals.initialized
  · rfl
  · show exact.value (state.total * decayFactor kernel nowMs lastMs halfLifeMs + number) = _
    rw [exact.add,exact.mul,totals.total,decayFactor_eq weighs positive sinceEpoch ordered,
      agedSum,agedSum,items,Decay.sumAt_concat weighs.toWeight,
      Decay.sumAt_later weighs.toWeight (itemsOf_before notAfter)
        (Int64.le_iff_toInt_le.mp ordered)]

theorem totals_first (weighs : Weighs exact halfLifeMs weight) (nowMs : Int64)
    (number : kernel.Num) :
    Totals exact weight [(nowMs,number)] nowMs
      (Decayed.take halfLifeMs (nowMs,number) .default) where
  initialized := rfl
  last := rfl
  total := by
    have alone := Decay.sumAt_concat weighs.toWeight [] nowMs.toInt (exact.value number)
    rw [List.nil_append] at alone
    show exact.value number = Decay.sumAt weight nowMs.toInt [(nowMs.toInt,exact.value number)]
    rw [alone,Decay.sumAt,List.map_nil,List.sum_nil,zero_add]

theorem notAfter_of_getLast (ascending : (readings.map Prod.fst).Pairwise (· ≤ ·))
    (isLast : (readings.map Prod.fst).getLast? = some lastMs) :
    ∀ seen ∈ readings, seen.1 ≤ lastMs := by
  intro seen isReading
  obtain ⟨front,whole⟩ := List.getLast?_eq_some_iff.mp isLast
  have seenTime : seen.1 ∈ front ++ [lastMs] := by
    rw [← whole]
    exact List.mem_map_of_mem isReading
  rcases List.mem_append.mp seenTime with inFront | isEarlier
  · rw [whole] at ascending
    exact (List.pairwise_append.mp ascending).2.2 _ inFront _ List.mem_cons_self
  · rw [List.mem_singleton.mp isEarlier]

theorem totals_foldl (weighs : Weighs exact halfLifeMs weight) (positive : 0 < halfLifeMs)
    (readings : List (Int64 × kernel.Num)) (arrives : Arrives (readings.map Prod.fst))
    (isLast : (readings.map Prod.fst).getLast? = some lastMs) :
    Totals exact weight readings lastMs
      (readings.foldl (fun state seen => Decayed.take halfLifeMs seen state) .default) := by
  induction readings using List.reverseRecOn generalizing lastMs with
  | nil => cases isLast
  | append_singleton readings reading ih =>
      obtain ⟨nowMs,number⟩ := reading
      rw [List.map_append,List.map_singleton] at arrives isLast
      rw [List.getLast?_concat,Option.some.injEq] at isLast
      subst isLast
      rw [List.foldl_concat]
      have ascending := List.pairwise_append.mp arrives.ascending
      cases before : (readings.map Prod.fst).getLast? with
      | none =>
          rw [List.getLast?_eq_none_iff,List.map_eq_nil_iff] at before
          subst before
          exact totals_first weighs nowMs number
      | some earlierMs =>
          have member : earlierMs ∈ readings.map Prod.fst := List.mem_of_getLast? before
          have totals := ih
            ⟨ascending.1,fun time isTime => arrives.sinceEpoch time (List.mem_append_left _ isTime)⟩
            before
          exact totals.take weighs positive
            (arrives.sinceEpoch earlierMs (List.mem_append_left _ member))
            (notAfter_of_getLast ascending.1 before)
            (ascending.2.2 earlierMs member nowMs List.mem_cons_self) number

/-- What is reported, before it is written in the binary format. -/
def LifetimeOp.decayedTotal : LifetimeOp kernel → Option kernel.Num
  | .decayedSum state _ => if state.initialized then some state.total else none
  | .decayedCount state _ => if state.initialized then some state.total else none
  | _ => none

structure ReportsAgedSum (exact : Exact kernel K) (weight : Nat → K)
    (readings : List (Int64 × kernel.Num)) (queryTimeMs : Int64) (op : LifetimeOp kernel) :
    Prop where
  reported : op.query queryTimeMs = (op.decayedTotal.map kernel.report).getD .null
  total : op.decayedTotal.map exact.value = some (agedSum exact weight readings queryTimeMs)

theorem Decayed.query_wrap (decayed : Decayed) (state : DecayedSumState kernel)
    (queryTimeMs : Int64) :
    (decayed.wrap halfLifeMs state).query queryTimeMs =
      ((decayed.wrap halfLifeMs state).decayedTotal.map kernel.report).getD .null := by
  obtain ⟨total,lastNowMs,initialized⟩ := state
  cases decayed <;> cases initialized <;> rfl

theorem Decayed.decayedTotal_wrap (decayed : Decayed) (state : DecayedSumState kernel)
    (initialized : state.initialized = true) :
    (decayed.wrap halfLifeMs state).decayedTotal = some state.total := by
  cases decayed with
  | sum => exact if_pos initialized
  | count => exact if_pos initialized

/-- The total is that of the query when the last event has not faded by then, or
when there was nothing left to fade. -/
theorem reportsAgedSum_iff (weighs : Weighs exact halfLifeMs weight) (positive : 0 < halfLifeMs)
    (decayed : Decayed) (updates : List LifetimeUpdate)
    (arrives : Arrives ((decayed.readings kernel updates).map Prod.fst))
    (isLast : ((decayed.readings kernel updates).map Prod.fst).getLast? = some lastMs)
    {queryTimeMs : Int64} (notBefore : lastMs ≤ queryTimeMs) :
    ReportsAgedSum exact weight (decayed.readings kernel updates) queryTimeMs
        ((decayed.new kernel halfLifeMs).after updates) ↔
      weight (queryTimeMs.toInt - lastMs.toInt).toNat = 1 ∨
        agedSum exact weight (decayed.readings kernel updates) lastMs = 0 := by
  have totals := totals_foldl weighs positive _ arrives isLast
  have faded : agedSum exact weight (decayed.readings kernel updates) queryTimeMs =
      agedSum exact weight (decayed.readings kernel updates) lastMs *
        weight (queryTimeMs.toInt - lastMs.toInt).toNat :=
    Decay.sumAt_later weighs.toWeight
      (itemsOf_before (notAfter_of_getLast arrives.ascending isLast))
      (Int64.le_iff_toInt_le.mp notBefore)
  rw [Decayed.after_eq]
  have same : ((decayed.wrap halfLifeMs ((decayed.readings kernel updates).foldl
      (fun state seen => Decayed.take halfLifeMs seen state) .default)).decayedTotal.map
        exact.value = some (agedSum exact weight (decayed.readings kernel updates) queryTimeMs)) ↔
      weight (queryTimeMs.toInt - lastMs.toInt).toNat = 1 ∨
        agedSum exact weight (decayed.readings kernel updates) lastMs = 0 := by
    rw [decayed.decayedTotal_wrap _ totals.initialized,Option.map_some,Option.some.injEq,
      totals.total,faded,eq_comm,mul_right_eq_self₀]
  constructor
  · intro reports
    exact same.mp reports.total
  · intro condition
    exact ⟨decayed.query_wrap _ queryTimeMs,same.mpr condition⟩

def halves (age : Nat) : ℚ := (1 / 2) ^ age

theorem halves_weighs : Weighs rationalExact 1 halves where
  zero := pow_zero _
  add first second := pow_add _ first second
  factor age := by
    let unit : ℚ := F64.rational ⟨0x3FE62E42FEFA39EF⟩
    have nonzero : unit ≠ 0 := ne_of_gt (F64.rational_pos (by decide))
    have exponent : -(((age : Int) : ℚ)) * (unit / (((1 : Nat) : Int) : ℚ)) / unit =
        ((-(age : Int) : Int) : ℚ) := by
      rw [Nat.cast_one,Int.cast_one,div_one,mul_div_assoc,div_self nonzero,mul_one,
        Int.cast_neg]
    show (2 : ℚ) ^ (-(((age : Int) : ℚ)) * (unit / (((1 : Nat) : Int) : ℚ)) / unit).floor =
      (1 / 2) ^ age
    rw [exponent,Rat.floor_intCast,zpow_neg,zpow_natCast,one_div,inv_pow]

def sampleEvent : List LifetimeUpdate :=
  [.update ⟨[("amount",.i64 1)]⟩ 0 (some "amount") true]

theorem reportsAgedSum_sampleEvent :
    ReportsAgedSum rationalExact halves (Decayed.sum.readings rationalKernel sampleEvent) 0
        ((Decayed.sum.new rationalKernel 1).after sampleEvent) ↔
      halves 0 = 1 ∨
        agedSum rationalExact halves (Decayed.sum.readings rationalKernel sampleEvent) 0 = 0 :=
  reportsAgedSum_iff halves_weighs (by decide) .sum sampleEvent
    ⟨List.pairwise_singleton _ _,List.forall_mem_singleton.mpr (by decide)⟩ rfl (by decide)

theorem sampleEvent_notFaded :
    ¬ReportsAgedSum rationalExact halves (Decayed.sum.readings rationalKernel sampleEvent) 1
        ((Decayed.sum.new rationalKernel 1).after sampleEvent) := by
  intro reports
  have items : itemsOf rationalExact (Decayed.sum.readings rationalKernel sampleEvent) =
      [(0,1)] := rfl
  have asked : agedSum rationalExact halves (Decayed.sum.readings rationalKernel sampleEvent) 1 =
      1 / 2 := by
    rw [agedSum,items,Decay.sumAt,List.map_singleton,List.sum_singleton,one_mul]
    exact pow_one _
  have given : (((Decayed.sum.new rationalKernel 1).after sampleEvent).decayedTotal.map
      rationalExact.value) = some 1 := rfl
  have same := given.symm.trans reports.total
  rw [asked,Option.some.injEq] at same
  norm_num at same

end Beava.Agg
