/-
The operator of a feature without a window.

One variant per kind.  The two entry points of the apply path, by the row and by
the extracted fields, each have one arm per variant.
-/

import Beava.Agg.Buffer
import Beava.Agg.Series

namespace Beava.Agg

open Beava.Core Beava.Apply

inductive LifetimeOp (kernel : Kernel) where
  | count (state : CountState)
  | sum (state : SumState kernel)
  | avg (state : AvgState kernel)
  | min (state : MinState)
  | max (state : MaxState)
  | variance (state : VarianceState kernel)
  | stdDev (state : VarianceState kernel)
  | ratio (state : RatioState)
  | countDistinct (state : CountDistinctStateWrap kernel)
  | percentile (state : PercentileStateWrap kernel)
  | topK (state : TopKStateWrap kernel)
  | bloomMember (state : BloomMemberStateWrap kernel)
  | entropy (state : EntropyStateWrap)
  | first (state : FirstState)
  | last (state : LastState)
  | firstN (state : FirstNState)
  | lastN (state : LastNState)
  | lag (state : LagState)
  | firstSeen (state : SeenState)
  | lastSeen (state : SeenState)
  | age (state : SeenState)
  | hasSeen (state : SeenState)
  | timeSince (state : SeenState)
  | timeSinceLastN (state : TimeSinceLastNState)
  | streak (state : StreakState)
  | maxStreak (state : StreakState)
  | negativeStreak (state : NegativeStreakState)
  | firstSeenInWindow (state : FirstSeenInWindowState)
  | ewma (state : EwmaState kernel) (halfLifeMs : Nat)
  | ewVar (state : EwVarState kernel) (halfLifeMs : Nat)
  | ewZScore (state : EwZScoreState kernel) (halfLifeMs : Nat)
  | decayedSum (state : DecayedSumState kernel) (halfLifeMs : Nat)
  | decayedCount (state : DecayedCountState kernel) (halfLifeMs : Nat)
  | twa (state : TwaState kernel)
  | rateOfChange (state : RateOfChangeState kernel)
  | interArrivalStats (state : InterArrivalStatsState kernel)
  | burstCount (state : BurstCountState) (subWindowMs : Nat)
  | deltaFromPrev (state : DeltaFromPrevState kernel)
  | trend (state : TrendState kernel)
  | trendResidual (state : TrendResidualState kernel)
  | outlierCount (state : OutlierCountState kernel) (sigma : kernel.Num)
  | valueChangeCount (state : ValueChangeCountState)
  | zScore (state : ZScoreState kernel)
  | histogram (state : HistogramState kernel)
  | hourOfDayHistogram (state : HourOfDayHistogramState)
  | dowHourHistogram (state : DowHourHistogramState)
  | seasonalDeviation (state : SeasonalDeviationState kernel)
  | eventTypeMix (state : EventTypeMixState)
  | mostRecentN (state : MostRecentNState)
  | reservoirSample (state : ReservoirSampleState)
  | geoVelocity (state : GeoVelocityState kernel)
  | geoDistance (state : GeoDistanceState kernel)
  | geoSpread (state : GeoSpreadState kernel)
  | distanceFromHome (state : DistanceFromHomeState kernel)

namespace LifetimeOp

variable {kernel : Kernel} {Expr : Type}

def newPercentile (params : SketchParams) : PercentileStateWrap kernel :=
  { PercentileStateWrap.default with
    q := (params.percentileQ.map kernel.ofF64).getD PercentileStateWrap.default.q }

def newTopK (params : SketchParams) : TopKStateWrap kernel :=
  ⟨kernel.newTopK (Nat.max (params.topKK.getD 10) 1)⟩

def newBloomMember (params : SketchParams) : BloomMemberStateWrap kernel :=
  .withParams (params.bloomCapacity.getD 1024) (params.bloomFpr.getD ⟨0x3F847AE147AE147B⟩)

def newLifetimeFull (descriptor : AggOpDescriptor Expr) : LifetimeOp kernel :=
  let params := descriptor.sketchParams.getD ⟨none,none,none,none⟩
  let halfLifeMs := descriptor.halfLifeMs.getD 1
  let n := descriptor.n.getD 1
  match descriptor.kind with
  | .count => .count .default
  | .sum => .sum .default
  | .avg => .avg .default
  | .min => .min .default
  | .max => .max .default
  | .variance => .variance .default
  | .stdDev => .stdDev .default
  | .ratio => .ratio .default
  | .countDistinct => .countDistinct .default
  | .percentile => .percentile (newPercentile params)
  | .topK => .topK (newTopK params)
  | .bloomMember => .bloomMember (newBloomMember params)
  | .entropy => .entropy .default
  | .first => .first .default
  | .last => .last .default
  | .firstN => .firstN (.new n)
  | .lastN => .lastN (.new n)
  | .lag => .lag (.new n)
  | .firstSeen => .firstSeen .default
  | .lastSeen => .lastSeen .default
  | .age => .age .default
  | .hasSeen => .hasSeen .default
  | .timeSince => .timeSince .default
  | .timeSinceLastN => .timeSinceLastN (.new n)
  | .streak => .streak .default
  | .maxStreak => .maxStreak .default
  | .negativeStreak => .negativeStreak .default
  | .firstSeenInWindow => .firstSeenInWindow (.new (descriptor.windowMs.getD 0))
  | .ewma => .ewma .default halfLifeMs
  | .ewVar => .ewVar .default halfLifeMs
  | .ewZScore => .ewZScore .default halfLifeMs
  | .decayedSum => .decayedSum .default halfLifeMs
  | .decayedCount => .decayedCount .default halfLifeMs
  | .twa => .twa .default
  | .rateOfChange => .rateOfChange .default
  | .interArrivalStats => .interArrivalStats .default
  | .burstCount => .burstCount .default (descriptor.subWindowMs.getD 1)
  | .deltaFromPrev => .deltaFromPrev .default
  | .trend => .trend .default
  | .trendResidual => .trendResidual .default
  | .outlierCount =>
      .outlierCount .default (kernel.ofF64 (descriptor.sigma.getD ⟨0x4008000000000000⟩))
  | .valueChangeCount => .valueChangeCount .default
  | .zScore => .zScore .default
  | .histogram => .histogram (.new ((descriptor.ext.buckets.getD []).map kernel.ofF64))
  | .hourOfDayHistogram => .hourOfDayHistogram .default
  | .dowHourHistogram => .dowHourHistogram .default
  | .seasonalDeviation => .seasonalDeviation .default
  | .eventTypeMix => .eventTypeMix
      (.new (descriptor.ext.maxCategories.getD 256) descriptor.ext.categories)
  | .mostRecentN => .mostRecentN (.new (descriptor.ext.n.getD 10))
  | .reservoirSample => .reservoirSample
      (.new ((descriptor.ext.samples.or descriptor.ext.k).getD 10))
  | .geoVelocity => .geoVelocity (.withFields (latName descriptor) (lonName descriptor))
  | .geoDistance => .geoDistance (.withFields (latName descriptor) (lonName descriptor))
  | .geoSpread => .geoSpread (.withFields (latName descriptor) (lonName descriptor))
  | .distanceFromHome => .distanceFromHome
      (.withFields (latName descriptor) (lonName descriptor) (descriptor.ext.samples.getD 100))

def blankDescriptor (kind : AggKind) : AggOpDescriptor Empty :=
  { kind := kind
    field := none
    windowMs := none
    whereExpr := none
    n := none
    halfLifeMs := none
    subWindowMs := none
    sigma := none
    sketchParams := none
    ext := ⟨none,none,none,none,none,none,none,none,none,fieldIdxNone,fieldIdxNone⟩
    fieldIdx := fieldIdxNone
    fieldIdxIntoEventExtracted := [] }

/-- `new_lifetime`: a bucket of a window, from the kind and the parameters of its
sketch. -/
def newLifetime (kind : AggKind) (params : SketchParams) : LifetimeOp kernel :=
  newLifetimeFull { blankDescriptor kind with sketchParams := some params }

def update (row : Row) (nowMs : Int64) (field : Option String) (whereMatched : Bool) :
    LifetimeOp kernel → LifetimeOp kernel
  | .count state => .count (state.update whereMatched)
  | .sum state => .sum (state.update row field whereMatched)
  | .avg state => .avg (state.update row field whereMatched)
  | .min state => .min (state.update row field whereMatched)
  | .max state => .max (state.update row field whereMatched)
  | .variance state => .variance (state.update row field whereMatched)
  | .stdDev state => .stdDev (state.update row field whereMatched)
  | .ratio state => .ratio (state.update whereMatched)
  | .countDistinct state => .countDistinct (state.update row field whereMatched)
  | .percentile state => .percentile (state.update row field whereMatched)
  | .topK state => .topK (state.update row field whereMatched)
  | .bloomMember state => .bloomMember (state.update row field whereMatched)
  | .entropy state => .entropy (state.update kernel row field whereMatched)
  | .first state => .first (state.update row field whereMatched)
  | .last state => .last (state.update row field whereMatched)
  | .firstN state => .firstN (state.update row field whereMatched)
  | .lastN state => .lastN (state.update row field whereMatched)
  | .lag state => .lag (state.update row field whereMatched)
  | .firstSeen state => .firstSeen (state.update nowMs whereMatched)
  | .lastSeen state => .lastSeen (state.update nowMs whereMatched)
  | .age state => .age (state.update nowMs whereMatched)
  | .hasSeen state => .hasSeen (state.update nowMs whereMatched)
  | .timeSince state => .timeSince (state.update nowMs whereMatched)
  | .timeSinceLastN state => .timeSinceLastN (state.update nowMs whereMatched)
  | .streak state => .streak (state.update whereMatched)
  | .maxStreak state => .maxStreak (state.update whereMatched)
  | .negativeStreak state => .negativeStreak (state.update whereMatched)
  | .firstSeenInWindow state => .firstSeenInWindow (state.update nowMs whereMatched)
  | .ewma state halfLifeMs =>
      .ewma (state.update row nowMs field whereMatched halfLifeMs) halfLifeMs
  | .ewVar state halfLifeMs =>
      .ewVar (state.update row nowMs field whereMatched halfLifeMs) halfLifeMs
  | .ewZScore state halfLifeMs =>
      .ewZScore (state.update row nowMs field whereMatched halfLifeMs) halfLifeMs
  | .decayedSum state halfLifeMs =>
      .decayedSum (state.update row nowMs field whereMatched halfLifeMs) halfLifeMs
  | .decayedCount state halfLifeMs =>
      .decayedCount (state.update nowMs whereMatched halfLifeMs) halfLifeMs
  | .twa state => .twa (state.update row nowMs field whereMatched)
  | .rateOfChange state => .rateOfChange (state.update row nowMs field whereMatched)
  | .interArrivalStats state => .interArrivalStats (state.update nowMs whereMatched)
  | .burstCount state subWindowMs =>
      .burstCount (state.update nowMs whereMatched subWindowMs) subWindowMs
  | .deltaFromPrev state => .deltaFromPrev (state.update row field whereMatched)
  | .trend state => .trend (state.update row nowMs field whereMatched)
  | .trendResidual state => .trendResidual (state.update row nowMs field whereMatched)
  | .outlierCount state sigma => .outlierCount (state.update row field whereMatched sigma) sigma
  | .valueChangeCount state => .valueChangeCount (state.update row field whereMatched)
  | .zScore state => .zScore (state.update row field whereMatched)
  | .histogram state => .histogram (state.update row field whereMatched)
  | .hourOfDayHistogram state => .hourOfDayHistogram (state.update nowMs whereMatched)
  | .dowHourHistogram state => .dowHourHistogram (state.update nowMs whereMatched)
  | .seasonalDeviation state => .seasonalDeviation (state.update row nowMs field whereMatched)
  | .eventTypeMix state => .eventTypeMix (state.update row field whereMatched)
  | .mostRecentN state => .mostRecentN (state.update row field whereMatched)
  | .reservoirSample state => .reservoirSample (state.update row field whereMatched)
  | .geoVelocity state => .geoVelocity (state.update row nowMs whereMatched)
  | .geoDistance state => .geoDistance (state.update row whereMatched)
  | .geoSpread state => .geoSpread (state.update row whereMatched)
  | .distanceFromHome state => .distanceFromHome (state.update row whereMatched)

/-- `update_with_extracted_no_where`; the position of the field is resolved by the
caller. -/
def updateWithExtractedNoWhere (preVal : Option Value) (nowMs : Int64) (row : Row)
    (field : Option String) (extracted : ExtractedFields) (latIdx lonIdx : UInt8)
    (whereMatched : Bool) : LifetimeOp kernel → LifetimeOp kernel
  | .count state => .count (state.update whereMatched)
  | .sum state => .sum (state.updatePre preVal whereMatched)
  | .avg state => .avg (state.updatePre preVal whereMatched)
  | .min state => .min (state.updatePre preVal whereMatched)
  | .max state => .max (state.updatePre preVal whereMatched)
  | .variance state => .variance (state.updatePre preVal whereMatched)
  | .stdDev state => .stdDev (state.updatePre preVal whereMatched)
  | .ratio state => .ratio (state.update whereMatched)
  | .countDistinct state => .countDistinct (state.updatePre preVal whereMatched)
  | .percentile state => .percentile (state.updatePre preVal whereMatched)
  | .topK state => .topK (state.updatePre preVal whereMatched)
  | .bloomMember state => .bloomMember (state.updatePre preVal whereMatched)
  | .entropy state => .entropy (state.updatePre kernel preVal whereMatched)
  | .first state => .first (state.updatePre preVal whereMatched)
  | .last state => .last (state.updatePre preVal whereMatched)
  | .firstN state => .firstN (state.updatePre preVal whereMatched)
  | .lastN state => .lastN (state.updatePre preVal whereMatched)
  | .lag state => .lag (state.updatePre preVal whereMatched)
  | .firstSeen state => .firstSeen (state.update nowMs whereMatched)
  | .lastSeen state => .lastSeen (state.update nowMs whereMatched)
  | .age state => .age (state.update nowMs whereMatched)
  | .hasSeen state => .hasSeen (state.update nowMs whereMatched)
  | .timeSince state => .timeSince (state.update nowMs whereMatched)
  | .timeSinceLastN state => .timeSinceLastN (state.update nowMs whereMatched)
  | .streak state => .streak (state.update whereMatched)
  | .maxStreak state => .maxStreak (state.update whereMatched)
  | .negativeStreak state => .negativeStreak (state.update whereMatched)
  | .firstSeenInWindow state => .firstSeenInWindow (state.update nowMs whereMatched)
  | .ewma state halfLifeMs =>
      .ewma (state.update row nowMs field whereMatched halfLifeMs) halfLifeMs
  | .ewVar state halfLifeMs =>
      .ewVar (state.update row nowMs field whereMatched halfLifeMs) halfLifeMs
  | .ewZScore state halfLifeMs =>
      .ewZScore (state.update row nowMs field whereMatched halfLifeMs) halfLifeMs
  | .decayedSum state halfLifeMs =>
      .decayedSum (state.update row nowMs field whereMatched halfLifeMs) halfLifeMs
  | .decayedCount state halfLifeMs =>
      .decayedCount (state.update nowMs whereMatched halfLifeMs) halfLifeMs
  | .twa state => .twa (state.update row nowMs field whereMatched)
  | .rateOfChange state => .rateOfChange (state.update row nowMs field whereMatched)
  | .interArrivalStats state => .interArrivalStats (state.update nowMs whereMatched)
  | .burstCount state subWindowMs =>
      .burstCount (state.update nowMs whereMatched subWindowMs) subWindowMs
  | .deltaFromPrev state => .deltaFromPrev (state.update row field whereMatched)
  | .trend state => .trend (state.update row nowMs field whereMatched)
  | .trendResidual state => .trendResidual (state.update row nowMs field whereMatched)
  | .outlierCount state sigma => .outlierCount (state.update row field whereMatched sigma) sigma
  | .valueChangeCount state => .valueChangeCount (state.update row field whereMatched)
  | .zScore state => .zScore (state.update row field whereMatched)
  | .histogram state => .histogram (state.update row field whereMatched)
  | .hourOfDayHistogram state => .hourOfDayHistogram (state.update nowMs whereMatched)
  | .dowHourHistogram state => .dowHourHistogram (state.update nowMs whereMatched)
  | .seasonalDeviation state => .seasonalDeviation (state.update row nowMs field whereMatched)
  | .eventTypeMix state => .eventTypeMix (state.updateAt preVal whereMatched)
  | .mostRecentN state => .mostRecentN (state.update row field whereMatched)
  | .reservoirSample state => .reservoirSample (state.update row field whereMatched)
  | .geoVelocity state =>
      .geoVelocity
        (if latIdx ≠ fieldIdxNone then
          state.updateAt extracted latIdx lonIdx nowMs whereMatched
        else state.update row nowMs whereMatched)
  | .geoDistance state =>
      .geoDistance
        (if latIdx ≠ fieldIdxNone then state.updateAt extracted latIdx lonIdx whereMatched
        else state.update row whereMatched)
  | .geoSpread state =>
      .geoSpread
        (if latIdx ≠ fieldIdxNone then state.updateAt extracted latIdx lonIdx whereMatched
        else state.update row whereMatched)
  | .distanceFromHome state =>
      .distanceFromHome
        (if latIdx ≠ fieldIdxNone then state.updateAt extracted latIdx lonIdx whereMatched
        else state.update row whereMatched)

def query (queryTimeMs : Int64) : LifetimeOp kernel → Value
  | .count state => state.query
  | .sum state => state.query
  | .avg state => state.query
  | .min state => state.query
  | .max state => state.query
  | .variance state => state.queryVariance
  | .stdDev state => state.queryStddev
  | .ratio state => state.query kernel
  | .countDistinct state => state.query
  | .percentile state => state.query
  | .topK state => state.query
  | .bloomMember state => state.query
  | .entropy state => state.query kernel
  | .first state => state.query
  | .last state => state.query
  | .firstN state => state.query
  | .lastN state => state.query
  | .lag state => state.query
  | .firstSeen state => state.queryFirstSeen
  | .lastSeen state => state.queryLastSeen
  | .age state => state.queryAge queryTimeMs
  | .hasSeen state => state.queryHasSeen
  | .timeSince state => state.queryTimeSince queryTimeMs
  | .timeSinceLastN state => state.query queryTimeMs
  | .streak state => state.queryCurrent
  | .maxStreak state => state.queryMax
  | .negativeStreak state => state.query
  | .firstSeenInWindow state => state.query queryTimeMs
  | .ewma state _ => state.query
  | .ewVar state _ => state.queryVariance
  | .ewZScore state _ => state.query
  | .decayedSum state _ => state.query
  | .decayedCount state _ => state.query
  | .twa state => state.query
  | .rateOfChange state => state.query
  | .interArrivalStats state => state.query
  | .burstCount state _ => state.query
  | .deltaFromPrev state => state.query
  | .trend state => state.query
  | .trendResidual state => state.query
  | .outlierCount state _ => state.query
  | .valueChangeCount state => state.query
  | .zScore state => state.query
  | .histogram state => state.query
  | .hourOfDayHistogram state => state.query
  | .dowHourHistogram state => state.query
  | .seasonalDeviation state => state.query
  | .eventTypeMix state => state.query kernel
  | .mostRecentN state => state.query
  | .reservoirSample state => state.query
  | .geoVelocity state => state.query
  | .geoDistance state => state.query
  | .geoSpread state => state.query
  | .distanceFromHome state => state.query

end LifetimeOp

end Beava.Agg
