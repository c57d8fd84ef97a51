/-
Aggregation features: their kinds, parameters and compiled descriptors.

A feature is registered as an operator name with JSON parameters.  The compiler
checks it against the schema the aggregation reads and produces the descriptor
the apply loop works with.  The positions of its fields in the pre-extracted row
are filled in later, when the descriptor is registered.
-/

import Beava.Core.OpChain
import Beava.Lib.Checked

namespace Beava.Core

inductive ErrorCode where
  | nameDuplicate
  | nameReservedPrefix
  | nameBadPattern
  | nameEmpty
  | nameTooLong
  | eventSchemaEmpty
  | tablePrimaryKeyEmpty
  | tablePrimaryKeyTooLong
  | tablePrimaryKeyUnknownField
  | derivationUpstreamUnknown
  | derivationSchemaEmpty
  | registrationCycle
  | topologicalOrderViolation
  | dedupeKeyUnknownField
  | dedupeWindowNonPositive
  | derivationOutputKindTableMissingPrimaryKey
  | invalidExpression
  | unknownFieldReference
  | schemaPropagationFailure
  | aggregationOnTableNotSupported
  | aggregationUnknownField
  | aggregationInvalidWhere
  | aggregationInvalidWindow
  | aggregationUnknownOp
  | aggregationGroupKeyCollidesWithFeature
  | aggregationFeatureNameCollisionAcrossAggregations
  | aggregationInvalidHalfLife
  | aggregationInvalidSubWindow
  | windowNotSupported
  | invalidPercentileQ
  | invalidTopKK
  | invalidBloomFpr
  deriving DecidableEq, Repr

structure ValidationError where
  code : ErrorCode
  path : String
  reason : String
  deriving DecidableEq, Repr

def stripSuffix (suffix text : List Char) : Option (List Char) :=
  if suffix.isSuffixOf text then some (text.take (text.length - suffix.length)) else none

def digitsToNat (digits : List Char) : Nat :=
  digits.foldl (fun value ch => value * 10 + (ch.toNat - '0'.toNat)) 0

def splitDuration (text : List Char) : Option (List Char × Nat) :=
  match stripSuffix ['m','s'] text with
  | some digits => some (digits,1)
  | none =>
  match stripSuffix ['d'] text with
  | some digits => some (digits,86400000)
  | none =>
  match stripSuffix ['h'] text with
  | some digits => some (digits,3600000)
  | none =>
  match stripSuffix ['m'] text with
  | some digits => some (digits,60000)
  | none =>
  match stripSuffix ['s'] text with
  | some digits => some (digits,1000)
  | none => none

/-- `parse_duration_to_ms`: `ok none` is "forever". -/
def parseDurationToMs (text : String) : Except Unit (Option Nat) :=
  if text = "forever" then .ok none
  else
    match splitDuration text.toList with
    | none => .error ()
    | some (digits,multiplier) =>
        if digits.isEmpty || !digits.all isAsciiDigit then .error ()
        else
          let count := digitsToNat digits
          if 2 ^ 64 ≤ count || count = 0 || 2 ^ 64 ≤ count * multiplier then .error ()
          else .ok (some (count * multiplier))

inductive AggKind where
  | count | sum | avg | min | max | variance | stdDev | ratio
  | first | last | firstN | lastN | lag
  | firstSeen | lastSeen | age | hasSeen | timeSince | timeSinceLastN
  | streak | maxStreak | negativeStreak
  | firstSeenInWindow
  | ewma | ewVar | ewZScore | decayedSum | decayedCount | twa
  | rateOfChange | interArrivalStats | burstCount | deltaFromPrev | trend | trendResidual
  | outlierCount | valueChangeCount
  | zScore
  | countDistinct | percentile | topK | bloomMember | entropy
  | histogram | hourOfDayHistogram | dowHourHistogram | seasonalDeviation | eventTypeMix
  | mostRecentN | reservoirSample
  | geoVelocity | geoDistance | geoSpread | distanceFromHome
  deriving DecidableEq, Repr

def parseAggKind (op : String) : Option AggKind :=
  [("count",AggKind.count),("sum",.sum),("mean",.avg),("min",.min),("max",.max),
   ("var",.variance),("std",.stdDev),("ratio",.ratio),
   ("first",.first),("last",.last),("first_n",.firstN),("last_n",.lastN),("lag",.lag),
   ("first_seen",.firstSeen),("last_seen",.lastSeen),("age",.age),("has_seen",.hasSeen),
   ("time_since",.timeSince),("time_since_last_n",.timeSinceLastN),
   ("streak",.streak),("max_streak",.maxStreak),("negative_streak",.negativeStreak),
   ("first_seen_in_window",.firstSeenInWindow),
   ("ewma",.ewma),("ema",.ewma),("ewvar",.ewVar),("ew_zscore",.ewZScore),
   ("decayed_sum",.decayedSum),("decayed_count",.decayedCount),("twa",.twa),
   ("rate_of_change",.rateOfChange),("inter_arrival_stats",.interArrivalStats),
   ("burst_count",.burstCount),("delta_from_prev",.deltaFromPrev),("trend",.trend),
   ("trend_residual",.trendResidual),("outlier_count",.outlierCount),
   ("value_change_count",.valueChangeCount),("z_score",.zScore),
   ("n_unique",.countDistinct),("quantile",.percentile),("top_k",.topK),
   ("bloom_member",.bloomMember),("entropy",.entropy),
   ("histogram",.histogram),("hour_of_day_histogram",.hourOfDayHistogram),
   ("dow_hour_histogram",.dowHourHistogram),("seasonal_deviation",.seasonalDeviation),
   ("event_type_mix",.eventTypeMix),("most_recent_n",.mostRecentN),
   ("reservoir_sample",.reservoirSample),
   ("geo_velocity",.geoVelocity),("geo_distance",.geoDistance),("geo_spread",.geoSpread),
   ("distance_from_home",.distanceFromHome)].lookup op

namespace AggKind

def requiresHalfLife (kind : AggKind) : Bool :=
  kind ∈ [.ewma,.ewVar,.ewZScore,.decayedSum,.decayedCount]

def requiresN (kind : AggKind) : Bool :=
  kind ∈ [.firstN,.lastN,.lag,.timeSinceLastN]

def requiresField (kind : AggKind) : Bool :=
  kind ∈ [.first,.last,.firstN,.lastN,.lag]

/-- The kinds whose field is checked against the schema when it is given. -/
def needsField (kind : AggKind) : Bool :=
  kind ∈ [.sum,.avg,.min,.max,.variance,.stdDev,.ewma,.ewVar,.ewZScore,.decayedSum,
    .twa,.rateOfChange,.deltaFromPrev,.trend,.trendResidual,.outlierCount,
    .valueChangeCount,.zScore,.countDistinct,.percentile,.topK,.bloomMember,.entropy] ||
  kind.requiresField

def rejectsWindow (kind : AggKind) : Bool :=
  kind ∈ [.first,.last,.firstN,.lastN,.lag,.firstSeen,.lastSeen,.age,.hasSeen,
    .timeSince,.timeSinceLastN,.streak,.maxStreak,.negativeStreak,.histogram,
    .hourOfDayHistogram,.dowHourHistogram,.seasonalDeviation,.eventTypeMix,.mostRecentN,
    .reservoirSample,.geoVelocity,.geoDistance,.geoSpread,.distanceFromHome]

/-- The name `{:?}` prints for the kinds that need a half-life. -/
def decayName : AggKind → String
  | .ewma => "Ewma"
  | .ewVar => "EwVar"
  | .ewZScore => "EwZScore"
  | .decayedSum => "DecayedSum"
  | _ => "DecayedCount"

end AggKind

structure SketchParams where
  percentileQ : Option F64
  topKK : Option Nat
  bloomCapacity : Option Nat
  bloomFpr : Option F64
  deriving DecidableEq, Repr

/-- `FIELD_IDX_NONE`: no field, or a field that was not resolved. -/
def fieldIdxNone : UInt8 := 255

structure AggExtParams where
  buckets : Option (List F64)
  n : Option Nat
  k : Option Nat
  precision : Option Nat
  latField : Option String
  lonField : Option String
  samples : Option Nat
  categories : Option (List String)
  maxCategories : Option Nat
  latIdx : UInt8
  lonIdx : UInt8
  deriving DecidableEq, Repr

structure AggOpDescriptor (Expr : Type) where
  kind : AggKind
  field : Option String
  windowMs : Option Nat
  whereExpr : Option Expr
  n : Option Nat
  halfLifeMs : Option Nat
  subWindowMs : Option Nat
  sigma : Option F64
  sketchParams : Option SketchParams
  ext : AggExtParams
  fieldIdx : UInt8
  fieldIdxIntoEventExtracted : List UInt8
  deriving DecidableEq

structure NamedAggOp (Expr : Type) where
  featureName : String
  descriptor : AggOpDescriptor Expr
  deriving DecidableEq

structure AggregationDescriptor (Expr : Type) where
  nodeName : String
  sourceNodeName : String
  groupKeys : List String
  features : List (NamedAggOp Expr)
  aggId : Nat
  fieldNames : List String
  clusterId : Nat
  deriving DecidableEq

variable {Expr : Type} (env : Env Expr)

/-- The descriptor as the client declared it.  Creating and updating a state
reads no resolved position from it. -/
def declared (descriptor : AggOpDescriptor Expr) : AggOpDescriptor Expr :=
  { descriptor with
    fieldIdx := fieldIdxNone
    fieldIdxIntoEventExtracted := []
    ext := { descriptor.ext with latIdx := fieldIdxNone, lonIdx := fieldIdxNone } }

def declaredFeature (feature : NamedAggOp Expr) : NamedAggOp Expr :=
  { feature with descriptor := declared feature.descriptor }

def aggCore (agg : AggregationDescriptor Expr) : AggregationDescriptor Expr :=
  { agg with
    features := agg.features.map declaredFeature
    aggId := 0
    fieldNames := []
    clusterId := 0 }

/-- A duration parameter that has to be positive and finite. -/
def durationParam (params : Json) (key : String) : Option Nat × Bool :=
  match params.getStr key with
  | none => (none,false)
  | some text =>
      match parseDurationToMs text with
      | .ok (some ms) => if 0 < ms then (some ms,false) else (none,true)
      | _ => (none,true)

def natParam (params : Json) (key : String) : Option Nat :=
  ((params.get key).bind Json.asU64).map UInt64.toNat

def f64Param (params : Json) (key : String) : Option F64 :=
  (params.get key).bind (Json.asF64 env.f64OfInt)

/-- The first of two members that is there, whatever its type. -/
def getEither (params : Json) (first second : String) : Option Json :=
  (params.get first).or (params.get second)

structure AggParams where
  field : Option String
  window : Option String
  whereStr : Option String
  n : Option Nat
  halfLifeMs : Option Nat
  subWindowMs : Option Nat
  sigma : Option F64
  halfLifeInvalid : Bool
  subWindowInvalid : Bool
  sketchParams : Option SketchParams
  ext : AggExtParams
  deriving DecidableEq, Repr

def extractSketchParams (params : Json) : Option SketchParams :=
  let found : SketchParams :=
    { percentileQ := f64Param env params "q"
      topKK := natParam params "k"
      bloomCapacity :=
        ((getEither params "expected_n" "capacity").bind Json.asU64).map UInt64.toNat
      bloomFpr := (getEither params "target_fpr" "fpr").bind (Json.asF64 env.f64OfInt) }
  if found.percentileQ.isSome || found.topKK.isSome || found.bloomCapacity.isSome ||
      found.bloomFpr.isSome then
    some found
  else none

def extractExtParams (params : Json) : AggExtParams :=
  { buckets := ((params.get "buckets").bind Json.asArray).map fun items =>
      items.filterMap (Json.asF64 env.f64OfInt)
    n := natParam params "n"
    k := natParam params "k"
    precision := (natParam params "precision").map (· % 2 ^ 32)
    latField := (getEither params "lat_field" "lat").bind Json.asStr
    lonField := (getEither params "lon_field" "lon").bind Json.asStr
    samples := natParam params "samples"
    categories := ((params.get "categories").bind Json.asArray).map fun items =>
      items.filterMap Json.asStr
    maxCategories := natParam params "max_categories"
    latIdx := fieldIdxNone
    lonIdx := fieldIdxNone }

/-- `extract_agg_params`. -/
def extractAggParams (params : Json) : AggParams :=
  { field := params.getStr "field"
    window := params.getStr "window"
    whereStr := params.getStr "where"
    n := (natParam params "n").filter fun value => value < 2 ^ 32
    halfLifeMs := (durationParam params "half_life").1
    subWindowMs := (durationParam params "sub_window").1
    sigma := f64Param env params "sigma"
    halfLifeInvalid := (durationParam params "half_life").2
    subWindowInvalid := (durationParam params "sub_window").2
    sketchParams := extractSketchParams env params
    ext := extractExtParams env params }

/-- A check that reports its errors and skips the feature. -/
abbrev Checks := Except (List ValidationError)

/-- One error when `holds` is false. -/
def require (holds : Bool) (code : ErrorCode) (path reason : String) : Checks Unit :=
  if holds then .ok () else .error [⟨code,path,reason⟩]

def featurePath (nodeIdx opIdx : Nat) (featureName : String) : String :=
  s!"nodes[{nodeIdx}].ops[{opIdx}].agg.{featureName}"

def checkKind (path op : String) : Checks AggKind :=
  match parseAggKind op with
  | some kind => .ok kind
  | none => .error [⟨.aggregationUnknownOp,path ++ ".op",
      "unknown aggregation op '" ++ op ++ "'; valid ops are: " ++
        "count, sum, mean, min, max, var, std, ratio, " ++
        "first, last, first_n, last_n, lag, " ++
        "first_seen, last_seen, age, has_seen, time_since, " ++
        "time_since_last_n, streak, max_streak, negative_streak, " ++
        "first_seen_in_window"⟩]

def checkKeyCollision (path featureName : String) (keys : List String) : Checks Unit :=
  require (!keys.contains featureName) .aggregationGroupKeyCollidesWithFeature path
    ("feature name '" ++ featureName ++ "' collides with a group_by key")

def checkHalfLife (path : String) (kind : AggKind) (params : AggParams) : Checks Unit :=
  require (!(kind.requiresHalfLife && (params.halfLifeMs.isNone || params.halfLifeInvalid)))
    .aggregationInvalidHalfLife (path ++ ".params.half_life")
    (kind.decayName ++ " requires positive finite half_life duration string " ++
      "(e.g., \"5m\"); got None")

def checkSubWindow (path : String) (kind : AggKind) (params : AggParams) : Checks Unit :=
  require (!(kind = .burstCount && (params.subWindowMs.isNone || params.subWindowInvalid)))
    .aggregationInvalidSubWindow (path ++ ".params.sub_window")
    "burst_count requires positive finite sub_window duration string"

def checkField (schema : Schema) (path op : String) (kind : AggKind) (params : AggParams) :
    Checks Unit :=
  if kind.needsField then
    match params.field with
    | none =>
        require (!kind.requiresField) .aggregationUnknownField (path ++ ".params.field")
          ("op '" ++ op ++ "' requires a field= parameter")
    | some field =>
        require (schema.fields.contains field) .aggregationUnknownField (path ++ ".params.field")
          ("field '" ++ field ++ "' does not exist in upstream schema")
  else .ok ()

def checkN (path op : String) (kind : AggKind) (params : AggParams) : Checks Unit :=
  if kind.requiresN then
    match params.n with
    | none =>
        .error [⟨.aggregationUnknownField,path ++ ".params.n",
          "op '" ++ op ++ "' requires a positive integer 'n' parameter"⟩]
    | some n =>
        require (n ≠ 0 && n ≤ 1024) .aggregationUnknownField (path ++ ".params.n")
          ("op '" ++ op ++ "' parameter 'n' must be in [1, 1024]; got " ++ toString n)
  else .ok ()

def checkLifetime (path op : String) (kind : AggKind) (params : AggParams) : Checks Unit :=
  require (!(kind.rejectsWindow && params.window.isSome)) .aggregationInvalidWindow
    (path ++ ".params.window")
    ("op '" ++ op ++ "' is a lifetime operator and does not accept window=")

def checkWindowGiven (path : String) (kind : AggKind) (params : AggParams) : Checks Unit :=
  require (!(kind = .firstSeenInWindow && params.window.isNone)) .aggregationInvalidWindow
    (path ++ ".params.window")
    "op 'first_seen_in_window' requires a window= duration parameter"

/-- The errors of the sketch parameters; both errors of `bloom_member` are
reported. -/
def sketchErrors (path : String) (kind : AggKind) (params : AggParams) : List ValidationError :=
  match kind with
  | .bloomMember =>
      (if params.window.isSome then
        [⟨.windowNotSupported,path ++ ".params.window",
          "bloom_member is windowless-only — `window` kwarg not supported"⟩]
       else []) ++
      (match params.sketchParams.bind (·.bloomFpr) with
       | some fpr =>
          if fpr.betweenZeroAndOne then []
          else [⟨.invalidBloomFpr,path ++ ".params.target_fpr",
            "bloom_member fpr must be in (0.0, 1.0); got " ++ env.displayF64 fpr⟩]
       | none => [])
  | .percentile =>
      (match params.sketchParams.bind (·.percentileQ) with
       | some q =>
          if q.betweenZeroAndOne then []
          else [⟨.invalidPercentileQ,path ++ ".params.q",
            "percentile q must be in (0.0, 1.0); got " ++ env.displayF64 q⟩]
       | none => [])
  | .topK =>
      (match params.sketchParams.bind (·.topKK) with
       | some k =>
          if 0 < k && k ≤ 1024 then []
          else [⟨.invalidTopKK,path ++ ".params.k",
            "top_k k must be in (0, 1024]; got " ++ toString k⟩]
       | none => [])
  | _ => []

def checkSketch (path : String) (kind : AggKind) (params : AggParams) : Checks Unit :=
  match sketchErrors env path kind params with
  | [] => .ok ()
  | errors => .error errors

def parseWindow (path op : String) (kind : AggKind) (params : AggParams) : Checks (Option Nat) :=
  match params.window with
  | none => .ok none
  | some text =>
      match parseDurationToMs text with
      | .error _ =>
          .error [⟨.aggregationInvalidWindow,path ++ ".params.window",
            "invalid window duration '" ++ text ++
              "'; expected format: \\d+(ms|s|m|h|d) or 'forever'"⟩]
      | .ok windowMs =>
          if kind.rejectsWindow && windowMs.isSome then
            .error [⟨.aggregationInvalidWindow,path ++ ".params.window",
              "op '" ++ op ++ "' does not support 'window=' in v0"⟩]
          else .ok windowMs

/-- The error for every field a predicate mentions that the schema lacks. -/
def unknownWhereFields (schema : Schema) (path : String) (ast : Expr) : List ValidationError :=
  (env.referencedFields ast).filterMap fun field =>
    if schema.fields.contains field then none
    else some ⟨.aggregationInvalidWhere,path ++ ".params.where",
      "where predicate references unknown field '" ++ field ++ "'"⟩

def compileWhere (schema : Schema) (path : String) (params : AggParams) : Checks (Option Expr) :=
  match params.whereStr with
  | none => .ok none
  | some text =>
      match env.parse text with
      | .error parseError =>
          .error [⟨.aggregationInvalidWhere,path ++ ".params.where",
            "where predicate parse error at col " ++ toString parseError.col ++ ": " ++
              parseError.reason⟩]
      | .ok ast =>
          match unknownWhereFields env schema path ast with
          | [] => .ok (some ast)
          | errors => .error errors

def assembleFeature (featureName : String) (kind : AggKind) (params : AggParams)
    (windowMs : Option Nat) (whereExpr : Option Expr) : NamedAggOp Expr :=
  { featureName := featureName
    descriptor :=
      { kind := kind
        field := params.field
        windowMs := windowMs
        whereExpr := whereExpr
        n := params.n
        halfLifeMs := params.halfLifeMs
        subWindowMs := params.subWindowMs
        sigma := params.sigma
        sketchParams := params.sketchParams
        ext := params.ext
        fieldIdx := fieldIdxNone
        fieldIdxIntoEventExtracted := [] } }

/-- The body of the feature loop of `compile_aggregations_from_nodes`. -/
def compileFeature (schema : Schema) (nodeIdx opIdx : Nat) (keys : List String)
    (featureName : String) (spec : AggSpec) : Checks (NamedAggOp Expr) := do
  let path := featurePath nodeIdx opIdx featureName
  let params := extractAggParams env spec.params
  let kind ← checkKind path spec.op
  checkKeyCollision path featureName keys
  checkHalfLife path kind params
  checkSubWindow path kind params
  checkField schema path spec.op kind params
  checkN path spec.op kind params
  checkLifetime path spec.op kind params
  checkWindowGiven path kind params
  checkSketch env path kind params
  let windowMs ← parseWindow path spec.op kind params
  let whereExpr ← compileWhere env schema path params
  return assembleFeature featureName kind params windowMs whereExpr

end Beava.Core
