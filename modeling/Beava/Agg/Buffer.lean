/-
The states of the buffer and geo operators.

A geo operator owns the names of its coordinates.  It is updated by name, or from
the extracted fields of the source by the positions of the coordinates.
-/

import Beava.Agg.State
import Beava.Apply.Loop

namespace Beava.Agg

open Beava.Core Beava.Apply

variable {kernel : Kernel}

/-- A counter that stays at the largest number. -/
def saturatingSucc (count : Nat) : Nat := min (count + 1) (2 ^ 64 - 1)

/-! ### Histograms -/

structure HistogramState (kernel : Kernel) where
  buckets : List kernel.Num
  counts : List Nat

namespace HistogramState

def new (buckets : List kernel.Num) : HistogramState kernel :=
  ⟨buckets,List.replicate (buckets.length + 1) 0⟩

/-- The first edge above the number, or the last cell. -/
def bucketIndex (state : HistogramState kernel) (number : kernel.Num) : Nat :=
  (state.buckets.findIdx? fun edge => kernel.lt number edge).getD state.buckets.length

def add (number : kernel.Num) (state : HistogramState kernel) : HistogramState kernel :=
  { state with counts := state.counts.modify (state.bucketIndex number) saturatingSucc }

def update (row : Row) (field : Option String) (whereMatched : Bool) :
    HistogramState kernel → HistogramState kernel :=
  updateField numeric add row field whereMatched

def fmtEdge (edge : kernel.Num) : String :=
  if kernel.eq (kernel.fract edge) kernel.zero && kernel.isFinite edge then
    toString (kernel.toInt64 edge)
  else kernel.display edge

def edgeAt (state : HistogramState kernel) (position : Nat) : String :=
  fmtEdge (state.buckets.getD position kernel.zero)

def label (state : HistogramState kernel) (position : Nat) : String :=
  if state.buckets.isEmpty then "all"
  else if position = 0 then "<" ++ state.edgeAt 0
  else if position = state.buckets.length then ">=" ++ state.edgeAt (position - 1)
  else state.edgeAt (position - 1) ++ "-" ++ state.edgeAt position

/-- Cells with the same label are one entry, with the count of the last. -/
def query (state : HistogramState kernel) : Value :=
  let labelled := state.counts.mapIdx fun position count =>
    (state.label position,Kernel.reportCount count)
  .map (labelled.foldl (fun entries cell => entries.insert cell.1 cell.2)
    (∅ : StrMap Value)).toList

end HistogramState

/-- `hour_of_day_index`. -/
def hourOfDayIndex (nowMs : Int64) : Nat := (nowMs.toInt / 3600000 % 24).toNat

structure HourOfDayHistogramState where
  counts : List Nat
  deriving DecidableEq

namespace HourOfDayHistogramState

def default : HourOfDayHistogramState := ⟨List.replicate 24 0⟩

def update (nowMs : Int64) (whereMatched : Bool) (state : HourOfDayHistogramState) :
    HourOfDayHistogramState :=
  if whereMatched then ⟨state.counts.modify (hourOfDayIndex nowMs) saturatingSucc⟩ else state

def query (state : HourOfDayHistogramState) : Value := .list (state.counts.map Kernel.reportCount)

end HourOfDayHistogramState

/-- `dow_hour_index`: the first of January 1970 was a Thursday. -/
def dowHourIndex (nowMs : Int64) : Nat :=
  ((nowMs.toInt / 86400000 + 3) % 7).toNat * 24 + hourOfDayIndex nowMs

def dayLabels : List String := ["Mon","Tue","Wed","Thu","Fri","Sat","Sun"]

structure DowHourHistogramState where
  counts : List Nat
  deriving DecidableEq

namespace DowHourHistogramState

def default : DowHourHistogramState := ⟨List.replicate 168 0⟩

def update (nowMs : Int64) (whereMatched : Bool) (state : DowHourHistogramState) :
    DowHourHistogramState :=
  if whereMatched then ⟨state.counts.modify (dowHourIndex nowMs) saturatingSucc⟩ else state

/-- An hour with two digits. -/
def hourLabel (hour : Nat) : String :=
  if hour < 10 then "0" ++ toString hour else toString hour

def query (state : DowHourHistogramState) : Value :=
  let cells := dayLabels.zipIdx.flatMap fun day =>
    (List.range 24).map fun hour =>
      (day.1 ++ "-" ++ hourLabel hour,
       Kernel.reportCount (state.counts.getD (day.2 * 24 + hour) 0))
  .map (cells.foldl (fun entries cell => entries.insert cell.1 cell.2) (∅ : StrMap Value)).toList

end DowHourHistogramState

/-! ### Seasons and categories -/

structure HourBucket (kernel : Kernel) where
  n : Nat
  sum : kernel.Num
  sumSq : kernel.Num

structure SeasonalDeviationState (kernel : Kernel) where
  perHour : List (HourBucket kernel)
  lastObserved : Option (kernel.Num × Nat)

namespace SeasonalDeviationState

def default : SeasonalDeviationState kernel :=
  ⟨List.replicate 24 ⟨0,kernel.zero,kernel.zero⟩,none⟩

def add (nowMs : Int64) (number : kernel.Num) (state : SeasonalDeviationState kernel) :
    SeasonalDeviationState kernel :=
  let hour := hourOfDayIndex nowMs
  { perHour := state.perHour.modify hour fun bucket =>
      ⟨bucket.n + 1,bucket.sum + number,bucket.sumSq + number * number⟩
    lastObserved := some (number,hour) }

def update (row : Row) (nowMs : Int64) (field : Option String) (whereMatched : Bool) :
    SeasonalDeviationState kernel → SeasonalDeviationState kernel :=
  updateField numeric (add nowMs) row field whereMatched

def query (state : SeasonalDeviationState kernel) : Value :=
  match state.lastObserved with
  | none => .null
  | some (number,hour) =>
      match state.perHour[hour]? with
      | none => .null
      | some bucket =>
          if bucket.n < 2 then .null
          else
            let n := kernel.ofInt bucket.n
            let mean := bucket.sum / n
            let variance := (bucket.sumSq - bucket.sum * bucket.sum / n) / (n - kernel.one)
            if kernel.le variance kernel.zero then .null
            else kernel.report ((number - mean) / kernel.sqrt variance)

end SeasonalDeviationState

/-- The set of allowed categories is kept as the list it is made from. -/
structure EventTypeMixState where
  counts : StrMap Nat
  total : Nat
  maxCategories : Nat
  allowed : Option (List String)

namespace EventTypeMixState

def new (maxCategories : Nat) (allowed : Option (List String)) : EventTypeMixState :=
  ⟨∅,0,maxCategories,allowed⟩

/-- Whether the category is counted, and not in the total only. -/
def accepts (state : EventTypeMixState) (category : String) : Bool :=
  match state.allowed with
  | some allowed => allowed.contains category
  | none => state.counts.contains category || state.counts.size < state.maxCategories

def count (category : String) (state : EventTypeMixState) : EventTypeMixState :=
  { state with
    total := saturatingSucc state.total
    counts :=
      if state.accepts category then
        state.counts.insert category (saturatingSucc (state.counts.getD category 0))
      else state.counts }

def update (row : Row) (field : Option String) (whereMatched : Bool) :
    EventTypeMixState → EventTypeMixState :=
  updateField categoryText count row field whereMatched

def updateAt (preVal : Option Value) (whereMatched : Bool) :
    EventTypeMixState → EventTypeMixState :=
  updateValue categoryText count preVal whereMatched

def query (kernel : Kernel) (state : EventTypeMixState) : Value :=
  if state.total = 0 then .map []
  else
    .map (state.counts.toList.map fun entry =>
      (entry.1,kernel.report (kernel.ofInt entry.2 / kernel.ofInt state.total)))

end EventTypeMixState

/-! ### Recent values and samples -/

structure MostRecentNState where
  n : Nat
  buf : List Value
  head : Nat
  filled : Bool

namespace MostRecentNState

def new (n : Nat) : MostRecentNState := ⟨max n 1,[],0,false⟩

def push (value : Value) (state : MostRecentNState) : MostRecentNState :=
  if state.filled then
    { state with buf := state.buf.set state.head value, head := (state.head + 1) % state.n }
  else
    let buf := state.buf ++ [value]
    if buf.length = state.n then { state with buf := buf, filled := true, head := 0 }
    else { state with buf := buf }

def update (row : Row) (field : Option String) (whereMatched : Bool) :
    MostRecentNState → MostRecentNState :=
  updateField notNull push row field whereMatched

def query (state : MostRecentNState) : Value :=
  if state.filled then
    .list ((List.range state.n).map fun offset =>
      state.buf.getD ((state.head + offset) % state.n) .null)
  else .list state.buf

end MostRecentNState

structure ReservoirSampleState where
  k : Nat
  reservoir : List Value
  itemsSeen : Nat

namespace ReservoirSampleState

def new (k : Nat) : ReservoirSampleState := ⟨max k 1,[],0⟩

/-- `det_random`. -/
def detRandom (itemsSeen : Nat) (salt : UInt64) : UInt64 :=
  let mixed := UInt64.ofNat itemsSeen ^^^ salt ^^^ 0x9E3779B97F4A7C15
  let seed := if mixed = 0 then 0xD2B74E4572D7C2B0 else mixed
  let seed := seed ^^^ (seed <<< 13)
  let seed := seed ^^^ (seed >>> 7)
  seed ^^^ (seed <<< 17)

def sample (value : Value) (state : ReservoirSampleState) : ReservoirSampleState :=
  let itemsSeen := state.itemsSeen + 1
  if state.reservoir.length < state.k then
    { state with reservoir := state.reservoir ++ [value], itemsSeen := itemsSeen }
  else
    let position := (detRandom itemsSeen 0xA0B1C2D3E4F50617).toNat % itemsSeen
    { state with
      reservoir :=
        if position < state.k then state.reservoir.set position value else state.reservoir
      itemsSeen := itemsSeen }

def update (row : Row) (field : Option String) (whereMatched : Bool) :
    ReservoirSampleState → ReservoirSampleState :=
  updateField notNull sample row field whereMatched

def query (state : ReservoirSampleState) : Value := .list state.reservoir

end ReservoirSampleState

/-- Two coordinates that are numbers. -/
def placeOf (lat lon : Option Value) : Option (kernel.Num × kernel.Num) := do
  let lat ← lat.bind numeric
  let lon ← lon.bind numeric
  return (lat,lon)

/-- `read_lat_lon`. -/
def readLatLon (row : Row) (latField lonField : String) : Option (kernel.Num × kernel.Num) :=
  placeOf (row.get latField) (row.get lonField)

/-- `read_lat_lon_from_extracted`. -/
def readLatLonFromExtracted (extracted : ExtractedFields) (latIdx lonIdx : UInt8) :
    Option (kernel.Num × kernel.Num) :=
  placeOf (extractedAt extracted latIdx) (extractedAt extracted lonIdx)

/-- The common form of the updates by a place. -/
def updatePlace {σ : Type} (apply : kernel.Num × kernel.Num → σ → σ)
    (place : Option (kernel.Num × kernel.Num)) (whereMatched : Bool) (state : σ) : σ :=
  if whereMatched then
    match place with
    | none => state
    | some place => apply place state
  else state

structure GeoVelocityState (kernel : Kernel) where
  latField : String
  lonField : String
  prev : Option ((kernel.Num × kernel.Num) × Int64)
  maxKmh : kernel.Num

namespace GeoVelocityState

def withFields (latField lonField : String) : GeoVelocityState kernel :=
  ⟨latField,lonField,none,kernel.zero⟩

def apply (nowMs : Int64) (place : kernel.Num × kernel.Num) (state : GeoVelocityState kernel) :
    GeoVelocityState kernel :=
  let maxKmh :=
    match state.prev with
    | none => state.maxKmh
    | some (before,beforeMs) =>
        let dtMs := nowMs - beforeMs
        if 0 < dtMs then
          let hours := kernel.ofInt dtMs.toInt / kernel.ofF64 ⟨0x414B774000000000⟩
          let kmh := kernel.haversineKm before place / hours
          if kernel.lt state.maxKmh kmh then kmh else state.maxKmh
        else state.maxKmh
  { state with prev := some (place,nowMs), maxKmh := maxKmh }

def update (row : Row) (nowMs : Int64) (whereMatched : Bool) (state : GeoVelocityState kernel) :
    GeoVelocityState kernel :=
  updatePlace (apply nowMs) (readLatLon row state.latField state.lonField) whereMatched state

def updateAt (extracted : ExtractedFields) (latIdx lonIdx : UInt8) (nowMs : Int64)
    (whereMatched : Bool) : GeoVelocityState kernel → GeoVelocityState kernel :=
  updatePlace (apply nowMs) (readLatLonFromExtracted extracted latIdx lonIdx) whereMatched

def query (state : GeoVelocityState kernel) : Value :=
  if state.prev.isNone then .null else kernel.report state.maxKmh

end GeoVelocityState

structure GeoDistanceState (kernel : Kernel) where
  latField : String
  lonField : String
  prev : Option (kernel.Num × kernel.Num)
  totalKm : kernel.Num

namespace GeoDistanceState

def withFields (latField lonField : String) : GeoDistanceState kernel :=
  ⟨latField,lonField,none,kernel.zero⟩

def apply (place : kernel.Num × kernel.Num) (state : GeoDistanceState kernel) :
    GeoDistanceState kernel :=
  { state with
    totalKm :=
      match state.prev with
      | none => state.totalKm
      | some before => state.totalKm + kernel.haversineKm before place
    prev := some place }

def update (row : Row) (whereMatched : Bool) (state : GeoDistanceState kernel) :
    GeoDistanceState kernel :=
  updatePlace apply (readLatLon row state.latField state.lonField) whereMatched state

def updateAt (extracted : ExtractedFields) (latIdx lonIdx : UInt8) (whereMatched : Bool) :
    GeoDistanceState kernel → GeoDistanceState kernel :=
  updatePlace apply (readLatLonFromExtracted extracted latIdx lonIdx) whereMatched

def query (state : GeoDistanceState kernel) : Value := kernel.report state.totalKm

end GeoDistanceState

structure GeoSpreadState (kernel : Kernel) where
  latField : String
  lonField : String
  n : Nat
  meanLat : kernel.Num
  meanLon : kernel.Num
  m2Lat : kernel.Num
  m2Lon : kernel.Num

namespace GeoSpreadState

def withFields (latField lonField : String) : GeoSpreadState kernel :=
  ⟨latField,lonField,0,kernel.zero,kernel.zero,kernel.zero,kernel.zero⟩

def apply (place : kernel.Num × kernel.Num) (state : GeoSpreadState kernel) :
    GeoSpreadState kernel :=
  let n := state.n + 1
  let invN := kernel.one / kernel.ofInt n
  let meanLat := state.meanLat + (place.1 - state.meanLat) * invN
  let meanLon := state.meanLon + (place.2 - state.meanLon) * invN
  { state with
    n := n
    meanLat := meanLat
    meanLon := meanLon
    m2Lat := state.m2Lat + (place.1 - state.meanLat) * (place.1 - meanLat)
    m2Lon := state.m2Lon + (place.2 - state.meanLon) * (place.2 - meanLon) }

def update (row : Row) (whereMatched : Bool) (state : GeoSpreadState kernel) :
    GeoSpreadState kernel :=
  updatePlace apply (readLatLon row state.latField state.lonField) whereMatched state

def updateAt (extracted : ExtractedFields) (latIdx lonIdx : UInt8) (whereMatched : Bool) :
    GeoSpreadState kernel → GeoSpreadState kernel :=
  updatePlace apply (readLatLonFromExtracted extracted latIdx lonIdx) whereMatched

def kmPerDegLat (kernel : Kernel) : kernel.Num := kernel.ofF64 ⟨0x405BD47AE147AE14⟩

def query (state : GeoSpreadState kernel) : Value :=
  if state.n < 2 then .null
  else
    let invN := kernel.one / kernel.ofInt state.n
    let varLatDeg2 := state.m2Lat * invN
    let varLonDeg2 := state.m2Lon * invN
    let kmPerDegLon := kmPerDegLat kernel * kernel.cos (kernel.toRadians state.meanLat)
    let varLatKm2 := varLatDeg2 * kmPerDegLat kernel * kmPerDegLat kernel
    let varLonKm2 := varLonDeg2 * kmPerDegLon * kmPerDegLon
    kernel.report (kernel.sqrt (varLatKm2 + varLonKm2))

end GeoSpreadState

structure DistanceFromHomeState (kernel : Kernel) where
  latField : String
  lonField : String
  samples : Nat
  buf : List (kernel.Num × kernel.Num)
  head : Nat
  filled : Bool
  last : Option (kernel.Num × kernel.Num)

namespace DistanceFromHomeState

def withFields (latField lonField : String) (samples : Nat) : DistanceFromHomeState kernel :=
  ⟨latField,lonField,max samples 1,[],0,false,none⟩

def apply (place : kernel.Num × kernel.Num) (state : DistanceFromHomeState kernel) :
    DistanceFromHomeState kernel :=
  let state := { state with last := some place }
  if state.filled then
    { state with buf := state.buf.set state.head place, head := (state.head + 1) % state.samples }
  else
    let buf := state.buf ++ [place]
    if buf.length = state.samples then { state with buf := buf, filled := true, head := 0 }
    else { state with buf := buf }

def update (row : Row) (whereMatched : Bool) (state : DistanceFromHomeState kernel) :
    DistanceFromHomeState kernel :=
  updatePlace apply (readLatLon row state.latField state.lonField) whereMatched state

def updateAt (extracted : ExtractedFields) (latIdx lonIdx : UInt8) (whereMatched : Bool) :
    DistanceFromHomeState kernel → DistanceFromHomeState kernel :=
  updatePlace apply (readLatLonFromExtracted extracted latIdx lonIdx) whereMatched

def mean (numbers : List kernel.Num) : kernel.Num :=
  numbers.foldl (· + ·) kernel.zero / kernel.ofInt numbers.length

def query (state : DistanceFromHomeState kernel) : Value :=
  match state.last with
  | none => .null
  | some last =>
      if state.buf.isEmpty then .null
      else
        kernel.report
          (kernel.haversineKm last (mean (state.buf.map Prod.fst),mean (state.buf.map Prod.snd)))

end DistanceFromHomeState

end Beava.Agg
