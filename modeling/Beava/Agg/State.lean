/-
The states of the core operators.

Each state has an update by name, which looks its field up in the row, and, for
the operators on one field, an update from a value that the apply loop has
looked up already.
-/

import Beava.Agg.Kernel

namespace Beava.Agg

open Beava.Core Beava.Sketch

variable {kernel : Kernel}

/-! ### Counts and sums -/

structure CountState where
  n : Nat
  deriving DecidableEq

namespace CountState

def default : CountState := ⟨0⟩

def update (whereMatched : Bool) (state : CountState) : CountState :=
  if whereMatched then ⟨state.n + 1⟩ else state

def query (state : CountState) : Value := Kernel.reportCount state.n

end CountState

structure SumState (kernel : Kernel) where
  total : kernel.Num
  n : Nat

namespace SumState

def default : SumState kernel := ⟨kernel.zero,0⟩

def add (number : kernel.Num) (state : SumState kernel) : SumState kernel :=
  ⟨state.total + number,state.n + 1⟩

def update (row : Row) (field : Option String) (whereMatched : Bool) :
    SumState kernel → SumState kernel :=
  updateField numeric add row field whereMatched

def updatePre (preVal : Option Value) (whereMatched : Bool) : SumState kernel → SumState kernel :=
  updateValue numeric add preVal whereMatched

def query (state : SumState kernel) : Value :=
  if state.n = 0 then .null else kernel.report state.total

end SumState

structure AvgState (kernel : Kernel) where
  sum : kernel.Num
  n : Nat

namespace AvgState

def default : AvgState kernel := ⟨kernel.zero,0⟩

def add (number : kernel.Num) (state : AvgState kernel) : AvgState kernel :=
  ⟨state.sum + number,state.n + 1⟩

def update (row : Row) (field : Option String) (whereMatched : Bool) :
    AvgState kernel → AvgState kernel :=
  updateField numeric add row field whereMatched

def updatePre (preVal : Option Value) (whereMatched : Bool) : AvgState kernel → AvgState kernel :=
  updateValue numeric add preVal whereMatched

def query (state : AvgState kernel) : Value :=
  if state.n = 0 then .null else kernel.report (state.sum / kernel.ofInt state.n)

end AvgState

/-! ### Extremes -/

structure MinState where
  current : Option Value

namespace MinState

def default : MinState := ⟨none⟩

def lower (value : Value) (state : MinState) : MinState :=
  match state.current with
  | none => ⟨some value⟩
  | some current => if valueLt value current then ⟨some value⟩ else state

def update (row : Row) (field : Option String) (whereMatched : Bool) : MinState → MinState :=
  updateField notNull lower row field whereMatched

def updatePre (preVal : Option Value) (whereMatched : Bool) : MinState → MinState :=
  updateValue notNull lower preVal whereMatched

def query (state : MinState) : Value := state.current.getD .null

end MinState

structure MaxState where
  current : Option Value

namespace MaxState

def default : MaxState := ⟨none⟩

def raise (value : Value) (state : MaxState) : MaxState :=
  match state.current with
  | none => ⟨some value⟩
  | some current => if valueLt current value then ⟨some value⟩ else state

def update (row : Row) (field : Option String) (whereMatched : Bool) : MaxState → MaxState :=
  updateField notNull raise row field whereMatched

def updatePre (preVal : Option Value) (whereMatched : Bool) : MaxState → MaxState :=
  updateValue notNull raise preVal whereMatched

def query (state : MaxState) : Value := state.current.getD .null

end MaxState

/-! ### Variance and ratio -/

structure VarianceState (kernel : Kernel) where
  n : Nat
  mean : kernel.Num
  m2 : kernel.Num

namespace VarianceState

def default : VarianceState kernel := ⟨0,kernel.zero,kernel.zero⟩

/-- Welford's step. -/
def add (number : kernel.Num) (state : VarianceState kernel) : VarianceState kernel :=
  let n := state.n + 1
  let delta := number - state.mean
  let mean := state.mean + delta / kernel.ofInt n
  let delta2 := number - mean
  ⟨n,mean,state.m2 + delta * delta2⟩

def update (row : Row) (field : Option String) (whereMatched : Bool) :
    VarianceState kernel → VarianceState kernel :=
  updateField numeric add row field whereMatched

def updatePre (preVal : Option Value) (whereMatched : Bool) :
    VarianceState kernel → VarianceState kernel :=
  updateValue numeric add preVal whereMatched

def queryVariance (state : VarianceState kernel) : Value :=
  if state.n < 2 then .null else kernel.report (state.m2 / kernel.ofInt (state.n - 1 : Nat))

def queryStddev (state : VarianceState kernel) : Value :=
  if state.n < 2 then .null
  else kernel.report (kernel.sqrt (state.m2 / kernel.ofInt (state.n - 1 : Nat)))

end VarianceState

structure RatioState where
  matching : Nat
  total : Nat
  deriving DecidableEq

namespace RatioState

def default : RatioState := ⟨0,0⟩

def update (whereMatched : Bool) (state : RatioState) : RatioState :=
  ⟨if whereMatched then state.matching + 1 else state.matching,state.total + 1⟩

def query (kernel : Kernel) (state : RatioState) : Value :=
  if state.total = 0 then .null
  else kernel.report (kernel.ofInt state.matching / kernel.ofInt state.total)

end RatioState

/-! ### Points -/

structure FirstState where
  current : Option Value

namespace FirstState

def default : FirstState := ⟨none⟩

def keep (value : Value) (state : FirstState) : FirstState :=
  if state.current.isSome then state else ⟨some value⟩

def update (row : Row) (field : Option String) (whereMatched : Bool) : FirstState → FirstState :=
  updateField notNull keep row field whereMatched

def updatePre (preVal : Option Value) (whereMatched : Bool) : FirstState → FirstState :=
  updateValue notNull keep preVal whereMatched

def query (state : FirstState) : Value := state.current.getD .null

end FirstState

structure LastState where
  current : Option Value

namespace LastState

def default : LastState := ⟨none⟩

def replace (value : Value) (_ : LastState) : LastState := ⟨some value⟩

def update (row : Row) (field : Option String) (whereMatched : Bool) : LastState → LastState :=
  updateField notNull replace row field whereMatched

def updatePre (preVal : Option Value) (whereMatched : Bool) : LastState → LastState :=
  updateValue notNull replace preVal whereMatched

def query (state : LastState) : Value := state.current.getD .null

end LastState

structure FirstNState where
  n : Nat
  values : List Value

namespace FirstNState

def new (n : Nat) : FirstNState := ⟨n,[]⟩

def push (value : Value) (state : FirstNState) : FirstNState :=
  if state.n ≤ state.values.length then state else { state with values := state.values ++ [value] }

def update (row : Row) (field : Option String) (whereMatched : Bool) : FirstNState → FirstNState :=
  updateField notNull push row field whereMatched

def updatePre (preVal : Option Value) (whereMatched : Bool) : FirstNState → FirstNState :=
  updateValue notNull push preVal whereMatched

def query (state : FirstNState) : Value := .list state.values

end FirstNState

/-- A value at the back, and the front away when the queue has its length. -/
def pushBounded {α : Type} (bound : Nat) (values : List α) (value : α) : List α :=
  (if values.length = bound then values.tail else values) ++ [value]

structure LastNState where
  n : Nat
  values : List Value

namespace LastNState

def new (n : Nat) : LastNState := ⟨n,[]⟩

def push (value : Value) (state : LastNState) : LastNState :=
  { state with values := pushBounded state.n state.values value }

def update (row : Row) (field : Option String) (whereMatched : Bool) : LastNState → LastNState :=
  updateField notNull push row field whereMatched

def updatePre (preVal : Option Value) (whereMatched : Bool) : LastNState → LastNState :=
  updateValue notNull push preVal whereMatched

def query (state : LastNState) : Value := .list state.values

end LastNState

structure LagState where
  n : Nat
  values : List Value

namespace LagState

def new (n : Nat) : LagState := ⟨n,[]⟩

def push (value : Value) (state : LagState) : LagState :=
  { state with values := pushBounded (state.n + 1) state.values value }

def update (row : Row) (field : Option String) (whereMatched : Bool) : LagState → LagState :=
  updateField notNull push row field whereMatched

def updatePre (preVal : Option Value) (whereMatched : Bool) : LagState → LagState :=
  updateValue notNull push preVal whereMatched

def query (state : LagState) : Value :=
  if state.values.length = state.n + 1 then state.values.head?.getD .null else .null

end LagState

/-! ### Recency -/

structure SeenState where
  firstMs : Option Int64
  lastMs : Option Int64
  deriving DecidableEq

/-- `(later - earlier).max(0)`. -/
def elapsedMs (later earlier : Int64) : Int64 := max (later - earlier) 0

namespace SeenState

def default : SeenState := ⟨none,none⟩

def update (nowMs : Int64) (whereMatched : Bool) (state : SeenState) : SeenState :=
  if whereMatched then ⟨some (state.firstMs.getD nowMs),some nowMs⟩ else state

def queryFirstSeen (state : SeenState) : Value := (state.firstMs.map .datetime).getD .null

def queryLastSeen (state : SeenState) : Value := (state.lastMs.map .datetime).getD .null

def queryAge (queryTimeMs : Int64) (state : SeenState) : Value :=
  match state.firstMs with
  | some first => .i64 (elapsedMs queryTimeMs first)
  | none => .null

def queryHasSeen (state : SeenState) : Value := .bool state.firstMs.isSome

def queryTimeSince (queryTimeMs : Int64) (state : SeenState) : Value :=
  match state.lastMs with
  | some last => .i64 (elapsedMs queryTimeMs last)
  | none => .null

end SeenState

structure TimeSinceLastNState where
  n : Nat
  timesMs : List Int64
  deriving DecidableEq

namespace TimeSinceLastNState

def new (n : Nat) : TimeSinceLastNState := ⟨n,[]⟩

def update (nowMs : Int64) (whereMatched : Bool) (state : TimeSinceLastNState) :
    TimeSinceLastNState :=
  if whereMatched then { state with timesMs := pushBounded state.n state.timesMs nowMs } else state

def query (queryTimeMs : Int64) (state : TimeSinceLastNState) : Value :=
  if state.timesMs.length < state.n then .null
  else .i64 (elapsedMs queryTimeMs (state.timesMs.head?.getD queryTimeMs))

end TimeSinceLastNState

structure StreakState where
  current : Nat
  maxSeen : Nat
  deriving DecidableEq

namespace StreakState

def default : StreakState := ⟨0,0⟩

def update (whereMatched : Bool) (state : StreakState) : StreakState :=
  if whereMatched then ⟨state.current + 1,max state.maxSeen (state.current + 1)⟩
  else { state with current := 0 }

def queryCurrent (state : StreakState) : Value := Kernel.reportCount state.current

def queryMax (state : StreakState) : Value := Kernel.reportCount state.maxSeen

end StreakState

structure NegativeStreakState where
  current : Nat
  deriving DecidableEq

namespace NegativeStreakState

def default : NegativeStreakState := ⟨0⟩

def update (whereMatched : Bool) (state : NegativeStreakState) : NegativeStreakState :=
  if whereMatched then ⟨0⟩ else ⟨state.current + 1⟩

def query (state : NegativeStreakState) : Value := Kernel.reportCount state.current

end NegativeStreakState

structure FirstSeenInWindowState where
  windowMs : Nat
  lastMs : Option Int64
  deriving DecidableEq

namespace FirstSeenInWindowState

def new (windowMs : Nat) : FirstSeenInWindowState := ⟨windowMs,none⟩

def update (nowMs : Int64) (whereMatched : Bool) (state : FirstSeenInWindowState) :
    FirstSeenInWindowState :=
  if whereMatched then { state with lastMs := some nowMs } else state

def query (queryTimeMs : Int64) (state : FirstSeenInWindowState) : Value :=
  match state.lastMs with
  | some last =>
      let age := queryTimeMs - last
      .bool (0 ≤ age && age.toInt.toNat < state.windowMs)
  | none => .bool false

end FirstSeenInWindowState

/-! ### Sketches -/

structure CountDistinctStateWrap (kernel : Kernel) where
  inner : kernel.CountDistinct

namespace CountDistinctStateWrap

def default : CountDistinctStateWrap kernel := ⟨kernel.newCountDistinct⟩

def insert (value : Value) (state : CountDistinctStateWrap kernel) :
    CountDistinctStateWrap kernel :=
  ⟨kernel.addHash (kernel.hashValue value) state.inner⟩

def update (row : Row) (field : Option String) (whereMatched : Bool) :
    CountDistinctStateWrap kernel → CountDistinctStateWrap kernel :=
  updateField notNull insert row field whereMatched

def updatePre (preVal : Option Value) (whereMatched : Bool) :
    CountDistinctStateWrap kernel → CountDistinctStateWrap kernel :=
  updateValue notNull insert preVal whereMatched

def query (state : CountDistinctStateWrap kernel) : Value :=
  Kernel.reportCount (kernel.estimate state.inner)

end CountDistinctStateWrap

structure PercentileStateWrap (kernel : Kernel) where
  inner : kernel.Percentile
  q : kernel.Num

namespace PercentileStateWrap

def default : PercentileStateWrap kernel := ⟨kernel.newPercentile,kernel.half⟩

def insert (number : kernel.Num) (state : PercentileStateWrap kernel) :
    PercentileStateWrap kernel :=
  { state with inner := kernel.insertPercentile number state.inner }

def update (row : Row) (field : Option String) (whereMatched : Bool) :
    PercentileStateWrap kernel → PercentileStateWrap kernel :=
  updateField numeric insert row field whereMatched

def updatePre (preVal : Option Value) (whereMatched : Bool) :
    PercentileStateWrap kernel → PercentileStateWrap kernel :=
  updateValue numeric insert preVal whereMatched

def query (state : PercentileStateWrap kernel) : Value :=
  ((kernel.quantile state.q state.inner).map kernel.report).getD .null

end PercentileStateWrap

structure TopKStateWrap (kernel : Kernel) where
  inner : kernel.TopK

namespace TopKStateWrap

def insert (value : TopKValue) (state : TopKStateWrap kernel) : TopKStateWrap kernel :=
  ⟨kernel.insertTopK value state.inner⟩

def update (row : Row) (field : Option String) (whereMatched : Bool) :
    TopKStateWrap kernel → TopKStateWrap kernel :=
  updateField topKValueOf insert row field whereMatched

def updatePre (preVal : Option Value) (whereMatched : Bool) :
    TopKStateWrap kernel → TopKStateWrap kernel :=
  updateValue topKValueOf insert preVal whereMatched

def query (state : TopKStateWrap kernel) : Value := .json (.array (kernel.topEntries state.inner))

end TopKStateWrap

structure BloomMemberStateWrap (kernel : Kernel) where
  inner : kernel.Bloom
  nInserts : Nat

namespace BloomMemberStateWrap

/-- The rate is kept between `1e-9` and `0.999`. -/
def clampFpr (fpr : kernel.Num) : kernel.Num :=
  let least := kernel.ofF64 ⟨0x3E112E0BE826D695⟩
  let greatest := kernel.ofF64 ⟨0x3FEFF7CED916872B⟩
  if kernel.lt fpr least then least else if kernel.lt greatest fpr then greatest else fpr

def withParams (capacity : Nat) (fpr : F64) : BloomMemberStateWrap kernel :=
  ⟨kernel.newBloom (max capacity 1) (clampFpr (kernel.ofF64 fpr)),0⟩

/-- The counter stays at the largest number. -/
def insert (key : String) (state : BloomMemberStateWrap kernel) : BloomMemberStateWrap kernel :=
  ⟨kernel.insertBloom key state.inner,min (state.nInserts + 1) (2 ^ 64 - 1)⟩

def update (row : Row) (field : Option String) (whereMatched : Bool) :
    BloomMemberStateWrap kernel → BloomMemberStateWrap kernel :=
  updateField (valueToKeyString kernel) insert row field whereMatched

def updatePre (preVal : Option Value) (whereMatched : Bool) :
    BloomMemberStateWrap kernel → BloomMemberStateWrap kernel :=
  updateValue (valueToKeyString kernel) insert preVal whereMatched

def query (state : BloomMemberStateWrap kernel) : Value := .bool (0 < state.nInserts)

end BloomMemberStateWrap

/-! ### Entropy -/

structure EntropyHistogram where
  counts : StrMap Nat
  total : Nat
  cap : Nat
  spill : Nat

namespace EntropyHistogram

def spillKey : String := "__beava_other__"

def new (cap : Nat) : EntropyHistogram := ⟨∅,0,max cap 2,0⟩

def insert (value : String) (histogram : EntropyHistogram) : EntropyHistogram :=
  let counted := { histogram with total := min (histogram.total + 1) (2 ^ 64 - 1) }
  if histogram.counts.contains value then
    { counted with counts := histogram.counts.modify value (· + 1) }
  else if histogram.counts.contains spillKey then
    { counted with
      counts := histogram.counts.modify spillKey (· + 1)
      spill := histogram.spill + 1 }
  else if histogram.counts.size < histogram.cap then
    { counted with counts := histogram.counts.insert value 1 }
  else
    { counted with
      counts := histogram.counts.insert spillKey 1
      spill := histogram.spill + 1 }

def merge (histogram other : EntropyHistogram) : EntropyHistogram :=
  { histogram with
    counts := other.counts.toList.foldl
      (fun counts entry => counts.insert entry.1 (counts.getD entry.1 0 + entry.2))
      histogram.counts
    total := min (histogram.total + other.total) (2 ^ 64 - 1)
    spill := min (histogram.spill + other.spill) (2 ^ 64 - 1) }

def entropyBits (kernel : Kernel) (histogram : EntropyHistogram) : kernel.Num :=
  if histogram.total = 0 then kernel.zero
  else
    histogram.counts.toList.foldl
      (fun bits entry =>
        if entry.2 = 0 then bits
        else
          let share := kernel.ofInt entry.2 / kernel.ofInt histogram.total
          bits - share * kernel.log2 share)
      kernel.zero

end EntropyHistogram

structure EntropyStateWrap where
  inner : EntropyHistogram
  maxCategories : Nat

namespace EntropyStateWrap

def default : EntropyStateWrap := ⟨.new 1024,1024⟩

/-- `insert_guarded`: a new category is dropped at the cap. -/
def insertGuarded (category : String) (state : EntropyStateWrap) : EntropyStateWrap :=
  if state.maxCategories ≤ state.inner.counts.size && !state.inner.counts.contains category then
    state
  else { state with inner := state.inner.insert category }

def update (kernel : Kernel) (row : Row) (field : Option String) (whereMatched : Bool) :
    EntropyStateWrap → EntropyStateWrap :=
  updateField (valueToKeyString kernel) insertGuarded row field whereMatched

def updatePre (kernel : Kernel) (preVal : Option Value) (whereMatched : Bool) :
    EntropyStateWrap → EntropyStateWrap :=
  updateValue (valueToKeyString kernel) insertGuarded preVal whereMatched

def query (kernel : Kernel) (state : EntropyStateWrap) : Value :=
  kernel.report (state.inner.entropyBits kernel)

end EntropyStateWrap

end Beava.Agg
