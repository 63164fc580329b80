import StorageScaleTest.Live.Median
import StorageScaleTest.Live.Ring
import Mathlib.Data.Multiset.Sort

/-!
# The first pass over a live CSV

`analyze_live_csv` for the parsed rows of one domain: rows are buffered while their RuntimeMS stays
the same, and each buffer is flushed into the analysis as one interval.
-/

namespace StorageScaleTest.Live

open Samples

variable {Client : Type}

/-! ## Rows -/

/-- A `Rank=Total` row, a client's row, whose DoneBytes may be missing, or one without a rank. -/
inductive RowKind (Client : Type)
  | total (mibS iops ioLatencyUs entriesLatencyUs : Option ℚ)
  | client (client : Client) (doneBytes : Option ℤ)
  | unranked

/-- `ParsedRow` of the one domain. -/
structure Row (Client : Type) where
  runtimeMs : ℤ
  isoTimestamp : String
  kind : RowKind Client

def Row.sample (row : Row Client) : Option (Client × ℤ) :=
  match row.kind with
  | .client client (some doneBytes) => some (client, doneBytes)
  | _ => none

/-! ## Interval rates -/

def mib : ℚ := 1048576

structure PreviousSample where
  doneBytes : ℤ
  runtimeMs : ℤ
  interval : Nat

/-- `derive_rate` -/
def deriveRate (prior : Option PreviousSample) (doneBytes runtimeMs : ℤ) (interval : Nat) :
    Option ℚ :=
  match prior with
  | none => none
  | some prior =>
    if prior.interval + 1 ≠ interval then none
    else
      let elapsedMs := runtimeMs - prior.runtimeMs
      let byteDelta := doneBytes - prior.doneBytes
      if elapsedMs ≤ 0 ∨ byteDelta < 0 then none
      else some (byteDelta * 1000 / elapsedMs / mib)

/-! ## Client summaries -/

/-- `ClientSummary`; the estimator is missing where it has divided by zero. -/
structure ClientSummary where
  sampleCount : Nat
  meanMibS : ℚ
  meanSquareDelta : ℚ
  medianEstimator : Option P2Median
  relativeMedianSum : ℚ
  relativeMedianCount : Nat
  missingCount : Nat
  invalidCount : Nat
  finalDoneBytes : Option ℤ
  finishElapsedMs : Option ℤ
  firstProgressInterval : Option Nat

namespace ClientSummary

def new (missingCount : Nat) : ClientSummary :=
  ⟨0, 0, 0, some .empty, 0, 0, missingCount, 0, none, none, none⟩

variable (s : ClientSummary)

def observeDoneBytes (doneBytes runtimeMs : ℤ) (interval : Nat) : ClientSummary :=
  let s := if s.finalDoneBytes ≠ some doneBytes then
    { s with finalDoneBytes := some doneBytes, finishElapsedMs := some runtimeMs } else s
  if s.firstProgressInterval = none ∧ 0 < doneBytes then
    { s with firstProgressInterval := some interval } else s

def addRate (rateMibS fleetMedian : ℚ) : ClientSummary :=
  let delta := rateMibS - s.meanMibS
  let mean := s.meanMibS + delta / (s.sampleCount + 1)
  { s with
    sampleCount := s.sampleCount + 1
    meanMibS := mean
    meanSquareDelta := s.meanSquareDelta + delta * (rateMibS - mean)
    medianEstimator := s.medianEstimator.bind (·.add rateMibS)
    relativeMedianSum :=
      if 0 < fleetMedian then s.relativeMedianSum + rateMibS / fleetMedian
      else s.relativeMedianSum
    relativeMedianCount :=
      if 0 < fleetMedian then s.relativeMedianCount + 1 else s.relativeMedianCount }

def markMissing : ClientSummary := { s with missingCount := s.missingCount + 1 }

def markInvalid : ClientSummary := { s with invalidCount := s.invalidCount + 1 }

end ClientSummary

/-! ## The analysis of a domain -/

structure AggregatePoint where
  interval : Nat
  elapsedMs : ℤ
  isoTimestamp : String
  throughputMibS : Option ℚ
  iops : Option ℚ
  ioLatencyUs : Option ℚ
  entriesLatencyUs : Option ℚ

/-- `FleetPoint`; its deviation is the square root of the variance. -/
structure FleetPoint where
  interval : Nat
  elapsedMs : ℤ
  isoTimestamp : String
  p10MibS : ℚ
  p50MibS : ℚ
  p90MibS : ℚ
  clientCount : Nat
  meanMibS : ℚ
  varianceMibS : ℚ

/-- `DomainAnalysis`, with the rates that were derived in each interval. -/
structure DomainAnalysis (Client : Type) where
  intervalTimes : List ℤ
  intervalIsoTimestamps : List String
  runtimeToInterval : Dict ℤ Nat
  aggregatePoints : List AggregatePoint
  fleetPoints : List FleetPoint
  clients : Dict Client ClientSummary
  rates : List (Dict Client ℚ)

structure IntervalBuffer (Client : Type) where
  runtimeMs : ℤ
  isoTimestamp : String
  clientRows : Snapshot Client
  aggregateMibS : Option ℚ
  aggregateIops : Option ℚ
  ioLatencyUs : Option ℚ
  entriesLatencyUs : Option ℚ

structure DomainState (Client : Type) where
  analysis : DomainAnalysis Client
  previous : Dict Client PreviousSample
  buffer : Option (IntervalBuffer Client)

def DomainState.new : DomainState Client := ⟨⟨[], [], .empty, [], [], .empty, []⟩, .empty, none⟩

def IntervalBuffer.new (runtimeMs : ℤ) (isoTimestamp : String) : IntervalBuffer Client :=
  ⟨runtimeMs, isoTimestamp, .empty, none, none, none, none⟩

/-! ## One interval -/

/-- `_record_aggregate`: elbencho prints a latency of 0 for an interval without IOs. -/
def recordAggregate (buffer : IntervalBuffer Client) (interval : Nat) : List AggregatePoint :=
  let noIops := buffer.aggregateIops = none ∨ buffer.aggregateIops = some 0
  let ioLatency := if buffer.ioLatencyUs = some 0 ∧ noIops then none else buffer.ioLatencyUs
  let entriesLatency := if buffer.entriesLatencyUs = some 0 then none else buffer.entriesLatencyUs
  if buffer.aggregateMibS = none ∧ buffer.aggregateIops = none ∧ ioLatency = none then []
  else [⟨interval, buffer.runtimeMs, buffer.isoTimestamp, buffer.aggregateMibS,
    buffer.aggregateIops, ioLatency, entriesLatency⟩]

/-- `_record_fleet_statistics`: the point of an interval that has rates. -/
def fleetPoint (rates : Dict Client ℚ) (interval : Nat) (elapsedMs : ℤ) (isoTimestamp : String) :
    Option FleetPoint :=
  let values := rates.values
  if values = 0 then none
  else
    let mean := values.sum / values.card
    let ordered := values.sort
    some ⟨interval, elapsedMs, isoTimestamp, percentileFromSorted ordered 10,
      percentileFromSorted ordered 50, percentileFromSorted ordered 90, values.card, mean,
      (values.map fun value => (value - mean) ^ 2).sum / values.card⟩

variable [DecidableEq Client]

def markMissingClients (clients : Dict Client ClientSummary) (currentRows : Snapshot Client) :
    Dict Client ClientSummary :=
  clients.filterMap fun client summary =>
    some (if currentRows.get client = none then summary.markMissing else summary)

/-- The part of `_derive_interval_rates` that updates the summary of a client with a row. -/
def observeRow (clients : Dict Client ClientSummary) (previous : Dict Client PreviousSample)
    (runtimeMs : ℤ) (interval : Nat) (client : Client) (doneBytes : ℤ) : ClientSummary :=
  let summary := ((clients.get client).getD (.new interval)).observeDoneBytes doneBytes runtimeMs
    interval
  match previous.get client with
  | none => summary
  | some prior =>
    if prior.interval + 1 = interval ∧ deriveRate (some prior) doneBytes runtimeMs interval = none
    then summary.markInvalid else summary

def deriveIntervalRates (previous : Dict Client PreviousSample) (rows : Snapshot Client)
    (runtimeMs : ℤ) (interval : Nat) : Dict Client ℚ :=
  rows.filterMap fun client doneBytes =>
    deriveRate (previous.get client) doneBytes runtimeMs interval

/-- `_flush_interval` of a buffer. -/
def flushBuffer (state : DomainState Client) (buffer : IntervalBuffer Client) :
    DomainState Client :=
  let domain := state.analysis
  let interval := domain.intervalTimes.length
  let missing := markMissingClients domain.clients buffer.clientRows
  let observed := missing.update (buffer.clientRows.filterMap fun client doneBytes =>
    some (observeRow missing state.previous buffer.runtimeMs interval client doneBytes))
  let rates := deriveIntervalRates state.previous buffer.clientRows buffer.runtimeMs interval
  let point := fleetPoint rates interval buffer.runtimeMs buffer.isoTimestamp
  { analysis :=
      { intervalTimes := domain.intervalTimes ++ [buffer.runtimeMs]
        intervalIsoTimestamps := domain.intervalIsoTimestamps ++ [buffer.isoTimestamp]
        runtimeToInterval := domain.runtimeToInterval.set buffer.runtimeMs interval
        aggregatePoints := domain.aggregatePoints ++ recordAggregate buffer interval
        fleetPoints := domain.fleetPoints ++ point.toList
        clients := match point with
          | none => observed
          | some point => observed.filterMap fun client summary =>
              some (match rates.get client with
                | none => summary
                | some rate => summary.addRate rate point.p50MibS)
        rates := domain.rates ++ [rates] }
    previous := state.previous.update (buffer.clientRows.filterMap fun _ doneBytes =>
      some ⟨doneBytes, buffer.runtimeMs, interval⟩)
    buffer := none }

/-! ## The pass -/

/-- `_flush_interval` -/
def flushInterval (state : DomainState Client) : DomainState Client :=
  match state.buffer with
  | none => state
  | some buffer => flushBuffer state buffer

/-- `_advance_buffer`: the state and the buffer that a row belongs to. -/
def advanceBuffer (state : DomainState Client) (row : Row Client) :
    DomainState Client × IntervalBuffer Client :=
  match state.buffer with
  | none => (state, .new row.runtimeMs row.isoTimestamp)
  | some buffer =>
    if buffer.runtimeMs ≠ row.runtimeMs then
      (flushInterval state, .new row.runtimeMs row.isoTimestamp)
    else (state, buffer)

def IntervalBuffer.addRow (buffer : IntervalBuffer Client) (row : Row Client) :
    IntervalBuffer Client :=
  match row.kind with
  | .total mibS iops ioLatencyUs entriesLatencyUs =>
    { buffer with
      aggregateMibS := mibS
      aggregateIops := iops
      ioLatencyUs := ioLatencyUs
      entriesLatencyUs := entriesLatencyUs }
  | .client client (some doneBytes) =>
    { buffer with clientRows := buffer.clientRows.set client doneBytes }
  | .client _ none => buffer
  | .unranked => buffer

def addRow (state : DomainState Client) (row : Row Client) : DomainState Client :=
  let (state, buffer) := advanceBuffer state row
  { state with buffer := some (buffer.addRow row) }

/-- `analyze_live_csv` of one domain. -/
def analyzeLiveCsv (rows : List (Row Client)) : DomainAnalysis Client :=
  (flushInterval (rows.foldl addRow .new)).analysis

end StorageScaleTest.Live
