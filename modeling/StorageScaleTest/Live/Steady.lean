import StorageScaleTest.Live.FirstPass
import StorageScaleTest.Numeric.Rounding
import Mathlib.Data.Finset.Lattice.Fold

/-!
# The steady window

The second pass: interval snapshots, sliding windows, the samples at the bounds of the steady
window, and the third pass over chosen clients.
-/

namespace StorageScaleTest.Live

open Samples

variable {Client : Type} [DecidableEq Client]

/-! ## Interval snapshots -/

/-- `_domain_client_rows`: interval, client and DoneBytes of the client rows. -/
def domainClientRows (domain : DomainAnalysis Client) (wanted : Option (Finset Client))
    (rows : List (Row Client)) : List (Nat × Client × ℤ) :=
  rows.filterMap fun row =>
    match row.sample with
    | none => none
    | some (client, doneBytes) =>
      if wanted.any (client ∉ ·) then none
      else (domain.runtimeToInterval.get row.runtimeMs).map fun interval =>
        (interval, client, doneBytes)

/-- The intervals from `current` on that end before `interval`: the first one has the rows. -/
def completed (current interval : Nat) (snapshot : Snapshot Client) : List (Nat × Snapshot Client) :=
  (List.range' current (interval - current)).map fun i =>
    (i, if i = current then snapshot else .empty)

/-- The loop of `_iter_interval_snapshots`. -/
def snapshotsFrom (count : Nat) :
    Nat → Snapshot Client → List (Nat × Client × ℤ) → List (Nat × Snapshot Client)
  | current, snapshot, [] => completed current count snapshot
  | current, snapshot, (interval, client, doneBytes) :: rows =>
    if interval < current then snapshotsFrom count current snapshot rows
    else completed current interval snapshot ++ snapshotsFrom count interval
      ((if current < interval then Dict.empty else snapshot).set client doneBytes) rows

/-- `_iter_interval_snapshots` -/
def iterIntervalSnapshots (domain : DomainAnalysis Client) (wanted : Option (Finset Client))
    (rows : List (Row Client)) : List (Nat × Snapshot Client) :=
  snapshotsFrom domain.intervalTimes.length 0 .empty
    (if domain.clients.keys ≠ ∅ ∧ wanted.all (· ≠ ∅) then domainClientRows domain wanted rows
    else [])

/-! ## Settings and results -/

inductive WindowLabel
  | interval
  | fiveSeconds
  | thirtySeconds
  deriving DecidableEq, Repr

/-- The bounds of an available `SteadyWindow`. -/
structure SteadyWindow where
  startInterval : Nat
  endInterval : Nat
  startMs : ℤ
  endMs : ℤ

/-- `WINDOW_SECONDS` -/
def WindowLabel.seconds : WindowLabel → ℚ
  | .interval => 0
  | .fiveSeconds => 5
  | .thirtySeconds => 30

/-- `window_length_intervals` -/
def windowLengthIntervals (seconds : ℚ) (intervalMs : Nat) : Nat :=
  max 1 (Numeric.roundHalfEven (seconds * 1000 / intervalMs)).toNat

structure SteadySettings where
  window : Option SteadyWindow
  intervalMs : Nat
  blockSizeBytes : Option Nat
  shortfallPercent : ℚ

namespace SteadySettings

def lengthIntervals (settings : SteadySettings) (label : WindowLabel) : Nat :=
  windowLengthIntervals label.seconds settings.intervalMs

def depth (settings : SteadySettings) : Nat :=
  max (settings.lengthIntervals .interval)
    (max (settings.lengthIntervals .fiveSeconds) (settings.lengthIntervals .thirtySeconds))

def shortBelow (settings : SteadySettings) : ℚ := 1 - settings.shortfallPercent / 100

def slowBelow (settings : SteadySettings) : ℚ := 1 - 2 * (settings.shortfallPercent / 100)

def inSteady (settings : SteadySettings) (length interval : Nat) : Bool :=
  match settings.window with
  | none => false
  | some window => (window.startInterval : ℤ) ≤ interval - length ∧ interval ≤ window.endInterval

end SteadySettings

/-- One entry of the aligned lists of `WindowSeries`. -/
structure WindowPoint where
  endInterval : Nat
  endMs : ℤ
  clients : Nat
  jain : Option ℚ
  medianBytes : Option ℚ
  minOverMedian : Option ℚ
  floor : Option ℚ
  inSteady : Bool

/-- The window statistics of `ClientSteady`. -/
structure ClientSteady where
  windows5s : Nat
  short5s : Nat
  slow5s : Nat
  worst5sRatio : Option ℚ
  worst5sMs : Option ℤ
  windows30s : Nat
  short30s : Nat
  worst30sRatio : Option ℚ
  worst30sMs : Option ℤ

def ClientSteady.new : ClientSteady := ⟨0, 0, 0, none, none, 0, 0, none, none⟩

/-! ## One window -/

/-- `_record`: the entry of a window with the given bytes. -/
def windowPoint (settings : SteadySettings) (runtimes : List ℤ) (length interval : Nat)
    (deltas : Dict Client ℤ) : WindowPoint :=
  let values := deltas.values.map fun bytes : ℤ => (bytes : ℚ)
  let count := values.card
  let total := values.sum
  let squares := (values.map (· ^ 2)).sum
  let median := if count = 0 then none else some (percentileFromSorted values.sort 50)
  { endInterval := interval
    endMs := runtimes.getD interval 0
    clients := count
    jain := if 2 ≤ count ∧ 0 < squares then some (total * total / (count * squares)) else none
    medianBytes := median
    minOverMedian := match median with
      | none => none
      | some median =>
        if (2 ≤ count ∧ 0 < squares) ∧ 0 < median then some (values.sort.headD 0 / median) else none
    floor := match settings.blockSizeBytes with
      | none => none
      | some blockSize =>
        if blockSize ≠ 0 ∧ count ≠ 0 ∧ 0 < total then
          let perWindow := total / count / blockSize
          some (perWindow / (perWindow + 1))
        else none
    inSteady := settings.inSteady length interval }

/-- The ratio of a client of a window, as one step of `_record_ratios` records it. -/
def ClientSteady.record (settings : SteadySettings) (label : WindowLabel) (endMs : ℤ)
    (stats : ClientSteady) (ratio : ℚ) : ClientSteady :=
  let worse (worst : Option ℚ) : Bool := worst.all (ratio < ·)
  match label with
  | .fiveSeconds =>
    { stats with
      windows5s := stats.windows5s + 1
      short5s := stats.short5s + (if ratio < settings.shortBelow then 1 else 0)
      slow5s := stats.slow5s + (if ratio < settings.slowBelow then 1 else 0)
      worst5sRatio := if worse stats.worst5sRatio then some ratio else stats.worst5sRatio
      worst5sMs := if worse stats.worst5sRatio then some endMs else stats.worst5sMs }
  | _ =>
    { stats with
      windows30s := stats.windows30s + 1
      short30s := stats.short30s + (if ratio < settings.shortBelow then 1 else 0)
      worst30sRatio := if worse stats.worst30sRatio then some ratio else stats.worst30sRatio
      worst30sMs := if worse stats.worst30sRatio then some endMs else stats.worst30sMs }

/-- `_record_ratios` -/
def recordRatios (settings : SteadySettings) (label : WindowLabel) (endMs : ℤ)
    (clients : Dict Client ClientSteady) (deltas : Dict Client ℤ) (median : ℚ) :
    Dict Client ClientSteady :=
  clients.update (deltas.filterMap fun client bytes =>
    some (((clients.get client).getD .new).record settings label endMs (bytes / median)))

/-! ## The second pass -/

structure SteadyPass (Client : Type) where
  ring : SnapshotRing Client
  lastSeen : Dict Client (ℤ × ℤ)
  atStart : Option (Dict Client (ℤ × ℤ))
  atEnd : Option (Dict Client (ℤ × ℤ))
  steadyResets : Finset Client
  series : WindowLabel → List WindowPoint
  clients : Dict Client ClientSteady

namespace SteadyPass

def new (settings : SteadySettings) (clients : Dict Client ClientSummary) : SteadyPass Client where
  ring := .new settings.depth
  lastSeen := .empty
  atStart := none
  atEnd := none
  steadyResets := ∅
  series := fun _ => []
  clients := clients.filterMap fun _ _ => some .new

variable (pass : SteadyPass Client)

/-- `_capture_bounds` -/
def captureBounds (completed : ℤ) (window : SteadyWindow) : SteadyPass Client :=
  let atStart := pass.atStart = none ∧ (window.startInterval : ℤ) ≤ completed
  let atEnd := pass.atEnd = none ∧ (window.endInterval : ℤ) ≤ completed
  { pass with
    atStart := if atStart then some pass.lastSeen else pass.atStart
    atEnd := if atEnd then some pass.lastSeen else pass.atEnd
    steadyResets := if atEnd then
        pass.ring.resetAt.keys.filter fun client =>
          (pass.ring.resetAt.get client).any ((window.startInterval : ℤ) < ·)
      else pass.steadyResets }

def captureWindow (settings : SteadySettings) (completed : ℤ) : SteadyPass Client :=
  match settings.window with
  | none => pass
  | some window => pass.captureBounds completed window

/-- `_record` of a window with the given bytes. -/
def record (settings : SteadySettings) (runtimes : List ℤ) (label : WindowLabel) (interval : Nat)
    (deltas : Dict Client ℤ) : SteadyPass Client :=
  let point := windowPoint settings runtimes (settings.lengthIntervals label) interval deltas
  { pass with
    series := Function.update pass.series label (pass.series label ++ [point])
    clients := match point.medianBytes with
      | none => pass.clients
      | some median =>
        if point.inSteady ∧ median ≠ 0 ∧ label ≠ .interval then
          recordRatios settings label point.endMs pass.clients deltas median
        else pass.clients }

def recordWindow (settings : SteadySettings) (runtimes : List ℤ) (interval : Nat)
    (label : WindowLabel) : Option (SteadyPass Client) :=
  (pass.ring.deltas interval (interval - settings.lengthIntervals label) none).map fun
    | none => pass
    | some deltas => pass.record settings runtimes label interval deltas

def addSnapshot (runtimes : List ℤ) (interval : Nat) (snapshot : Snapshot Client) :
    SteadyPass Client :=
  { pass with
    ring := pass.ring.add interval snapshot
    lastSeen := pass.lastSeen.update (snapshot.filterMap fun _ doneBytes =>
      some (doneBytes, runtimes.getD interval 0)) }

/-- `complete` -/
def complete (settings : SteadySettings) (runtimes : List ℤ) (interval : Nat)
    (snapshot : Snapshot Client) : Option (SteadyPass Client) :=
  let pass := pass.captureWindow settings (interval - 1)
  let pass := pass.addSnapshot runtimes interval snapshot
  let pass := pass.captureWindow settings interval
  [.interval, .fiveSeconds, .thirtySeconds].foldlM
    (fun pass label => pass.recordWindow settings runtimes interval label) pass

/-- The true division of two integers and its rounding to an integer. -/
def roundedQuotient (a b : ℤ) : Option ℤ :=
  (Numeric.toDouble ((a : ℚ) / b)).map Numeric.roundHalfEven

def steadyDelta (window : SteadyWindow) (client : Client) (stop : ℤ × ℤ) :
    Option (Option ℤ) :=
  match pass.atStart.bind (·.get client) with
  | none => none
  | some start =>
    if client ∈ pass.steadyResets then none
    else if start.2 < stop.2 ∧ start.1 ≤ stop.1 then
      some (roundedQuotient ((stop.1 - start.1) * (window.endMs - window.startMs))
        (stop.2 - start.2))
    else none

/-- `_steady_deltas`, which fails where a quotient is too large for a float. -/
def steadyDeltas (window : SteadyWindow) : Option (Dict Client ℤ) :=
  match pass.atStart, pass.atEnd with
  | some _, some atEnd =>
    let deltas := atEnd.filterMap (pass.steadyDelta window)
    if ∃ client ∈ deltas.keys, deltas.get client = some none then none
    else some (deltas.filterMap fun _ bytes => bytes)
  | _, _ => some .empty

end SteadyPass

/-- The second pass over the rows of a domain, up to `finish`. -/
def steadyPass (settings : SteadySettings) (domain : DomainAnalysis Client)
    (rows : List (Row Client)) : Option (SteadyPass Client) :=
  (iterIntervalSnapshots domain none rows).foldlM
    (fun pass entry => pass.complete settings domain.intervalTimes entry.1 entry.2)
    (.new settings domain.clients)

/-- `all_started_interval` -/
def allStartedInterval (clients : Dict Client ClientSummary) : Option Nat :=
  let started := (clients.filterMap fun _ summary => summary.firstProgressInterval).values
  if started = 0 then none else some (started.fold max 0)

structure SteadyAnalysis (Client : Type) where
  series : WindowLabel → List WindowPoint
  clients : Dict Client ClientSteady

/-- The window series and statistics of `analyze_steady`: where no client moved data there is no
second pass. -/
def analyzeSteady (settings : SteadySettings) (domain : DomainAnalysis Client)
    (rows : List (Row Client)) : Option (SteadyAnalysis Client) :=
  match allStartedInterval domain.clients with
  | none => some ⟨fun _ => [], domain.clients.filterMap fun _ _ => some .new⟩
  | some _ => (steadyPass settings domain rows).map fun pass => ⟨pass.series, pass.clients⟩

/-! ## The third pass -/

/-- `WindowedClientDetail` -/
structure WindowedClientDetail (Client : Type) where
  clients : List Client
  ratesMibS : Client → List (Option ℚ)
  ratios : Client → List (Option ℚ)

/-- One interval of `_client_window_deltas`. -/
def addWindow (length : Nat) (ends : List Nat)
    (found : SnapshotRing Client × Dict Nat (Dict Client ℤ)) (interval : Nat)
    (snapshot : Snapshot Client) : Option (SnapshotRing Client × Dict Nat (Dict Client ℤ)) :=
  let ring := found.1.add interval snapshot
  (ring.deltas interval (interval - length) none).map fun
    | none => (ring, found.2)
    | some deltas => (ring, if interval ∈ ends then found.2.set interval deltas else found.2)

/-- `_client_window_deltas` -/
def clientWindowDeltas (domain : DomainAnalysis Client) (length : Nat) (ends : List Nat)
    (chosen : List Client) (rows : List (Row Client)) : Option (Dict Nat (Dict Client ℤ)) :=
  if ends = [] ∨ chosen = [] then some .empty
  else
    ((iterIntervalSnapshots domain (some chosen.toFinset) rows).foldlM
      (fun found entry => addWindow length ends found entry.1 entry.2)
      (SnapshotRing.new length, Dict.empty)).map (·.2)

/-- `collect_windowed_client_detail` -/
def collectWindowedClientDetail (settings : SteadySettings) (domain : DomainAnalysis Client)
    (steady : SteadyAnalysis Client) (clients : List Client) (rows : List (Row Client)) :
    Option (WindowedClientDetail Client) :=
  let chosen := clients.eraseDups
  let series := steady.series .fiveSeconds
  let length := settings.lengthIntervals .fiveSeconds
  let runtimes := domain.intervalTimes
  (clientWindowDeltas domain length (series.map (·.endInterval)) chosen rows).map fun deltas =>
    let windowBytes (client : Client) (point : WindowPoint) : Option ℤ :=
      ((deltas.get point.endInterval).getD .empty).get client
    { clients := chosen
      ratesMibS := fun client => series.map fun point =>
        let elapsed := runtimes.getD point.endInterval 0 -
          runtimes.getD (point.endInterval - length) 0
        (windowBytes client point).bind fun bytes =>
          if 0 < elapsed then some (bytes * (1000 / elapsed / mib)) else none
      ratios := fun client => series.map fun point =>
        match windowBytes client point, point.medianBytes with
        | some bytes, some median => if median ≠ 0 then some (bytes / median) else none
        | _, _ => none }

end StorageScaleTest.Live
