import StorageScaleTest.Live.FirstPass
import StorageScaleTest.Numeric.Rounding
import Mathlib.Data.Finset.Basic

/-!
# Rates of later passes

The passes that read the rows again and derive each client's interval rates row by row:
`collect_selected_client_detail` and the samples of the sidecar.
-/

namespace StorageScaleTest.Live

open Samples

variable {Client : Type} [DecidableEq Client]

/-! ## Selected clients -/

structure SelectedState (Client : Type) where
  rates : Client → Nat → Option ℚ
  previous : Dict Client PreviousSample

structure SelectedClientDetail (Client : Type) where
  selected : List Client
  ratesByClient : Client → List (Option ℚ)

/-- The body of the loop of `collect_selected_client_detail`. -/
def selectRow (domain : DomainAnalysis Client) (selected : List Client)
    (state : SelectedState Client) (row : Row Client) : SelectedState Client :=
  match row.sample with
  | none => state
  | some (client, doneBytes) =>
    if client ∉ selected then state
    else
      match domain.runtimeToInterval.get row.runtimeMs with
      | none => state
      | some interval =>
        { rates :=
            match deriveRate (state.previous.get client) doneBytes row.runtimeMs interval with
            | none => state.rates
            | some rate => Function.update state.rates client
                (Function.update (state.rates client) interval (some rate))
          previous := state.previous.set client ⟨doneBytes, row.runtimeMs, interval⟩ }

def collectSelectedClientDetail (domain : DomainAnalysis Client) (selected : List Client)
    (rows : List (Row Client)) : SelectedClientDetail Client :=
  let state := rows.foldl (selectRow domain selected) ⟨fun _ _ => none, .empty⟩
  ⟨selected, fun client => (List.range domain.intervalTimes.length).map (state.rates client)⟩

/-! ## Samples of the sidecar -/

/-- `mib_s_to_bytes_per_s` -/
def bytesPerS (rate : Option ℚ) : Option ℤ := rate.map fun rate => Numeric.roundHalfEven (rate * mib)

/-- `_IntervalSamples`: the columns of the clients. -/
structure IntervalSamples (Client : Type) where
  lastDone : Client → Option ℤ
  rates : Client → Option ℤ
  done : Client → Option ℤ

structure SidecarLine where
  interval : Nat
  rates : List (Option ℤ)
  deltas : List (Option ℤ)

namespace IntervalSamples

def new : IntervalSamples Client := ⟨fun _ => none, fun _ => none, fun _ => none⟩

variable (samples : IntervalSamples Client)

def delta (client : Client) : Option ℤ :=
  (samples.done client).map fun done => done - (samples.lastDone client).getD 0

/-- `emit`: the line of an interval and the columns of the next one. -/
def emit (ordered : List Client) (interval : Nat) : SidecarLine × IntervalSamples Client :=
  (⟨interval, ordered.map samples.rates, ordered.map samples.delta⟩,
    ⟨fun client => (samples.done client).or (samples.lastDone client), fun _ => none,
      fun _ => none⟩)

end IntervalSamples

structure SidecarState (Client : Type) where
  previous : Dict Client PreviousSample
  samples : IntervalSamples Client
  pending : Nat
  lines : List SidecarLine

namespace SidecarState

def new : SidecarState Client := ⟨.empty, .new, 0, []⟩

def emitIntervals (ordered : List Client) : Nat → SidecarState Client → SidecarState Client
  | 0, state => state
  | count + 1, state =>
    let (line, samples) := state.samples.emit ordered state.pending
    emitIntervals ordered count
      { state with
        samples := samples
        pending := state.pending + 1
        lines := state.lines ++ [line] }

def emitUntil (ordered : List Client) (interval : Nat) (state : SidecarState Client) :
    SidecarState Client :=
  emitIntervals ordered (interval - state.pending) state

/-- The body of the loop of `_iter_interval_samples`. -/
def sampleRow (domain : DomainAnalysis Client) (ordered : List Client)
    (state : SidecarState Client) (row : Row Client) : SidecarState Client :=
  match row.sample with
  | none => state
  | some (client, doneBytes) =>
    if client ∉ ordered then state
    else
      match domain.runtimeToInterval.get row.runtimeMs with
      | none => state
      | some interval =>
        if interval < state.pending then state
        else
          let state := state.emitUntil ordered interval
          let rate := deriveRate (state.previous.get client) doneBytes row.runtimeMs interval
          { state with
            samples := { state.samples with
              rates := Function.update state.samples.rates client (bytesPerS rate)
              done := Function.update state.samples.done client (some doneBytes) }
            previous := state.previous.set client ⟨doneBytes, row.runtimeMs, interval⟩ }

end SidecarState

/-- `_iter_interval_samples` -/
def iterIntervalSamples (domain : DomainAnalysis Client) (ordered : List Client)
    (rows : List (Row Client)) : List SidecarLine :=
  let state := rows.foldl (SidecarState.sampleRow domain ordered) .new
  (state.emitUntil ordered domain.intervalTimes.length).lines

end StorageScaleTest.Live
