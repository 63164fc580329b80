import StorageScaleTest.Live.Detail

/-!
# The live object of a results document

What the document and its sidecar keep of one domain, and the rows that are rebuilt from them.
-/

namespace StorageScaleTest.Live

open Samples

/-! ## Clients -/

structure LiveClientId where
  rank : String
  service : String
  deriving DecidableEq, Repr

def LiveClientId.label (client : LiveClientId) : String :=
  if client.service ≠ "" then client.service ++ " [rank " ++ client.rank ++ "]"
  else "worker-" ++ client.rank

/-- `_rank_value`: a rank of digits is written as a number. -/
inductive RankValue
  | number (n : Nat)
  | text (rank : String)
  deriving DecidableEq

def rankValue (rank : String) : RankValue :=
  if rank ≠ "" ∧ rank.toList.all Char.isDigit then .number (Nat.ofDigitChars 10 rank.toList 0)
  else .text rank

/-- `str` of a rank value. -/
def RankValue.str : RankValue → String
  | .number n => toString n
  | .text rank => rank

/-- The columns of `clients_summary` that identify a client. -/
structure SummaryRow where
  label : String
  rank : RankValue
  service : Option String

/-- `_client_row` -/
def clientRow (client : LiveClientId) : SummaryRow where
  label := client.label
  rank := rankValue client.rank
  service := if client.service = "" then none else some client.service

/-- `_document_clients`, which fails for a label that is not in the summary. -/
def documentClients (summary : List SummaryRow) (labels : List String) :
    Option (List LiveClientId) :=
  let byLabel := Dict.empty.setAll (summary.map fun row =>
    (row.label, (⟨row.rank.str, row.service.getD ""⟩ : LiveClientId)))
  labels.mapM byLabel.get

/-! ## Aggregate samples -/

/-- What the code does with the ISO Dates of samples, through Python's dates. -/
structure IsoDates (Date : Type) where
  /-- `_split_iso_date` -/
  split : String → Option Date
  /-- `_format_iso_date` -/
  format : Date → ℤ → String
  /-- The milliseconds from one date to another, rounded. -/
  milliseconds : Date → Date → ℤ

structure AggregateSample where
  elapsedMs : ℤ
  bytesPerS : Option ℤ
  opsPerS : Option ℚ
  ioLatencyAvgUs : Option ℚ
  entriesLatencyAvgUs : Option ℚ
  clockSkewMs : Option ℤ

structure AggregateSeries where
  startTime : Option String
  samples : List AggregateSample

def roundTo (digits : Nat) (value : Option ℚ) : Option ℚ :=
  value.map fun value => Numeric.roundHalfEven (value * 10 ^ digits) / 10 ^ digits

section Dates

variable {Date : Type} (dates : IsoDates Date)

/-- `live_timestamp` -/
def liveTimestamp (startTime : String) (offsetMs : ℤ) : Option String :=
  (dates.split startTime).map (dates.format · offsetMs)

/-- The skew of one sample in `_clock_skews`. -/
def clockSkew (first point : AggregatePoint) : Option ℤ :=
  match dates.split first.isoTimestamp, dates.split point.isoTimestamp with
  | some start, some date =>
    let offsetMs := point.elapsedMs - first.elapsedMs
    let skew := dates.milliseconds start date - offsetMs
    if dates.format start (offsetMs + skew) = point.isoTimestamp then some skew else none
  | _, _ => none

def aggregateSample (skew : Option ℤ) (point : AggregatePoint) : AggregateSample where
  elapsedMs := point.elapsedMs
  bytesPerS := bytesPerS point.throughputMibS
  opsPerS := roundTo 2 point.iops
  ioLatencyAvgUs := roundTo 1 point.ioLatencyUs
  entriesLatencyAvgUs := roundTo 1 point.entriesLatencyUs
  clockSkewMs := skew

/-- `_aggregate_series` -/
def aggregateSeries (points : List AggregatePoint) : AggregateSeries :=
  match points with
  | [] => ⟨none, []⟩
  | first :: _ =>
    if first.isoTimestamp = "" then ⟨none, points.map (aggregateSample none)⟩
    else ⟨some first.isoTimestamp,
      points.map fun point => aggregateSample (clockSkew dates first point) point⟩

/-! ## The document -/

structure LiveObject where
  aggregateSeries : AggregateSeries
  clientsSummary : List SummaryRow

structure ClientSeries where
  clients : List String
  rows : List (ℤ × List (Option ℤ))

/-- `_build_live_object` -/
def buildLiveObject (domain : DomainAnalysis LiveClientId) (ordered : List LiveClientId) :
    LiveObject where
  aggregateSeries := aggregateSeries dates domain.aggregatePoints
  clientsSummary := ordered.map clientRow

/-- `_write_sidecar` -/
def writeSidecar (domain : DomainAnalysis LiveClientId) (ordered : List LiveClientId)
    (rows : List (Row LiveClientId)) : ClientSeries where
  clients := ordered.map (·.label)
  rows := (iterIntervalSamples domain ordered rows).map fun line =>
    (domain.intervalTimes.getD line.interval 0, line.deltas)

/-! ## Rebuilding the rows -/

/-- `_total_row` -/
def totalRow (series : AggregateSeries) (sample : AggregateSample) : Row LiveClientId where
  runtimeMs := sample.elapsedMs
  isoTimestamp :=
    match series.startTime, sample.clockSkewMs with
    | some start, some skew =>
      let origin := (series.samples.head?.map (·.elapsedMs)).getD 0
      (liveTimestamp dates start (sample.elapsedMs - origin + skew)).getD ""
    | _, _ => ""
  kind := .total (sample.bytesPerS.map fun rate : ℤ => (rate : ℚ) / mib) sample.opsPerS
    sample.ioLatencyAvgUs sample.entriesLatencyAvgUs

/-- One delta of `_client_rows`, which fails outside the columns. -/
def addDelta (elapsed : ℤ) (clients : List LiveClientId)
    (found : List (Row LiveClientId) × List ℤ) (delta : Option ℤ × Nat) :
    Option (List (Row LiveClientId) × List ℤ) :=
  match delta.1 with
  | none => some found
  | some bytes =>
    match found.2[delta.2]?, clients[delta.2]? with
    | some prior, some client => some
        (found.1 ++ [⟨elapsed, "", .client client (some (prior + bytes))⟩],
          found.2.set delta.2 (prior + bytes))
    | _, _ => none

/-- `_client_rows`, with the DoneBytes that it leaves. -/
def clientRows (elapsed : ℤ) (clients : List LiveClientId) (done : List ℤ)
    (deltas : List (Option ℤ)) : Option (List (Row LiveClientId) × List ℤ) :=
  deltas.zipIdx.foldlM (addDelta elapsed clients) ([], done)

def placeholder (elapsed : ℤ) : Row LiveClientId := ⟨elapsed, "", .total none none none none⟩

def totals (series : AggregateSeries) : Dict ℤ AggregateSample :=
  Dict.empty.setAll (series.samples.map fun sample => (sample.elapsedMs, sample))

def addLine (live : LiveObject) (clients : List LiveClientId)
    (found : List (Row LiveClientId) × List ℤ) (line : ℤ × List (Option ℤ)) :
    Option (List (Row LiveClientId) × List ℤ) :=
  let total := ((totals live.aggregateSeries).get line.1).map (totalRow dates live.aggregateSeries)
  (clientRows line.1 clients found.2 line.2).map fun (rows, done) =>
    let emitted := total.toList ++ rows
    (found.1 ++ (if emitted.isEmpty then [placeholder line.1] else emitted), done)

/-- `_document_rows` -/
def documentRows (live : LiveObject) (series : ClientSeries) : Option (List (Row LiveClientId)) :=
  (documentClients live.clientsSummary series.clients).bind fun clients =>
    (series.rows.foldlM (addLine dates live clients)
      ([], List.replicate clients.length 0)).map (·.1)

end Dates

end StorageScaleTest.Live
