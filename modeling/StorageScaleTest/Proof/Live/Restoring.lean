import StorageScaleTest.Proof.Live.Dates
import StorageScaleTest.Proof.Live.Sidecar
import StorageScaleTest.Proof.Live.Snapshots

/-!
# Restoring the analysis

The rows that are rebuilt from a document and its sidecar form a stream with the samples of the
original one, and the first pass sees nothing else of it.
-/

namespace StorageScaleTest.Live

open Samples

/-! ## Clients -/

def Canonical (rank : String) : Prop := ∃ n : Nat, rank = toString n

theorem str_rankValue {rank : String} (canonical : Canonical rank) : (rankValue rank).str = rank := by
  obtain ⟨n, rfl⟩ := canonical
  have digits : (toString n).toList = Nat.toDigits 10 n := by
    rw [Nat.toString_eq_ofList_toDigits, String.toList_ofList]
  have nonempty : toString n ≠ "" := by
    intro empty
    have none : (toString n).toList = [] := by rw [empty]; rfl
    rw [digits] at none
    exact Nat.toDigits_ne_nil none
  have all : (toString n).toList.all Char.isDigit = true := by
    rw [digits, List.all_eq_true]
    intro c member
    exact Nat.isDigit_of_mem_toDigits (by decide) (by decide) member
  rw [rankValue, if_pos ⟨nonempty, all⟩, RankValue.str, digits, Nat.ofDigitChars_ten_toDigits]

theorem restored_client {client : LiveClientId} (canonical : Canonical client.rank) :
    (⟨(clientRow client).rank.str, (clientRow client).service.getD ""⟩ : LiveClientId) =
      client := by
  obtain ⟨rank, service⟩ := client
  simp only [clientRow, str_rankValue canonical]
  by_cases standalone : service = ""
  · rw [if_pos standalone, standalone]
    rfl
  · rw [if_neg standalone]
    rfl

theorem documentClients_labels {ordered : List LiveClientId}
    (canonical : ∀ client ∈ ordered, Canonical client.rank)
    (distinct : ∀ a ∈ ordered, ∀ b ∈ ordered, a.label = b.label → a = b) :
    documentClients (ordered.map clientRow) (ordered.map (·.label)) = some ordered := by
  have found : ∀ client ∈ ordered, (Dict.empty.setAll ((ordered.map clientRow).map fun row =>
      (row.label, (⟨row.rank.str, row.service.getD ""⟩ : LiveClientId)))).get client.label =
        some client := by
    intro client member
    apply Dict.get_setAll_of_mem
    · rw [List.map_map, List.mem_map]
      exact ⟨client, member, congrArg (client.label, ·) (restored_client (canonical client member))⟩
    · intro other listed
      rw [List.map_map, List.mem_map] at listed
      obtain ⟨source, held, same⟩ := listed
      rw [Prod.mk.injEq] at same
      rw [← same.2]
      exact (restored_client (canonical source held)).trans
        (distinct source held client member same.1)
  have each : ∀ clients : List LiveClientId, (∀ client ∈ clients, client ∈ ordered) →
      (clients.map (·.label)).mapM (Dict.empty.setAll ((ordered.map clientRow).map fun row =>
        (row.label, (⟨row.rank.str, row.service.getD ""⟩ : LiveClientId)))).get =
          some clients := by
    intro clients inside
    induction clients with
    | nil => rfl
    | cons client clients ih =>
        rw [List.map_cons, List.mapM_cons, found client (inside client List.mem_cons_self),
          ih fun other member => inside other (List.mem_cons_of_mem _ member)]
        rfl
  exact each ordered fun _ member => member

/-! ## The rows of one line -/

theorem foldlM_addDelta (elapsed : ℤ) (f : LiveClientId → Option ℤ) (g : LiveClientId → ℤ)
    (front rest : List LiveClientId) (rows : List (Row LiveClientId)) :
    ((rest.map f).zipIdx front.length).foldlM (addDelta elapsed (front ++ rest))
        (rows, front.map (fun client => g client + (f client).getD 0) ++ rest.map g) =
      some (rows ++ rest.filterMap (fun client => (f client).map fun bytes =>
          ⟨elapsed, "", .client client (some (g client + bytes))⟩),
        (front ++ rest).map fun client => g client + (f client).getD 0) := by
  induction rest generalizing front rows with
  | nil => simp
  | cons client rest ih =>
      have later := ih (front ++ [client])
      simp only [List.length_append, List.length_singleton, List.append_assoc,
        List.singleton_append, List.map_append, List.map_cons, List.map_nil] at later
      have first : ((client :: rest).map f).zipIdx front.length =
          (f client, front.length) :: (rest.map f).zipIdx (front.length + 1) := rfl
      rw [first, List.foldlM_cons]
      cases here : f client with
      | none =>
          have step : addDelta elapsed (front ++ client :: rest)
              (rows, front.map (fun client => g client + (f client).getD 0) ++
                (client :: rest).map g) (none, front.length) =
              some (rows, front.map (fun client => g client + (f client).getD 0) ++
                (client :: rest).map g) := rfl
          rw [step]
          simp only [here, Option.getD_none, Int.add_zero] at later
          simpa [here] using later rows
      | some bytes =>
          have step : addDelta elapsed (front ++ client :: rest)
              (rows, front.map (fun client => g client + (f client).getD 0) ++
                (client :: rest).map g) (some bytes, front.length) =
              some (rows ++ [⟨elapsed, "", .client client (some (g client + bytes))⟩],
                front.map (fun client => g client + (f client).getD 0) ++
                  (g client + bytes) :: rest.map g) := by
            simp [addDelta]
          rw [step]
          simp only [here, Option.getD_some] at later
          exact (later _).trans (by simp [here])

theorem clientRows_columns (elapsed : ℤ) (ordered : List LiveClientId)
    (f : LiveClientId → Option ℤ) (g : LiveClientId → ℤ) :
    clientRows elapsed ordered (ordered.map g) (ordered.map f) =
      some (ordered.filterMap (fun client => (f client).map fun bytes =>
          ⟨elapsed, "", .client client (some (g client + bytes))⟩),
        ordered.map fun client => g client + (f client).getD 0) :=
  foldlM_addDelta elapsed f g [] ordered []

/-! ## The rebuilt stream -/

section

variable {Date : Type} (dates : IsoDates Date) (s : Stream LiveClientId)
  (ordered : List LiveClientId)

def liveOf : LiveObject := buildLiveObject dates (analyzeLiveCsv s.rows) ordered

def sampledRows (i : Nat) : List (Row LiveClientId) :=
  ordered.filterMap fun client => (s.sample client i).map fun doneBytes =>
    ⟨s.runtime i, "", .client client (some doneBytes)⟩

def rebuiltTotal (i : Nat) : Option (Row LiveClientId) :=
  ((totals (liveOf dates s ordered).aggregateSeries).get (s.runtime i)).map
    (totalRow dates (liveOf dates s ordered).aggregateSeries)

def rebuiltRows (i : Nat) : List (Row LiveClientId) :=
  if ((rebuiltTotal dates s ordered i).toList ++ sampledRows s ordered i).isEmpty then
    [placeholder (s.runtime i)]
  else (rebuiltTotal dates s ordered i).toList ++ sampledRows s ordered i

theorem runtimeMs_rebuiltRows (i : Nat) :
    ∀ row ∈ rebuiltRows dates s ordered i, row.runtimeMs = s.runtime i := by
  intro row member
  rw [rebuiltRows] at member
  split at member
  · rw [List.mem_singleton] at member
    rw [member]
    rfl
  · rcases List.mem_append.mp member with total | sampled
    · obtain ⟨sample, found, rfl⟩ := Option.map_eq_some_iff.mp (Option.mem_toList.mp total)
      obtain ⟨source, _, same⟩ := List.mem_map.mp (Dict.mem_of_get_setAll found)
      rw [Prod.mk.injEq] at same
      rw [← same.2]
      exact same.1
    · obtain ⟨client, _, held⟩ := List.mem_filterMap.mp sampled
      obtain ⟨doneBytes, _, rfl⟩ := Option.map_eq_some_iff.mp held
      rfl

theorem rebuiltRows_ne_nil (i : Nat) : rebuiltRows dates s ordered i ≠ [] := by
  rw [rebuiltRows]
  split
  · exact List.cons_ne_nil _ _
  · rename_i some_
    intro none
    rw [none] at some_
    exact some_ rfl

def rebuilt : Stream LiveClientId where
  intervals := (List.range s.intervals.length).map fun i =>
    ⟨s.runtime i, rebuiltRows dates s ordered i, rebuiltRows_ne_nil dates s ordered i,
      runtimeMs_rebuiltRows dates s ordered i⟩
  increasing := by
    rw [List.map_map]
    exact s.map_runtime ▸ s.increasing

theorem rebuilt_interval {i : Nat} (inside : i < s.intervals.length) :
    (rebuilt dates s ordered).intervals[i]? =
      some ⟨s.runtime i, rebuiltRows dates s ordered i, rebuiltRows_ne_nil dates s ordered i,
        runtimeMs_rebuiltRows dates s ordered i⟩ := by
  rw [rebuilt, List.getElem?_map, List.getElem?_range inside]
  rfl

theorem snapshot_rebuilt {i : Nat} {interval : Interval LiveClientId}
    (listed : ∀ client, (s.sample client i).isSome → client ∈ ordered)
    (rows : interval.rows = rebuiltRows dates s ordered i) (client : LiveClientId) :
    interval.snapshot.get client = s.sample client i := by
  have totalless : ∀ row ∈ (rebuiltTotal dates s ordered i).toList, row.sample = none := by
    intro row member
    obtain ⟨sample, _, rfl⟩ := Option.map_eq_some_iff.mp (Option.mem_toList.mp member)
    rfl
  have entries : interval.rows.filterMap (·.sample) =
      ordered.filterMap fun client => (s.sample client i).map (client, ·) := by
    have sampled : (sampledRows s ordered i).filterMap (·.sample) =
        ordered.filterMap fun client => (s.sample client i).map (client, ·) := by
      rw [sampledRows, List.filterMap_filterMap]
      apply List.filterMap_congr
      intro client _
      cases s.sample client i <;> rfl
    have all : ((rebuiltTotal dates s ordered i).toList ++ sampledRows s ordered i).filterMap
        (·.sample) = ordered.filterMap fun client => (s.sample client i).map (client, ·) := by
      rw [List.filterMap_append, List.filterMap_eq_nil_iff.mpr totalless, List.nil_append, sampled]
    rw [rows, rebuiltRows]
    split
    · rename_i nothing
      rw [List.isEmpty_iff.mp nothing] at all
      rw [← all]
      rfl
    · exact all
  rw [interval.snapshot_eq, entries]
  cases held : s.sample client i with
  | none =>
      apply Dict.get_setAll_of_notMem
      intro doneBytes member
      obtain ⟨other, _, found⟩ := List.mem_filterMap.mp member
      obtain ⟨_, sampled, same⟩ := Option.map_eq_some_iff.mp found
      cases same
      rw [held] at sampled
      cases sampled
  | some doneBytes =>
      apply Dict.get_setAll_of_mem
      · apply List.mem_filterMap.mpr
        exact ⟨client, listed client (by rw [held]; rfl), by rw [held]; rfl⟩
      · intro other member
        obtain ⟨_, _, found⟩ := List.mem_filterMap.mp member
        obtain ⟨_, sampled, same⟩ := Option.map_eq_some_iff.mp found
        cases same
        rw [held] at sampled
        cases sampled
        rfl

/-! ## The rows of the document -/

/-- The DoneBytes of a client that a reader has summed before an interval. -/
def summed (client : LiveClientId) (n : Nat) : ℤ :=
  ((lastBefore (s.sample client) n).map (·.2)).getD 0

theorem writtenDelta_eq (client : LiveClientId) (n : Nat) : writtenDelta s.intervals client n =
    (s.sample client n).map fun doneBytes => doneBytes - summed s client n := rfl

theorem summed_succ (client : LiveClientId) (n : Nat) :
    summed s client n + (writtenDelta s.intervals client n).getD 0 = summed s client (n + 1) := by
  rw [writtenDelta_eq, summed, summed, lastBefore]
  cases s.sample client n with
  | none => simp
  | some doneBytes => simp

theorem addLine_written (rows : List (Row LiveClientId)) (n : Nat) :
    addLine dates (liveOf dates s ordered) ordered (rows, ordered.map (summed s · n))
        (s.runtime n, ordered.map (writtenDelta s.intervals · n)) =
      some (rows ++ rebuiltRows dates s ordered n, ordered.map (summed s · (n + 1))) := by
  have sampled : (ordered.filterMap fun client => (writtenDelta s.intervals client n).map fun bytes =>
      (⟨s.runtime n, "", .client client (some (summed s client n + bytes))⟩ : Row LiveClientId)) =
        sampledRows s ordered n := by
    apply List.filterMap_congr
    intro client _
    rw [writtenDelta_eq, Option.map_map]
    congr 1
    funext doneBytes
    simp
  simp only [addLine, clientRows_columns, sampled, summed_succ, Option.map_some]
  rfl

theorem foldlM_addLine (n : Nat) :
    ((List.range n).map fun i => (s.runtime i, ordered.map (writtenDelta s.intervals · i))).foldlM
        (addLine dates (liveOf dates s ordered) ordered)
        ([], List.replicate ordered.length 0) =
      some ((List.range n).flatMap (rebuiltRows dates s ordered), ordered.map (summed s · n)) := by
  induction n with
  | zero =>
      have zero : ordered.map (summed s · 0) = List.replicate ordered.length 0 := List.map_const' ..
      rw [zero]
      rfl
  | succ n ih =>
      rw [List.range_succ, List.map_append, List.foldlM_append, ih]
      simp only [List.map_cons, List.map_nil, List.foldlM_cons, List.foldlM_nil,
        Option.bind_eq_bind, Option.bind_some, Option.pure_def, addLine_written,
        List.flatMap_append, List.flatMap_singleton]

theorem documentRows_rebuilt (canonical : ∀ client ∈ ordered, Canonical client.rank)
    (distinct : ∀ a ∈ ordered, ∀ b ∈ ordered, a.label = b.label → a = b) :
    documentRows dates (liveOf dates s ordered)
      (writeSidecar (analyzeLiveCsv s.rows) ordered s.rows) = some (rebuilt dates s ordered).rows := by
  have lines : (writeSidecar (analyzeLiveCsv s.rows) ordered s.rows).rows =
      (List.range s.intervals.length).map fun i =>
        (s.runtime i, ordered.map (writtenDelta s.intervals · i)) := by
    rw [writeSidecar, iterIntervalSamples_rows, List.map_map, analyzeLiveCsv_rows,
      intervalTimes_flushed]
    rfl
  have clients := documentClients_labels canonical distinct
  rw [documentRows, lines]
  simp only [liveOf, buildLiveObject, writeSidecar]
  rw [clients, Option.bind_some]
  have run := foldlM_addLine dates s ordered s.intervals.length
  simp only [liveOf, buildLiveObject] at run
  rw [run]
  rw [Option.map_some, Stream.rows, rebuilt, List.flatMap_map]

end

/-! ## What the first pass sees -/

def FleetPoint.withoutTimestamp (point : FleetPoint) : FleetPoint := { point with isoTimestamp := "" }

variable {Client : Type} [DecidableEq Client]

/-- Two analyses that agree up to the Total rows and the ISO Dates of their intervals; those of the
kept intervals agree as well, and any other is the same or empty. -/
structure Restores (kept : Nat → Prop) (original rebuilt : DomainAnalysis Client) : Prop where
  intervalTimes : rebuilt.intervalTimes = original.intervalTimes
  clients : rebuilt.clients = original.clients
  rates : rebuilt.rates = original.rates
  fleetPoints : List.Forall₂ (fun point restored =>
    restored.withoutTimestamp = point.withoutTimestamp ∧
      (restored.isoTimestamp = point.isoTimestamp ∨
        restored.isoTimestamp = "" ∧ ¬ kept point.interval))
    original.fleetPoints rebuilt.fleetPoints

omit [DecidableEq Client] in
theorem fleetPoint_congr (rates : Dict Client ℚ) (interval : Nat) (elapsedMs : ℤ)
    {isoTimestamp other : String} {kept : Nat → Prop}
    (dated : other = isoTimestamp ∨ other = "" ∧ ¬ kept interval) :
    List.Forall₂ (fun point restored : FleetPoint =>
      restored.withoutTimestamp = point.withoutTimestamp ∧
        (restored.isoTimestamp = point.isoTimestamp ∨
          restored.isoTimestamp = "" ∧ ¬ kept point.interval))
      (fleetPoint rates interval elapsedMs isoTimestamp).toList
      (fleetPoint rates interval elapsedMs other).toList := by
  by_cases nothing : rates.values = 0
  · simp [fleetPoint, nothing]
  · simp only [fleetPoint, nothing, if_false, Option.toList_some]
    exact .cons ⟨rfl, dated⟩ .nil

theorem flushBuffer_congr {kept : Nat → Prop} {state other : DomainState Client}
    {buffer otherBuffer : IntervalBuffer Client}
    (restores : Restores kept state.analysis other.analysis)
    (previous : other.previous = state.previous)
    (runtime : otherBuffer.runtimeMs = buffer.runtimeMs)
    (rows : otherBuffer.clientRows = buffer.clientRows)
    (dated : otherBuffer.isoTimestamp = buffer.isoTimestamp ∨
      otherBuffer.isoTimestamp = "" ∧ ¬ kept state.analysis.intervalTimes.length) :
    Restores kept (flushBuffer state buffer).analysis (flushBuffer other otherBuffer).analysis ∧
      (flushBuffer other otherBuffer).previous = (flushBuffer state buffer).previous := by
  refine ⟨⟨?_, ?_, ?_, ?_⟩, ?_⟩
  · simp only [flushBuffer, restores.intervalTimes, runtime]
  · simp only [flushBuffer, restores.intervalTimes, restores.clients, previous, runtime, rows]
    by_cases nothing : (deriveIntervalRates state.previous buffer.clientRows buffer.runtimeMs
        state.analysis.intervalTimes.length).values = 0
    · simp [fleetPoint, nothing]
    · simp [fleetPoint, nothing]
  · simp only [flushBuffer, restores.intervalTimes, restores.rates, previous, runtime, rows]
  · simp only [flushBuffer, restores.intervalTimes, previous, runtime, rows]
    exact List.rel_append restores.fleetPoints (fleetPoint_congr _ _ _ dated)
  · simp only [flushBuffer, restores.intervalTimes, previous, runtime, rows]

theorem flushed_congr {kept : Nat → Prop} {intervals others : List (Interval Client)}
    (same : others.map (fun interval => (interval.runtimeMs, interval.snapshot)) =
      intervals.map fun interval => (interval.runtimeMs, interval.snapshot))
    (dated : ∀ i interval other, intervals[i]? = some interval → others[i]? = some other →
      other.buffer.isoTimestamp = interval.buffer.isoTimestamp ∨
        other.buffer.isoTimestamp = "" ∧ ¬ kept i) :
    Restores kept (flushed intervals).analysis (flushed others).analysis ∧
      (flushed others).previous = (flushed intervals).previous := by
  induction intervals using List.reverseRecOn generalizing others with
  | nil =>
      obtain rfl := List.map_eq_nil_iff.mp same
      exact ⟨⟨rfl, rfl, rfl, .nil⟩, rfl⟩
  | append_singleton intervals interval ih =>
      rw [List.map_append] at same
      obtain ⟨front, last, rfl, frontSame, lastSame⟩ := List.map_eq_append_iff.mp same
      obtain ⟨other, rest, rfl, here, nothing⟩ := List.map_eq_cons_iff.mp lastSame
      obtain rfl := List.map_eq_nil_iff.mp nothing
      have length : front.length = intervals.length := by simpa using congrArg List.length frontSame
      have earlier : ∀ i interval other, intervals[i]? = some interval → front[i]? = some other →
          other.buffer.isoTimestamp = interval.buffer.isoTimestamp ∨
            other.buffer.isoTimestamp = "" ∧ ¬ kept i := by
        intro i early restored found place
        have inside := (List.getElem?_eq_some_iff.mp found).1
        apply dated
        · rwa [List.getElem?_append_left inside]
        · rwa [List.getElem?_append_left (length ▸ inside)]
      obtain ⟨restores, previous⟩ := ih frontSame earlier
      rw [Prod.mk.injEq] at here
      rw [flushed_append, flushed_append]
      apply flushBuffer_congr restores previous
      · rw [other.runtimeMs_buffer, interval.runtimeMs_buffer]
        exact here.1
      · exact here.2
      · rw [length_intervalTimes]
        apply dated
        · rw [List.getElem?_concat_length]
        · rw [← length, List.getElem?_concat_length]

/-! ## Restoring -/

theorem samples_rebuilt {Date : Type} (dates : IsoDates Date) (s : Stream LiveClientId)
    {ordered : List LiveClientId}
    (listed : ∀ client, client ∈ ordered ↔ client ∈ (analyzeLiveCsv s.rows).clients.keys) :
    (rebuilt dates s ordered).intervals.map (fun interval =>
      (interval.runtimeMs, interval.snapshot)) =
      s.intervals.map fun interval => (interval.runtimeMs, interval.snapshot) := by
  apply List.ext_getElem?
  intro i
  by_cases inside : i < s.intervals.length
  · rw [List.getElem?_map, List.getElem?_map, rebuilt_interval dates s ordered inside,
      List.getElem?_eq_getElem inside, Option.map_some, Option.map_some]
    have runtime : s.runtime i = s.intervals[i].runtimeMs := by
      rw [Stream.runtime, List.getD_eq_getElem?_getD, List.getElem?_map,
        List.getElem?_eq_getElem inside]
      rfl
    congr 2
    apply Dict.ext_get
    intro client
    rw [snapshot_rebuilt dates s ordered _ rfl, Stream.sample, List.getElem?_eq_getElem inside]
    · rfl
    · intro client sampled
      rw [listed, Dict.mem_keys, analyzeLiveCsv_rows, clients_flushed]
      rw [Stream.sample, List.getElem?_eq_getElem inside] at sampled
      exact ⟨s.intervals[i], List.getElem_mem inside, sampled⟩
  · have short : (rebuilt dates s ordered).intervals.length = s.intervals.length := by
      rw [rebuilt, List.length_map, List.length_range]
    rw [List.getElem?_eq_none (by simpa [short] using inside),
      List.getElem?_eq_none (by simpa using inside)]

/-- An interval has an aggregate sample whose ISO Date the document can write. -/
def Dated {Date : Type} (dates : IsoDates Date) (points : List AggregatePoint) (i : Nat) : Prop :=
  ∃ first ∈ points.head?, ∃ point ∈ points, point.interval = i ∧ Datable dates first point

/-- A rebuilt interval begins with its Total row, or with a row that has no ISO Date. -/
theorem isoTimestamp_rebuiltRows {Date : Type} (dates : IsoDates Date) (s : Stream LiveClientId)
    (ordered : List LiveClientId) (i : Nat) (nonempty : rebuiltRows dates s ordered i ≠ []) :
    ((rebuiltRows dates s ordered i).head nonempty).isoTimestamp =
      ((rebuiltTotal dates s ordered i).map (·.isoTimestamp)).getD "" := by
  have undated : ∀ row ∈ sampledRows s ordered i, row.isoTimestamp = "" := by
    intro row member
    obtain ⟨client, _, held⟩ := List.mem_filterMap.mp member
    obtain ⟨doneBytes, _, rfl⟩ := Option.map_eq_some_iff.mp held
    rfl
  have first : ∀ rows : List (Row LiveClientId), (∀ row ∈ rows, row.isoTimestamp = "") →
      ∀ some_ : rows ≠ [], (rows.head some_).isoTimestamp = "" :=
    fun rows all some_ => all _ (List.head_mem some_)
  unfold rebuiltRows at nonempty ⊢
  generalize rebuiltTotal dates s ordered i = total at nonempty ⊢
  cases total with
  | some row => rfl
  | none =>
      apply first
      intro row member
      split at member
      · rw [List.mem_singleton.mp member]
        rfl
      · exact undated row member

theorem isoTimestamp_rebuilt {Date : Type} (dates : IsoDates Date) (s : Stream LiveClientId)
    (ordered : List LiveClientId) {i : Nat} {interval other : Interval LiveClientId}
    (place : s.intervals[i]? = some interval)
    (found : (rebuilt dates s ordered).intervals[i]? = some other) :
    other.buffer.isoTimestamp = interval.buffer.isoTimestamp ∨ other.buffer.isoTimestamp = "" ∧
      ¬ Dated dates (analyzeLiveCsv s.rows).aggregatePoints i := by
  have inside := (List.getElem?_eq_some_iff.mp place).1
  have runtime : s.runtime i = interval.runtimeMs := by
    rw [Stream.runtime, List.getD_eq_getElem?_getD, List.getElem?_map, place]
    rfl
  rw [rebuilt_interval dates s ordered inside, Option.some.injEq] at found
  rw [other.isoTimestamp_buffer]
  subst found
  dsimp only
  rw [isoTimestamp_rebuiltRows, rebuiltTotal, liveOf, buildLiveObject, analyzeLiveCsv_rows]
  dsimp only
  by_cases sampled : ∃ point ∈ (flushed s.intervals).analysis.aggregatePoints, point.interval = i
  · obtain ⟨point, member, rfl⟩ := sampled
    obtain ⟨_, there, _, elapsed, date⟩ := mem_aggregatePoints member
    rw [place, Option.some.injEq] at there
    subst there
    obtain ⟨first, head⟩ := Option.isSome_iff_exists.mp
      (List.isSome_head?.mpr (List.ne_nil_of_mem member))
    rw [runtime, ← elapsed, totals_of_mem head member fun _ => aggregatePoint_unique member,
      Option.map_some, Option.map_some, Option.getD_some, ← date]
    by_cases datable : Datable dates first point
    · exact .inl (isoTimestamp_totalRow head datable)
    · refine .inr ⟨isoTimestamp_totalRow_undatable datable _, ?_⟩
      rintro ⟨origin, begins, another, listed, same, dated⟩
      rw [head, Option.mem_some_iff] at begins
      subst begins
      obtain ⟨_, there, _, again, _⟩ := mem_aggregatePoints listed
      rw [same, place, Option.some.injEq] at there
      subst there
      rw [aggregatePoint_unique member listed (again.trans elapsed.symm)] at dated
      exact datable dated
  · right
    rw [totals_eq_none]
    · refine ⟨rfl, ?_⟩
      rintro ⟨_, _, point, member, same, _⟩
      exact sampled ⟨point, member, same⟩
    · intro point member same
      obtain ⟨found, there, _, elapsed, _⟩ := mem_aggregatePoints member
      have here : (s.intervals.map (·.runtimeMs))[i]? = some (s.runtime i) := by
        rw [List.getElem?_map, place, runtime]
        rfl
      have again : (s.intervals.map (·.runtimeMs))[point.interval]? = some (s.runtime i) := by
        rw [List.getElem?_map, there, ← same, elapsed]
        rfl
      have index : some point.interval = some i := by
        rw [← (runtimeToInterval_flushed s.increasing _ _).mpr here,
          ← (runtimeToInterval_flushed s.increasing _ _).mpr again]
      exact sampled ⟨point, member, Option.some.inj index⟩

/-- The rows of the document restore the analysis of a stream up to the Total rows and the ISO
Dates of the intervals without an aggregate sample that has one. -/
theorem sidecar_restores {Date : Type} (dates : IsoDates Date) (s : Stream LiveClientId)
    (ordered : List LiveClientId)
    (listed : ∀ client, client ∈ ordered ↔ client ∈ (analyzeLiveCsv s.rows).clients.keys)
    (canonical : ∀ client ∈ ordered, Canonical client.rank)
    (distinct : ∀ a ∈ ordered, ∀ b ∈ ordered, a.label = b.label → a = b) :
    ∃ rows, documentRows dates (buildLiveObject dates (analyzeLiveCsv s.rows) ordered)
        (writeSidecar (analyzeLiveCsv s.rows) ordered s.rows) = some rows ∧
      Restores (Dated dates (analyzeLiveCsv s.rows).aggregatePoints) (analyzeLiveCsv s.rows)
        (analyzeLiveCsv rows) := by
  refine ⟨_, documentRows_rebuilt dates s ordered canonical distinct, ?_⟩
  have restored := (flushed_congr (samples_rebuilt dates s listed) fun _ _ _ =>
    isoTimestamp_rebuilt dates s ordered).1
  rwa [analyzeLiveCsv_rows, analyzeLiveCsv_rows] at *

/-! ## ISO Dates -/

def minute (second : Nat) : String :=
  "2026-01-01T00:00:" ++ (if second < 10 then "0" else "") ++ toString second

def minuteDates : IsoDates ℤ where
  split text := ((List.range 60).find? (minute · = text)).map fun second => 1000 * second
  format start offsetMs := minute ((start + offsetMs) / 1000).toNat
  milliseconds start date := date - start

def service0 : LiveClientId := ⟨"0", "host0:1611"⟩

def service1 : LiveClientId := ⟨"1", "host1:1611"⟩

/-- Two services: the second is missing once and then starts again, the first has two rows in the
interval without a Total row, and neither has a value in the last interval. -/
def sampled : Stream LiveClientId where
  intervals := [
    ⟨1000, [⟨1000, minute 1, .total (some 1) (some 2) none none⟩,
      ⟨1000, minute 1, .client service0 (some 100)⟩,
      ⟨1000, minute 1, .client service1 (some 50)⟩], by simp, by simp⟩,
    ⟨2000, [⟨2000, minute 2, .client service0 (some 300)⟩,
      ⟨2000, minute 2, .total (some 1) (some 2) none none⟩], by simp, by simp⟩,
    ⟨3000, [⟨3000, minute 3, .client service0 (some 600)⟩,
      ⟨3000, minute 3, .client service1 (some 250)⟩,
      ⟨3000, minute 3, .client service0 (some 610)⟩], by simp, by simp⟩,
    ⟨4000, [⟨4000, minute 4, .total (some 1) (some 2) none none⟩,
      ⟨4000, minute 4, .client service0 (some 650)⟩,
      ⟨4000, minute 4, .client service1 (some 40)⟩], by simp, by simp⟩,
    ⟨5000, [⟨5000, minute 5, .client service0 none⟩], by simp, by simp⟩]
  increasing := by decide

theorem listed_sampled (client : LiveClientId) : client ∈ [service0, service1] ↔
    client ∈ (analyzeLiveCsv sampled.rows).clients.keys := by
  have keys : (analyzeLiveCsv sampled.rows).clients.keys = {service0, service1} := by
    decide +kernel
  rw [keys, List.mem_pair, Finset.mem_insert, Finset.mem_singleton]

theorem dates_rebuilt_sampled :
    (documentRows minuteDates
      (buildLiveObject minuteDates (analyzeLiveCsv sampled.rows) [service0, service1])
      (writeSidecar (analyzeLiveCsv sampled.rows) [service0, service1] sampled.rows)).map
        (fun rows => ((analyzeLiveCsv rows).fleetPoints.map (·.isoTimestamp),
          ((analyzeLiveCsv rows).clients.get service1).map fun summary =>
            (summary.missingCount, summary.invalidCount, summary.finalDoneBytes))) =
      some ([minute 2, "", minute 4], some (2, 1, some 40)) := by
  decide +kernel

theorem sidecar_restores_sampled : ∃ rows,
    documentRows minuteDates
        (buildLiveObject minuteDates (analyzeLiveCsv sampled.rows) [service0, service1])
        (writeSidecar (analyzeLiveCsv sampled.rows) [service0, service1] sampled.rows) =
      some rows ∧
      Restores (Dated minuteDates (analyzeLiveCsv sampled.rows).aggregatePoints)
        (analyzeLiveCsv sampled.rows) (analyzeLiveCsv rows) ∧
      (analyzeLiveCsv rows).fleetPoints.map (·.isoTimestamp) = [minute 2, "", minute 4] ∧
      ((analyzeLiveCsv rows).clients.get service1).map (fun summary =>
        (summary.missingCount, summary.invalidCount, summary.finalDoneBytes)) =
          some (2, 1, some 40) := by
  obtain ⟨rows, written, restores⟩ : ∃ rows, documentRows minuteDates
      (buildLiveObject minuteDates (analyzeLiveCsv sampled.rows) [service0, service1])
      (writeSidecar (analyzeLiveCsv sampled.rows) [service0, service1] sampled.rows) =
        some rows ∧
      Restores (Dated minuteDates (analyzeLiveCsv sampled.rows).aggregatePoints)
        (analyzeLiveCsv sampled.rows) (analyzeLiveCsv rows) := by
    apply sidecar_restores minuteDates sampled [service0, service1] listed_sampled
    · intro client member
      rcases List.mem_pair.mp member with rfl | rfl
      · exact ⟨0, rfl⟩
      · exact ⟨1, rfl⟩
    · intro a first b second
      rcases List.mem_pair.mp first with rfl | rfl <;> rcases List.mem_pair.mp second with rfl | rfl <;>
        decide +kernel
  have dates := dates_rebuilt_sampled
  rw [written, Option.map_some, Option.some.injEq, Prod.mk.injEq] at dates
  exact ⟨rows, written, restores, dates.1, dates.2⟩

/-- The fleet point of the interval without a Total row loses its ISO Date. -/
theorem sampled_loses_date :
    (analyzeLiveCsv sampled.rows).fleetPoints.map (·.isoTimestamp) =
      [minute 2, minute 3, minute 4] ∧
    (documentRows minuteDates
      (buildLiveObject minuteDates (analyzeLiveCsv sampled.rows) [service0, service1])
      (writeSidecar (analyzeLiveCsv sampled.rows) [service0, service1] sampled.rows)).map
        (fun rows => (analyzeLiveCsv rows).fleetPoints.map (·.isoTimestamp)) =
      some [minute 2, "", minute 4] := by
  decide +kernel

end StorageScaleTest.Live
