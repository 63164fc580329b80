import StorageScaleTest.Live.Median
import Mathlib.Data.Int.ConditionallyCompleteOrder
import Mathlib.Order.Fin.Basic
import Mathlib.Order.Interval.Set.Basic
import Mathlib.Tactic.FieldSimp
import Mathlib.Tactic.Linarith
import Mathlib.Tactic.Ring

/-!
# The markers of the median estimator

The five heights stay in order between the extremes of the stream, the five positions stay apart,
and so no adjustment divides by zero.
-/

namespace StorageScaleTest.Live

theorem divide_eq {a b : ℚ} (nonzero : b ≠ 0) : divide a b = some (a / b) := if_neg nonzero

/-! ## Changing one value of an ordered family -/

section Update

variable {ι α : Type} [LinearOrder ι] [LinearOrder α] {f : ι → α} {i : ι} {c : α}

theorem monotone_update_of (mono : Monotone f) (below : ∀ j < i, f j ≤ c)
    (above : ∀ j, i < j → c ≤ f j) : Monotone (Function.update f i c) := by
  intro j k le
  by_cases atJ : j = i
  · by_cases atK : k = i
    · rw [atJ, atK]
    · rw [atJ, Function.update_self, Function.update_of_ne atK]
      exact above k (lt_of_le_of_ne (atJ ▸ le) (Ne.symm atK))
  · rw [Function.update_of_ne atJ]
    by_cases atK : k = i
    · rw [atK, Function.update_self]
      exact below j (lt_of_le_of_ne (atK ▸ le) atJ)
    · rw [Function.update_of_ne atK]
      exact mono le

theorem strictMono_update_of (mono : StrictMono f) (below : ∀ j < i, f j < c)
    (above : ∀ j, i < j → c < f j) : StrictMono (Function.update f i c) := by
  intro j k lt
  by_cases atJ : j = i
  · rw [atJ, Function.update_self, Function.update_of_ne (atJ ▸ lt.ne')]
    exact above k (atJ ▸ lt)
  · rw [Function.update_of_ne atJ]
    by_cases atK : k = i
    · rw [atK, Function.update_self]
      exact below j (atK ▸ lt)
    · rw [Function.update_of_ne atK]
      exact mono lt

end Update

/-! ## The inner markers -/

inductive Inner : Fin 5 → Prop
  | second : Inner 1
  | third : Inner 2
  | fourth : Inner 3

theorem Inner.le_prev {idx j : Fin 5} (inner : Inner idx) (lt : j < idx) : j ≤ idx - 1 := by
  rcases inner with ⟨⟩ | ⟨⟩ | ⟨⟩ <;> revert j <;> decide

theorem Inner.next_le {idx j : Fin 5} (inner : Inner idx) (lt : idx < j) : idx + 1 ≤ j := by
  rcases inner with ⟨⟩ | ⟨⟩ | ⟨⟩ <;> revert j <;> decide

theorem Inner.prev_lt {idx : Fin 5} (inner : Inner idx) : idx - 1 < idx := by
  rcases inner with ⟨⟩ | ⟨⟩ | ⟨⟩ <;> decide

theorem Inner.lt_next {idx : Fin 5} (inner : Inner idx) : idx < idx + 1 := by
  rcases inner with ⟨⟩ | ⟨⟩ | ⟨⟩ <;> decide

namespace Markers

structure Ordered (m : Markers) : Prop where
  heights : Monotone m.heights
  positions : StrictMono m.positions

structure SameEnds (m after : Markers) : Prop where
  lowest : after.heights 0 = m.heights 0
  highest : after.heights 4 = m.heights 4
  first : after.positions 0 = m.positions 0
  last : after.positions 4 = m.positions 4

variable {m : Markers} {idx : Fin 5}

theorem Ordered.gap (ordered : Ordered m) {i j : Fin 5} (lt : i < j) :
    (m.positions j : ℚ) - m.positions i ≠ 0 := by
  have apart : (m.positions i : ℚ) < m.positions j := by exact_mod_cast ordered.positions lt
  exact (sub_pos.mpr apart).ne'

theorem exists_parabolicHeight (ordered : Ordered m) (inner : Inner idx) (direction : ℤ) :
    ∃ height, m.parabolicHeight idx direction = some height := by
  have next := ordered.gap inner.lt_next
  have prev := ordered.gap inner.prev_lt
  have both := ordered.gap (inner.prev_lt.trans inner.lt_next)
  simp only [parabolicHeight, divide_eq next, divide_eq prev, divide_eq both, Option.bind_eq_bind,
    Option.bind_some]
  exact ⟨_, rfl⟩

theorem rise_between {rise gap : ℚ} (up : 0 ≤ rise) (wide : 1 ≤ gap) :
    0 ≤ rise / gap ∧ rise / gap ≤ rise :=
  ⟨div_nonneg up (by linarith), div_le_self up wide⟩

theorem exists_linearHeight (ordered : Ordered m) (inner : Inner idx) {direction : ℤ}
    (unit : direction = 1 ∨ direction = -1) :
    ∃ height, m.linearHeight idx direction = some height ∧
      m.heights (idx - 1) ≤ height ∧ height ≤ m.heights (idx + 1) := by
  have up := ordered.heights inner.lt_next.le
  have down := ordered.heights inner.prev_lt.le
  rcases unit with rfl | rfl
  · have wide : (1 : ℚ) ≤ m.positions (idx + 1) - m.positions idx := by
      have apart := ordered.positions inner.lt_next
      exact_mod_cast (by omega : (1 : ℤ) ≤ m.positions (idx + 1) - m.positions idx)
    obtain ⟨low, high⟩ := rise_between (sub_nonneg.mpr up) wide
    refine ⟨m.heights idx + (m.heights (idx + 1) - m.heights idx) /
      (m.positions (idx + 1) - m.positions idx), ?_, by linarith, by linarith⟩
    simp [linearHeight, divide_eq (ordered.gap inner.lt_next)]
  · have wide : (1 : ℚ) ≤ m.positions idx - m.positions (idx - 1) := by
      have apart := ordered.positions inner.prev_lt
      exact_mod_cast (by omega : (1 : ℤ) ≤ m.positions idx - m.positions (idx - 1))
    obtain ⟨low, high⟩ := rise_between (sub_nonneg.mpr down) wide
    have nonzero : (m.positions (idx - 1) : ℚ) - m.positions idx ≠ 0 := by
      have gap := ordered.gap inner.prev_lt
      intro zero
      exact gap (by linarith)
    refine ⟨m.heights idx - (m.heights idx - m.heights (idx - 1)) /
      (m.positions idx - m.positions (idx - 1)), ?_, by linarith, by linarith⟩
    have gap := ordered.gap inner.prev_lt
    have slope : ((-1 : ℤ) : ℚ) * (m.heights (idx - 1) - m.heights idx) /
        (m.positions (idx - 1) - m.positions idx) =
        -((m.heights idx - m.heights (idx - 1)) / (m.positions idx - m.positions (idx - 1))) := by
      push_cast
      field_simp
      ring
    simp only [linearHeight, divide_eq nonzero, Option.bind_eq_bind, Option.bind_some,
      show ¬ (0 : ℤ) < -1 by decide, if_false, slope, Option.pure_def, Option.some.injEq]
    ring

theorem Ordered.update (ordered : Ordered m) (inner : Inner idx) {height : ℚ} {position : ℤ}
    (above : m.heights (idx - 1) ≤ height) (below : height ≤ m.heights (idx + 1))
    (after : m.positions (idx - 1) < position) (before : position < m.positions (idx + 1)) :
    Ordered { m with
      heights := Function.update m.heights idx height
      positions := Function.update m.positions idx position } := by
  constructor
  · apply monotone_update_of ordered.heights
    · intro j lt
      exact (ordered.heights (inner.le_prev lt)).trans above
    · intro j lt
      exact below.trans (ordered.heights (inner.next_le lt))
  · apply strictMono_update_of ordered.positions
    · intro j lt
      exact (ordered.positions.monotone (inner.le_prev lt)).trans_lt after
    · intro j lt
      exact before.trans_le (ordered.positions.monotone (inner.next_le lt))

theorem sameEnds_update (inner : Inner idx) (height : ℚ) (position : ℤ) :
    SameEnds m { m with
      heights := Function.update m.heights idx height
      positions := Function.update m.positions idx position } := by
  have notFirst : (0 : Fin 5) ≠ idx := by rcases inner with ⟨⟩ | ⟨⟩ | ⟨⟩ <;> decide
  have notLast : (4 : Fin 5) ≠ idx := by rcases inner with ⟨⟩ | ⟨⟩ | ⟨⟩ <;> decide
  constructor
  · exact Function.update_of_ne notFirst _ _
  · exact Function.update_of_ne notLast _ _
  · exact Function.update_of_ne notFirst _ _
  · exact Function.update_of_ne notLast _ _

theorem direction_cases (m : Markers) (idx : Fin 5) :
    m.direction idx = 0 ∨ m.direction idx = 1 ∨ m.direction idx = -1 := by
  simp only [direction]
  split_ifs <;> simp

theorem canMove_room (unit : m.direction idx = 1 ∨ m.direction idx = -1)
    (ordered : Ordered m) (inner : Inner idx)
    (can : m.canMove idx (m.direction idx) = true) :
    m.positions (idx - 1) < m.positions idx + m.direction idx ∧
      m.positions idx + m.direction idx < m.positions (idx + 1) := by
  have prev := ordered.positions inner.prev_lt
  have next := ordered.positions inner.lt_next
  simp only [canMove, decide_eq_true_eq] at can
  omega

theorem adjustMarker_ordered (ordered : Ordered m) (inner : Inner idx) :
    ∃ after, m.adjustMarker idx = some after ∧ Ordered after ∧ SameEnds m after := by
  by_cases stays : m.direction idx = 0 ∨ ¬ m.canMove idx (m.direction idx)
  · exact ⟨m, by rw [adjustMarker, if_pos stays], ordered, ⟨rfl, rfl, rfl, rfl⟩⟩
  have unit := (direction_cases m idx).resolve_left fun zero => stays (.inl zero)
  have can : m.canMove idx (m.direction idx) = true := by
    by_contra cannot
    exact stays (.inr cannot)
  obtain ⟨after, before⟩ := canMove_room unit ordered inner can
  obtain ⟨candidate, parabolic⟩ := exists_parabolicHeight ordered inner (m.direction idx)
  obtain ⟨linear, isLinear, above, below⟩ := exists_linearHeight ordered inner unit
  simp only [adjustMarker, if_neg stays, parabolic, isLinear, Option.bind_eq_bind,
    Option.bind_some, Option.pure_def]
  by_cases inside : m.heights (idx - 1) < candidate ∧ candidate < m.heights (idx + 1)
  · simp only [inside, and_self, if_true]
    exact ⟨_, rfl, ordered.update inner inside.1.le inside.2.le after before,
      sameEnds_update inner _ _⟩
  · simp only [inside, if_false]
    exact ⟨_, rfl, ordered.update inner above below after before, sameEnds_update inner _ _⟩

theorem SameEnds.trans {m between after : Markers} (one : SameEnds m between)
    (two : SameEnds between after) : SameEnds m after :=
  ⟨two.lowest.trans one.lowest, two.highest.trans one.highest, two.first.trans one.first,
    two.last.trans one.last⟩

theorem adjustMarkers_ordered (ordered : Ordered m) :
    ∃ after, m.adjustMarkers = some after ∧ Ordered after ∧ SameEnds m after := by
  obtain ⟨m₁, is₁, ordered₁, same₁⟩ := adjustMarker_ordered ordered .second
  obtain ⟨m₂, is₂, ordered₂, same₂⟩ := adjustMarker_ordered ordered₁ .third
  obtain ⟨m₃, is₃, ordered₃, same₃⟩ := adjustMarker_ordered ordered₂ .fourth
  refine ⟨m₃, ?_, ordered₃, (same₁.trans same₂).trans same₃⟩
  simp only [adjustMarkers, List.foldlM_cons, List.foldlM_nil, is₁, is₂, is₃,
    Option.bind_eq_bind, Option.bind_some, Option.pure_def]

/-! ## One observation -/

theorem findMarker_spec (mono : Monotone m.heights) (value : ℚ) :
    (m.findMarker value).2 < 4 ∧ (m.findMarker value).1.positions = m.positions ∧
      Monotone (m.findMarker value).1.heights ∧
      (m.findMarker value).1.heights 0 = min (m.heights 0) value ∧
      (m.findMarker value).1.heights 4 = max (m.heights 4) value := by
  have ends : m.heights 0 ≤ m.heights 4 := mono (by decide)
  unfold findMarker
  split
  · next low =>
      refine ⟨show 0 < 4 by decide, rfl, ?_, ?_, ?_⟩
      · apply monotone_update_of mono
        · intro j lt
          exact absurd lt (Fin.not_lt_zero j)
        · intro j _
          exact low.le.trans (mono (Fin.zero_le j))
      · show Function.update m.heights 0 value 0 = _
        rw [Function.update_self, min_eq_right low.le]
      · show Function.update m.heights 0 value 4 = _
        rw [Function.update_of_ne (by decide), max_eq_left (low.le.trans ends)]
  · next notLow =>
      have high := not_lt.mp notLow
      split
      · next top =>
          refine ⟨show 3 < 4 by decide, rfl, ?_, ?_, ?_⟩
          · apply monotone_update_of mono
            · intro j _
              exact (mono (Fin.le_last j)).trans top
            · intro j lt
              exact absurd lt (not_lt.mpr (Fin.le_last j))
          · show Function.update m.heights 4 value 0 = _
            rw [Function.update_of_ne (by decide), min_eq_left high]
          · show Function.update m.heights 4 value 4 = _
            rw [Function.update_self, max_eq_right top]
      · next notTop =>
          refine ⟨?_, rfl, mono, (min_eq_left high).symm, (max_eq_left (not_le.mp notTop).le).symm⟩
          cases found : ([0, 1, 2, 3] : List (Fin 5)).find? _ with
          | none => exact show 3 < 4 by decide
          | some i =>
              have member := List.mem_of_find?_eq_some found
              have small : ∀ i ∈ ([0, 1, 2, 3] : List (Fin 5)), i.val < 4 := by decide
              exact small i member

theorem advance_ordered (ordered : Ordered m) (marker : Nat) : Ordered (m.advance marker) := by
  constructor
  · exact ordered.heights
  · intro i j lt
    have apart := ordered.positions lt
    simp only [advance]
    split_ifs <;> omega

theorem add_ordered (ordered : Ordered m) (value : ℚ) :
    ∃ after, m.add value = some after ∧ Ordered after ∧
      after.heights 0 = min (m.heights 0) value ∧ after.heights 4 = max (m.heights 4) value ∧
      after.positions 0 = m.positions 0 ∧ after.positions 4 = m.positions 4 + 1 := by
  obtain ⟨marker, positions, heights, lowest, highest⟩ := findMarker_spec ordered.heights value
  have found : Ordered (m.findMarker value).1 := ⟨heights, positions ▸ ordered.positions⟩
  obtain ⟨after, adjusted, kept, same⟩ :=
    adjustMarkers_ordered (advance_ordered found (m.findMarker value).2)
  refine ⟨after, adjusted, kept, same.lowest.trans lowest, same.highest.trans highest, ?_, ?_⟩
  · rw [same.first, ← positions]
    simp [advance]
  · rw [same.last, ← positions]
    simp only [advance]
    rw [if_pos (show (m.findMarker value).2 < ((4 : Fin 5) : Nat) from marker)]

end Markers

/-! ## The sorted observations -/

theorem pairwise_sorted (values : List ℚ) : (sorted values).Pairwise (· ≤ ·) := by
  have ordered := @List.pairwise_mergeSort _ (fun a b : ℚ => decide (a ≤ b))
    (fun a b c ab bc => by
      simp only [decide_eq_true_eq] at ab bc ⊢
      exact ab.trans bc)
    (fun a b => by
      simp only [Bool.or_eq_true, decide_eq_true_eq]
      exact le_total a b) values
  rw [sorted]
  simpa only [decide_eq_true_eq] using ordered

theorem sorted_perm (values : List ℚ) : (sorted values).Perm values := List.mergeSort_perm _ _

def median (values : List ℚ) : ℚ :=
  let middle := values.length / 2
  if values = [] then 0
  else if values.length % 2 = 1 then (sorted values).getD middle 0
  else ((sorted values).getD (middle - 1) 0 + (sorted values).getD middle 0) / 2

/-- With `k` below and `k` above it, or one more, the middle position is `k` or halfway on. -/
theorem percentileFromSorted_odd {ordered : List ℚ} {k : Nat} (odd : ordered.length = 2 * k + 1) :
    percentileFromSorted ordered 50 = ordered.getD k 0 := by
  have position : ((ordered.length : ℚ) - 1) * 50 / 100 = (k : ℤ) := by
    rw [odd]
    push_cast
    ring
  match ordered, odd, position with
  | [only], odd, _ =>
      obtain rfl : k = 0 := by simpa using odd
      rfl
  | a :: b :: rest, _, position =>
      rw [percentileFromSorted]
      · simp only [position, Int.floor_intCast, Int.ceil_intCast, if_true, Int.toNat_natCast]
      · simp
      · simp

theorem percentileFromSorted_even {ordered : List ℚ} {k : Nat} (even : ordered.length = 2 * k + 2) :
    percentileFromSorted ordered 50 = (ordered.getD k 0 + ordered.getD (k + 1) 0) / 2 := by
  have position : ((ordered.length : ℚ) - 1) * 50 / 100 = k + 1 / 2 := by
    rw [even]
    push_cast
    ring
  have lower : ⌊(k : ℚ) + 1 / 2⌋ = k := by
    rw [Int.floor_eq_iff]
    constructor <;> push_cast <;> linarith
  have upper : ⌈(k : ℚ) + 1 / 2⌉ = (k + 1 : Nat) := by
    rw [Int.ceil_eq_iff]
    constructor <;> push_cast <;> linarith
  match ordered, even, position with
  | a :: b :: rest, _, position =>
      rw [percentileFromSorted]
      · have apart : ((k : ℤ) = ((k + 1 : Nat) : ℤ)) = False := by
          simp
        simp only [position, lower, upper, apart, if_false, Int.toNat_natCast]
        push_cast
        ring
      · simp
      · simp

theorem percentile_fifty (values : List ℚ) : percentile values 50 = median values := by
  have length : (sorted values).length = values.length := (sorted_perm values).length_eq
  rw [percentile, median]
  by_cases none : values = []
  · simp [none, sorted, percentileFromSorted]
  have positive : 0 < values.length := List.length_pos_iff.mpr none
  rw [if_neg none]
  by_cases odd : values.length % 2 = 1
  · rw [if_pos odd]
    exact percentileFromSorted_odd (by omega)
  · rw [if_neg odd, @percentileFromSorted_even _ (values.length / 2 - 1) (by omega),
      Nat.sub_add_cancel (by omega)]

/-! ## A stream of observations -/

structure Tracks (m : Markers) (observations : List ℚ) : Prop where
  ordered : m.Ordered
  lowest : IsLeast {x | x ∈ observations} (m.heights 0)
  highest : IsGreatest {x | x ∈ observations} (m.heights 4)
  first : m.positions 0 = 1
  last : m.positions 4 = observations.length

theorem isLeast_append {observations : List ℚ} {least : ℚ}
    (isLeast : IsLeast {x | x ∈ observations} least) (value : ℚ) :
    IsLeast {x | x ∈ observations ++ [value]} (min least value) := by
  have union : {x | x ∈ observations ++ [value]} = {x | x ∈ observations} ∪ {value} := by
    ext x
    simp [or_comm]
  rw [union]
  exact isLeast.union isLeast_singleton

theorem isGreatest_append {observations : List ℚ} {greatest : ℚ}
    (isGreatest : IsGreatest {x | x ∈ observations} greatest) (value : ℚ) :
    IsGreatest {x | x ∈ observations ++ [value]} (max greatest value) := by
  have union : {x | x ∈ observations ++ [value]} = {x | x ∈ observations} ∪ {value} := by
    ext x
    simp [or_comm]
  rw [union]
  exact isGreatest.union isGreatest_singleton

theorem tracks_initialize {observations : List ℚ} (five : observations.length = 5) :
    Tracks (.initializeMarkers (sorted observations)) observations := by
  have perm := sorted_perm observations
  have pairs := pairwise_sorted observations
  have length : (sorted observations).length = 5 := perm.length_eq.trans five
  have entry : ∀ (i : Nat) (inside : i < 5), (sorted observations).getD i 0 =
      (sorted observations)[i] := by
    intro i inside
    rw [List.getD_eq_getElem?_getD, List.getElem?_eq_getElem (by omega), Option.getD_some]
  have mono : Monotone fun i : Fin 5 => (sorted observations).getD i 0 := by
    intro i j le
    show (sorted observations).getD i 0 ≤ (sorted observations).getD j 0
    rw [entry i i.isLt, entry j j.isLt]
    rcases le.eq_or_lt with rfl | lt
    · exact le_rfl
    · exact List.pairwise_iff_getElem.mp pairs i j (by omega) (by omega) lt
  have held : ∀ i : Fin 5, (sorted observations).getD i 0 ∈ observations := by
    intro i
    rw [entry i i.isLt]
    exact perm.mem_iff.mp (List.getElem_mem _)
  have place : ∀ x ∈ observations, ∃ i : Fin 5, (sorted observations).getD i 0 = x := by
    intro x member
    obtain ⟨i, inside, rfl⟩ := List.getElem_of_mem (perm.mem_iff.mpr member)
    exact ⟨⟨i, by omega⟩, entry i (by omega)⟩
  constructor
  · constructor
    · exact mono
    · intro i j lt
      show (i : ℤ) + 1 < j + 1
      omega
  · constructor
    · exact held 0
    · intro x member
      obtain ⟨i, rfl⟩ := place x member
      exact mono (Fin.zero_le i)
  · constructor
    · exact held 4
    · intro x member
      obtain ⟨i, rfl⟩ := place x member
      exact mono (Fin.le_last i)
  · rfl
  · rw [five]
    rfl

theorem Tracks.add {m : Markers} {observations : List ℚ} (tracks : Tracks m observations)
    (value : ℚ) : ∃ after, m.add value = some after ∧ Tracks after (observations ++ [value]) := by
  obtain ⟨after, added, ordered, lowest, highest, first, last⟩ := Markers.add_ordered tracks.ordered value
  refine ⟨after, added, ordered, ?_, ?_, ?_, ?_⟩
  · rw [lowest]
    exact isLeast_append tracks.lowest value
  · rw [highest]
    exact isGreatest_append tracks.highest value
  · rw [first, tracks.first]
  · rw [last, tracks.last, List.length_append, List.length_singleton]
    push_cast
    rfl

/-- The estimator after a stream: the observations themselves at first, then the markers. -/
inductive Fed (observations : List ℚ) : P2Median → Prop
  | startup (few : observations.length < 5) : Fed observations ⟨observations, none⟩
  | running {initial : List ℚ} {m : Markers} (five : initial.length = 5)
      (many : 5 ≤ observations.length) (tracks : Tracks m observations) :
      Fed observations ⟨initial, some m⟩

theorem Fed.add {observations : List ℚ} {e : P2Median} (fed : Fed observations e) (value : ℚ) :
    ∃ after, e.add value = some after ∧ Fed (observations ++ [value]) after := by
  cases fed with
  | startup few =>
      by_cases five : (observations ++ [value]).length = 5
      · refine ⟨⟨sorted (observations ++ [value]),
          some (.initializeMarkers (sorted (observations ++ [value])))⟩, ?_, ?_⟩
        · simp only [P2Median.add, few, if_true, five]
        · apply Fed.running
          · rw [(sorted_perm _).length_eq, five]
          · exact five.ge
          · exact tracks_initialize five
      · refine ⟨⟨observations ++ [value], none⟩, ?_, ?_⟩
        · simp only [P2Median.add, few, if_true, five, if_false]
        · apply Fed.startup
          rw [List.length_append, List.length_singleton] at five ⊢
          omega
  | @running initial m five many tracks =>
      obtain ⟨after, added, kept⟩ := tracks.add value
      refine ⟨⟨initial, some after⟩, ?_, .running five ?_ kept⟩
      · simp [P2Median.add, five, added]
      · rw [List.length_append]
        omega

theorem feed_fed (observations : List ℚ) :
    ∃ e, P2Median.feed observations = some e ∧ Fed observations e := by
  induction observations using List.reverseRecOn with
  | nil => exact ⟨_, rfl, .startup (by decide)⟩
  | append_singleton observations value ih =>
      obtain ⟨e, fed, holds⟩ := ih
      obtain ⟨after, added, kept⟩ := holds.add value
      refine ⟨after, ?_, kept⟩
      rw [P2Median.feed, List.foldlM_append]
      rw [P2Median.feed] at fed
      simp [fed, added]

/-- No stream makes the estimator divide by zero. It has the exact median of fewer than five
observations, and from then on ordered markers between the extremes. -/
theorem p2_keeps_order (observations : List ℚ) :
    ∃ e value, P2Median.feed observations = some e ∧ e.value = some value ∧
      (observations.length < 5 → value = median observations) ∧
      (5 ≤ observations.length → ∃ m, e.markers = some m ∧
        (∀ i j, i ≤ j → m.heights i ≤ m.heights j) ∧
        IsLeast {x | x ∈ observations} (m.heights 0) ∧
        IsGreatest {x | x ∈ observations} (m.heights 4) ∧
        (∀ i j, i < j → m.positions i < m.positions j) ∧
        m.positions 0 = 1 ∧ m.positions 4 = observations.length ∧
        m.heights 0 ≤ value ∧ value ≤ m.heights 4) := by
  obtain ⟨e, fed, holds⟩ := feed_fed observations
  cases holds with
  | startup few =>
      refine ⟨_, median observations, fed, ?_, fun _ => rfl, fun many => by omega⟩
      by_cases none : observations = []
      · simp [P2Median.value, none, median]
      · simp [P2Median.value, none, few, percentile_fifty]
  | @running initial m five many tracks =>
      have some_ : initial ≠ [] := by
        intro none
        simp [none] at five
      refine ⟨_, m.heights 2, fed, ?_, fun few => by omega, fun _ => ⟨m, rfl, ?_⟩⟩
      · simp [P2Median.value, some_, five]
      · exact ⟨fun i j le => tracks.ordered.heights le, tracks.lowest, tracks.highest,
          fun i j lt => tracks.ordered.positions lt, tracks.first, tracks.last,
          tracks.ordered.heights (by decide), tracks.ordered.heights (by decide)⟩

end StorageScaleTest.Live
