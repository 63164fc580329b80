import StorageScaleTest.Sizing.Sizes
import StorageScaleTest.Proof.Sizing.Completion

/-!
# Which tools round alike

`bc` rounds to the nearest integer, `perl` to the next one up, and `python3` in between.
-/

namespace StorageScaleTest.Sizing
open Shell Decimal Numeric

theorem bc_rounds {v d : Nat} (pos : 0 < d) :
    roundAndDivide .bc v d = some (round ((v : ℚ) / d)) := by
  rw [roundAndDivide, round_eq_div pos]
  congr 1
  have parts := Nat.div_add_mod v d
  have rest := Nat.mod_lt v pos
  generalize v / d = k at *
  generalize v % d = s at *
  have sum : v + d / 2 = d * k + (s + d / 2) := by omega
  rw [sum, Nat.mul_add_div pos]
  split
  · rename_i above
    have one : (s + d / 2) / d = 1 := by
      rw [Nat.div_eq_iff pos]
      omega
    rw [one]
  · rename_i below
    rw [Nat.div_eq_of_lt (by omega), Nat.add_zero]

theorem perl_rounds_up {v d : Nat} (pos : 0 < d) (small : v + d < 2 ^ 50) :
    roundAndDivide .perl v d = some ((v / d + 1 : Nat) : ℤ) := by
  have parts := Nat.div_add_mod v d
  have rest := Nat.mod_lt v pos
  have bound : d * (v / d + 2) < 2 ^ 51 := by
    rw [Nat.mul_add]
    omega
  generalize v / d = k at *
  generalize v % d = s at *
  have positive : (1 : ℚ) ≤ d := by exact_mod_cast pos
  have range : (v : ℚ) + d < 2 ^ 50 := by exact_mod_cast small
  have scale : (d : ℚ) * (k + 2) < 2 ^ 51 := by exact_mod_cast bound
  have whole : (d : ℚ) * k + s = v := by exact_mod_cast parts
  have last : (s : ℚ) + 1 ≤ d := by exact_mod_cast rest
  have first : (0 : ℚ) ≤ s := by positivity
  have start : (0 : ℚ) ≤ v := by positivity
  obtain ⟨sum, summed, -, sumLow, sumHigh⟩ := toDouble_near (q := (v : ℚ) + (d : ℚ) / 2)
    (by linarith) (by linarith)
  have exact : sum = (v : ℚ) + d / 2 := by
    have same : ((2 * v + d : ℤ) : ℚ) / 2 = v + (d : ℚ) / 2 := by
      push_cast
      ring
    apply le_antisymm
    · rw [← same]
      exact sumHigh _ same.ge
    · rw [← same]
      exact sumLow _ same.le
  have numerator : (d : ℚ) * ((v + d / 2) / d) = v + d / 2 := by field_simp
  have split : ((2 * k + 1 : ℤ) : ℚ) / 2 ≤ (v + (d : ℚ) / 2) / d := by
    rw [le_div_iff₀ (by linarith)]
    push_cast
    linarith
  have under : (v + (d : ℚ) / 2) / d ≤ v + d / 2 := div_le_self (by linarith) positive
  have half : 1 / 2 ≤ (v + (d : ℚ) / 2) / d := by
    rw [le_div_iff₀ (by linarith)]
    linarith
  generalize quotientOf : ((v : ℚ) + d / 2) / d = q at numerator split under half
  obtain ⟨quotient, divided, quotientNear, quotientLow, -⟩ := toDouble_near half (by linarith)
  have quotientUp := (abs_le.mp quotientNear).2
  have reached := quotientLow _ split
  push_cast at reached
  obtain ⟨shifted, added, shiftedNear, shiftedLow, -⟩ := toDouble_near (q := quotient + 1 / 2)
    (by linarith) (by linarith)
  have shiftedUp := (abs_le.mp shiftedNear).2
  have low : ((2 * k + 2 : ℤ) : ℚ) / 2 ≤ shifted := shiftedLow _ (by
    push_cast
    linarith)
  -- both roundings together move the sum by less than one divisor's part
  have quotientScaled : (d : ℚ) * quotient ≤ d * (q + q / 2 ^ 53) :=
    mul_le_mul_of_nonneg_left (by linarith) (by linarith)
  have shiftedScaled : (d : ℚ) * shifted ≤
      d * (quotient + 1 / 2 + (quotient + 1 / 2) / 2 ^ 53) :=
    mul_le_mul_of_nonneg_left (by linarith) (by linarith)
  have high : shifted < k + 2 := by
    have scaled : (d : ℚ) * shifted < d * (k + 2) := by
      simp only [mul_add, mul_div_assoc'] at *
      linarith
    exact lt_of_mul_lt_mul_left scaled (by linarith)
  have floor : ⌊shifted⌋ = ((k + 1 : Nat) : ℤ) := by
    rw [Int.floor_eq_iff]
    push_cast at low ⊢
    constructor <;> linarith
  simp only [roundAndDivide, summed, exact, quotientOf, divided, added, floor,
    Option.bind_eq_bind, Option.bind_some]

theorem roundHalfEven_eq {n : ℤ} {q : ℚ} (low : (n : ℚ) ≤ q) (high : q < n + 1 / 2) :
    roundHalfEven q = n := by
  have floor : ⌊q⌋ = n := by
    rw [Int.floor_eq_iff]
    constructor <;> linarith
  have parts := Int.floor_add_fract q
  rw [floor] at parts
  rw [roundHalfEven, floor, if_pos (by linarith)]

/-- `python3` adds one half as well, so it needs the larger half of a divisor to agree. -/
theorem python_rounds_up {v d : Nat} (pos : 0 < d) (small : v + d < 2 ^ 50)
    (above : d ≤ 2 * (v % d)) : roundAndDivide .python3 v d = some ((v / d + 1 : Nat) : ℤ) := by
  have parts := Nat.div_add_mod v d
  have rest := Nat.mod_lt v pos
  have floored : d * (v / d + 1) ≤ v + d / 2 ∧ 2 * (v + d / 2) + 2 ≤ d * (2 * (v / d) + 3) := by
    have scaled : d * (2 * (v / d) + 3) = 2 * (d * (v / d)) + 3 * d := by ring
    rw [scaled, Nat.mul_succ]
    omega
  have bound : v + d / 2 < 2 ^ 50 := by omega
  rw [roundAndDivide]
  generalize v / d = k at *
  generalize v + d / 2 = n at *
  obtain ⟨floored, ceiled⟩ := floored
  have positive : (1 : ℚ) ≤ d := by exact_mod_cast pos
  have lower : (d : ℚ) * (k + 1) ≤ n := by exact_mod_cast floored
  have upper : 2 * (n : ℚ) + 2 ≤ d * (2 * k + 3) := by exact_mod_cast ceiled
  have range : (n : ℚ) < 2 ^ 50 := by exact_mod_cast bound
  have start : (0 : ℚ) ≤ k := by positivity
  have numerator : (d : ℚ) * (n / d) = n := by field_simp
  have whole : (k : ℚ) + 1 ≤ n / d := by
    rw [le_div_iff₀ (by linarith)]
    linarith
  have under : (n : ℚ) / d ≤ n := div_le_self (by linarith) positive
  generalize (n : ℚ) / d = q at numerator whole under ⊢
  obtain ⟨quotient, divided, near, low, -⟩ := toDouble_near (q := q) (by linarith) (by linarith)
  have reached := low (2 * (k + 1)) (by
    push_cast
    linarith)
  push_cast at reached
  have moved := (abs_le.mp near).2
  have scaled : (d : ℚ) * quotient ≤ d * (q + q / 2 ^ 53) :=
    mul_le_mul_of_nonneg_left (by linarith) (by linarith)
  have high : quotient < k + 1 + 1 / 2 := by
    have scaled : (d : ℚ) * quotient < d * (k + 1 + 1 / 2) := by
      simp only [mul_add, mul_div_assoc'] at *
      linarith
    exact lt_of_mul_lt_mul_left scaled (by linarith)
  rw [divided, Option.map_some, roundHalfEven_eq (n := ((k + 1 : Nat) : ℤ))]
  · push_cast
    linarith
  · push_cast
    linarith

/-! ## Divisors that are powers of two -/

theorem unit_quotient (v e : Nat) : ((v / 2 ^ e : Nat) : ℚ) ≤ v / 2 ^ e ∧
    (v : ℚ) / 2 ^ e < (v / 2 ^ e : Nat) + 1 ∧
      (2 ^ e ≤ 2 * (v % 2 ^ e) ↔ ((v / 2 ^ e : Nat) : ℚ) + 1 / 2 ≤ v / 2 ^ e) := by
  have power : (0 : ℚ) < 2 ^ e := by positivity
  have parts : (2 : ℚ) ^ e * (v / 2 ^ e : Nat) + (v % 2 ^ e : Nat) = v := by
    exact_mod_cast Nat.div_add_mod v (2 ^ e)
  have rest : ((v % 2 ^ e : Nat) : ℚ) < 2 ^ e := by
    exact_mod_cast Nat.mod_lt v (Nat.two_pow_pos e)
  have start : (0 : ℚ) ≤ (v % 2 ^ e : Nat) := Nat.cast_nonneg _
  refine ⟨?_, ?_, ?_⟩
  · rw [le_div_iff₀ power]
    linarith
  · rw [div_lt_iff₀ power]
    linarith
  · rw [le_div_iff₀ power, ← Nat.cast_le (α := ℚ)]
    push_cast
    constructor <;> intro half <;> linarith

theorem unit_quotient_lt {v e : Nat} (small : v / 2 ^ e < 2 ^ 50) : (v : ℚ) / 2 ^ e < 2 ^ 50 := by
  rw [div_lt_iff₀ (by positivity)]
  exact_mod_cast (Nat.div_lt_iff_lt_mul (by positivity)).mp small

theorem unit_sum {v e : Nat} {x : ℚ} (unit : e ≤ 900) (small : v / 2 ^ e < 2 ^ 50)
    (nearest : toDouble ((v : ℚ) / 2 ^ e + 1 / 2) = some x) :
    toDouble (v + ((2 ^ e : Nat) : ℚ) / 2) = some (x * 2 ^ e) := by
  have low : (0 : ℚ) ≤ v / 2 ^ e := by positivity
  have high := unit_quotient_lt small
  have split : (v : ℚ) + ((2 ^ e : Nat) : ℚ) / 2 = (v / 2 ^ e + 1 / 2) * 2 ^ e := by
    push_cast
    field_simp
  rw [split]
  exact toDouble_mul_two_pow (by linarith) (by linarith) nearest e unit

theorem perl_unit {v e : Nat} {x : ℚ} (unit : e ≤ 900) (small : v / 2 ^ e < 2 ^ 50)
    (nearest : toDouble ((v : ℚ) / 2 ^ e + 1 / 2) = some x) :
    roundAndDivide .perl v (2 ^ e) =
      (toDouble x).bind fun quotient => (toDouble (quotient + 1 / 2)).map Int.floor := by
  have power : (2 : ℚ) ^ e ≠ 0 := by positivity
  have sum := unit_sum unit small nearest
  push_cast at sum
  simp only [roundAndDivide, Nat.cast_pow, Nat.cast_ofNat, sum, Option.bind_eq_bind,
    Option.bind_some, mul_div_cancel_right₀ x power]
  cases toDouble x with
  | none => rfl
  | some quotient =>
      simp only [Option.bind_some]
      cases toDouble (quotient + 1 / 2) <;> rfl

theorem python_unit {v e : Nat} (pos : 0 < e) : roundAndDivide .python3 v (2 ^ e) =
    (toDouble ((v : ℚ) / 2 ^ e + 1 / 2)).map roundHalfEven := by
  obtain ⟨k, rfl⟩ := Nat.exists_eq_succ_of_ne_zero pos.ne'
  have half : 2 ^ k.succ / 2 = 2 ^ k := by rw [Nat.pow_succ, Nat.mul_div_cancel _ (by decide)]
  have split : ((v + 2 ^ k.succ / 2 : Nat) : ℚ) / (2 ^ k.succ : Nat) =
      (v : ℚ) / 2 ^ k.succ + 1 / 2 := by
    rw [half]
    push_cast
    rw [Nat.succ_eq_add_one, pow_succ]
    field_simp
  rw [roundAndDivide, split]

/-- The double nearest to a value and half its divisor does not reach the middle after the next
multiple. -/
def Held (v d : Nat) : Prop :=
  ∃ x ∈ toDouble (v + (d : ℚ) / 2), x < ((v / d : Nat) + 3 / 2) * d

instance (v d : Nat) : Decidable (Held v d) :=
  inferInstanceAs (Decidable (∃ x ∈ toDouble (v + (d : ℚ) / 2), x < ((v / d : Nat) + 3 / 2) * d))

theorem held_iff {v e : Nat} {x : ℚ} (unit : e ≤ 900) (small : v / 2 ^ e < 2 ^ 50)
    (nearest : toDouble ((v : ℚ) / 2 ^ e + 1 / 2) = some x) :
    Held v (2 ^ e) ↔ x < (v / 2 ^ e : Nat) + 3 / 2 := by
  have power : (0 : ℚ) < 2 ^ e := by positivity
  rw [Held, unit_sum unit small nearest]
  push_cast
  constructor
  · rintro ⟨y, same, less⟩
    rw [Option.mem_some_iff] at same
    rw [← same] at less
    exact lt_of_mul_lt_mul_right less power.le
  · intro less
    exact ⟨_, rfl, mul_lt_mul_of_pos_right less power⟩

theorem perl_exceeds {v e : Nat} (unit : e ≤ 900) (small : v / 2 ^ e < 2 ^ 50) :
    ∃ m : ℤ, roundAndDivide .perl v (2 ^ e) = some m ∧ ((v / 2 ^ e + 1 : Nat) : ℤ) ≤ m := by
  obtain ⟨low, -, -⟩ := unit_quotient v e
  have high := unit_quotient_lt small
  have start : (0 : ℚ) ≤ (v / 2 ^ e : Nat) := Nat.cast_nonneg _
  obtain ⟨sum, summed, sumNear, sumLow, -⟩ := toDouble_near (q := (v : ℚ) / 2 ^ e + 1 / 2)
    (by linarith) (by linarith)
  have sumUp := (abs_le.mp sumNear).2
  rw [perl_unit unit small summed]
  have whole : ⌊((v / 2 ^ e + 1 : Nat) : ℚ)⌋ = ((v / 2 ^ e + 1 : Nat) : ℤ) := Int.floor_natCast _
  generalize v / 2 ^ e = k at low whole start ⊢
  generalize (v : ℚ) / 2 ^ e = q at low high sumLow sumUp
  have sumHalf := sumLow (2 * k + 1) (by
    push_cast
    linarith)
  push_cast at sumHalf
  obtain ⟨quotient, divided, near, quotientLow, -⟩ := toDouble_near (q := sum) (by linarith)
    (by linarith)
  have quotientUp := (abs_le.mp near).2
  have half := quotientLow (2 * k + 1) (by
    push_cast
    linarith)
  push_cast at half
  obtain ⟨shifted, added, -, shiftedLow, -⟩ := toDouble_near (q := quotient + 1 / 2)
    (by linarith) (by linarith)
  have reached := shiftedLow (2 * k + 2) (by
    push_cast
    linarith)
  push_cast at reached
  refine ⟨⌊shifted⌋, ?_, ?_⟩
  · rw [divided, Option.bind_some, added]
    rfl
  · rw [← whole]
    apply Int.floor_mono
    push_cast
    linarith

/-- From a double between a whole number and the middle after it, adding one half to the double
does not reach the next whole number. -/
theorem add_half_floor {q x : ℚ} {k : Nat} (low : (k : ℚ) + 1 ≤ q)
    (high : q + 1 < 2 ^ 51) (nearest : toDouble q = some x) (less : x < k + 3 / 2) :
    ((toDouble x).bind fun quotient => (toDouble (quotient + 1 / 2)).map Int.floor) =
      some ((k + 1 : Nat) : ℤ) := by
  have start : (0 : ℚ) ≤ k := Nat.cast_nonneg _
  obtain ⟨y, again, -, above, -⟩ := toDouble_near (q := q) (by linarith) (by linarith)
  obtain rfl : y = x := Option.some.inj (again.symm.trans nearest)
  have reached := above (2 * (k + 1)) (by
    push_cast
    linarith)
  push_cast at reached
  -- the last place is that of the whole number, and the next whole number is at most a power of two
  have log : 0 ≤ Int.log 2 q := (Int.zpow_le_iff_le_log (by decide) (by linarith)).mp (by
    push_cast
    linarith)
  obtain ⟨place, exponent⟩ := Int.eq_ofNat_of_zero_le log
  have next : (k : ℚ) + 2 ≤ 2 ^ (place + 1) := by
    have below := Int.lt_zpow_succ_log_self (b := 2) (by decide) q
    rw [exponent] at below
    have whole : ((k + 1 : Nat) : ℚ) < ((2 ^ (place + 1) : Nat) : ℚ) := by
      push_cast at below ⊢
      rw [zpow_add₀ (by norm_num), zpow_natCast] at below
      rw [pow_succ]
      simp only [zpow_one] at below
      linarith
    have natural : k + 2 ≤ 2 ^ (place + 1) := by
      have := Nat.cast_lt.mp whole
      omega
    exact_mod_cast natural
  have bounded : y < 2 ^ (Int.log 2 q + 1) := by
    rw [exponent, zpow_add₀ (by norm_num), zpow_natCast, zpow_one, ← pow_succ]
    linarith
  have unit : (2 : ℚ) ^ lastPlace q = 2 ^ (place + 1) / 2 ^ 53 := by
    rw [two_pow_lastPlace (by linarith), exponent, zpow_natCast, pow_succ]
    norm_num
    ring
  have gap := toDouble_gap (by linarith) (by linarith) nearest (n := 2 * k + 3) (by
    push_cast
    linarith)
  push_cast at gap
  obtain ⟨shifted, added, shiftedNear, shiftedLow, -⟩ := toDouble_near (q := y + 1 / 2)
    (by linarith) (by linarith)
  have shiftedUp := (abs_le.mp shiftedNear).2
  have shiftedReached := shiftedLow (2 * (k + 1)) (by
    push_cast
    linarith)
  push_cast at shiftedReached
  rw [toDouble_double (by linarith) (by linarith) nearest bounded, Option.bind_some, added,
    Option.map_some, Option.some.injEq, Int.floor_eq_iff]
  push_cast
  constructor <;> linarith

def ToolsAgree (v d : Nat) : Prop := ∀ tool, roundAndDivide tool v d = some (round ((v : ℚ) / d))

theorem toolsAgree_iff {v d : Nat} (pos : 0 < d) (small : v + d < 2 ^ 50) :
    ToolsAgree v d ↔ d ≤ 2 * (v % d) := by
  constructor
  · intro agree
    have up := (perl_rounds_up pos small).symm.trans (agree .perl)
    rw [round_eq_div pos] at up
    by_contra below
    rw [if_neg below] at up
    have same := Option.some.inj up
    omega
  · intro above tool
    cases tool with
    | bc => exact bc_rounds pos
    | python3 => rw [python_rounds_up pos small above, round_eq_div pos, if_pos above]
    | perl => rw [perl_rounds_up pos small, round_eq_div pos, if_pos above]

theorem perl_rounds_iff {v e : Nat} (unit : e ≤ 900) (small : v / 2 ^ e < 2 ^ 50) :
    roundAndDivide .perl v (2 ^ e) = some (round ((v : ℚ) / (2 ^ e : Nat))) ↔
      2 ^ e ≤ 2 * (v % 2 ^ e) ∧ Held v (2 ^ e) := by
  obtain ⟨low, mid, half⟩ := unit_quotient v e
  have high := unit_quotient_lt small
  have start : (0 : ℚ) ≤ (v / 2 ^ e : Nat) := Nat.cast_nonneg _
  obtain ⟨x, nearest, near, -, most⟩ := toDouble_near (q := (v : ℚ) / 2 ^ e + 1 / 2)
    (by linarith) (by linarith)
  have up := (abs_le.mp near).2
  rw [held_iff unit small nearest, round_eq_div (Nat.two_pow_pos e)]
  constructor
  · intro rounded
    have above : 2 ^ e ≤ 2 * (v % 2 ^ e) := by
      by_contra below
      rw [if_neg below] at rounded
      obtain ⟨m, perl, exceeds⟩ := perl_exceeds unit small
      rw [perl, Option.some.injEq] at rounded
      omega
    refine ⟨above, ?_⟩
    by_contra reached
    rw [not_lt] at reached
    rw [if_pos above, perl_unit unit small nearest] at rounded
    generalize v / 2 ^ e = k at *
    obtain ⟨quotient, divided, quotientNear, quotientLow, -⟩ := toDouble_near (q := x)
      (by linarith) (by linarith)
    have quotientUp := (abs_le.mp quotientNear).2
    have second := quotientLow (2 * k + 3) (by
      push_cast
      linarith)
    push_cast at second
    obtain ⟨shifted, added, -, shiftedLow, -⟩ := toDouble_near (q := quotient + 1 / 2)
      (by linarith) (by linarith)
    have third := shiftedLow (2 * k + 4) (by
      push_cast
      linarith)
    push_cast at third
    rw [divided, Option.bind_some, added, Option.map_some, Option.some.injEq,
      Int.floor_eq_iff] at rounded
    push_cast at rounded
    linarith [rounded.2]
  · rintro ⟨above, less⟩
    rw [if_pos above, perl_unit unit small nearest]
    have reached := half.mp above
    exact add_half_floor (by linarith) (by linarith) nearest less

theorem toolsAgree_unit_iff {v e : Nat} (pos : 0 < e) (unit : e ≤ 900)
    (small : v / 2 ^ e < 2 ^ 50) :
    ToolsAgree v (2 ^ e) ↔ 2 ^ e ≤ 2 * (v % 2 ^ e) ∧ Held v (2 ^ e) := by
  constructor
  · intro agree
    exact (perl_rounds_iff unit small).mp (agree .perl)
  · rintro ⟨above, held⟩ tool
    cases tool with
    | bc => exact bc_rounds (Nat.two_pow_pos e)
    | perl => exact (perl_rounds_iff unit small).mpr ⟨above, held⟩
    | python3 =>
        obtain ⟨low, mid, half⟩ := unit_quotient v e
        have high := unit_quotient_lt small
        have start : (0 : ℚ) ≤ (v / 2 ^ e : Nat) := Nat.cast_nonneg _
        have reached := half.mp above
        obtain ⟨x, nearest, -, least, -⟩ := toDouble_near (q := (v : ℚ) / 2 ^ e + 1 / 2)
          (by linarith) (by linarith)
        have less := (held_iff unit small nearest).mp held
        rw [python_unit pos, nearest, round_eq_div (Nat.two_pow_pos e), if_pos above]
        generalize v / 2 ^ e = k at *
        have next := least (2 * (k + 1)) (by
          push_cast
          linarith)
        push_cast at next
        rw [Option.map_some, roundHalfEven_eq (n := ((k + 1 : Nat) : ℤ))]
        · push_cast
          linarith
        · push_cast
          linarith

/-! ## Sizes -/

theorem Suffix.bytes_eq_two_pow (suffix : Suffix) :
    suffix.bytes = 2 ^ (10 * (suffix.rank + 1)) := by
  rw [bytes_eq, pow_mul]
  rfl

def chosen (bytes : Nat) : Suffix :=
  if bytes ≥ Suffix.G.bytes then .G else if bytes ≥ Suffix.M.bytes then .M else .K

/-- Every tool leads to one size, within half a unit of the bytes, where less than one K is 1K. -/
def SizesAgree (bytes : Nat) : Prop :=
  ∃ (n : Nat) (suffix : Suffix),
    (∀ tool, bytesToSizeString tool bytes = some (numeral n ++ [suffix.char])) ∧
    (2 * (n * suffix.bytes - bytes : Int).natAbs ≤ suffix.bytes ∨
      bytes < 1024 ∧ n = 1 ∧ suffix = .K)

theorem size_of_whole {bytes : Nat} (large : 1024 ≤ bytes) (whole : bytes % 1024 = 0) :
    ∃ (n : Nat) (suffix : Suffix),
      (∀ tool, bytesToSizeString tool bytes = some (numeral n ++ [suffix.char])) ∧
        n * suffix.bytes = bytes := by
  have exact : ∀ suffix : Suffix, bytes % suffix.bytes = 0 →
      bytes / suffix.bytes * suffix.bytes = bytes := fun suffix divides =>
    Nat.div_mul_cancel (Nat.dvd_of_mod_eq_zero divides)
  unfold bytesToSizeString
  by_cases g : bytes ≥ Suffix.G.bytes ∧ bytes % Suffix.G.bytes = 0
  · exact ⟨_, .G, fun _ => if_pos g, exact .G g.2⟩
  · simp only [if_neg g]
    by_cases m : bytes ≥ Suffix.M.bytes ∧ bytes % Suffix.M.bytes = 0
    · exact ⟨_, .M, fun _ => if_pos m, exact .M m.2⟩
    · simp only [if_neg m]
      have k : bytes ≥ Suffix.K.bytes ∧ bytes % Suffix.K.bytes = 0 := ⟨large, whole⟩
      exact ⟨_, .K, fun _ => if_pos k, exact .K whole⟩

theorem size_of_part {tool : Tool} {bytes m : Nat} (part : bytes % 1024 ≠ 0)
    (rounded : roundAndDivide tool bytes (chosen bytes).bytes = some (m : Int)) (pos : 1 ≤ m) :
    bytesToSizeString tool bytes = some (numeral m ++ [(chosen bytes).char]) := by
  have notK : ¬(bytes ≥ Suffix.K.bytes ∧ bytes % Suffix.K.bytes = 0) := fun both => part both.2
  have notM : ¬(bytes ≥ Suffix.M.bytes ∧ bytes % Suffix.M.bytes = 0) := by
    intro both
    have divides : bytes % 1048576 = 0 := both.2
    omega
  have notG : ¬(bytes ≥ Suffix.G.bytes ∧ bytes % Suffix.G.bytes = 0) := by
    intro both
    have divides : bytes % 1073741824 = 0 := both.2
    omega
  unfold bytesToSizeString
  simp only [if_neg notK, if_neg notM, if_neg notG]
  unfold chosen at rounded ⊢
  by_cases g : bytes ≥ Suffix.G.bytes
  · simp only [if_pos g] at rounded ⊢
    rw [rounded]
    rfl
  · by_cases m : bytes ≥ Suffix.M.bytes
    · simp only [if_neg g, if_pos m] at rounded ⊢
      rw [rounded]
      rfl
    · simp only [if_neg g, if_neg m] at rounded ⊢
      rw [rounded, Option.map_some, if_neg (by omega)]
      rfl

theorem roundAndDivide_small {bytes : Nat} (small : bytes < 1024) (tool : Tool) :
    ∃ m : Int, roundAndDivide tool bytes 1024 = some m ∧ m ≤ 1 := by
  have none : bytes / 1024 = 0 := Nat.div_eq_of_lt small
  have all : bytes % 1024 = bytes := Nat.mod_eq_of_lt small
  cases tool with
  | bc =>
      refine ⟨_, bc_rounds (by decide), ?_⟩
      rw [round_eq_div (by decide), none]
      split <;> decide
  | perl =>
      refine ⟨_, perl_rounds_up (by decide) (by omega), ?_⟩
      rw [none]
      decide
  | python3 =>
      by_cases above : 512 ≤ bytes
      · refine ⟨_, python_rounds_up (by decide) (by omega) (by omega), ?_⟩
        rw [none]
        decide
      · have low : (1 : ℚ) / 2 ≤ (bytes + 1024 / 2 : Nat) / (1024 : Nat) := by
          push_cast
          have start : (0 : ℚ) ≤ bytes := by positivity
          linarith
        have high : ((bytes + 1024 / 2 : Nat) : ℚ) / (1024 : Nat) ≤ (2 : ℤ) / 2 := by
          have below : (bytes : ℚ) ≤ 512 := by exact_mod_cast Nat.le_of_not_le above
          push_cast
          linarith
        obtain ⟨x, divided, -, -, bounded⟩ := toDouble_near low (by
          push_cast at high ⊢
          linarith)
        have one := bounded 2 high
        refine ⟨roundHalfEven x, ?_, roundHalfEven_le (by
          push_cast at one ⊢
          linarith)⟩
        rw [roundAndDivide, divided]
        rfl

theorem size_of_small {bytes : Nat} (small : bytes < 1024) (tool : Tool) :
    bytesToSizeString tool bytes = some (numeral 1 ++ [Suffix.K.char]) := by
  have notK : ¬bytes ≥ Suffix.K.bytes := Nat.not_le.mpr small
  have notM : ¬bytes ≥ Suffix.M.bytes := Nat.not_le.mpr (small.trans (by decide))
  have notG : ¬bytes ≥ Suffix.G.bytes := Nat.not_le.mpr (small.trans (by decide))
  obtain ⟨m, rounded, most⟩ := roundAndDivide_small small tool
  have one : (if m < 1 then 1 else m) = 1 := by omega
  simp only [bytesToSizeString, notK, notM, notG, false_and, if_false]
  change Option.map _ (roundAndDivide tool bytes 1024) = _
  rw [rounded, Option.map_some, one]
  rfl

theorem chosen_div_lt {bytes : Nat} (range : bytes < 2 ^ 63) :
    bytes / (chosen bytes).bytes < 2 ^ 50 := by
  unfold chosen
  split_ifs with g m
  · change bytes / 1073741824 < 2 ^ 50
    omega
  · change ¬bytes ≥ 1073741824 at g
    change bytes / 1048576 < 2 ^ 50
    omega
  · change ¬bytes ≥ 1048576 at m
    change bytes / 1024 < 2 ^ 50
    omega

theorem one_le_div_chosen {bytes : Nat} (large : 1024 ≤ bytes) :
    1 ≤ bytes / (chosen bytes).bytes := by
  unfold chosen
  rw [Nat.le_div_iff_mul_le (Suffix.bytes_pos _), Nat.one_mul]
  split_ifs with g m
  · exact g
  · exact m
  · exact large

/-- The size is an exact one, or its bytes are in the upper half of a unit and their double is
still below the next unit. -/
def UpperHalf (bytes : Nat) : Prop :=
  bytes < 1024 ∨ bytes % 1024 = 0 ∨
    (chosen bytes).bytes ≤ 2 * (bytes % (chosen bytes).bytes) ∧ Held bytes (chosen bytes).bytes

theorem upperHalf_of_sizesAgree {bytes : Nat} (range : bytes < 2 ^ 63) (agree : SizesAgree bytes) :
    UpperHalf bytes := by
  by_cases small : bytes < 1024
  · exact .inl small
  by_cases whole : bytes % 1024 = 0
  · exact .inr (.inl whole)
  right; right
  obtain ⟨n, suffix, all, -⟩ := agree
  have positive := one_le_div_chosen (Nat.le_of_not_lt small)
  have quotient := bc_rounds (v := bytes) (Suffix.bytes_pos (chosen bytes))
  have nonneg : 1 ≤ round ((bytes : ℚ) / (chosen bytes).bytes) := by
    rw [round_eq_div (Suffix.bytes_pos _)]
    split <;> omega
  have power := Suffix.bytes_eq_two_pow (chosen bytes)
  have unit : 10 * ((chosen bytes).rank + 1) ≤ 900 := by cases (chosen bytes) <;> decide
  have fits : bytes / 2 ^ (10 * ((chosen bytes).rank + 1)) < 2 ^ 50 := by
    rw [← power]
    exact chosen_div_lt range
  have rounds := perl_rounds_iff unit fits
  obtain ⟨m, perl, above⟩ := perl_exceeds unit fits
  rw [← power] at rounds perl above
  apply rounds.mp
  obtain ⟨b, nearest⟩ := Int.eq_ofNat_of_zero_le (show 0 ≤ round ((bytes : ℚ) / (chosen bytes).bytes)
    by omega)
  obtain ⟨m, rfl⟩ := Int.eq_ofNat_of_zero_le (show 0 ≤ m by omega)
  rw [nearest] at quotient nonneg ⊢
  have bc := (size_of_part whole quotient (by omega)).symm.trans (all .bc)
  have other := (size_of_part whole perl (by omega)).symm.trans (all .perl)
  have same := Option.some.inj (bc.trans other.symm)
  rw [perl, numeral_injective (List.append_inj_left' same rfl)]

theorem sizesAgree_of_upperHalf {bytes : Nat} (range : bytes < 2 ^ 63) (upper : UpperHalf bytes) :
    SizesAgree bytes := by
  by_cases small : bytes < 1024
  · exact ⟨1, .K, size_of_small small, .inr ⟨small, rfl, rfl⟩⟩
  have large : 1024 ≤ bytes := Nat.le_of_not_lt small
  by_cases whole : bytes % 1024 = 0
  · obtain ⟨n, suffix, all, exact⟩ := size_of_whole large whole
    refine ⟨n, suffix, all, .inl ?_⟩
    rw [← Nat.cast_mul, exact, sub_self]
    exact Nat.zero_le _
  · have above := (upper.resolve_left small).resolve_left whole
    have pos := Suffix.bytes_pos (chosen bytes)
    have power := Suffix.bytes_eq_two_pow (chosen bytes)
    have agree : ToolsAgree bytes (chosen bytes).bytes := by
      have fits := chosen_div_lt range
      rw [power] at above fits ⊢
      exact (toolsAgree_unit_iff (by omega) (by cases chosen bytes <;> decide) fits).mpr above
    unfold ToolsAgree at agree
    rw [round_eq_div pos, if_pos above.1] at agree
    refine ⟨_, chosen bytes, fun tool => size_of_part whole (agree tool) (Nat.succ_pos _),
      .inl ?_⟩
    have half := above.1
    have parts := Nat.div_add_mod bytes (chosen bytes).bytes
    have rest := Nat.mod_lt bytes pos
    have scaled : (bytes / (chosen bytes).bytes + 1) * (chosen bytes).bytes =
        (chosen bytes).bytes * (bytes / (chosen bytes).bytes) + (chosen bytes).bytes := by ring
    rw [← Nat.cast_mul, scaled]
    omega

/-- The tools agree on the upper half of a divisor, and only there. -/
theorem rounding_agrees (v d bytes : Nat) (suffix : Suffix) :
    (0 < d → v + d < 2 ^ 50 → (ToolsAgree v d ↔ d ≤ 2 * (v % d))) ∧
    (v / suffix.bytes < 2 ^ 50 → (ToolsAgree v suffix.bytes ↔
      suffix.bytes ≤ 2 * (v % suffix.bytes) ∧ Held v suffix.bytes)) ∧
    (bytes < 2 ^ 63 → (SizesAgree bytes ↔ UpperHalf bytes)) := by
  refine ⟨fun pos small => toolsAgree_iff pos small, fun small => ?_, fun range =>
    ⟨upperHalf_of_sizesAgree range, sizesAgree_of_upperHalf range⟩⟩
  rw [suffix.bytes_eq_two_pow] at small ⊢
  exact toolsAgree_unit_iff (by omega) (by cases suffix <;> decide) small

/-- At `2 ^ 60` bytes the last number before a unit is not below it as a double. -/
theorem rounding_agrees_above_half : ToolsAgree 1792 1024 ∧ ToolsAgree (2 ^ 50 - 1) 1048576 ∧
    SizesAgree 1792 ∧ SizesAgree (2 ^ 60 + 2 ^ 30) ∧ SizesAgree (2 ^ 60 + 2 ^ 30 - 129) ∧
      ¬ SizesAgree (2 ^ 60 + 2 ^ 30 - 1) := by
  refine ⟨((rounding_agrees 1792 1024 0 .K).1 (by decide) (by decide)).mpr (by decide),
    ((rounding_agrees (2 ^ 50 - 1) 0 0 .M).2.1 (by decide)).mpr (by decide +kernel),
    ((rounding_agrees 0 0 1792 .K).2.2 (by decide)).mpr (.inr (.inr (by decide +kernel))),
    ((rounding_agrees 0 0 (2 ^ 60 + 2 ^ 30) .K).2.2 (by decide)).mpr (.inr (.inl (by decide))),
    ((rounding_agrees 0 0 (2 ^ 60 + 2 ^ 30 - 129) .K).2.2 (by decide)).mpr
      (.inr (.inr (by decide +kernel))), ?_⟩
  rw [(rounding_agrees 0 0 (2 ^ 60 + 2 ^ 30 - 1) .K).2.2 (by decide)]
  unfold UpperHalf
  decide +kernel

/-- The example of `round_and_divide` is 5 with `bc` only, and 1149953 bytes are 1M or 2M. -/
theorem rounding_depends_on_tool :
    (roundAndDivide .bc 5555 1024 = some 5 ∧ roundAndDivide .python3 5555 1024 = some 6 ∧
      roundAndDivide .perl 5555 1024 = some 6 ∧ ¬ToolsAgree 5555 1024) ∧
    bytesToSizeString .bc 1149953 = some "1M".toList ∧
      bytesToSizeString .perl 1149953 = some "2M".toList ∧ ¬SizesAgree 1149953 := by
  refine ⟨⟨by decide +kernel, by decide +kernel, by decide +kernel, ?_⟩, by decide +kernel,
    by decide +kernel, fun agree => ?_⟩
  · rw [toolsAgree_iff (by decide) (by decide)]
    decide
  · rcases upperHalf_of_sizesAgree (by decide) agree with small | whole | upper
    · exact absurd small (by decide)
    · exact absurd whole (by decide)
    · exact absurd upper.1 (by decide)

end StorageScaleTest.Sizing
