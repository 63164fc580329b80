import Mathlib.Data.Rat.Floor
import Mathlib.Data.Int.Log
import Mathlib.Tactic.Linarith

/-!
# Rounding

Rounding a rational to the nearest integer with ties to even, and to the nearest binary64 number.
-/

namespace StorageScaleTest.Numeric

def roundHalfEven (q : ℚ) : ℤ :=
  if Int.fract q < 1 / 2 then ⌊q⌋
  else if 1 / 2 < Int.fract q then ⌊q⌋ + 1
  else if ⌊q⌋ % 2 = 0 then ⌊q⌋ else ⌊q⌋ + 1

/-- The exponent of the last place of a binary64 number near a nonzero `q`. -/
def lastPlace (q : ℚ) : ℤ := max (Int.log 2 |q| - 52) (-1074)

/-- The binary64 number nearest to a rational, with ties to even, or nothing where it is too
large. -/
def toDouble (q : ℚ) : Option ℚ :=
  let rounded : ℚ := if q = 0 then 0 else roundHalfEven (q / 2 ^ lastPlace q) * 2 ^ lastPlace q
  if |rounded| < 2 ^ 1024 then some rounded else none

theorem roundHalfEven_intCast (n : ℤ) : roundHalfEven n = n := by
  simp [roundHalfEven]

theorem abs_sub_roundHalfEven_le (q : ℚ) : |q - roundHalfEven q| ≤ 1 / 2 := by
  have parts := Int.floor_add_fract q
  have low := Int.fract_nonneg q
  have high := Int.fract_lt_one q
  rw [abs_le, roundHalfEven]
  split_ifs with below above even
  · constructor <;> linarith
  · push_cast
    constructor <;> linarith
  · constructor <;> linarith
  · push_cast
    constructor <;> linarith

theorem floor_le_roundHalfEven (q : ℚ) : ⌊q⌋ ≤ roundHalfEven q := by
  rw [roundHalfEven]
  split_ifs <;> omega

theorem le_roundHalfEven {n : ℤ} {q : ℚ} (le : (n : ℚ) ≤ q) : n ≤ roundHalfEven q :=
  (Int.le_floor.mpr le).trans (floor_le_roundHalfEven q)

theorem roundHalfEven_le {n : ℤ} {q : ℚ} (le : q ≤ n) : roundHalfEven q ≤ n := by
  rcases eq_or_lt_of_le le with same | less
  · rw [same, roundHalfEven_intCast]
  · have below : ⌊q⌋ < n := Int.floor_lt.mpr less
    rw [roundHalfEven]
    split_ifs <;> omega

theorem neg_one_le_log {q : ℚ} (low : 1 / 2 ≤ q) : -1 ≤ Int.log 2 q :=
  (Int.zpow_le_iff_le_log (by decide) (by linarith)).mp (by
    rw [zpow_neg_one]
    push_cast
    linarith)

/-! ## The last place -/

theorem lastPlace_eq {q : ℚ} (low : 1 / 2 ≤ q) : lastPlace q = Int.log 2 q - 52 := by
  have lower := neg_one_le_log low
  rw [lastPlace, abs_of_pos (by linarith)]
  omega

theorem half_eq_mul_lastPlace {q : ℚ} (low : 1 / 2 ≤ q) (high : q < 2 ^ 51) (n : ℤ) :
    ∃ m : ℤ, (n : ℚ) / 2 = m * 2 ^ lastPlace q := by
  have upper : Int.log 2 q < 51 := (Int.lt_zpow_iff_log_lt (by decide) (by linarith)).mp (by
    exact_mod_cast high)
  have place := lastPlace_eq low
  obtain ⟨k, shift⟩ := Int.eq_ofNat_of_zero_le (show 0 ≤ 51 - Int.log 2 q by omega)
  refine ⟨n * 2 ^ k, ?_⟩
  have exponent : lastPlace q = -1 - k := by omega
  rw [exponent, zpow_sub₀ (by norm_num), zpow_neg_one]
  push_cast
  field_simp
  rw [zpow_natCast]

theorem two_pow_lastPlace {q : ℚ} (low : 1 / 2 ≤ q) :
    (2 : ℚ) ^ lastPlace q = 2 ^ Int.log 2 q / 2 ^ 52 := by
  rw [lastPlace_eq low, zpow_sub₀ (by norm_num)]
  norm_cast

theorem toDouble_eq_some {q x : ℚ} (pos : 0 < q) (nearest : toDouble q = some x) :
    x = roundHalfEven (q / 2 ^ lastPlace q) * 2 ^ lastPlace q ∧ |x| < 2 ^ 1024 := by
  rw [toDouble] at nearest
  simp only [if_neg (ne_of_gt pos)] at nearest
  split at nearest
  · next inside =>
      obtain rfl := Option.some.inj nearest
      exact ⟨rfl, inside⟩
  · cases nearest

/-- Near a rational of moderate size there is a double, and no multiple of one half lies between
them. -/
theorem toDouble_near {q : ℚ} (low : 1 / 2 ≤ q) (high : q < 2 ^ 51) :
    ∃ x, toDouble q = some x ∧ |x - q| ≤ q / 2 ^ 53 ∧
      (∀ n : ℤ, (n : ℚ) / 2 ≤ q → (n : ℚ) / 2 ≤ x) ∧ ∀ n : ℤ, q ≤ n / 2 → x ≤ (n : ℚ) / 2 := by
  have pos : 0 < q := by linarith
  have unit : (0 : ℚ) < 2 ^ lastPlace q := zpow_pos (by norm_num) _
  have power := two_pow_lastPlace low
  have below : (2 : ℚ) ^ Int.log 2 q ≤ q := by
    have := Int.zpow_log_le_self (b := 2) (by decide) pos
    exact_mod_cast this
  have near : |roundHalfEven (q / 2 ^ lastPlace q) * 2 ^ lastPlace q - q| ≤ q / 2 ^ 53 := by
    have distance := abs_sub_roundHalfEven_le (q / 2 ^ lastPlace q)
    have scaled : roundHalfEven (q / 2 ^ lastPlace q) * 2 ^ lastPlace q - q =
        -(2 ^ lastPlace q * (q / 2 ^ lastPlace q - roundHalfEven (q / 2 ^ lastPlace q))) := by
      field_simp
      ring
    rw [scaled, abs_neg, abs_mul, abs_of_pos unit]
    calc 2 ^ lastPlace q * |q / 2 ^ lastPlace q - roundHalfEven (q / 2 ^ lastPlace q)|
        ≤ 2 ^ lastPlace q * (1 / 2) := mul_le_mul_of_nonneg_left distance unit.le
      _ ≤ q / 2 ^ 53 := by
          rw [power]
          linarith
  refine ⟨roundHalfEven (q / 2 ^ lastPlace q) * 2 ^ lastPlace q, ?_, near, ?_, ?_⟩
  · rw [toDouble]
    simp only [if_neg (ne_of_gt pos)]
    rw [if_pos]
    have bounds := abs_le.mp near
    rw [abs_lt]
    have large : (2 : ℚ) ^ 52 < 2 ^ 1024 := pow_lt_pow_right₀ (by norm_num) (by norm_num)
    generalize (2 : ℚ) ^ 1024 = largest at large ⊢
    constructor <;> linarith
  · intro n le
    obtain ⟨m, same⟩ := half_eq_mul_lastPlace low high n
    rw [same] at le ⊢
    have rounded := le_roundHalfEven ((le_div_iff₀ unit).mpr le)
    exact mul_le_mul_of_nonneg_right (by exact_mod_cast rounded) unit.le
  · intro n le
    obtain ⟨m, same⟩ := half_eq_mul_lastPlace low high n
    rw [same] at le ⊢
    have rounded := roundHalfEven_le ((div_le_iff₀ unit).mpr le)
    exact mul_le_mul_of_nonneg_right (by exact_mod_cast rounded) unit.le

theorem toDouble_gap {q x : ℚ} (low : 1 / 2 ≤ q) (high : q < 2 ^ 51)
    (nearest : toDouble q = some x) {n : ℤ} (less : x < n / 2) : x + 2 ^ lastPlace q ≤ n / 2 := by
  have unit : (0 : ℚ) < 2 ^ lastPlace q := zpow_pos (by norm_num) _
  obtain ⟨m, same⟩ := half_eq_mul_lastPlace low high n
  obtain ⟨value, -⟩ := toDouble_eq_some (by linarith) nearest
  rw [same, value] at less ⊢
  have places : roundHalfEven (q / 2 ^ lastPlace q) < m := by
    exact_mod_cast lt_of_mul_lt_mul_right less unit.le
  rw [← add_one_mul]
  exact mul_le_mul_of_nonneg_right (by exact_mod_cast places) unit.le

theorem toDouble_double {q x : ℚ} (low : 1 / 2 ≤ q) (high : q < 2 ^ 51)
    (nearest : toDouble q = some x) (bounded : x < 2 ^ (Int.log 2 q + 1)) :
    toDouble x = some x := by
  have pos : 0 < q := by linarith
  have unit : (0 : ℚ) < 2 ^ lastPlace q := zpow_pos (by norm_num) _
  obtain ⟨y, again, -, above, -⟩ := toDouble_near low high
  obtain rfl : y = x := Option.some.inj (again.symm.trans nearest)
  have lower := neg_one_le_log low
  have start : (2 : ℚ) ^ Int.log 2 q ≤ y := by
    obtain ⟨k, shift⟩ := Int.eq_ofNat_of_zero_le (show 0 ≤ Int.log 2 q + 1 by omega)
    have exponent : Int.log 2 q = k - 1 := by omega
    have half : (2 : ℚ) ^ Int.log 2 q = ((2 ^ k : ℤ) : ℚ) / 2 := by
      rw [exponent, zpow_sub₀ (by norm_num), zpow_natCast, zpow_one]
      push_cast
      rfl
    have below : (2 : ℚ) ^ Int.log 2 q ≤ q := by
      exact_mod_cast Int.zpow_log_le_self (b := 2) (by decide) pos
    rw [half] at below ⊢
    exact above _ below
  have positive : 0 < y := lt_of_lt_of_le (zpow_pos (by norm_num) _) start
  have log : Int.log 2 y = Int.log 2 q := by
    apply le_antisymm
    · rw [← Int.lt_add_one_iff]
      exact (Int.lt_zpow_iff_log_lt (by decide) positive).mp (by exact_mod_cast bounded)
    · exact (Int.zpow_le_iff_le_log (by decide) positive).mp (by exact_mod_cast start)
  have place : lastPlace y = lastPlace q := by
    rw [lastPlace, lastPlace, abs_of_pos pos, abs_of_pos positive, log]
  obtain ⟨value, inside⟩ := toDouble_eq_some pos nearest
  have whole : y / 2 ^ lastPlace q = (roundHalfEven (q / 2 ^ lastPlace q) : ℤ) := by
    rw [div_eq_iff (ne_of_gt unit)]
    exact value
  rw [toDouble]
  simp only [if_neg (ne_of_gt positive), place, whole, roundHalfEven_intCast]
  rw [← value, if_pos inside]

theorem toDouble_mul_two_pow {q x : ℚ} (low : 1 / 2 ≤ q) (high : q < 2 ^ 51)
    (nearest : toDouble q = some x) (e : Nat) (small : e ≤ 900) :
    toDouble (q * 2 ^ e) = some (x * 2 ^ e) := by
  have pos : 0 < q := by linarith
  have power : (0 : ℚ) < 2 ^ e := by positivity
  have unit : (0 : ℚ) < 2 ^ lastPlace q := zpow_pos (by norm_num) _
  have lower := neg_one_le_log low
  have shifted : Int.log 2 (q * 2 ^ e) = Int.log 2 q + e := by
    have below := Int.zpow_log_le_self (b := 2) (by decide) pos
    have above := Int.lt_zpow_succ_log_self (b := 2) (by decide) q
    push_cast at below above
    have product : 0 < q * 2 ^ e := mul_pos pos power
    apply le_antisymm
    · rw [← Int.lt_add_one_iff]
      apply (Int.lt_zpow_iff_log_lt (by decide) product).mp
      push_cast
      rw [add_right_comm, zpow_add₀ (by norm_num) _ (e : ℤ), zpow_natCast]
      exact mul_lt_mul_of_pos_right above power
    · apply (Int.zpow_le_iff_le_log (by decide) product).mp
      push_cast
      rw [zpow_add₀ (by norm_num), zpow_natCast]
      exact mul_le_mul_of_nonneg_right below power.le
  have place : lastPlace (q * 2 ^ e) = lastPlace q + e := by
    rw [lastPlace, lastPlace, abs_of_pos pos, abs_of_pos (mul_pos pos power), shifted]
    omega
  have scaled : (2 : ℚ) ^ lastPlace (q * 2 ^ e) = 2 ^ lastPlace q * 2 ^ e := by
    rw [place, zpow_add₀ (by norm_num), zpow_natCast]
  obtain ⟨y, same, -, -, bounded⟩ := toDouble_near low high
  obtain rfl : y = x := Option.some.inj (same.symm.trans nearest)
  have most : y ≤ 2 ^ 51 := by
    have reached := bounded (2 ^ 52) (by
      push_cast
      linarith)
    push_cast at reached
    linarith
  rw [toDouble] at nearest ⊢
  simp only [if_neg (ne_of_gt pos)] at nearest
  simp only [if_neg (ne_of_gt (mul_pos pos power)), scaled]
  split at nearest
  · rw [mul_div_mul_right _ _ (ne_of_gt power)]
    obtain value := Option.some.inj nearest
    rw [← mul_assoc, value, if_pos]
    have least : 0 ≤ y := by
      rw [← value]
      apply mul_nonneg _ unit.le
      exact_mod_cast le_roundHalfEven (n := 0) (by
        push_cast
        exact div_nonneg pos.le unit.le)
    rw [abs_of_nonneg (mul_nonneg least power.le)]
    have factor : (2 : ℚ) ^ e ≤ 2 ^ 900 := pow_le_pow_right₀ (by norm_num) small
    calc y * 2 ^ e ≤ 2 ^ 51 * 2 ^ 900 := mul_le_mul most factor power.le (by positivity)
      _ = 2 ^ 951 := by rw [← pow_add]
      _ < 2 ^ 1024 := pow_lt_pow_right₀ (by norm_num) (by norm_num)
  · exact absurd nearest (by simp)

end StorageScaleTest.Numeric
