import StorageScaleTest.Sizing.Sizes
import StorageScaleTest.Proof.Sizing.Completion

/-!
# Generated files have the exact size

The promotion of a size keeps its bytes, and stops at the largest suffix that divides them.
-/

namespace StorageScaleTest.Sizing
open Shell Decimal

theorem isPositiveDecimal_numeral {n : Nat} (pos : 0 < n) : isPositiveDecimal (numeral n) := by
  obtain ⟨c, a, shape, other⟩ := numeral_head pos
  refine ⟨isDigits_true n, ?_⟩
  rw [shape]
  simpa using other

theorem sizeParts_numeral {n : Nat} (pos : 0 < n) (s : Suffix) :
    sizeParts (numeral n ++ [s.char]) = some (numeral n, s) := by
  simp only [sizeParts, List.getLast?_concat, Option.bind_eq_bind, Option.bind_some,
    Suffix.ofChar?_char, List.dropLast_concat]
  exact if_pos (isPositiveDecimal_numeral pos)

theorem sizeParts_eq_some {size coefficient : List Char} {s : Suffix}
    (parts : sizeParts size = some (coefficient, s)) : isPositiveDecimal coefficient := by
  simp only [sizeParts, Option.bind_eq_bind, Option.bind_eq_some_iff] at parts
  obtain ⟨c, _, suffix, _, found⟩ := parts
  split at found
  · rename_i positive
    cases found
    exact positive
  · cases found

theorem sizeToExactBytes_of {size coefficient : List Char} {s : Suffix}
    (parts : sizeParts size = some (coefficient, s)) :
    sizeToExactBytes size = some (numeral (value coefficient * s.bytes)) := by
  have digits := (sizeParts_eq_some parts).1
  simp only [sizeToExactBytes, parts, Option.bind_eq_bind, Option.bind_some]
  rw [decimalMultiply_eq digits (isDigits_true _), value_numeral]

theorem divide_1024 (n : Nat) : decimalDivideSmall (numeral n) "1024".toList =
    some (numeral (n / 1024), numeral (n % 1024)) := by
  rw [decimalDivideSmall_eq (isDigits_true n) (by decide) (by decide), value_numeral]
  rfl

/-- The bytes are kept, and a promotion that stops short of `G` stops at a remainder. -/
theorem promote_of {n : Nat} (pos : 0 < n) (s : Suffix) : ∃ n' s',
    promote (numeral n) s = some (numeral n', s') ∧ 0 < n' ∧ n' * s'.bytes = n * s.bytes ∧
      s.rank ≤ s'.rank ∧ (s' = .G ∨ ¬1024 ∣ n') := by
  induction rest : 2 - s.rank generalizing n s with
  | zero =>
      have last : s = .G := by
        cases s with
        | K => cases rest
        | M => cases rest
        | G => rfl
      refine ⟨n, s, ?_, pos, rfl, le_refl _, .inl last⟩
      rw [promote, dif_pos last]
  | succ rest' ih =>
      have more : s ≠ .G := by
        intro same
        rw [same] at rest
        cases rest
      rw [promote, dif_neg more, divide_1024]
      dsimp only
      by_cases divides : n % 1024 = 0
      · have whole : 1024 * (n / 1024) = n := Nat.mul_div_cancel' (Nat.dvd_of_mod_eq_zero divides)
        have next : (if s = .K then Suffix.M else .G).rank = s.rank + 1 ∧
            (if s = .K then Suffix.M else .G).bytes = s.bytes * 1024 := by
          cases s with
          | K => exact ⟨rfl, rfl⟩
          | M => exact ⟨rfl, rfl⟩
          | G => exact absurd rfl more
        obtain ⟨n', s', result, pos', bytes, higher, last⟩ :=
          ih (n := n / 1024) (by omega) (if s = .K then .M else .G) (by rw [next.1]; omega)
        rw [divides, if_neg (by decide), result]
        refine ⟨n', s', rfl, pos', ?_, by omega, last⟩
        rw [bytes, next.2, ← Nat.mul_assoc, Nat.mul_right_comm, Nat.mul_comm (n / 1024), whole]
      · have other : numeral (n % 1024) ≠ ['0'] :=
          fun same => divides (numeral_injective (n := 0) same)
        rw [if_pos other]
        exact ⟨n, s, rfl, pos, rfl, le_refl _, .inr fun dvd => divides (Nat.mod_eq_zero_of_dvd dvd)⟩

/-- The generated size has the bytes of the write size times the multiplier, under the largest
suffix from that of the write size on that divides them. -/
theorem generated_size_exact {writeSize coefficient multiplier : List Char} {s : Suffix}
    (parts : sizeParts writeSize = some (coefficient, s)) (digits : isDigits multiplier = true)
    (pos : 0 < value multiplier) :
    sizeToExactBytes writeSize = some (numeral (value coefficient * s.bytes)) ∧
    ∃ coefficient' s',
      resolveGeneratedFileSize [] multiplier writeSize = some (coefficient' ++ [s'.char]) ∧
      sizeParts (coefficient' ++ [s'.char]) = some (coefficient', s') ∧
      sizeToExactBytes (coefficient' ++ [s'.char]) =
        some (numeral (value multiplier * (value coefficient * s.bytes))) ∧
      s.rank ≤ s'.rank ∧ s'.bytes ∣ value multiplier * (value coefficient * s.bytes) ∧
      ∀ t : Suffix, t.bytes ∣ value multiplier * (value coefficient * s.bytes) →
        t.rank ≤ s'.rank := by
  refine ⟨sizeToExactBytes_of parts, ?_⟩
  have positive := sizeParts_eq_some parts
  have product : 0 < value coefficient * value multiplier :=
    Nat.mul_pos (numeral_of_positive positive).2 pos
  obtain ⟨n', s', result, pos', bytes, higher, last⟩ := promote_of product s
  have given : multiplier ≠ [] := (isDigits_iff.mp digits).1
  have total : value multiplier * (value coefficient * s.bytes) = n' * s'.bytes := by
    rw [bytes, Nat.mul_comm (value coefficient) (value multiplier), Nat.mul_assoc]
  refine ⟨numeral n', s', ?_, sizeParts_numeral pos' s', ?_, higher, ?_, ?_⟩
  · rw [resolveGeneratedFileSize, if_neg (not_not.mpr rfl)]
    simp only [parts, if_neg given, Option.bind_eq_bind, Option.bind_some,
      decimalMultiply_eq positive.1 digits, result]
  · rw [sizeToExactBytes_of (sizeParts_numeral pos' s'), value_numeral, total]
  · rw [total]
    exact Nat.dvd_mul_left _ _
  · intro t divides
    rcases last with top | stuck
    · rw [top]
      cases t <;> decide
    · by_contra above
      apply stuck
      have power : 1024 * s'.bytes ∣ t.bytes := by
        rw [t.bytes_eq, s'.bytes_eq, ← pow_succ']
        exact pow_dvd_pow 1024 (by omega)
      rw [total] at divides
      exact Nat.dvd_of_mul_dvd_mul_right s'.bytes_pos (power.trans divides)

theorem generated_size_exact_gigabytes :
    sizeToExactBytes "4K".toList = some "4096".toList ∧
    resolveGeneratedFileSize [] "1048576".toList "4K".toList = some "4G".toList ∧
    sizeToExactBytes "4G".toList = some "4294967296".toList := by
  obtain ⟨written, c, s, resolved, _, bytes, _⟩ := @generated_size_exact "4K".toList "4".toList
    "1048576".toList .K rfl rfl (by decide)
  have size : resolveGeneratedFileSize [] "1048576".toList "4K".toList = some "4G".toList := by
    decide +kernel
  rw [← Option.some_inj.mp (size.symm.trans resolved)] at bytes
  exact ⟨written.trans (by decide +kernel), size, bytes.trans (by decide +kernel)⟩

end StorageScaleTest.Sizing
