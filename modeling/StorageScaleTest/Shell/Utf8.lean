import Mathlib.Data.Char

/-!
# UTF-8

The bytes of a character, and the character of its bytes.
-/

namespace Shell

def utf8 (c : Char) : List Nat :=
  let n := c.toNat
  if n < 0x80 then [n]
  else if n < 0x800 then [0xc0 + n / 0x40, 0x80 + n % 0x40]
  else if n < 0x10000 then [0xe0 + n / 0x1000, 0x80 + n / 0x40 % 0x40, 0x80 + n % 0x40]
  else [0xf0 + n / 0x40000, 0x80 + n / 0x1000 % 0x40, 0x80 + n / 0x40 % 0x40, 0x80 + n % 0x40]

def decodeUtf8 : List Nat → Option Char
  | [a] => if a < 0x80 then some (Char.ofNat a) else none
  | [a, b] =>
    if 0xc0 ≤ a ∧ a < 0xe0 then some (Char.ofNat ((a - 0xc0) * 0x40 + (b - 0x80))) else none
  | [a, b, c] =>
    if 0xe0 ≤ a ∧ a < 0xf0 then
      some (Char.ofNat (((a - 0xe0) * 0x40 + (b - 0x80)) * 0x40 + (c - 0x80)))
    else none
  | [a, b, c, d] =>
    if 0xf0 ≤ a then
      some (Char.ofNat ((((a - 0xf0) * 0x40 + (b - 0x80)) * 0x40 + (c - 0x80)) * 0x40 + (d - 0x80)))
    else none
  | _ => none

theorem toNat_lt (c : Char) : c.toNat < 0x110000 := by
  have valid := c.valid
  simp only [UInt32.isValidChar, Nat.isValidChar] at valid
  change c.val.toNat < 0x110000
  omega

theorem byte_lt {c : Char} {b : Nat} (mem : b ∈ utf8 c) : b < 0x100 := by
  have bound := toNat_lt c
  unfold utf8 at mem
  dsimp only at mem
  split_ifs at mem <;> simp only [List.mem_cons, List.not_mem_nil, or_false] at mem <;> omega

theorem utf8_of_ascii {c : Char} (ascii : c.toNat < 0x80) : utf8 c = [c.toNat] := if_pos ascii

theorem utf8_eq (c : Char) : ∃ front last, utf8 c = front ++ [last] ∧
    decodeUtf8 (front ++ [last]) = some c ∧
      ∀ n, 0 < n → n ≤ front.length → decodeUtf8 (front.take n) = none := by
  have bound := toNat_lt c
  have whole {n : Nat} (same : n = c.toNat) : some (Char.ofNat n) = some c := by
    rw [same, Char.ofNat_toNat]
  by_cases one : c.toNat < 0x80
  · refine ⟨[], c.toNat, utf8_of_ascii one, (if_pos one).trans (whole rfl), ?_⟩
    intro n pos le
    exact absurd pos (Nat.not_lt.mpr le)
  by_cases two : c.toNat < 0x800
  · refine ⟨[_], _, (if_neg one).trans (if_pos two), (if_pos (by omega)).trans (whole (by omega)), ?_⟩
    intro n pos le
    obtain rfl : n = 1 := le_antisymm le pos
    exact if_neg (by omega)
  by_cases three : c.toNat < 0x10000
  · refine ⟨[_, _], _, (if_neg one).trans ((if_neg two).trans (if_pos three)),
      (if_pos (by omega)).trans (whole (by omega)), ?_⟩
    intro n pos le
    rcases (show n = 1 ∨ n = 2 by simp at le; omega) with rfl | rfl
    · exact if_neg (by omega)
    · exact if_neg (by omega)
  · refine ⟨[_, _, _], _, (if_neg one).trans ((if_neg two).trans (if_neg three)),
      (if_pos (by omega)).trans (whole (by omega)), ?_⟩
    intro n pos le
    rcases (show n = 1 ∨ n = 2 ∨ n = 3 by simp at le; omega) with rfl | rfl | rfl
    · exact if_neg (by omega)
    · exact if_neg (by omega)
    · exact if_neg (by omega)

end Shell
