import Mathlib.Data.Int.Log
import Mathlib.Data.Rat.Floor
import Mathlib.Tactic.FieldSimp
import Mathlib.Tactic.Linarith

/-! # Double-precision numbers

Rounding to the nearest double, ties to the even one, on the rationals. There is no largest
double: numbers from `2 ^ 1024` on are out of scope.
-/

namespace LocalSend.Double

/-- The integer nearest to a number; of two of them the even one. -/
def nearest (q : ℚ) : ℤ :=
  let low := ⌊q⌋
  if q - low < 1 / 2 then low
  else if 1 / 2 < q - low then low + 1
  else if low % 2 = 0 then low
  else low + 1

/-- The exponent of the last of the 53 bits of a number. -/
def lastBit (q : ℚ) : ℤ := max (Int.log 2 |q| - 52) (-1074)

/-- The double nearest to a number. -/
def round (q : ℚ) : ℚ := nearest (q / 2 ^ lastBit q) * 2 ^ lastBit q

/-- A number of at most 53 bits. -/
def IsDouble (q : ℚ) : Prop :=
  ∃ mantissa exponent : ℤ, |mantissa| < 2 ^ 53 ∧ -1074 ≤ exponent ∧ q = mantissa * 2 ^ exponent

theorem nearest_intCast (z : ℤ) : nearest z = z := by
  simp [nearest]

/-- No bit of a double is below its last one. -/
theorem lastBit_le {mantissa exponent : ℤ} (hne : mantissa ≠ 0) (hmantissa : |mantissa| < 2 ^ 53)
    (hexponent : -1074 ≤ exponent) : lastBit (mantissa * 2 ^ exponent) ≤ exponent := by
  have hpos : (0 : ℚ) < |(mantissa : ℚ) * 2 ^ exponent| := by
    rw [abs_pos]
    exact mul_ne_zero (by exact_mod_cast hne) (zpow_ne_zero _ (by norm_num))
  have hlow := Int.zpow_log_le_self (b := 2) (by norm_num) hpos
  have hhigh : |(mantissa : ℚ) * 2 ^ exponent| < 2 ^ (53 + exponent) := by
    have hpow : (0 : ℚ) < 2 ^ exponent := zpow_pos (by norm_num) _
    have hcast : (|mantissa| : ℚ) < 2 ^ (53 : ℤ) := by exact_mod_cast hmantissa
    rw [abs_mul, abs_of_pos hpow, zpow_add₀ (by norm_num)]
    exact mul_lt_mul_of_pos_right hcast hpow
  have hlog : Int.log 2 |(mantissa : ℚ) * 2 ^ exponent| < 53 + exponent := by
    have hpowers := lt_of_le_of_lt hlow hhigh
    exact (zpow_lt_zpow_iff_right₀ (by norm_num : (1 : ℚ) < 2)).mp (by exact_mod_cast hpowers)
  unfold lastBit
  omega

/-- Rounding leaves a double as it is. -/
theorem round_eq {q : ℚ} (h : IsDouble q) : round q = q := by
  obtain ⟨mantissa, exponent, hmantissa, hexponent, rfl⟩ := h
  by_cases hne : mantissa = 0
  · subst hne
    simp [round, nearest]
  · have hle := lastBit_le hne hmantissa hexponent
    unfold round
    generalize lastBit ((mantissa : ℚ) * 2 ^ exponent) = last at hle ⊢
    obtain ⟨bits, rfl⟩ := Int.le.dest hle
    have hpow : (2 : ℚ) ^ last ≠ 0 := zpow_ne_zero _ (by norm_num)
    have hscaled : (mantissa : ℚ) * 2 ^ (last + bits) / 2 ^ last =
        ((mantissa * 2 ^ bits : ℤ) : ℚ) := by
      rw [zpow_add₀ (by norm_num), zpow_natCast]
      push_cast
      field_simp
    rw [hscaled, nearest_intCast, ← hscaled, div_mul_cancel₀ _ hpow]

/-- Whole numbers below `2 ^ 53`. -/
theorem isDouble_natCast {number : ℕ} (h : number < 2 ^ 53) : IsDouble number :=
  ⟨number, 0, by rw [Nat.abs_cast]; exact_mod_cast h, by norm_num, by simp⟩

end LocalSend.Double
