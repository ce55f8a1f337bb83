import Mathlib.Data.Int.Log
import Mathlib.Data.Rat.Floor
import Mathlib.Tactic.Positivity

/-!
# Numbers with a fixed count of binary digits

`toBits n q` is the number with `n` binary digits that is nearest to the rational `q`, a tie going
to the even one, as floating-point arithmetic rounds its results. The exponent has no bounds here,
so this is the arithmetic of a format as long as its results are neither too large nor too small for
it.

* `le_toBits` and `toBits_le` — rounding changes no more than one part in `2 ^ n`;
* `toBits_exact` — what has few enough digits stays as it is.
-/

namespace Rounding

/-- The nearest integer, a tie going to the even one. -/
def nearest (q : ℚ) : ℤ :=
  if Int.fract q < 1 / 2 then ⌊q⌋
  else if 1 / 2 < Int.fract q then ⌊q⌋ + 1
  else ⌊q⌋ + ⌊q⌋ % 2

/-- The nearest number of `n` binary digits. -/
def toBits (n : ℕ) (q : ℚ) : ℚ :=
  nearest (q / 2 ^ (Int.log 2 |q| + 1 - n)) * 2 ^ (Int.log 2 |q| + 1 - n)

theorem nearest_intCast (k : ℤ) : nearest k = k := by
  rw [nearest, Int.fract_intCast, if_pos (by norm_num), Int.floor_intCast]

theorem sub_half_le_nearest (q : ℚ) : q - 1 / 2 ≤ nearest q := by
  have hsplit : (⌊q⌋ : ℚ) + Int.fract q = q := Int.floor_add_fract q
  have hlt := Int.fract_lt_one q
  rw [nearest]
  split_ifs with hless hmore
  · linarith
  · push_cast
    linarith
  · have hmod : (0 : ℚ) ≤ (⌊q⌋ % 2 : ℤ) := by exact_mod_cast Int.emod_nonneg _ (by decide)
    push_cast at hmod ⊢
    linarith

theorem nearest_le_add_half (q : ℚ) : nearest q ≤ q + 1 / 2 := by
  have hsplit : (⌊q⌋ : ℚ) + Int.fract q = q := Int.floor_add_fract q
  have hnonneg := Int.fract_nonneg q
  rw [nearest]
  split_ifs with hless hmore
  · linarith
  · push_cast
    linarith
  · have hmod : ((⌊q⌋ % 2 : ℤ) : ℚ) ≤ 1 := by
      have := Int.emod_lt_of_pos ⌊q⌋ (show (0 : ℤ) < 2 by decide)
      exact_mod_cast Int.le_of_lt_add_one this
    push_cast at hmod ⊢
    linarith

variable {n : ℕ} {q : ℚ}

/-- Half a unit in the last place is little. -/
theorem half_unit_le (hq : 0 < q) :
    1 / 2 * (2 : ℚ) ^ (Int.log 2 q + 1 - n) ≤ q * (1 / 2 ^ n) := by
  have hlog : (2 : ℚ) ^ Int.log 2 q ≤ q := by exact_mod_cast Int.zpow_log_le_self (by decide) hq
  rw [zpow_sub₀ two_ne_zero, zpow_add_one₀ two_ne_zero, zpow_natCast]
  calc 1 / 2 * ((2 : ℚ) ^ Int.log 2 q * 2 / 2 ^ n) = 2 ^ Int.log 2 q * (1 / 2 ^ n) := by ring
    _ ≤ q * (1 / 2 ^ n) := mul_le_mul_of_nonneg_right hlog (by positivity)

/-- **Rounding takes away little.** -/
theorem le_toBits (hq : 0 < q) : q * (1 - 1 / 2 ^ n) ≤ toBits n q := by
  have hpos : (0 : ℚ) < 2 ^ (Int.log 2 q + 1 - n) := zpow_pos two_pos _
  have hhalf := half_unit_le (n := n) hq
  rw [toBits, abs_of_pos hq]
  have hnearest := mul_le_mul_of_nonneg_right (sub_half_le_nearest (q / 2 ^ (Int.log 2 q + 1 - n)))
    hpos.le
  rw [sub_mul, div_mul_cancel₀ _ hpos.ne'] at hnearest
  linarith

/-- **And it adds little.** -/
theorem toBits_le (hq : 0 < q) : toBits n q ≤ q * (1 + 1 / 2 ^ n) := by
  have hpos : (0 : ℚ) < 2 ^ (Int.log 2 q + 1 - n) := zpow_pos two_pos _
  have hhalf := half_unit_le (n := n) hq
  rw [toBits, abs_of_pos hq]
  have hnearest := mul_le_mul_of_nonneg_right (nearest_le_add_half (q / 2 ^ (Int.log 2 q + 1 - n)))
    hpos.le
  rw [add_mul, div_mul_cancel₀ _ hpos.ne'] at hnearest
  linarith

/-- **Numbers with few digits** are not rounded. -/
theorem toBits_exact {m : ℕ} {e : ℤ} (hm : m < 2 ^ n) :
    toBits n ((m : ℚ) * 2 ^ e) = (m : ℚ) * 2 ^ e := by
  rcases Nat.eq_zero_or_pos m with rfl | hpos
  · rw [Nat.cast_zero, zero_mul, toBits, zero_div]
    have hzero : nearest 0 = 0 := by exact_mod_cast nearest_intCast 0
    rw [hzero, Int.cast_zero, zero_mul]
  · have hq : 0 < (m : ℚ) * 2 ^ e := mul_pos (by exact_mod_cast hpos) (zpow_pos two_pos _)
    have hlog : Int.log 2 ((m : ℚ) * 2 ^ e) < n + e := by
      rw [← Int.lt_zpow_iff_log_lt (by decide) hq]
      push_cast
      rw [zpow_add₀ two_ne_zero, zpow_natCast]
      exact mul_lt_mul_of_pos_right (by exact_mod_cast hm) (zpow_pos two_pos _)
    rw [toBits, abs_of_pos hq]
    -- the number is a multiple of the unit in the last place
    obtain ⟨k, hk⟩ : ∃ k : ℕ, e = Int.log 2 ((m : ℚ) * 2 ^ e) + 1 - n + k :=
      ⟨(e - (Int.log 2 ((m : ℚ) * 2 ^ e) + 1 - n)).toNat, by omega⟩
    generalize Int.log 2 ((m : ℚ) * 2 ^ e) + 1 - n = u at hk
    have hunit : (2 : ℚ) ^ u ≠ 0 := (zpow_pos two_pos _).ne'
    have hint : (m : ℚ) * 2 ^ e / 2 ^ u = ((m * 2 ^ k : ℤ) : ℚ) := by
      rw [hk, zpow_add₀ two_ne_zero, zpow_natCast]
      push_cast
      field_simp
    rw [hint, nearest_intCast, ← hint, div_mul_cancel₀ _ hunit]

end Rounding
