import Mathlib.Data.Nat.Log
import Mathlib.Algebra.Order.Ring.Int
import Mathlib.Tactic.Ring

/-!
# Binary floating-point numbers

A format has so many bits for the exponent and so many for the mantissa; a number of it is its bits.
Every finite number is a multiple of the smallest positive one, and is counted in these (`units`),
so that a difference of two numbers is exact before it is rounded (`ofUnits`).

* `key` puts the numbers into order, infinities included; both zeros are one.
* `sub` is the subtraction of the machine. Its result is zero, or positive, exactly as the order of
  the numbers has it (`sub_isZero_iff`, `sub_isPositive_iff`): no difference is rounded to zero.
  There is one exception, an infinity less itself, which is no number.
-/

namespace Binary

/-- The bits of the exponent and of the mantissa. -/
structure Format where
  exponent : ℕ
  mantissa : ℕ

namespace Format

variable (f : Format) {a b m n x : ℕ}

/-- All bits but the sign. -/
def magnitude (x : ℕ) : ℕ := x % 2 ^ (f.exponent + f.mantissa)

def negative (x : ℕ) : Bool := x / 2 ^ (f.exponent + f.mantissa) % 2 = 1

/-- The magnitude of an infinity. -/
def infinity : ℕ := (2 ^ f.exponent - 1) * 2 ^ f.mantissa

def isNaN (x : ℕ) : Bool := f.infinity < f.magnitude x

def isInfinite (x : ℕ) : Bool := f.magnitude x = f.infinity

/-- The number is zero, with either sign. -/
def isZero (x : ℕ) : Bool := f.magnitude x = 0

/-- The number is above zero. -/
def isPositive (x : ℕ) : Bool := !f.isNaN x && !f.isZero x && !f.negative x

/-- `n`, with a sign in front. -/
def signed (negative : Bool) (n : ℕ) : ℕ :=
  if negative = true then 2 ^ (f.exponent + f.mantissa) + n else n

/-- The place of a number in the order of the numbers. -/
def key (x : ℕ) : ℤ := if f.negative x = true then -(f.magnitude x) else f.magnitude x

/-! ### Subtraction -/

/-- A magnitude as a multiple of the smallest one. -/
def units (n : ℕ) : ℕ :=
  let e := n / 2 ^ f.mantissa
  if e = 0 then n else (2 ^ f.mantissa + n % 2 ^ f.mantissa) * 2 ^ (e - 1)

/-- The magnitude nearest to a multiple of the smallest one, a tie going to the even one. -/
def ofUnits (n : ℕ) : ℕ :=
  if n < 2 ^ (f.mantissa + 1) then n
  else
    let shift := Nat.log 2 n - f.mantissa
    let q := n / 2 ^ shift
    let rest := n % 2 ^ shift
    let up := 2 ^ shift < 2 * rest ∨ 2 ^ shift = 2 * rest ∧ q % 2 = 1
    min f.infinity ((if up then q + 1 else q) + shift * 2 ^ f.mantissa)

/-- A finite number as a multiple of the smallest positive one. -/
def value (x : ℕ) : ℤ :=
  if f.negative x = true then -(f.units (f.magnitude x)) else f.units (f.magnitude x)

/-- `a - b` -/
def sub (a b : ℕ) : ℕ :=
  if f.isNaN a = true ∨ f.isNaN b = true then f.infinity + 1
  else if f.isInfinite a = true then
    if f.isInfinite b = true ∧ f.negative a = f.negative b then f.infinity + 1 else a
  else if f.isInfinite b = true then f.signed (!f.negative b) f.infinity
  else
    let d := f.value a - f.value b
    f.signed (decide (d < 0)) (f.ofUnits d.natAbs)

/-! ### The order of the numbers -/

/-- A larger magnitude is more. -/
theorem units_lt (h : m < n) : f.units m < f.units n := by
  have hpow := Nat.two_pow_pos f.mantissa
  have hm := Nat.div_add_mod m (2 ^ f.mantissa)
  have hn := Nat.div_add_mod n (2 ^ f.mantissa)
  have hmlt := Nat.mod_lt m hpow
  have hnlt := Nat.mod_lt n hpow
  have hle : m / 2 ^ f.mantissa ≤ n / 2 ^ f.mantissa := Nat.div_le_div_right h.le
  unfold units
  dsimp only
  by_cases hzero : m / 2 ^ f.mantissa = 0
  · rw [if_pos hzero]
    rw [hzero, Nat.mul_zero, Nat.zero_add] at hm
    split_ifs with hn0
    · exact h
    · calc m < 2 ^ f.mantissa := by omega
        _ ≤ (2 ^ f.mantissa + n % 2 ^ f.mantissa) * 1 := by omega
        _ ≤ _ := Nat.mul_le_mul_left _ (Nat.two_pow_pos _)
  · have hmpos := Nat.pos_of_ne_zero hzero
    have hnpos := hmpos.trans_le hle
    rw [if_neg hzero, if_neg hnpos.ne']
    obtain heq | hlt := hle.eq_or_lt
    · -- one exponent
      rw [heq] at hm ⊢
      exact Nat.mul_lt_mul_of_pos_right (by omega) (Nat.two_pow_pos _)
    · calc (2 ^ f.mantissa + m % 2 ^ f.mantissa) * 2 ^ (m / 2 ^ f.mantissa - 1)
          < (2 ^ f.mantissa * 2) * 2 ^ (m / 2 ^ f.mantissa - 1) :=
            Nat.mul_lt_mul_of_pos_right (by omega) (Nat.two_pow_pos _)
        _ = 2 ^ f.mantissa * 2 ^ (m / 2 ^ f.mantissa) := by
            rw [Nat.mul_assoc, ← Nat.pow_succ', Nat.succ_eq_add_one, Nat.sub_add_cancel hmpos]
        _ ≤ 2 ^ f.mantissa * 2 ^ (n / 2 ^ f.mantissa - 1) :=
            Nat.mul_le_mul_left _ (Nat.pow_le_pow_right (by decide) (by omega))
        _ ≤ _ := Nat.mul_le_mul_right _ (Nat.le_add_right _ _)

theorem units_zero : f.units 0 = 0 := by
  rw [units, Nat.zero_div]
  exact if_pos rfl

theorem units_lt_iff : f.units m < f.units n ↔ m < n :=
  (strictMono_nat_of_lt_succ fun n ↦ f.units_lt (Nat.lt_succ_self n)).lt_iff_lt

/-- The values of finite numbers are ordered as their keys. -/
theorem value_lt_iff : f.value a < f.value b ↔ f.key a < f.key b := by
  have hlt := f.units_lt_iff (m := f.magnitude a) (n := f.magnitude b)
  have hgt := f.units_lt_iff (m := f.magnitude b) (n := f.magnitude a)
  have ha := f.units_lt_iff (m := 0) (n := f.magnitude a)
  have hb := f.units_lt_iff (m := 0) (n := f.magnitude b)
  rw [units_zero] at ha hb
  unfold value key
  split_ifs <;> omega

/-! ### The sign of a difference -/

/-- Only zero is rounded to zero. -/
theorem ofUnits_eq_zero_iff (he : 0 < f.exponent) : f.ofUnits n = 0 ↔ n = 0 := by
  have hpow : 1 < 2 ^ f.exponent := Nat.one_lt_two_pow he.ne'
  have hinfinity : 0 < f.infinity := Nat.mul_pos (by omega) (Nat.two_pow_pos _)
  unfold ofUnits
  split_ifs with hsmall
  · rfl
  · have hn : n ≠ 0 := fun h0 ↦ hsmall (h0 ▸ Nat.two_pow_pos _)
    have hshift : 2 ^ (Nat.log 2 n - f.mantissa) ≤ n :=
      (Nat.pow_le_pow_right (by decide) (Nat.sub_le _ _)).trans (Nat.pow_log_le_self 2 hn)
    have hq : 0 < n / 2 ^ (Nat.log 2 n - f.mantissa) := Nat.div_pos hshift (Nat.two_pow_pos _)
    refine iff_of_false (Nat.pos_iff_ne_zero.1 (lt_min hinfinity ?_)) hn
    split_ifs <;> omega

/-- The formats that are in use have room for more than zeros and infinities. -/
structure Sound : Prop where
  exponent : 2 ≤ f.exponent
  mantissa : 1 ≤ f.mantissa

variable {f}

namespace Sound

theorem infinity_pos (hf : f.Sound) : 0 < f.infinity :=
  Nat.mul_pos (Nat.sub_pos_of_lt (Nat.one_lt_two_pow (by have := hf.exponent; omega)))
    (Nat.two_pow_pos _)

theorem infinity_lt (hf : f.Sound) : f.infinity + 1 < 2 ^ (f.exponent + f.mantissa) := by
  have hpow := Nat.two_pow_pos f.exponent
  have hm : 2 ^ 1 ≤ 2 ^ f.mantissa := Nat.pow_le_pow_right (by decide) hf.mantissa
  have hle : 1 * 2 ^ f.mantissa ≤ 2 ^ f.exponent * 2 ^ f.mantissa := Nat.mul_le_mul_right _ hpow
  rw [infinity, Nat.sub_mul, Nat.one_mul, Nat.pow_add]
  omega

theorem ofUnits_le (hf : f.Sound) : f.ofUnits n ≤ f.infinity := by
  have he : 2 ^ 2 ≤ 2 ^ f.exponent := Nat.pow_le_pow_right (by decide) hf.exponent
  unfold ofUnits
  split_ifs with hsmall
  · calc n ≤ 2 * 2 ^ f.mantissa := by rw [← Nat.pow_succ']; exact hsmall.le
      _ ≤ f.infinity := Nat.mul_le_mul_right _ (by omega)
  · exact min_le_left _ _

end Sound

theorem isInfinite_iff : f.isInfinite x = true ↔ f.magnitude x = f.infinity := decide_eq_true_iff

/-- What is left of the bits behind a sign. -/
theorem magnitude_signed (s : Bool) (hn : n < 2 ^ (f.exponent + f.mantissa)) :
    f.magnitude (f.signed s n) = n ∧ f.negative (f.signed s n) = s := by
  unfold magnitude negative signed
  cases s with
  | false => simp [Nat.mod_eq_of_lt hn, Nat.div_eq_of_lt hn]
  | true =>
    have hdiv : (2 ^ (f.exponent + f.mantissa) + n) / 2 ^ (f.exponent + f.mantissa) = 1 := by
      rw [Nat.add_div_left _ (Nat.two_pow_pos _), Nat.div_eq_of_lt hn]
    simp [hdiv, Nat.mod_eq_of_lt hn]

/-- A magnitude with a sign in front, as a result. -/
theorem isZero_signed (hf : f.Sound) (s : Bool) (hn : n ≤ f.infinity) :
    (f.isZero (f.signed s n) = true ↔ n = 0) ∧
      (f.isPositive (f.signed s n) = true ↔ n ≠ 0 ∧ s = false) := by
  have hlt : n < 2 ^ (f.exponent + f.mantissa) :=
    hn.trans_lt ((Nat.lt_succ_self _).trans hf.infinity_lt)
  obtain ⟨hmagnitude, hnegative⟩ := magnitude_signed s hlt
  have hnan : ¬ f.infinity < n := Nat.not_lt.2 hn
  unfold isPositive isNaN isZero
  rw [hmagnitude, hnegative]
  simp [hnan]

/-- An infinity is further out than every finite number. -/
theorem key_infinite (hb : f.magnitude b ≤ f.infinity)
    (ha : f.magnitude a = f.infinity) (hab : f.key a ≠ f.key b) :
    f.key b < f.key a ↔ f.negative a = false := by
  have hle : f.key b ≤ f.infinity ∧ -f.infinity ≤ f.key b := by
    unfold key
    split_ifs <;> omega
  unfold key at hab ⊢
  rw [ha] at hab ⊢
  cases hsign : f.negative a <;> simp [hsign] at hab ⊢ <;> omega

/-- **The difference of two numbers** has the sign that their order gives it, unless they are one
infinity. -/
theorem sign_sub (hf : f.Sound) (ha : f.isNaN a = false) (hb : f.isNaN b = false)
    (hab : ¬ (f.isInfinite a = true ∧ f.key a = f.key b)) :
    (f.isZero (f.sub a b) = true ↔ f.key a = f.key b) ∧
      (f.isPositive (f.sub a b) = true ↔ f.key b < f.key a) := by
  have hpos := hf.infinity_pos
  have hle_a : f.magnitude a ≤ f.infinity := Nat.not_lt.1 (of_decide_eq_false ha)
  have hle_b : f.magnitude b ≤ f.infinity := Nat.not_lt.1 (of_decide_eq_false hb)
  unfold sub
  rw [if_neg (by simp [ha, hb])]
  by_cases hinf_a : f.magnitude a = f.infinity
  · -- The infinity is the result.
    have hinf : f.isInfinite a = true := isInfinite_iff.2 hinf_a
    have hne : f.key a ≠ f.key b := fun h ↦ hab ⟨hinf, h⟩
    have hother : ¬ (f.isInfinite b = true ∧ f.negative a = f.negative b) := by
      rintro ⟨hinf_b, hsign⟩
      exact hne (by rw [key, key, hsign, hinf_a, isInfinite_iff.1 hinf_b])
    rw [if_pos hinf, if_neg hother, key_infinite hle_b hinf_a hne, isPositive, isZero, ha, hinf_a]
    simp [hpos.ne', hne]
  rw [if_neg (mt isInfinite_iff.1 hinf_a)]
  by_cases hinf_b : f.magnitude b = f.infinity
  · -- The infinity is the result, the other way round.
    have hne : f.key b ≠ f.key a := by
      unfold key
      split_ifs <;> omega
    have hkey := key_infinite hle_a hinf_b hne
    obtain ⟨hzero, hpositive⟩ := isZero_signed hf (!f.negative b) (Nat.le_refl _)
    rw [if_pos (isInfinite_iff.2 hinf_b), hzero, hpositive, Bool.not_eq_false']
    refine ⟨iff_of_false hpos.ne' hne.symm, ?_⟩
    rw [and_iff_right hpos.ne', ← Bool.not_eq_false, ← hkey]
    omega
  · -- The difference is counted exactly, and rounded then.
    have hlt := f.value_lt_iff (a := a) (b := b)
    have hgt := f.value_lt_iff (a := b) (b := a)
    obtain ⟨hzero, hpositive⟩ := isZero_signed hf (decide (f.value a - f.value b < 0))
      (hf.ofUnits_le (n := (f.value a - f.value b).natAbs))
    have hround := f.ofUnits_eq_zero_iff (n := (f.value a - f.value b).natAbs)
      (by have := hf.exponent; omega)
    rw [if_neg (mt isInfinite_iff.1 hinf_b)]
    dsimp only
    rw [hzero, hpositive, Ne, hround, decide_eq_false_iff_not]
    omega

/-- An infinity less itself is no number. -/
theorem sub_self_of_infinite (hf : f.Sound) (ha : f.isInfinite a = true)
    (hab : f.key a = f.key b) :
    f.isZero (f.sub a b) = false ∧ f.isPositive (f.sub a b) = false := by
  have hpos := hf.infinity_pos
  have hinf_a := isInfinite_iff.1 ha
  have hsame : f.magnitude b = f.infinity ∧ f.negative a = f.negative b := by
    unfold key at hab
    cases hsign_a : f.negative a <;> cases hsign_b : f.negative b <;>
      simp only [hsign_a, hsign_b, if_true, reduceCtorEq, if_false] at hab <;>
      first | exact ⟨by omega, rfl⟩ | omega
  have hnan_a : f.isNaN a = false := decide_eq_false (by omega)
  have hnan_b : f.isNaN b = false := decide_eq_false (by omega)
  have hsub : f.sub a b = f.infinity + 1 := by
    rw [sub, if_neg (by simp [hnan_a, hnan_b]), if_pos ha,
      if_pos ⟨isInfinite_iff.2 hsame.1, hsame.2⟩]
  have hmagnitude : f.magnitude (f.infinity + 1) = f.infinity + 1 := Nat.mod_eq_of_lt hf.infinity_lt
  rw [hsub, isPositive, isZero, isNaN, hmagnitude]
  simp

end Format

end Binary
