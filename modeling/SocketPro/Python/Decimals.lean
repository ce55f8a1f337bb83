import SocketPro.Python.LoadObject
import Mathlib.Data.Nat.Digits.Lemmas
import Mathlib.Tactic.FieldSimp
import Mathlib.Tactic.Positivity

/-!
# Decimals between `SaveDecimal` and `LoadDecimal`

A decimal is written as a sign, a scale and an integer of 96 bits, with its digits rounded to 28
before. `LoadDecimal` puts the point into the text of the integer, `scale` characters from its end,
so the integer needs as many digits: **the slice of a shorter text starts at a position that counts
from its end.**

* `decimal?_withPoint` — what the text of an integer with a point in it stands for;
* `decimal_comes_back` — a decimal comes back if and only if it is `Carried`.
-/

namespace SocketPro.Python

open Bytes Machine

/-! ### Digits -/

theorem length_digitsOf (n : ℕ) : (digitsOf n).length = numDigits n := by
  rw [digitsOf, numDigits]
  split_ifs with hn
  · rw [hn, Nat.log_zero_right]
    rfl
  · rw [List.length_reverse, Nat.length_digits 10 n (by decide) hn]

theorem ofDigits_digitsOf (n : ℕ) : ofDigits (digitsOf n) = n := by
  rw [ofDigits, digitsOf]
  split_ifs with hn
  · rw [hn]
    rfl
  · rw [List.reverse_reverse, Nat.ofDigits_digits]

theorem numDigits_pos (n : ℕ) : 0 < numDigits n := Nat.succ_pos _

theorem digitsOf_ne_nil (n : ℕ) : digitsOf n ≠ [] := fun h ↦ by
  have hlength := length_digitsOf n
  rw [h] at hlength
  exact absurd hlength.symm (numDigits_pos n).ne'

/-! ### Texts -/

theorem spanDigits_digits (ds : List ℕ) {s : List Symbol} (hs : ∀ d, s.head? ≠ some (.digit d)) :
    spanDigits (ds.map .digit ++ s) = (ds, s) := by
  induction ds with
  | nil =>
    cases s with
    | nil => rfl
    | cons c s =>
      cases c with
      | digit d => exact absurd rfl (hs d)
      | _ => rfl
  | cons d ds ih => rw [List.map_cons, List.cons_append, spanDigits, ih]

theorem unsignedDecimal?_digits (negative : Bool) {ds : List ℕ} (hds : ds ≠ []) :
    unsignedDecimal? negative (ds.map .digit) = some (.decimal negative (ofDigits ds) 0) := by
  have hspan := spanDigits_digits ds (s := []) (fun d h ↦ nomatch h)
  rw [List.append_nil] at hspan
  rw [unsignedDecimal?, hspan]
  exact if_neg hds

/-- Digits with a point in them. -/
theorem unsignedDecimal?_point (negative : Bool) {whole fraction : List ℕ}
    (hds : whole ++ fraction ≠ []) :
    unsignedDecimal? negative (whole.map .digit ++ .point :: fraction.map .digit) =
      some (.decimal negative (ofDigits (whole ++ fraction)) (-fraction.length)) := by
  have hfront := spanDigits_digits whole (s := .point :: fraction.map .digit)
    (fun d h ↦ nomatch h)
  have hback := spanDigits_digits fraction (s := []) (fun d h ↦ nomatch h)
  rw [List.append_nil] at hback
  rw [unsignedDecimal?, hfront]
  dsimp only
  rw [hback]
  exact if_neg fun h ↦ h.elim (fun h ↦ h rfl) hds

/-- A point in front of a sign. -/
theorem decimal?_point_minus (s : List Symbol) : decimal? (.point :: .minus :: s) = none := rfl

theorem decimal?_minus_cons (s : List Symbol) : decimal? (.minus :: s) = unsignedDecimal? true s :=
  rfl

theorem decimal?_of_head {s : List Symbol} (hs : s.head? ≠ some .minus) :
    decimal? s = unsignedDecimal? false s := by
  cases s with
  | nil => rfl
  | cons c s =>
    cases c with
    | minus => exact absurd rfl hs
    | _ => rfl

/-- The sign of the text of an integer. -/
theorem intText_eq (negative : Bool) (n : ℕ) :
    intText negative n = (digitsOf n).map .digit ∧ (negative = true → n = 0) ∨
      intText negative n = .minus :: (digitsOf n).map .digit ∧ negative = true ∧ n ≠ 0 := by
  rw [intText]
  split_ifs with h
  · exact .inr ⟨rfl, h⟩
  · exact .inl ⟨rfl, fun hneg ↦ by_contra fun hn ↦ h ⟨hneg, hn⟩⟩

/-- The number of digits behind the point that `withPoint` puts into the text of an integer with
`digits` digits and no sign. -/
def placesOf (digits scale : ℕ) : ℕ := digits - slicePos digits scale

theorem placesOf_of_le {digits scale : ℕ} (h : scale ≤ digits) : placesOf digits scale = scale := by
  rw [placesOf, slicePos, if_pos h]
  omega

theorem placesOf_ne {digits scale : ℕ} (h : digits < scale) (hpos : 0 < digits) :
    placesOf digits scale ≠ scale := by
  rw [placesOf, slicePos, if_neg (by omega)]
  omega

theorem withPoint_digits {ds : List ℕ} {scale : ℕ} (hscale : scale ≠ 0) :
    withPoint scale (ds.map .digit) =
      (ds.take (slicePos ds.length scale)).map .digit ++
        .point :: (ds.drop (slicePos ds.length scale)).map .digit := by
  rw [withPoint, if_neg hscale, List.length_map, List.map_take, List.map_drop]

/-- **The text of an integer without a sign**, with a point in it. -/
theorem decimal?_digits (n scale : ℕ) :
    decimal? (withPoint scale ((digitsOf n).map .digit)) =
      some (.decimal false n (-(placesOf (numDigits n) scale : ℕ))) := by
  have hne := digitsOf_ne_nil n
  by_cases hscale : scale = 0
  · rw [hscale, withPoint, if_pos rfl, decimal?_of_head, unsignedDecimal?_digits false hne,
      ofDigits_digitsOf, placesOf_of_le (Nat.zero_le _)]
    · rfl
    · cases h : digitsOf n with
      | nil => exact absurd h hne
      | cons d ds => exact fun h ↦ nomatch h
  · have hjoin := List.take_append_drop (slicePos (digitsOf n).length scale) (digitsOf n)
    have hsplit : (digitsOf n).take (slicePos (digitsOf n).length scale) ++
        (digitsOf n).drop (slicePos (digitsOf n).length scale) ≠ [] := by
      rw [hjoin]
      exact hne
    rw [withPoint_digits hscale, decimal?_of_head, unsignedDecimal?_point false hsplit, hjoin,
      ofDigits_digitsOf, List.length_drop, length_digitsOf]
    · rfl
    · cases (digitsOf n).take (slicePos (digitsOf n).length scale) with
      | nil => exact fun h ↦ nomatch h
      | cons d ds => exact fun h ↦ nomatch h

/-- **The text of a negative integer** with a point in it: the sign is a character as well. -/
theorem decimal?_minus (n scale : ℕ) :
    decimal? (withPoint scale (.minus :: (digitsOf n).map .digit)) =
        some (.decimal true n (-(scale : ℕ))) ∧ scale ≤ numDigits n ∨
      numDigits n < scale ∧
        (decimal? (withPoint scale (.minus :: (digitsOf n).map .digit)) = none ∨
          ∃ places ≠ scale, decimal? (withPoint scale (.minus :: (digitsOf n).map .digit)) =
            some (.decimal true n (-(places : ℕ)))) := by
  have hne := digitsOf_ne_nil n
  have hpos := numDigits_pos n
  by_cases hscale : scale = 0
  · refine .inl ⟨?_, hscale ▸ Nat.zero_le _⟩
    rw [hscale, withPoint, if_pos rfl, decimal?_minus_cons, unsignedDecimal?_digits true hne,
      ofDigits_digitsOf]
    rfl
  have htext : withPoint scale (.minus :: (digitsOf n).map .digit) =
      (Symbol.minus :: (digitsOf n).map .digit).take (slicePos (numDigits n + 1) scale) ++
        .point :: (Symbol.minus :: (digitsOf n).map .digit).drop
          (slicePos (numDigits n + 1) scale) := by
    rw [withPoint, if_neg hscale, List.length_cons, List.length_map, length_digitsOf]
  -- The point is in front of the sign or behind it.
  cases hslice : slicePos (numDigits n + 1) scale with
  | zero =>
    rw [hslice] at htext
    refine .inr ⟨?_, .inl ?_⟩
    · rw [slicePos] at hslice
      split_ifs at hslice <;> omega
    · rw [htext]
      exact decimal?_point_minus _
  | succ k =>
    have hjoin := List.take_append_drop k (digitsOf n)
    have hdecimal : decimal? (withPoint scale (.minus :: (digitsOf n).map .digit)) =
        some (.decimal true n (-(numDigits n - k : ℕ))) := by
      have hsplit : (digitsOf n).take k ++ (digitsOf n).drop k ≠ [] := by
        rw [hjoin]
        exact hne
      rw [htext, hslice, List.take_succ_cons, List.drop_succ_cons, ← List.map_take,
        ← List.map_drop, List.cons_append, decimal?_minus_cons, unsignedDecimal?_point true hsplit,
        hjoin, ofDigits_digitsOf, List.length_drop, length_digitsOf]
    rw [hdecimal]
    rw [slicePos] at hslice
    split_ifs at hslice with hle
    · have hplaces : numDigits n - k = scale := by omega
      rw [hplaces]
      exact .inl ⟨rfl, by omega⟩
    · exact .inr ⟨by omega, .inr ⟨_, by omega, rfl⟩⟩

/-- **The text of an integer** with a point in it. -/
theorem decimal?_intText (negative : Bool) (n scale : ℕ) :
    scale ≤ numDigits n ∧ decimal? (withPoint scale (intText negative n)) =
        some (.decimal (negative && n != 0) n (-(scale : ℕ))) ∨
      numDigits n < scale ∧
        (decimal? (withPoint scale (intText negative n)) = none ∧ n ≠ 0 ∨
          ∃ places ≠ scale, decimal? (withPoint scale (intText negative n)) =
            some (.decimal (negative && n != 0) n (-(places : ℕ)))) := by
  rcases intText_eq negative n with ⟨htext, hzero⟩ | ⟨htext, hneg, hn⟩
  · have hsign : (negative && n != 0) = false := by
      cases negative with
      | false => rfl
      | true => rw [hzero rfl]; rfl
    rw [htext, hsign, decimal?_digits]
    by_cases hle : scale ≤ numDigits n
    · rw [placesOf_of_le hle]
      exact .inl ⟨hle, rfl⟩
    · have hlt := Nat.lt_of_not_le hle
      exact .inr ⟨hlt, .inr ⟨_, placesOf_ne hlt (numDigits_pos n), rfl⟩⟩
  · have hsign : (negative && n != 0) = true := by
      rw [hneg, Bool.true_and]
      exact bne_iff_ne.2 hn
    rw [htext, hsign]
    rcases decimal?_minus n scale with ⟨h, hle⟩ | ⟨hlt, h⟩
    · exact .inl ⟨hle, h⟩
    · exact .inr ⟨hlt, h.imp_left fun h ↦ ⟨h, hn⟩⟩

/-! ### Values -/

theorem scaled_sign (negative : Bool) (n : ℕ) (base : ℚ) (e : ℤ) :
    scaled (negative && n != 0) n base e = scaled negative n base e := by
  by_cases hn : n = 0
  · rw [hn, scaled, scaled]
    simp
  · rw [bne_iff_ne.2 hn, Bool.and_true]

/-- Decimals with one sign are equal if their values without it are. -/
theorem scaled_inj {negative : Bool} {m n : ℕ} {a b : ℤ} :
    scaled negative m 10 a = scaled negative n 10 b ↔ (m : ℚ) * 10 ^ a = n * 10 ^ b := by
  rw [scaled, scaled]
  cases negative with
  | false => rfl
  | true =>
    rw [if_pos rfl, if_pos rfl, neg_mul, neg_mul, neg_inj]

theorem mul_zpow_inj {n : ℕ} {a b : ℤ} :
    (n : ℚ) * 10 ^ a = n * 10 ^ b ↔ a = b ∨ n = 0 := by
  rw [mul_eq_mul_left_iff, zpow_right_inj₀ (by norm_num) (by norm_num), Nat.cast_eq_zero]

theorem atoms_decimal {negative : Bool} {n : ℕ} {e : ℤ} {q : ℚ} :
    (Obj.decimal negative n e).atoms = [.number q] ↔ scaled negative n 10 e = q := by
  rw [Obj.atoms, List.cons.injEq, and_iff_left rfl, Atom.number.injEq]

/-! ### Reading -/

theorem LoadDecimal_returnsIff (reserved scale sign hi32 lo64 : ℕ) (hreserved : reserved < 2 ^ 16)
    (hscale : scale < 2 ^ 8) (hsign : sign < 2 ^ 8) (hhi : hi32 < 2 ^ 32) (hlo : lo64 < 2 ^ 64)
    (Q : Obj → Prop) :
    ReturnsIff
      (∃ o, decimal? (withPoint scale (intText (decide (sign ≠ 0)) (hi32 * 2 ^ 64 + lo64))) =
        some o ∧ Q o)
      LoadDecimal
      (leBytes 2 reserved ++ (leBytes 1 scale ++ (leBytes 1 sign ++ (leBytes 4 hi32 ++
        leBytes 8 lo64)))) Q := by
  have hlast := (orRaise_returnsIff .decimal
    (decimal? (withPoint scale (intText (decide (sign ≠ 0)) (hi32 * 2 ^ 64 + lo64)))) Q).bind
      (loadNat_reads 8 hlo) (f := fun lo64 ↦ orRaise .decimal
        (decimal? (withPoint scale (intText (decide (sign ≠ 0)) (hi32 * 2 ^ 64 + lo64)))))
  rw [List.append_nil] at hlast
  exact .bind (loadNat_reads 2 hreserved) <|
    .bind (loadNat_reads 1 hscale) <| .bind (loadNat_reads 1 hsign) <|
      .bind (loadNat_reads 4 hhi) hlast

/-- **The value of an integer with a scale comes back** if and only if it has as many digits. -/
theorem decimal?_value (negative : Bool) (n scale : ℕ) :
    (∃ o, decimal? (withPoint scale (intText negative n)) = some o ∧
      o.atoms = [.number (scaled negative n 10 (-(scale : ℕ)))]) ↔ scale ≤ numDigits n ∨ n = 0 := by
  have hvalue (places : ℕ) : (Obj.decimal (negative && n != 0) n (-(places : ℕ))).atoms =
      [.number (scaled negative n 10 (-(scale : ℕ)))] ↔ places = scale ∨ n = 0 := by
    rw [atoms_decimal, scaled_sign, scaled_inj, mul_zpow_inj, neg_inj, Nat.cast_inj]
  rcases decimal?_intText negative n scale with ⟨hle, h⟩ | ⟨hlt, ⟨h, hn⟩ | ⟨places, hplaces, h⟩⟩
  · exact iff_of_true ⟨_, h, (hvalue scale).2 (.inl rfl)⟩ (.inl hle)
  · refine iff_of_false ?_ (not_or.2 ⟨hlt.not_ge, hn⟩)
    rintro ⟨o, ho, -⟩
    rw [h] at ho
    cases ho
  · rw [or_iff_right hlt.not_ge]
    constructor
    · rintro ⟨o, ho, hatoms⟩
      rw [h] at ho
      cases ho
      exact ((hvalue places).1 hatoms).resolve_left hplaces
    · exact fun hn ↦ ⟨_, h, (hvalue places).2 (.inr hn)⟩

/-! ### Writing -/

theorem pow_numDigits_le {n : ℕ} (hn : n ≠ 0) : 10 ^ (numDigits n - 1) ≤ n :=
  Nat.pow_log_le_self 10 hn

theorem lt_pow_numDigits (n : ℕ) : n < 10 ^ numDigits n := Nat.lt_pow_succ_log_self (by decide) n

/-- The digits and the exponent that are written. -/
def rounded (coefficient : ℕ) (exponent : ℤ) : ℕ × ℤ :=
  if 28 < numDigits coefficient then toPrecision coefficient exponent else (coefficient, exponent)

/-- A decimal whose digits behind the 28th are zeros keeps its value. -/
theorem rounded_of_dvd {c : ℕ} (e : ℤ) (h : 10 ^ (numDigits c - 28) ∣ c) :
    rounded c e = (c / 10 ^ (numDigits c - 28), e + (numDigits c - 28 : ℕ)) := by
  rw [rounded]
  split_ifs with hlong
  · have hround : roundHalfEven c (numDigits c - 28) = c / 10 ^ (numDigits c - 28) := by
      have hpos : 0 < 10 ^ (numDigits c - 28) := Nat.pow_pos (by decide)
      rw [roundHalfEven, Nat.mod_eq_zero_of_dvd h]
      exact if_neg (by omega)
    have hlt : c / 10 ^ (numDigits c - 28) < 10 ^ 28 := by
      rw [Nat.div_lt_iff_lt_mul (Nat.pow_pos (by decide)), ← pow_add,
        Nat.add_sub_cancel' hlong.le]
      exact lt_pow_numDigits c
    rw [toPrecision, hround]
    exact if_neg hlt.ne
  · have hzero : numDigits c - 28 = 0 := by omega
    rw [hzero, pow_zero, Nat.div_one, Nat.cast_zero, add_zero]

/-- What is written has at most 28 digits, and it has 28 of them if others were rounded away. -/
theorem rounded_lt (c : ℕ) (e : ℤ) :
    (rounded c e).1 < 10 ^ 28 ∧ (28 < numDigits c → 10 ^ 27 ≤ (rounded c e).1) := by
  rw [rounded]
  split_ifs with hlong
  · have hc : c ≠ 0 := by
      rintro rfl
      exact absurd hlong (by decide)
    have hpos : 0 < 10 ^ (numDigits c - 28) := Nat.pow_pos (by decide)
    have hlow : 10 ^ 27 ≤ c / 10 ^ (numDigits c - 28) := by
      rw [Nat.le_div_iff_mul_le hpos, ← pow_add]
      exact le_trans (Nat.pow_le_pow_right (by decide) (by omega)) (pow_numDigits_le hc)
    have hhigh : c / 10 ^ (numDigits c - 28) < 10 ^ 28 := by
      rw [Nat.div_lt_iff_lt_mul hpos, ← pow_add, Nat.add_sub_cancel' hlong.le]
      exact lt_pow_numDigits c
    have hround : roundHalfEven c (numDigits c - 28) = c / 10 ^ (numDigits c - 28) ∨
        roundHalfEven c (numDigits c - 28) = c / 10 ^ (numDigits c - 28) + 1 := by
      rw [roundHalfEven]
      split_ifs
      · exact .inr rfl
      · exact .inl rfl
    rw [toPrecision]
    split_ifs with hcarry
    · exact ⟨by norm_num, fun _ ↦ le_rfl⟩
    · exact ⟨by omega, fun _ ↦ by omega⟩
  · refine ⟨(lt_pow_numDigits c).trans_le (Nat.pow_le_pow_right (by decide) (by omega)), ?_⟩
    exact fun h ↦ absurd h hlong

/-- **Digits that are rounded away** change the value, wherever the point is put. -/
theorem rounded_ne {c : ℕ} {e f : ℤ} (h : ¬ 10 ^ (numDigits c - 28) ∣ c) :
    ((rounded c e).1 : ℚ) * 10 ^ f ≠ c * 10 ^ e := by
  intro hvalue
  have hlong : 28 < numDigits c := by
    by_contra hshort
    rw [Nat.sub_eq_zero_of_le (Nat.le_of_not_lt hshort), pow_zero] at h
    exact h (one_dvd c)
  obtain ⟨hhigh, hlow⟩ := rounded_lt c e
  replace hlow := hlow hlong
  generalize (rounded c e).1 = n at hvalue hhigh hlow
  have hc : c ≠ 0 := fun hc ↦ h (hc ▸ dvd_zero _)
  have hlarge : 10 ^ (numDigits c - 1) ≤ c := pow_numDigits_le hc
  have hten : (10 : ℚ) ≠ 0 := by norm_num
  have hshift : (n : ℚ) * 10 ^ (f - e) = c := by
    rw [zpow_sub₀ hten, ← mul_div_assoc, hvalue, mul_div_assoc, div_self (zpow_ne_zero _ hten),
      mul_one]
  -- The digits are moved by some places, and by their number these are the ones cut off.
  obtain ⟨j, hj | hj⟩ := Int.eq_nat_or_neg (f - e)
  · rw [hj, zpow_natCast] at hshift
    have hcn : n * 10 ^ j = c := by exact_mod_cast hshift
    have hupper : numDigits c - 1 < 28 + j := by
      refine (Nat.pow_lt_pow_iff_right (by decide : 1 < 10)).1 (hlarge.trans_lt ?_)
      rw [← hcn, pow_add]
      exact Nat.mul_lt_mul_of_pos_right hhigh (Nat.pow_pos (by decide))
    have hlower : 27 + j < numDigits c := by
      refine (Nat.pow_lt_pow_iff_right (by decide : 1 < 10)).1 (lt_of_le_of_lt ?_ (lt_pow_numDigits c))
      rw [pow_add]
      exact (Nat.mul_le_mul_right _ hlow).trans hcn.le
    have hplaces : numDigits c - 28 = j := by omega
    exact h (hplaces ▸ ⟨n, by rw [← hcn, Nat.mul_comm]⟩)
  · rw [hj, zpow_neg, zpow_natCast, ← div_eq_mul_inv, div_eq_iff (pow_ne_zero j hten)] at hshift
    have hcn : n = c * 10 ^ j := by exact_mod_cast hshift
    have hle : c ≤ n := hcn ▸ Nat.le_mul_of_pos_right c (Nat.pow_pos (by decide))
    have hpow : 10 ^ 28 ≤ 10 ^ (numDigits c - 1) := Nat.pow_le_pow_right (by decide) (by omega)
    omega

theorem numDigits_rounded (c : ℕ) (e : ℤ) : numDigits (rounded c e).1 ≤ 28 := by
  by_cases hn : (rounded c e).1 = 0
  · rw [hn]
    decide
  · have hpow := (pow_numDigits_le hn).trans_lt (rounded_lt c e).1
    have := (Nat.pow_lt_pow_iff_right (by decide : 1 < 10)).1 hpow
    omega

/-- Digits and an exponent that have kept their value, as digits and a scale. -/
theorem scaled_rounded (negative : Bool) {c : ℕ} {e : ℤ} (hdvd : 10 ^ (numDigits c - 28) ∣ c)
    (hle : (rounded c e).2 ≤ 0) :
    scaled negative c 10 e =
      scaled negative (rounded c e).1 10 (-((-(rounded c e).2).toNat : ℕ)) := by
  obtain ⟨m, hm⟩ := hdvd
  have hdiv : c / 10 ^ (numDigits c - 28) = m :=
    Nat.div_eq_of_eq_mul_right (Nat.pow_pos (by decide)) hm
  have hr := rounded_of_dvd e ⟨m, hm⟩
  rw [hdiv] at hr
  have hexp : -(((-(rounded c e).2).toNat : ℕ) : ℤ) = (rounded c e).2 := by omega
  rw [scaled_inj, hexp, hr, zpow_add₀ (by norm_num), zpow_natCast]
  nth_rewrite 1 [hm]
  push_cast
  ring

/-- The five numbers of a decimal. -/
def decimalWrites (sign scale n : ℕ) : List Write :=
  [.pack (leBytes 2 14), .pack (leBytes 1 scale), .pack (leBytes 1 sign),
    .pack (leBytes 4 (n / 2 ^ 64)), .pack (leBytes 8 (n % 2 ^ 64))]

theorem SaveDecimal_of_some {d : Decimal} {sign scale n : ℕ}
    (h : getSSInt96 d = some (sign, scale, n)) (hsign : sign < 2 ^ 8) (hscale : scale < 2 ^ 8)
    (hn : n < 10 ^ 28) : SaveDecimal d = some (decimalWrites sign scale n) := by
  have hhi : n / 2 ^ 64 < 256 ^ 4 := by omega
  have hlo : n % 2 ^ 64 < 256 ^ 8 := by omega
  have hreserved := packInt_of_lt 2 (n := 14) (by decide)
  have hhi' : packInt 4 false (n / 2 ^ 64) = some (.pack (leBytes 4 (n / 2 ^ 64))) := by
    exact_mod_cast packInt_of_lt _ hhi
  have hlo' : packInt 8 false (n % 2 ^ 64) = some (.pack (leBytes 8 (n % 2 ^ 64))) := by
    exact_mod_cast packInt_of_lt _ hlo
  rw [Nat.cast_ofNat] at hreserved
  simp only [SaveDecimal, h, Option.bind_eq_bind, Option.bind_some, hreserved,
    packInt_of_lt 1 hscale, packInt_of_lt 1 hsign, hhi', hlo']
  rfl

/-- **What `SaveDecimal` writes**, and when it raises. -/
theorem SaveDecimal_eq (negative : Bool) (c : ℕ) (e : ℤ) :
    SaveDecimal (.finite negative c e) =
      if 0 < (rounded c e).2 ∨ (rounded c e).2 + numDigits (rounded c e).1 ≤ -6 then none
      else some (decimalWrites (if negative = true then 0x80 else 0) (-(rounded c e).2).toNat
        (rounded c e).1) := by
  have hss : getSSInt96 (.finite negative c e) =
      if 0 < (rounded c e).2 ∨ (rounded c e).2 + numDigits (rounded c e).1 ≤ -6 then none
      else some (if negative = true then 0x80 else 0, (-(rounded c e).2).toNat,
        (rounded c e).1) := rfl
  have hdigits := numDigits_rounded c e
  by_cases hraise : 0 < (rounded c e).2 ∨ (rounded c e).2 + numDigits (rounded c e).1 ≤ -6
  · rw [if_pos hraise] at hss ⊢
    rw [SaveDecimal, hss]
    rfl
  · rw [if_neg hraise] at hss ⊢
    refine SaveDecimal_of_some hss ?_ (by omega) (rounded_lt c e).1
    split <;> decide

/-! ### What comes back -/

/-- A decimal that comes back: digits behind the 28th are zeros; and of the others there are as many
as stand behind the point, or none but a zero. -/
def Decimal.Carried : Decimal → Prop
  | .special => False
  | .finite _ c e =>
    let k := numDigits c - 28
    10 ^ k ∣ c ∧ e + k ≤ 0 ∧ (-(e + k) ≤ numDigits (c / 10 ^ k) ∨ c = 0 ∧ -7 < e)

instance : DecidablePred Decimal.Carried
  | .special => .isFalse id
  | .finite _ _ _ => inferInstanceAs (Decidable (_ ∧ _ ∧ _))

/-- `o` is equal to the decimal. -/
def Decimal.Equals : Decimal → Obj → Prop
  | .special, _ => False
  | .finite negative c e, o => o.atoms = [.number (scaled negative c 10 e)]

/-- A decimal that comes back is written. -/
theorem Decimal.Carried.not_raises {negative : Bool} {c : ℕ} {e : ℤ}
    (h : (Decimal.finite negative c e).Carried) :
    ¬ (0 < (rounded c e).2 ∨ (rounded c e).2 + numDigits (rounded c e).1 ≤ -6) := by
  obtain ⟨hdvd, hexp, hdigits⟩ := h
  rw [rounded_of_dvd e hdvd]
  dsimp only
  rcases hdigits with hdigits | ⟨rfl, he⟩
  · omega
  · have hshort : numDigits 0 = 1 := rfl
    rw [Nat.zero_div]
    omega

/-- The bytes of a decimal that is written. -/
theorem decimal_reads {negative : Bool} {c : ℕ} {e : ℤ}
    (hraise : ¬ (0 < (rounded c e).2 ∨ (rounded c e).2 + numDigits (rounded c e).1 ≤ -6)) :
    ReturnsIff (Decimal.finite negative c e).Carried LoadDecimal
      (bytesOf (decimalWrites (if negative = true then 0x80 else 0) (-(rounded c e).2).toNat
        (rounded c e).1)) (Decimal.finite negative c e).Equals := by
  have hdigits := numDigits_rounded c e
  obtain ⟨hlt, -⟩ := rounded_lt c e
  have hsign : decide ((if negative = true then 0x80 else 0) ≠ 0) = negative := by
    cases negative <;> rfl
  have hread := LoadDecimal_returnsIff 14 (-(rounded c e).2).toNat
    (if negative = true then 0x80 else 0) ((rounded c e).1 / 2 ^ 64) ((rounded c e).1 % 2 ^ 64)
    (by decide) (by omega) (by split <;> decide) (by omega)
    (by omega) (Decimal.finite negative c e).Equals
  rw [hsign, Nat.div_add_mod'] at hread
  have hbytes : bytesOf (decimalWrites (if negative = true then 0x80 else 0)
      (-(rounded c e).2).toNat (rounded c e).1) = leBytes 2 14 ++
        (leBytes 1 (-(rounded c e).2).toNat ++ (leBytes 1 (if negative = true then 0x80 else 0) ++
          (leBytes 4 ((rounded c e).1 / 2 ^ 64) ++ leBytes 8 ((rounded c e).1 % 2 ^ 64)))) := by
    simp [bytesOf, decimalWrites, Write.bytes]
  rw [hbytes]
  refine hread.congr ?_
  by_cases hdvd : 10 ^ (numDigits c - 28) ∣ c
  · -- The value is kept, and it comes back if the integer has enough digits.
    obtain ⟨m, hm⟩ := hdvd
    have hpos : 0 < 10 ^ (numDigits c - 28) := Nat.pow_pos (by decide)
    have hdiv : c / 10 ^ (numDigits c - 28) = m := Nat.div_eq_of_eq_mul_right hpos hm
    have hr := rounded_of_dvd e ⟨m, hm⟩
    have hvalue := scaled_rounded negative ⟨m, hm⟩ (not_lt.1 fun hpos ↦ hraise (.inl hpos))
    rw [hdiv] at hr
    rw [hr] at hraise hvalue ⊢
    dsimp only at hraise hvalue ⊢
    have hzero : m = 0 ↔ c = 0 := by
      constructor
      · rintro rfl
        exact hm
      · intro hc
        rw [← hdiv, hc, Nat.zero_div]
    have hback := decimal?_value negative m (-(e + (numDigits c - 28 : ℕ))).toNat
    rw [← hvalue] at hback
    refine Iff.trans ?_ hback.symm
    rw [Decimal.Carried, hdiv, hzero]
    constructor
    · rintro ⟨-, hle, hdigits⟩
      exact hdigits.imp (fun hdigits ↦ by omega) fun hc ↦ hc.1
    · intro hdigits
      refine ⟨⟨m, hm⟩, by omega, hdigits.imp (fun hdigits ↦ by omega) fun hc ↦ ⟨hc, ?_⟩⟩
      have hshort : numDigits 0 = 1 := rfl
      rw [hzero.2 hc, hc, hshort] at hraise
      omega
  · -- Digits are lost.
    refine iff_of_false (fun h ↦ hdvd h.1) ?_
    rintro ⟨o, ho, hatoms⟩
    have hdecimal (f : ℤ) :
        Obj.decimal (negative && (rounded c e).1 != 0) (rounded c e).1 f ≠ o := by
      rintro rfl
      rw [Decimal.Equals, atoms_decimal, scaled_sign, scaled_inj] at hatoms
      exact rounded_ne hdvd hatoms
    rcases decimal?_intText negative (rounded c e).1 (-(rounded c e).2).toNat with
      ⟨-, h⟩ | ⟨-, ⟨h, -⟩ | ⟨places, -, h⟩⟩
    · exact hdecimal _ (Option.some.inj (h.symm.trans ho))
    · rw [h] at ho
      cases ho
    · exact hdecimal _ (Option.some.inj (h.symm.trans ho))

/-- **A decimal comes back** if and only if it is `Carried`. -/
theorem decimal_carries (d : Decimal) :
    Carries d.Carried (SaveDecimal d) LoadDecimal d.Equals := by
  cases d with
  | special => exact .raised id
  | finite negative c e =>
    rw [SaveDecimal_eq]
    by_cases hraise : 0 < (rounded c e).2 ∨ (rounded c e).2 + numDigits (rounded c e).1 ≤ -6
    · rw [if_pos hraise]
      exact .raised fun h ↦ h.not_raises hraise
    · rw [if_neg hraise]
      exact .of_some (decimal_reads hraise)

end SocketPro.Python
