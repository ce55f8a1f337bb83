import SocketPro.Json.Parser
import Mathlib.Data.Nat.Digits.Lemmas

/-!
# Printing and reading integers

`ToString` fills a buffer with the decimal digits of a number and `atoull` and `atoll` accumulate
them again. Both directions are related to the digits of the number.

**One number does not come back.** `ToString(INT64)` negates a negative number before it takes its
digits. The smallest number has no negative in 64 bits: it stays as it is, its digits come out
negative, and what is printed starts with a minus and no digit (`parseNumber_toStringInt64_min`).
-/

namespace SocketPro.Json

/-- The text behind a number does not continue it. -/
def Delimited (rest : JString) : Prop :=
  isDigit (cur rest) = false ∧ cur rest ≠ code '.' ∧ cur rest ≠ code 'e' ∧ cur rest ≠ code 'E'

instance (rest : JString) : Decidable (Delimited rest) := by
  unfold Delimited
  infer_instance

theorem delimited_of_space {w : ℕ} (hw : isSpace w = true) (rest : JString) :
    Delimited (w :: rest) := by
  simp only [isSpace, Bool.or_eq_true, decide_eq_true_eq] at hw
  have hcur : cur (w :: rest) = w := rfl
  rw [Delimited, hcur]
  rcases hw with ((rfl | rfl) | rfl) | rfl <;> decide

/-- White space and the sign behind it end a number. -/
theorem delimited_append {ws : JString} (hws : ∀ c ∈ ws, isSpace c = true) {c : ℕ}
    (hc : Delimited [c]) (rest : JString) : Delimited (ws ++ c :: rest) := by
  cases ws with
  | nil => exact hc
  | cons w ws => exact delimited_of_space (hws w (by simp)) _

/-- The decimal digits of `n` as units, the first digit first. -/
def decimal (n : ℕ) : JString := (Nat.digits 10 n).reverse.map (· + code '0')

theorem isDigit_of_mem_decimal {n c : ℕ} (hc : c ∈ decimal n) : isDigit c = true := by
  obtain ⟨d, hd, rfl⟩ := List.mem_map.1 hc
  have hlt : d < 10 := Nat.digits_lt_base (by omega) (List.mem_reverse.1 hd)
  have h0 : code '0' = 48 := rfl
  have h9 : code '9' = 57 := rfl
  rw [isDigit, h0, h9, Bool.and_eq_true, decide_eq_true_iff, decide_eq_true_iff]
  omega

/-- A positive number starts with a digit that is not zero. -/
theorem decimal_of_pos {n : ℕ} (hn : 0 < n) :
    ∃ c ds, decimal n = c :: ds ∧ c ≠ code '0' := by
  have hne : Nat.digits 10 n ≠ [] := Nat.digits_ne_nil_iff_ne_zero.2 (by omega)
  have hlast : (Nat.digits 10 n).getLast hne ≠ 0 := Nat.getLast_digit_ne_zero 10 (by omega)
  refine ⟨(Nat.digits 10 n).getLast hne + code '0',
    ((Nat.digits 10 n).dropLast.reverse).map (· + code '0'), ?_, by omega⟩
  rw [decimal]
  conv_lhs => rw [← List.dropLast_append_getLast hne]
  simp

/-- The loop of `ToString` on a number that is not negative. -/
theorem toStringLoop_natCast (start n : ℕ) (buff : JString) (hn : n < 10 ^ start) :
    toStringLoop start n buff = decimal n ++ buff := by
  induction start generalizing n buff with
  | zero =>
    obtain rfl : n = 0 := by simpa using hn
    simp [toStringLoop, decimal]
  | succ start ih =>
    by_cases hzero : n = 0
    · subst hzero
      simp [toStringLoop, decimal]
    · have hdigits : Nat.digits 10 n = n % 10 :: Nat.digits 10 (n / 10) :=
        Nat.digits_def' (by omega) (by omega)
      have hdiv : (n : ℤ).tdiv 10 = (n / 10 : ℕ) := by
        rw [Int.tdiv_eq_ediv_of_nonneg (by omega)]
        omega
      have hmod : ((n : ℤ).tmod 10 + code '0').toNat = n % 10 + code '0' := by
        rw [Int.tmod_eq_emod_of_nonneg (by omega)]
        omega
      rw [toStringLoop, if_neg (by omega), hdiv, hmod, ih (n / 10) _ (by rw [pow_succ] at hn; omega)]
      simp [decimal, hdigits]

theorem readDigits_append {α : Type} (accumulate : α → ℕ → α) (x : α) {ds rest : JString}
    (hds : ∀ c ∈ ds, isDigit c = true) (hrest : isDigit (cur rest) = false) :
    readDigits accumulate x (ds ++ rest) =
      (ds.foldl (fun x c ↦ accumulate x (c - code '0')) x, rest) := by
  induction ds generalizing x with
  | nil =>
    cases rest with
    | nil => rfl
    | cons c rest => simp [readDigits, show isDigit c = false from hrest]
  | cons c ds ih =>
    rw [List.cons_append, readDigits, if_pos (hds c (by simp)),
      ih _ fun d hd ↦ hds d (List.mem_cons_of_mem _ hd)]
    rfl

/-- Accumulating the digits of `n` yields `n`. -/
theorem foldl_decimal (n : ℕ) :
    (decimal n).foldl (fun x c ↦ x * 10 + (c - code '0')) 0 = n := by
  have hvalue := Nat.ofDigits_digits 10 n
  rw [Nat.ofDigits_eq_foldr] at hvalue
  rw [decimal, List.foldl_map, List.foldl_reverse]
  conv_rhs => rw [← hvalue]
  congr 1
  funext c x
  simp only [Nat.add_sub_cancel, Nat.cast_id]
  ring

/-- Unsigned words wrap around without changing the result modulo the word size. -/
theorem foldl_mod (m : ℕ) (l : JString) (x : ℕ) :
    l.foldl (fun x c ↦ (x * 10 + (c - code '0')) % m) (x % m) =
      l.foldl (fun x c ↦ x * 10 + (c - code '0')) x % m := by
  induction l generalizing x with
  | nil => rfl
  | cons c l ih =>
    rw [List.foldl_cons, List.foldl_cons, ← ih]
    congr 1
    rw [Nat.add_mod, Nat.mul_mod, Nat.mod_mod, ← Nat.mul_mod, ← Nat.add_mod]

/-- So do signed words. -/
theorem foldl_bmod (m : ℕ) (l : JString) (x : ℕ) :
    l.foldl (fun (x : ℤ) c ↦ (x * 10 + (c - code '0' : ℕ)).bmod m) ((x : ℤ).bmod m) =
      ((l.foldl (fun x c ↦ x * 10 + (c - code '0')) x : ℕ) : ℤ).bmod m := by
  induction l generalizing x with
  | nil => rfl
  | cons c l ih =>
    have hstep : ((x : ℤ).bmod m * 10 + (c - code '0' : ℕ)).bmod m =
        ((x * 10 + (c - code '0') : ℕ) : ℤ).bmod m := by
      rw [← Int.bmod_add_bmod, Int.bmod_mul_bmod, Int.bmod_add_bmod, Nat.cast_add, Nat.cast_mul,
        Nat.cast_ofNat]
    rw [List.foldl_cons, List.foldl_cons, hstep, ih]

theorem wrap64_of_range {x : ℤ} (hmin : -2 ^ 63 ≤ x) (hmax : x < 2 ^ 63) : wrap64 x = x :=
  Int.bmod_eq_of_le_mul_two (by norm_num at *; omega) (by norm_num at *; omega)

theorem atoull_decimal {n : ℕ} (hn : n < 2 ^ 64) {rest : JString}
    (hrest : isDigit (cur rest) = false) : atoull (decimal n ++ rest) = (n, rest) := by
  have hfold := foldl_mod (2 ^ 64) (decimal n) 0
  rw [foldl_decimal, Nat.mod_eq_of_lt hn, Nat.zero_mod] at hfold
  rw [atoull, readDigits_append _ _ (fun c hc ↦ isDigit_of_mem_decimal hc) hrest, hfold]

theorem atoll_decimal {n : ℕ} (hn : n < 2 ^ 63) {rest : JString}
    (hrest : isDigit (cur rest) = false) : atoll (decimal n ++ rest) = ((n : ℤ), rest) := by
  have hfold := foldl_bmod (2 ^ 64) (decimal n) 0
  have hwrap : (n : ℤ).bmod (2 ^ 64) = n :=
    wrap64_of_range (x := (n : ℤ)) (by omega) (by norm_num at *; omega)
  rw [foldl_decimal, hwrap, Nat.cast_zero, Int.zero_bmod] at hfold
  rw [atoll, readDigits_append _ _ (fun c hc ↦ isDigit_of_mem_decimal hc) hrest]
  exact Prod.ext hfold rfl

theorem parseNumber_toStringUint64 {n : ℕ} (hn : n < 2 ^ 64) {rest : JString}
    (hrest : Delimited rest) :
    parseNumber (toStringUint64 n ++ rest) = some (.uint64 n, rest) := by
  obtain ⟨hdigit, hpoint, he, hE⟩ := hrest
  by_cases hzero : n = 0
  · subst hzero
    simp [parseNumber, parseInteger, toStringUint64, cur, code] at hpoint he hE ⊢
    simp [hpoint, he, hE]
  · obtain ⟨c, ds, hds, hc⟩ := decimal_of_pos (Nat.pos_of_ne_zero hzero)
    have hprint : toStringUint64 n = decimal n := by
      rw [toStringUint64, if_neg hzero, toStringLoop_natCast _ _ _ (hn.trans (by norm_num)),
        List.append_nil]
    have hhead : cur (decimal n ++ rest) = c := by rw [hds]; rfl
    have hcdigit : isDigit c = true := isDigit_of_mem_decimal (n := n) (by simp [hds])
    have hminus : c ≠ code '-' := by
      rintro rfl
      exact absurd hcdigit (by decide)
    rw [hprint, parseNumber]
    simp [parseInteger, hhead, hminus, hc, hcdigit, atoull_decimal hn hdigit, hpoint, he, hE]

theorem parseNumber_toStringInt64 {x : ℤ} (hmin : -2 ^ 63 < x) (hneg : x < 0) {rest : JString}
    (hrest : Delimited rest) : parseNumber (toStringInt64 x ++ rest) = some (.int64 x, rest) := by
  obtain ⟨hdigit, hpoint, he, hE⟩ := hrest
  obtain ⟨n, rfl⟩ : ∃ n : ℕ, x = -n := ⟨x.natAbs, by omega⟩
  have hpos : 0 < n := by omega
  have hmax : n < 2 ^ 63 := by norm_num at *; omega
  obtain ⟨c, ds, hds, hc⟩ := decimal_of_pos hpos
  have hprint : toStringInt64 (-n) = code '-' :: decimal n := by
    have hwrap : wrap64 (-(n : ℤ) * -1) = n := by
      rw [neg_mul_neg, mul_one]
      exact wrap64_of_range (by omega) (by norm_num at *; omega)
    rw [toStringInt64, if_neg (by omega), if_pos hneg, hwrap,
      toStringLoop_natCast _ _ _ (hmax.trans (by norm_num)), List.append_nil]
  have hwrap : wrap64 (-(n : ℤ)) = -n :=
    wrap64_of_range (by norm_num at *; omega) (by norm_num at *; omega)
  have hcur : cur (code '-' :: (decimal n ++ rest)) = code '-' := rfl
  have hhead : cur (decimal n ++ rest) = c := by rw [hds]; rfl
  have hcdigit : isDigit c = true := isDigit_of_mem_decimal (n := n) (by simp [hds])
  rw [hprint, List.cons_append, parseNumber]
  simp [parseInteger, hcur, hhead, hc, hcdigit, atoll_decimal hmax hdigit, hwrap, ofInt64, hpos,
    hpoint, he, hE]

/-- **The smallest number is printed without digits.** -/
theorem parseNumber_toStringInt64_min (rest : JString) :
    parseNumber (toStringInt64 (-2 ^ 63) ++ rest) = none := by
  obtain ⟨ds, hprint⟩ : ∃ ds, toStringInt64 (-2 ^ 63) = code '-' :: 39 :: ds :=
    ⟨(toStringInt64 (-2 ^ 63)).drop 2, by decide⟩
  have hcur : cur (code '-' :: 39 :: (ds ++ rest)) = code '-' := rfl
  have hhead : cur (39 :: (ds ++ rest)) = 39 := rfl
  have hzero : 39 ≠ code '0' := by decide
  have hdigit : isDigit 39 = false := by decide
  rw [hprint, List.cons_append, List.cons_append, parseNumber]
  simp [parseInteger, hcur, hhead, hzero, hdigit]

/-! ### What a printed number starts with -/

theorem toStringUint64_head {n : ℕ} (hn : n < 2 ^ 64) :
    ∃ c ds, toStringUint64 n = c :: ds ∧ isDigit c = true := by
  by_cases hzero : n = 0
  · subst hzero
    exact ⟨_, _, rfl, by decide⟩
  · obtain ⟨c, ds, hds, -⟩ := decimal_of_pos (Nat.pos_of_ne_zero hzero)
    refine ⟨c, ds, ?_, isDigit_of_mem_decimal (n := n) (by simp [hds])⟩
    rw [toStringUint64, if_neg hzero, toStringLoop_natCast _ _ _ (hn.trans (by norm_num)),
      List.append_nil, hds]

theorem toStringInt64_head {x : ℤ} (hneg : x < 0) : ∃ ds, toStringInt64 x = code '-' :: ds :=
  ⟨_, by rw [toStringInt64, if_neg (by omega), if_pos hneg]⟩

end SocketPro.Json
