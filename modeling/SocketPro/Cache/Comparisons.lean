import SocketPro.Cache.DataSet
import Mathlib.Algebra.Order.Ring.Int

/-!
# The comparisons of the table cache

`gt`, `ge`, `lt`, `le` and `neq` of `CTable`; `eq` is with the table cache itself. The six functions
of the source have the same `switch`, so the five here are `compareWith` with the operator, one for
each comparison of C.

**A type is compared through a number** (`coherent_iff`): integers through their values, floating
point numbers through sign and magnitude of their bits, texts and binaries through the first
difference. Where equality is decided through that number as well, the comparisons are coherent. It
is not

* for `DECIMAL`: `ToDouble` loses digits, the upper 32 bits and everything of a scale from 64 on,
  while equality compares all bytes;
* for `BOOL`: equality looks at the truth, the others at the encoding;
* for `CY`, which none of the functions supports.
-/

namespace SocketPro.TableCache

open Bytes Buffer

/-- The comparisons other than `eq`. -/
inductive Comparison
  | gt | ge | lt | le | neq
deriving DecidableEq, Repr

/-- A comparison of two integers. -/
def Comparison.on (c : Comparison) (x y : ℤ) : Bool :=
  match c with
  | .gt => x > y
  | .ge => x ≥ y
  | .lt => x < y
  | .le => x ≤ y
  | .neq => x ≠ y

namespace Comparison

variable {x y : ℤ}

theorem on_gt : Comparison.gt.on x y = true ↔ y < x := decide_eq_true_iff

theorem on_ge : Comparison.ge.on x y = true ↔ y ≤ x := decide_eq_true_iff

theorem on_lt : Comparison.lt.on x y = true ↔ x < y := decide_eq_true_iff

theorem on_le : Comparison.le.on x y = true ↔ x ≤ y := decide_eq_true_iff

theorem on_neq : Comparison.neq.on x y = true ↔ ¬ x = y := decide_eq_true_iff

end Comparison

/-- What C makes of a truth value. -/
def flag (b : Bool) : ℤ := if b then 1 else 0

/-! ### Numbers -/

/-- A signed integer of the width of its bytes. -/
def signed (raw : List UInt8) : ℤ := (ofLE raw : ℤ).bmod (256 ^ raw.length)

/-- Whether the bits of a floating-point number are those of a NaN. -/
def isNaN (exponent mantissa x : ℕ) : Bool :=
  x / 2 ^ mantissa % 2 ^ exponent == 2 ^ exponent - 1 && x % 2 ^ mantissa != 0

/-- Sign and magnitude of a floating-point number as one integer; both zeros are 0. -/
def floatKey (exponent mantissa x : ℕ) : ℤ :=
  if x / 2 ^ (exponent + mantissa) % 2 = 0 then (x % 2 ^ (exponent + mantissa) : ℕ)
  else -(x % 2 ^ (exponent + mantissa) : ℕ)

/-- A comparison of two floating-point numbers, from their bits. A NaN is different from everything,
and compares with nothing. -/
def Comparison.onFloat (c : Comparison) (exponent mantissa a b : ℕ) : Bool :=
  if isNaN exponent mantissa a || isNaN exponent mantissa b then c = .neq
  else c.on (floatKey exponent mantissa a) (floatKey exponent mantissa b)

/-- `ToDouble`, as bits. The fields of a `DECIMAL` are two reserved bytes, the scale, the sign,
`Hi32` and `Lo64`. -/
def ToDouble (dec : List UInt8) : ℕ :=
  let scale := dec.getD 2 0
  let sign := dec.getD 3 0
  let Lo64 := ofLE ((dec.drop 8).take 8)
  -- The loop multiplies by 10, modulo 2^64.
  let temp : UInt64 := 10 ^ scale.toNat
  let d := (UInt64.ofNat Lo64).toFloat / temp.toFloat
  (if sign ≠ 0 then -d else d).toBits.toNat

/-! ### Texts and binaries -/

/-- `UCompare` or `UCompareNoCase`, for NUL-terminated texts. -/
def ucompare (fold : UInt16 → UInt16) : List UInt16 → List UInt16 → ℤ
  | [], s₂ => (fold 0).toNat - (fold (s₂.headD 0)).toNat
  | c :: s₁, s₂ =>
    let res : ℤ := (fold c).toNat - (fold (s₂.headD 0)).toNat
    if res ≠ 0 ∨ c = 0 ∨ s₂.headD 0 = 0 then res else ucompare fold s₁ s₂.tail

/-- The same for two `BSTR`s, null pointers included. -/
def ucompareBSTR (fold : UInt16 → UInt16) : Option (List UInt16) → Option (List UInt16) → ℤ
  | none, none => 0
  | none, some _ => -1
  | some _, none => 1
  | some s₁, some s₂ => ucompare fold s₁ s₂

/-- `memcmp`, for as many bytes as both have. -/
def memcmp : List UInt8 → List UInt8 → ℤ
  | a :: as, b :: bs => if a = b then memcmp as bs else a.toNat - b.toNat
  | _, _ => 0

/-! ### The comparisons -/

/-- What the comparisons give for values of different types, which they assert not to get. -/
structure ComparingPlatform extends Platform where
  compareMixed : Comparison → VARIANT → VARIANT → ℤ

/-- A comparison of two scalars of the same type. -/
def compareScalar (c : Comparison) (t : ScalarVT) (a b : List UInt8) : ℤ :=
  match t with
  | .CY => COMPARISON_NOT_SUPPORTED
  | .I1 | .I2 | .INT | .I4 | .I8 => flag (c.on (signed a) (signed b))
  | .R4 => flag (c.onFloat 8 23 (ofLE a) (ofLE b))
  | .R8 => flag (c.onFloat 11 52 (ofLE a) (ofLE b))
  | .UI8 | .DATE | .UI1 | .UI2 | .UINT | .UI4 => flag (c.on (ofLE a) (ofLE b))
  | .DECIMAL =>
    if c = .neq then flag (a ≠ b) else flag (c.onFloat 11 52 (ToDouble a) (ToDouble b))
  -- `VARIANT_TRUE` is -1: the greater value is the smaller number.
  | .BOOL => flag (c.on (signed b) (signed a))

/-- The `switch` of the comparisons. -/
def compareWith (c : Comparison) (P : ComparingPlatform) (caseSensitive : Bool)
    (vt₀ vt₁ : VARIANT) : ℤ :=
  if vt₀.vt ≤ VT_NULL then 0
  else if vt₀.vt ≠ vt₁.vt then P.compareMixed c vt₀ vt₁
  else match vt₀, vt₁ with
    | .scalar t a, .scalar _ b => compareScalar c t a b
    | .bstr s₀, .bstr s₁ =>
      flag (c.on (ucompareBSTR (if caseSensitive then id else P.tolower) s₀ s₁) 0)
    | .scalarArray .UI1 n a, .scalarArray _ m b =>
      if n = m ∧ n = 16 then flag (c.on (memcmp a b) 0) else COMPARISON_NOT_SUPPORTED
    | _, _ => COMPARISON_NOT_SUPPORTED

/-- `CTable::gt`. -/
def gt := compareWith .gt

/-- `CTable::ge`. -/
def ge := compareWith .ge

/-- `CTable::lt`. -/
def lt := compareWith .lt

/-- `CTable::le`. -/
def le := compareWith .le

/-- `CTable::neq`. -/
def neq := compareWith .neq

@[simp] theorem flag_pos {b : Bool} : 0 < flag b ↔ b = true := by
  cases b <;> simp [flag]

theorem ite_pos {p : Prop} [Decidable p] : 0 < (if p then 1 else 0 : ℤ) ↔ p := by
  split_ifs with hp <;> simp [hp]

theorem compareWith_scalar (c : Comparison) (P : ComparingPlatform) (caseSensitive : Bool)
    (t : ScalarVT) (a b : List UInt8) :
    compareWith c P caseSensitive (.scalar t a) (.scalar t b) = compareScalar c t a b := by
  have hvt : ¬ (VARIANT.scalar t a).vt ≤ VT_NULL := by
    show ¬ t.vt ≤ 1
    cases t <;> decide
  have hsame : ¬ (VARIANT.scalar t a).vt ≠ (VARIANT.scalar t b).vt := fun hne ↦ hne rfl
  rw [compareWith, if_neg hvt, if_neg hsame]

theorem eq_scalar (P : Platform) (caseSensitive : Bool) (t : ScalarVT) (a b : List UInt8) :
    eq P caseSensitive (.scalar t a) (.scalar t b) = eqScalar t a b := by
  have hvt : ¬ (VARIANT.scalar t a).vt ≤ VT_NULL := by
    show ¬ t.vt ≤ 1
    cases t <;> decide
  have hsame : ¬ (VARIANT.scalar t a).vt ≠ (VARIANT.scalar t b).vt := fun hne ↦ hne rfl
  rw [eq, if_neg hvt, if_neg hsame]

/-! ### Scalars by their keys -/

/-- The number that a scalar is ordered by. -/
def scalarKey (t : ScalarVT) (raw : List UInt8) : ℤ :=
  match t with
  | .CY => 0
  | .I1 | .I2 | .INT | .I4 | .I8 => signed raw
  | .R4 => floatKey 8 23 (ofLE raw)
  | .R8 => floatKey 11 52 (ofLE raw)
  | .UI8 | .DATE | .UI1 | .UI2 | .UINT | .UI4 => ofLE raw
  | .DECIMAL => floatKey 11 52 (ToDouble raw)
  | .BOOL => -signed raw

/-- The scalars that compare with nothing. -/
def isOdd (t : ScalarVT) (raw : List UInt8) : Bool :=
  match t with
  | .CY => true
  | .R4 => isNaN 8 23 (ofLE raw)
  | .R8 => isNaN 11 52 (ofLE raw)
  | .DECIMAL => isNaN 11 52 (ToDouble raw)
  | _ => false

theorem Comparison.onFloat_eq {exponent mantissa a b : ℕ} (ha : isNaN exponent mantissa a = false)
    (hb : isNaN exponent mantissa b = false) (c : Comparison) :
    c.onFloat exponent mantissa a b =
      c.on (floatKey exponent mantissa a) (floatKey exponent mantissa b) := by
  rw [Comparison.onFloat, ha, hb, Bool.or_self, if_neg Bool.false_ne_true]

theorem Comparison.on_neg (c : Comparison) (x y : ℤ) : c.on (-x) (-y) = c.on y x := by
  cases c <;> simp [Comparison.on, eq_comm]

/-- **The four orders on scalars are the orders of their keys.** -/
theorem compareScalar_eq {c : Comparison} (hc : c ≠ .neq) {t : ScalarVT} {a b : List UInt8}
    (ha : isOdd t a = false) (hb : isOdd t b = false) :
    compareScalar c t a b = flag (c.on (scalarKey t a) (scalarKey t b)) := by
  cases t with
  | CY => cases ha
  | R4 | R8 => exact congrArg flag (Comparison.onFloat_eq ha hb c)
  | DECIMAL => exact (if_neg hc).trans (congrArg flag (Comparison.onFloat_eq ha hb c))
  | BOOL => exact congrArg flag (Comparison.on_neg c _ _).symm
  | _ => rfl

theorem signed_inj {a b : List UInt8} (h : a.length = b.length) : signed a = signed b ↔ a = b := by
  refine ⟨fun heq ↦ ?_, fun heq ↦ congrArg signed heq⟩
  have hmod := congrArg (· % ((256 : ℤ) ^ a.length)) heq
  simp only [signed, ← h] at hmod
  have hcast : ((256 : ℤ) ^ a.length) = ((256 ^ a.length : ℕ) : ℤ) := by push_cast; rfl
  rw [hcast, Int.bmod_emod, Int.bmod_emod, ← Int.natCast_mod, ← Int.natCast_mod] at hmod
  have hlt := ofLE_lt b
  rw [← h] at hlt
  rw [Nat.mod_eq_of_lt (ofLE_lt a), Nat.mod_eq_of_lt hlt] at hmod
  rw [← leBytes_ofLE a, ← leBytes_ofLE b, h, Int.ofNat_inj.1 hmod]

theorem ofLE_inj {a b : List UInt8} (h : a.length = b.length) : ofLE a = ofLE b ↔ a = b := by
  refine ⟨fun heq ↦ ?_, fun heq ↦ congrArg ofLE heq⟩
  rw [← leBytes_ofLE a, ← leBytes_ofLE b, h, heq]

/-- Equality of floating-point numbers other than NaN. -/
theorem floatEq_iff {exponent mantissa a b : ℕ} (ha : isNaN exponent mantissa a = false)
    (hb : isNaN exponent mantissa b = false) (halt : a < 2 * 2 ^ (exponent + mantissa))
    (hblt : b < 2 * 2 ^ (exponent + mantissa)) :
    floatEq exponent mantissa a b = true ↔
      floatKey exponent mantissa a = floatKey exponent mantissa b := by
  have heq : floatEq exponent mantissa a b =
      (!isNaN exponent mantissa a && !isNaN exponent mantissa b &&
        (a == b || a % 2 ^ (exponent + mantissa) == 0 && b % 2 ^ (exponent + mantissa) == 0)) := rfl
  rw [heq, ha, hb]
  unfold floatKey
  generalize 2 ^ (exponent + mantissa) = N at halt hblt ⊢
  have hN : 0 < N := by omega
  have hdiv {x : ℕ} (hx : x < 2 * N) : x / N = 0 ∧ x % N = x ∨ x / N = 1 ∧ x % N + N = x := by
    have hle : x / N < 2 := Nat.div_lt_of_lt_mul (by rwa [Nat.mul_comm])
    have hsplit := Nat.div_add_mod x N
    rcases Nat.lt_succ_iff_lt_or_eq.1 hle with hlt | hone
    · have hzero : x / N = 0 := Nat.lt_one_iff.1 hlt
      rw [hzero, Nat.mul_zero] at hsplit
      exact .inl ⟨hzero, by omega⟩
    · rw [hone, Nat.mul_one] at hsplit
      exact .inr ⟨hone, by omega⟩
  simp only [Bool.not_false, Bool.and_self, Bool.true_and, Bool.or_eq_true, beq_iff_eq,
    Bool.and_eq_true]
  have hamod := Nat.mod_lt a hN
  have hbmod := Nat.mod_lt b hN
  rcases hdiv halt with ⟨hda, hma⟩ | ⟨hda, hma⟩ <;> rcases hdiv hblt with ⟨hdb, hmb⟩ | ⟨hdb, hmb⟩ <;>
    rw [hda, hdb] <;> simp only [Nat.zero_mod, Nat.one_mod, if_true, Nat.one_ne_zero, if_false] <;>
    omega

/-! ### Texts and binaries by their first difference -/

theorem ucompare_cons (fold : UInt16 → UInt16) (c d : UInt16) (s₁ s₂ : List UInt16) :
    ucompare fold (c :: s₁) (d :: s₂) =
      if ((fold c).toNat : ℤ) - (fold d).toNat ≠ 0 ∨ c = 0 ∨ d = 0 then
        ((fold c).toNat : ℤ) - (fold d).toNat
      else ucompare fold s₁ s₂ := rfl

theorem ucompare_swap (fold : UInt16 → UInt16) (s₁ s₂ : List UInt16) :
    ucompare fold s₂ s₁ = -ucompare fold s₁ s₂ := by
  induction s₁ generalizing s₂ with
  | nil =>
    cases s₂ with
    | nil => exact (Int.neg_sub _ _).symm
    | cons d s₂ =>
      have hright : ucompare fold (d :: s₂) [] = (fold d).toNat - (fold 0).toNat := by
        simp [ucompare]
      rw [hright]
      exact (Int.neg_sub _ _).symm
  | cons c s₁ ih =>
    cases s₂ with
    | nil =>
      have hright : ucompare fold (c :: s₁) [] = (fold c).toNat - (fold 0).toNat := by
        simp [ucompare]
      rw [hright]
      exact (Int.neg_sub _ _).symm
    | cons d s₂ =>
      rw [ucompare_cons, ucompare_cons]
      have hcond : (((fold d).toNat : ℤ) - (fold c).toNat ≠ 0 ∨ d = 0 ∨ c = 0) ↔
          ((fold c).toNat : ℤ) - (fold d).toNat ≠ 0 ∨ c = 0 ∨ d = 0 := by
        rw [or_comm (a := d = 0)]
        exact or_congr_left (by omega)
      by_cases hstop : ((fold c).toNat : ℤ) - (fold d).toNat ≠ 0 ∨ c = 0 ∨ d = 0
      · rw [if_pos hstop, if_pos (hcond.2 hstop), Int.neg_sub]
      · rw [if_neg hstop, if_neg (mt hcond.1 hstop), ih]

theorem ucompare_eq_zero (fold : UInt16 → UInt16) (s₁ s₂ : List UInt16) :
    ucompare fold s₁ s₂ = 0 ↔ uequal fold s₁ s₂ = true := by
  have hsame (c d : UInt16) : ((fold c).toNat : ℤ) - (fold d).toNat = 0 ↔ (fold c == fold d) := by
    rw [beq_iff_eq, Int.sub_eq_zero, Int.ofNat_inj, UInt16.toNat_inj]
  induction s₁ generalizing s₂ with
  | nil => exact hsame 0 (s₂.headD 0)
  | cons c s₁ ih =>
    simp only [ucompare, uequal, Bool.and_eq_true, Bool.or_eq_true, ← hsame, beq_iff_eq]
    split_ifs with hstop
    · refine ⟨fun hzero ↦ ⟨hzero, ?_⟩, And.left⟩
      rcases hstop with hne | hc | hd
      · exact absurd hzero hne
      · exact .inl (.inl hc)
      · exact .inl (.inr hd)
    · push Not at hstop
      obtain ⟨hzero, hc, hd⟩ := hstop
      refine ⟨fun h ↦ ⟨hzero, .inr ((ih _).1 h)⟩, fun h ↦ (ih _).2 ?_⟩
      exact h.2.resolve_left fun hend ↦ hend.elim hc hd

theorem ucompareBSTR_swap (fold : UInt16 → UInt16) (s₁ s₂ : Option (List UInt16)) :
    ucompareBSTR fold s₂ s₁ = -ucompareBSTR fold s₁ s₂ := by
  cases s₁ <;> cases s₂ <;> first | rfl | exact ucompare_swap fold _ _

theorem ucompareBSTR_eq_zero (P : Platform) (caseSensitive : Bool) (s₁ s₂ : Option (List UInt16)) :
    ucompareBSTR (if caseSensitive then id else P.tolower) s₁ s₂ = 0 ↔
      isEqualBSTR P caseSensitive s₁ s₂ = true := by
  cases s₁ <;> cases s₂ <;> first | exact ucompare_eq_zero _ _ _ | simp [ucompareBSTR, isEqualBSTR]

theorem memcmp_swap (as bs : List UInt8) : memcmp bs as = -memcmp as bs := by
  induction as generalizing bs with
  | nil => cases bs <;> rfl
  | cons a as ih =>
    cases bs with
    | nil => rfl
    | cons b bs =>
      rw [memcmp, memcmp]
      by_cases hab : a = b
      · rw [if_pos hab, if_pos hab.symm]
        exact ih bs
      · rw [if_neg hab, if_neg (Ne.symm hab)]
        exact (Int.neg_sub _ _).symm

theorem memcmp_eq_zero {as bs : List UInt8} (h : as.length = bs.length) :
    memcmp as bs = 0 ↔ as = bs := by
  induction as generalizing bs with
  | nil => exact iff_of_true (by cases bs <;> rfl) (List.eq_nil_of_length_eq_zero h.symm).symm
  | cons a as ih =>
    cases bs with
    | nil => cases h
    | cons b bs =>
      rw [memcmp]
      split_ifs with hab
      · rw [ih (Nat.succ.inj h), hab, List.cons.injEq]
        exact (and_iff_right rfl).symm
      · refine iff_of_false (fun hzero ↦ hab ?_) fun heq ↦ hab (List.cons.inj heq).1
        exact UInt8.toNat_inj.1 (Int.ofNat_inj.1 (Int.sub_eq_zero.1 hzero))

/-! ### Coherence -/

/-- **The comparisons of two values agree**: exactly one of `lt`, `eq` and `gt` holds, the others
are made of these, and `gt` is `lt` the other way round. -/
structure Coherent (P : ComparingPlatform) (caseSensitive : Bool) (a b : VARIANT) : Prop where
  lt_or_eq_or_gt : 0 < lt P caseSensitive a b ∨ 0 < eq P.toPlatform caseSensitive a b ∨
    0 < gt P caseSensitive a b
  not_lt_eq : ¬ (0 < lt P caseSensitive a b ∧ 0 < eq P.toPlatform caseSensitive a b)
  not_lt_gt : ¬ (0 < lt P caseSensitive a b ∧ 0 < gt P caseSensitive a b)
  not_eq_gt : ¬ (0 < eq P.toPlatform caseSensitive a b ∧ 0 < gt P caseSensitive a b)
  ge_iff : 0 < ge P caseSensitive a b ↔
    0 < gt P caseSensitive a b ∨ 0 < eq P.toPlatform caseSensitive a b
  le_iff : 0 < le P caseSensitive a b ↔
    0 < lt P caseSensitive a b ∨ 0 < eq P.toPlatform caseSensitive a b
  neq_iff : 0 < neq P caseSensitive a b ↔ ¬ 0 < eq P.toPlatform caseSensitive a b
  gt_eq_lt : gt P caseSensitive a b = lt P caseSensitive b a

/-- **Values that are ordered by a number** are compared coherently exactly if equality is that of
the numbers and `neq` is its negation. -/
theorem coherent_iff {P : ComparingPlatform} {caseSensitive : Bool} {a b : VARIANT} {x y : ℤ}
    (hgt : 0 < gt P caseSensitive a b ↔ y < x) (hge : 0 < ge P caseSensitive a b ↔ y ≤ x)
    (hlt : 0 < lt P caseSensitive a b ↔ x < y) (hle : 0 < le P caseSensitive a b ↔ x ≤ y)
    (hswap : gt P caseSensitive a b = lt P caseSensitive b a) :
    Coherent P caseSensitive a b ↔ (0 < eq P.toPlatform caseSensitive a b ↔ x = y) ∧
      (0 < neq P caseSensitive a b ↔ ¬ 0 < eq P.toPlatform caseSensitive a b) := by
  constructor
  · intro h
    refine ⟨⟨fun heq ↦ ?_, fun hxy ↦ ?_⟩, h.neq_iff⟩
    · have hnlt : ¬ x < y := fun hless ↦ h.not_lt_eq ⟨hlt.2 hless, heq⟩
      have hngt : ¬ y < x := fun hless ↦ h.not_eq_gt ⟨heq, hgt.2 hless⟩
      omega
    · rcases h.lt_or_eq_or_gt with hless | heq | hgreater
      · have := hlt.1 hless
        omega
      · exact heq
      · have := hgt.1 hgreater
        omega
  · rintro ⟨heq, hneq⟩
    refine ⟨?_, ?_, ?_, ?_, ?_, ?_, hneq, hswap⟩ <;> simp only [hgt, hge, hlt, hle, heq] <;> omega

/-- Scalars that are ordered by their keys. -/
theorem coherent_scalar_iff {P : ComparingPlatform} {caseSensitive : Bool} {t : ScalarVT}
    {a b : List UInt8} (ha : isOdd t a = false) (hb : isOdd t b = false) :
    Coherent P caseSensitive (.scalar t a) (.scalar t b) ↔
      (0 < eqScalar t a b ↔ scalarKey t a = scalarKey t b) ∧
        (0 < compareScalar .neq t a b ↔ ¬ 0 < eqScalar t a b) := by
  have hpos {c : Comparison} {Q : Prop} (hne : c ≠ .neq)
      (hc : c.on (scalarKey t a) (scalarKey t b) = true ↔ Q) :
      0 < compareWith c P caseSensitive (.scalar t a) (.scalar t b) ↔ Q := by
    rw [compareWith_scalar, compareScalar_eq hne ha hb, flag_pos, hc]
  rw [← eq_scalar P.toPlatform caseSensitive, ← compareWith_scalar .neq P caseSensitive]
  refine coherent_iff ?_ ?_ ?_ ?_ ?_
  · exact hpos (by decide) Comparison.on_gt
  · exact hpos (by decide) Comparison.on_ge
  · exact hpos (by decide) Comparison.on_lt
  · exact hpos (by decide) Comparison.on_le
  · rw [gt, lt, compareWith_scalar, compareWith_scalar, compareScalar_eq (by decide) ha hb,
      compareScalar_eq (by decide) hb ha]
    rfl

/-- Two values of one column: scalars of the width of their type, other than NaN in the columns of
floating-point numbers, strings, and binaries of 16 bytes. -/
inductive SameColumn : VARIANT → VARIANT → Prop
  | scalar {t : ScalarVT} {a b : List UInt8} (ha : a.length = t.size) (hb : b.length = t.size)
      (hfloat : t = .R4 ∨ t = .R8 → isOdd t a = false ∧ isOdd t b = false) :
      SameColumn (.scalar t a) (.scalar t b)
  | bstr (s₁ s₂ : Option (List UInt16)) : SameColumn (.bstr s₁) (.bstr s₂)
  | uuid {a b : List UInt8} (ha : a.length = 16) (hb : b.length = 16) :
      SameColumn (.scalarArray .UI1 16 a) (.scalarArray .UI1 16 b)

/-- The condition: not for `CY`; two `BOOL`s with the same truth have the same encoding; `ToDouble`
of two `DECIMAL`s is not NaN and distinguishes them. -/
def ComparesCoherently : VARIANT → VARIANT → Prop
  | .scalar .CY _, .scalar _ _ => False
  | .scalar .BOOL a, .scalar _ b => (ofLE a ≠ 0 ↔ ofLE b ≠ 0) → a = b
  | .scalar .DECIMAL a, .scalar _ b =>
    isNaN 11 52 (ToDouble a) = false ∧ isNaN 11 52 (ToDouble b) = false ∧
      (floatKey 11 52 (ToDouble a) = floatKey 11 52 (ToDouble b) → a = b)
  | _, _ => True

/-- Two `BOOL`s are equal if they have the same truth. -/
theorem eqScalar_bool_pos {a b : List UInt8} :
    0 < eqScalar .BOOL a b ↔ (ofLE a ≠ 0 ↔ ofLE b ≠ 0) := by
  have htruth : eqScalar .BOOL a b = flag (decide ((ofLE a != 0) = (ofLE b != 0))) := by
    simp [eqScalar, flag]
  rw [htruth, flag_pos, decide_eq_true_iff, Bool.eq_iff_iff, bne_iff_ne, bne_iff_ne]

/-- They are unequal if they have different encodings. -/
theorem neqScalar_bool_pos {a b : List UInt8} (h : a.length = b.length) :
    0 < compareScalar .neq .BOOL a b ↔ a ≠ b := by
  rw [compareScalar, flag_pos]
  exact Comparison.on_neq.trans (not_congr ((signed_inj h.symm).trans eq_comm))

theorem coherent_bool_iff {P : ComparingPlatform} {caseSensitive : Bool} {a b : List UInt8}
    (h : a.length = b.length) :
    Coherent P caseSensitive (.scalar .BOOL a) (.scalar .BOOL b) ↔
      ((ofLE a ≠ 0 ↔ ofLE b ≠ 0) → a = b) := by
  have hkey : scalarKey .BOOL a = scalarKey .BOOL b ↔ a = b :=
    neg_inj.trans (signed_inj h)
  rw [coherent_scalar_iff rfl rfl, eqScalar_bool_pos, hkey, neqScalar_bool_pos h]
  constructor
  · exact fun h ↦ h.1.1
  · intro h
    have hiff : (ofLE a ≠ 0 ↔ ofLE b ≠ 0) ↔ a = b := ⟨h, fun hab ↦ by rw [hab]⟩
    exact ⟨hiff, not_congr hiff.symm⟩

theorem coherent_decimal_iff {P : ComparingPlatform} {caseSensitive : Bool} {a b : List UInt8} :
    Coherent P caseSensitive (.scalar .DECIMAL a) (.scalar .DECIMAL b) ↔
      isNaN 11 52 (ToDouble a) = false ∧ isNaN 11 52 (ToDouble b) = false ∧
        (floatKey 11 52 (ToDouble a) = floatKey 11 52 (ToDouble b) → a = b) := by
  have heq : 0 < eqScalar .DECIMAL a b ↔ a = b := ite_pos
  cases hodd : isNaN 11 52 (ToDouble a) || isNaN 11 52 (ToDouble b) with
  | true =>
    -- no order holds, so there is neither an order nor what equality would imply
    refine iff_of_false (fun h ↦ ?_) fun h ↦ by simp [h.1, h.2.1] at hodd
    have hnone {c : Comparison} (hc : c ≠ .neq) :
        ¬ 0 < compareWith c P caseSensitive (.scalar .DECIMAL a) (.scalar .DECIMAL b) := by
      rw [compareWith_scalar, compareScalar, if_neg hc, flag_pos, Comparison.onFloat, hodd]
      simp [hc]
    have hunequal := mt (fun heq ↦ h.ge_iff.2 (.inr heq)) (hnone (by decide))
    rcases h.lt_or_eq_or_gt with hless | heq | hgreater
    · exact hnone (by decide) hless
    · exact hunequal heq
    · exact hnone (by decide) hgreater
  | false =>
    obtain ⟨ha, hb⟩ := Bool.or_eq_false_iff.1 hodd
    rw [coherent_scalar_iff (t := .DECIMAL) ha hb, heq, compareScalar, if_pos rfl, flag_pos,
      decide_eq_true_iff]
    constructor
    · exact fun h ↦ ⟨ha, hb, h.1.2⟩
    · exact fun h ↦ ⟨⟨fun hab ↦ by rw [hab], h.2.2⟩, Iff.rfl⟩

/-- The other types are compared by their keys in every respect. -/
theorem coherent_scalar {P : ComparingPlatform} {caseSensitive : Bool} {t : ScalarVT}
    {a b : List UInt8} (ha : a.length = t.size) (hb : b.length = t.size)
    (hfloat : t = .R4 ∨ t = .R8 → isOdd t a = false ∧ isOdd t b = false) (hcy : t ≠ .CY)
    (hbool : t ≠ .BOOL) (hdecimal : t ≠ .DECIMAL) :
    Coherent P caseSensitive (.scalar t a) (.scalar t b) := by
  have hodd : isOdd t a = false ∧ isOdd t b = false := by
    cases t <;> first | exact ⟨rfl, rfl⟩ | exact hfloat (.inl rfl) | exact hfloat (.inr rfl) |
      exact absurd rfl hcy | exact absurd rfl hdecimal
  have hlen : a.length = b.length := ha.trans hb.symm
  rw [coherent_scalar_iff hodd.1 hodd.2]
  have hbytes : 0 < (if a = b then 1 else 0 : ℤ) ↔ a = b := ite_pos
  have hfloats {exponent mantissa : ℕ}
      (hna : isNaN exponent mantissa (ofLE a) = false)
      (hnb : isNaN exponent mantissa (ofLE b) = false)
      (hsize : 256 ^ t.size = 2 * 2 ^ (exponent + mantissa)) :
      (0 < (if floatEq exponent mantissa (ofLE a) (ofLE b) then 1 else 0 : ℤ) ↔
        floatKey exponent mantissa (ofLE a) = floatKey exponent mantissa (ofLE b)) ∧
      (0 < flag (Comparison.neq.onFloat exponent mantissa (ofLE a) (ofLE b)) ↔
        ¬ 0 < (if floatEq exponent mantissa (ofLE a) (ofLE b) then 1 else 0 : ℤ)) := by
    have hlta : ofLE a < 2 * 2 ^ (exponent + mantissa) := hsize ▸ ha ▸ ofLE_lt a
    have hltb : ofLE b < 2 * 2 ^ (exponent + mantissa) := hsize ▸ hb ▸ ofLE_lt b
    have hpos : 0 < (if floatEq exponent mantissa (ofLE a) (ofLE b) then 1 else 0 : ℤ) ↔
        floatKey exponent mantissa (ofLE a) = floatKey exponent mantissa (ofLE b) := by
      rw [← floatEq_iff hna hnb hlta hltb, ite_pos]
    rw [hpos, flag_pos, Comparison.onFloat_eq hna hnb]
    exact ⟨Iff.rfl, Comparison.on_neq⟩
  cases t with
  | CY => exact absurd rfl hcy
  | BOOL => exact absurd rfl hbool
  | DECIMAL => exact absurd rfl hdecimal
  | R4 => exact hfloats hodd.1 hodd.2 (by decide)
  | R8 => exact hfloats hodd.1 hodd.2 (by decide)
  | I1 | I2 | I4 | I8 | INT =>
    refine ⟨hbytes.trans (signed_inj hlen).symm, ?_⟩
    rw [compareScalar, flag_pos]
    exact Comparison.on_neq.trans (not_congr ((signed_inj hlen).trans hbytes.symm))
  | UI1 | UI2 | UI4 | UI8 | UINT | DATE =>
    have hkey : ((ofLE a : ℕ) : ℤ) = (ofLE b : ℕ) ↔ a = b := Int.ofNat_inj.trans (ofLE_inj hlen)
    refine ⟨hbytes.trans hkey.symm, ?_⟩
    rw [compareScalar, flag_pos]
    exact Comparison.on_neq.trans (not_congr (hkey.trans hbytes.symm))

/-- Values that are ordered by a difference which changes its sign with their order. -/
theorem coherent_of_difference {P : ComparingPlatform} {caseSensitive : Bool} {a b : VARIANT}
    {x : ℤ} (h : ∀ c, compareWith c P caseSensitive a b = flag (c.on x 0))
    (hswap : lt P caseSensitive b a = flag (Comparison.lt.on (-x) 0))
    (heq : 0 < eq P.toPlatform caseSensitive a b ↔ x = 0) : Coherent P caseSensitive a b := by
  have hpos {c : Comparison} {Q : Prop} (hc : c.on x 0 = true ↔ Q) :
      0 < compareWith c P caseSensitive a b ↔ Q := by
    rw [h, flag_pos, hc]
  refine (coherent_iff (hpos Comparison.on_gt) (hpos Comparison.on_ge) (hpos Comparison.on_lt)
    (hpos Comparison.on_le) ?_).2 ⟨heq, (hpos Comparison.on_neq).trans (not_congr heq.symm)⟩
  rw [gt, h, hswap]
  simp [Comparison.on]

theorem coherent_bstr (P : ComparingPlatform) (caseSensitive : Bool)
    (s₁ s₂ : Option (List UInt16)) : Coherent P caseSensitive (.bstr s₁) (.bstr s₂) := by
  refine coherent_of_difference
    (x := ucompareBSTR (if caseSensitive then id else P.tolower) s₁ s₂) (fun _ ↦ rfl) ?_ ?_
  · rw [← ucompareBSTR_swap]
    rfl
  · rw [ucompareBSTR_eq_zero]
    exact ite_pos

theorem coherent_uuid (P : ComparingPlatform) (caseSensitive : Bool) {a b : List UInt8}
    (ha : a.length = 16) (hb : b.length = 16) :
    Coherent P caseSensitive (.scalarArray .UI1 16 a) (.scalarArray .UI1 16 b) := by
  refine coherent_of_difference (x := memcmp a b) (fun _ ↦ rfl) ?_ ?_
  · rw [← memcmp_swap]
    rfl
  · rw [memcmp_eq_zero (ha.trans hb.symm)]
    exact eq_uuid_pos

/-- **When the comparisons of two values are coherent**, for every two values of one column, with
and without regard to case. -/
theorem comparisons_coherent_iff (P : ComparingPlatform) (caseSensitive : Bool) {a b : VARIANT}
    (h : SameColumn a b) : Coherent P caseSensitive a b ↔ ComparesCoherently a b := by
  cases h with
  | bstr s₁ s₂ => exact iff_of_true (coherent_bstr P caseSensitive s₁ s₂) trivial
  | uuid ha hb => exact iff_of_true (coherent_uuid P caseSensitive ha hb) trivial
  | @scalar t a b ha hb hfloat =>
    cases t with
    | CY =>
      have hnone : ¬ Coherent P caseSensitive (.scalar .CY a) (.scalar .CY b) := by
        intro h
        have hunsupported : ¬ 0 < COMPARISON_NOT_SUPPORTED := by decide
        rcases h.lt_or_eq_or_gt with hless | heq | hgreater
        · rw [lt, compareWith_scalar] at hless
          exact hunsupported hless
        · rw [eq_scalar] at heq
          exact hunsupported heq
        · rw [gt, compareWith_scalar] at hgreater
          exact hunsupported hgreater
      exact iff_of_false hnone id
    | BOOL => exact coherent_bool_iff (ha.trans hb.symm)
    | DECIMAL => exact coherent_decimal_iff
    | _ =>
      exact iff_of_true (coherent_scalar ha hb hfloat (by decide) (by decide) (by decide)) trivial

/-- A platform without conversions, on which letters are not folded. -/
def plainPlatform : ComparingPlatform where
  VariantChangeType vt _ := vt
  UDateTime _ := []
  ToBSTR s := s.map fun c ↦ c.toUInt16
  tolower c := c
  eqMixed _ _ := COMPARISON_NOT_SUPPORTED
  compareMixed _ _ _ := COMPARISON_NOT_SUPPORTED

/-- 0.5 and 1.5 as decimals with one digit behind the point. -/
theorem comparisons_coherent_decimals :
    Coherent plainPlatform false (.scalar .DECIMAL [0, 0, 1, 0, 0, 0, 0, 0, 5, 0, 0, 0, 0, 0, 0, 0])
      (.scalar .DECIMAL [0, 0, 1, 0, 0, 0, 0, 0, 15, 0, 0, 0, 0, 0, 0, 0]) :=
  (comparisons_coherent_iff plainPlatform false
    (.scalar rfl rfl fun h ↦ by rcases h with h | h <;> cases h)).2
    ⟨by decide +kernel, by decide +kernel, fun h ↦ absurd h (by decide +kernel)⟩

/-- The encodings -1 and 1 of true are equal, unequal, and one is greater. -/
theorem not_comparisons_coherent :
    ¬ Coherent plainPlatform false (.scalar .BOOL [0xff, 0xff]) (.scalar .BOOL [1, 0]) := by
  intro h
  have hequal : 0 < eq plainPlatform.toPlatform false (.scalar .BOOL [0xff, 0xff])
      (.scalar .BOOL [1, 0]) := by decide +kernel
  exact h.neq_iff.1 (by decide +kernel) hequal

end SocketPro.TableCache
