import SocketPro.Go.Value
import SocketPro.Text.Decimals

/-!
# Go decimals as texts

`String` and `SetString` of `DECIMAL`, over `big.Int`. `String` puts the point into the numeral of
the magnitude, `Scale` places from its end. It does not put zeros in front of a short numeral: with
fewer digits than `Scale` the slice starts before the text and panics, or, when only the minus is
left to cover, the point comes before the minus (`comesBack_iff`).

`SetString` needs no digit before the point, and it takes whatever `String` makes of a numeral that
is long enough.
-/

namespace SocketPro

namespace Text

open Json (code isDigit)

/-- The number of a decimal literal without a sign: digits, with a point anywhere among them. -/
def unsignedLiteral? (s : List ℕ) : Option ℚ :=
  let whole := s.takeWhile isDigit
  match s.dropWhile isDigit with
  | [] => if whole = [] then none else some (value whole)
  | c :: fraction =>
    if c = code '.' ∧ fraction.all isDigit ∧ whole ++ fraction ≠ [] then
      some ((value (whole ++ fraction) : ℚ) / 10 ^ fraction.length)
    else none

/-- The number of a decimal literal. -/
def literal? : List ℕ → Option ℚ
  | [] => none
  | c :: s => if c = code '-' then (unsignedLiteral? s).map (-·) else unsignedLiteral? (c :: s)

theorem unsignedLiteral?_digits {ds : List ℕ} (hds : ∀ d ∈ ds, isDigit d = true) (hne : ds ≠ []) :
    unsignedLiteral? ds = some (value ds) := by
  have htake : ds.takeWhile isDigit = ds := List.takeWhile_eq_self_iff.2 hds
  have hdrop : ds.dropWhile isDigit = [] := List.dropWhile_eq_nil_iff.2 hds
  rw [unsignedLiteral?, htake, hdrop]
  exact if_neg hne

theorem unsignedLiteral?_point {whole fraction : List ℕ} (hwhole : ∀ d ∈ whole, isDigit d = true)
    (hfraction : ∀ d ∈ fraction, isDigit d = true) (hne : whole ++ fraction ≠ []) :
    unsignedLiteral? (whole ++ code '.' :: fraction) =
      some ((value (whole ++ fraction) : ℚ) / 10 ^ fraction.length) := by
  have hpoint : isDigit (code '.') = false := by decide
  have htake : (whole ++ code '.' :: fraction).takeWhile isDigit = whole := by
    rw [List.takeWhile_append_of_pos hwhole, List.takeWhile_cons_of_neg (by simp [hpoint]),
      List.append_nil]
  have hdrop : (whole ++ code '.' :: fraction).dropWhile isDigit = code '.' :: fraction := by
    rw [List.dropWhile_append_of_pos hwhole, List.dropWhile_cons_of_neg (by simp [hpoint])]
  rw [unsignedLiteral?, htake, hdrop]
  dsimp only
  rw [if_pos ⟨rfl, List.all_eq_true.2 hfraction, hne⟩]

/-- A point in front of a minus is no literal. -/
theorem literal?_point_minus (s : List ℕ) : literal? (code '.' :: code '-' :: s) = none := by
  have hpoint : isDigit (code '.') = false := by decide
  have hminus : isDigit (code '-') = false := by decide
  rw [literal?, if_neg (by decide), unsignedLiteral?,
    List.dropWhile_cons_of_neg (by simp [hpoint])]
  exact if_neg fun h ↦ by simp [hminus] at h

end Text

namespace Go

open Text (literal? unsignedLiteral? numeral canonical value)
open Json (code isDigit)

/-! ### `big.Int` -/

/-- `SetString(s, 10)` of digits without a sign. -/
def bigDigits? (s : List ℕ) : Option ℤ :=
  if s ≠ [] ∧ s.all isDigit then some (value s) else none

/-- `SetString(s, 10)` of `big.Int`. -/
def bigSetString : List ℕ → Option ℤ
  | [] => none
  | c :: s =>
    if c = code '-' then (bigDigits? s).map (-·)
    else if c = code '+' then bigDigits? s
    else bigDigits? (c :: s)

/-- `Uint64` of `big.Int`: the low 64 bits of the absolute value. -/
def bigUint64 (x : ℤ) : BitVec 64 := BitVec.ofNat 64 x.natAbs

/-! ### The two methods -/

/-- The integer that the digits of a decimal make up. -/
def DECIMAL.magnitude (d : DECIMAL) : ℕ := d.Hi32.toNat * 2 ^ 64 + d.Lo64.toNat

/-- `String`; `none` when slicing the text panics. -/
def DECIMAL.String (d : DECIMAL) : Option (List ℕ) :=
  let bi : ℤ := d.Hi32.toNat
  let bi := bi * 18446744073709551616
  let bi := bi + d.Lo64.toNat
  let bi := if 0 < d.Sign then -bi else bi
  let s := canonical bi
  if 0 < d.Scale then
    let pos : ℤ := s.length - d.Scale.toNat
    if pos < 0 then none
    else some (s.take pos.toNat ++ code '.' :: s.drop pos.toNat)
  else some s

/-- `SetString`: whether the text was taken, and the decimal behind it. -/
def DECIMAL.SetString (d : DECIMAL) (s : List ℕ) : Bool × DECIMAL :=
  let pos := s.idxOf (code '.')
  let scale : BitVec 8 := if pos = s.length then 0 else BitVec.ofNat 8 (s.length - pos - 1)
  let s := if pos = s.length then s else s.take pos ++ s.drop (pos + 1)
  match bigSetString s with
  | none => (false, d)
  | some bi =>
    let sign : BitVec 8 := if bi < 0 then 0x80 else 0
    let bi := |bi|
    let z := bi / 18446744073709551616
    (true, ⟨0, scale, sign, (bigUint64 z).truncate 32, bigUint64 bi⟩)

/-- `(-1)^sign * magnitude / 10^scale`. -/
def DECIMAL.value (d : DECIMAL) : ℚ :=
  (if 0 < d.Sign then -1 else 1) * d.magnitude / 10 ^ d.Scale.toNat

/-- **The text is a literal of the decimal, and the decimal comes back from it**, whatever it is
read into. -/
def DECIMAL.ComesBack (d : DECIMAL) : Prop :=
  ∃ s, d.String = some s ∧ literal? s = some d.value ∧ ∀ e : DECIMAL, ∃ e',
    e.SetString s = (true, e') ∧ e'.Hi32 = d.Hi32 ∧ e'.Lo64 = d.Lo64 ∧ e'.Scale = d.Scale ∧
      (d.magnitude = 0 ∨ e'.Sign = d.Sign)

/-! ### Reading -/

section

variable {ds front back : List ℕ}

theorem bigSetString_digits (hds : ∀ d ∈ ds, isDigit d = true) (hne : ds ≠ []) :
    bigSetString ds = some (value ds) := by
  obtain ⟨c, rest, rfl⟩ := List.exists_cons_of_ne_nil hne
  have hminus : c ≠ code '-' := fun h ↦ absurd (hds c List.mem_cons_self) (by rw [h]; decide)
  have hplus : c ≠ code '+' := fun h ↦ absurd (hds c List.mem_cons_self) (by rw [h]; decide)
  rw [bigSetString, if_neg hminus, if_neg hplus]
  exact if_pos ⟨hne, List.all_eq_true.2 hds⟩

theorem bigSetString_minus (hds : ∀ d ∈ ds, isDigit d = true) (hne : ds ≠ []) :
    bigSetString (code '-' :: ds) = some (-(value ds : ℤ)) := by
  rw [bigSetString, if_pos rfl, bigDigits?, if_pos ⟨hne, List.all_eq_true.2 hds⟩]
  rfl

/-- The number that is read, with the sign `negative`. -/
theorem bigSetString_signed (negative : Bool) (hds : ∀ d ∈ ds, isDigit d = true) (hne : ds ≠ []) :
    bigSetString ((if negative then [code '-'] else []) ++ ds) =
      some (if negative then -(value ds : ℤ) else value ds) := by
  cases negative with
  | false => exact bigSetString_digits hds hne
  | true => exact bigSetString_minus hds hne

theorem literal?_signed (negative : Bool) {s : List ℕ} (hs : s.head? ≠ some (code '-'))
    (hne : s ≠ []) :
    literal? ((if negative then [code '-'] else []) ++ s) =
      (unsignedLiteral? s).map fun q ↦ (if negative then -1 else 1) * q := by
  cases negative with
  | false =>
    obtain ⟨c, rest, rfl⟩ := List.exists_cons_of_ne_nil hne
    have hc : c ≠ code '-' := fun h ↦ hs (by rw [h]; rfl)
    show literal? (c :: rest) = _
    rw [literal?, if_neg hc]
    simp
  | true =>
    show literal? (code '-' :: s) = _
    rw [literal?, if_pos rfl]
    simp

/-- The place of the only point. -/
theorem idxOf_point (hfront : code '.' ∉ front) :
    (front ++ code '.' :: back).idxOf (code '.') = front.length := by
  rw [List.idxOf_append_of_notMem hfront, List.idxOf_cons_self, Nat.add_zero]

end

section

variable (d : DECIMAL)

theorem lo64_eq : bigUint64 d.magnitude = d.Lo64 := by
  refine BitVec.eq_of_toNat_eq ?_
  have hlo := d.Lo64.isLt
  rw [bigUint64, BitVec.toNat_ofNat, Int.natAbs_natCast, DECIMAL.magnitude]
  omega

theorem hi32_eq : (bigUint64 ((d.magnitude : ℤ) / 18446744073709551616)).truncate 32 = d.Hi32 := by
  refine BitVec.eq_of_toNat_eq ?_
  have hhi := d.Hi32.isLt
  have hlo := d.Lo64.isLt
  have hdiv : ((d.magnitude : ℤ) / 18446744073709551616).natAbs = d.Hi32.toNat := by
    rw [DECIMAL.magnitude]
    omega
  rw [BitVec.truncate_eq_setWidth, BitVec.toNat_setWidth, bigUint64, BitVec.toNat_ofNat, hdiv]
  omega

/-- The decimal has a minus. -/
def DECIMAL.negative : Bool := 0 < d.Sign ∧ d.magnitude ≠ 0

/-- The text before the point is put in. -/
def signed : List ℕ := (if d.negative then [code '-'] else []) ++ numeral d.magnitude

/-- The number, with its sign. -/
theorem signed_eq :
    (if d.negative then -(d.magnitude : ℤ) else d.magnitude) =
      if 0 < d.Sign then -(d.magnitude : ℤ) else d.magnitude := by
  by_cases hzero : d.magnitude = 0
  · simp [hzero]
  · simp [DECIMAL.negative, hzero]

theorem signed_neg_iff :
    ((if d.negative then -(d.magnitude : ℤ) else d.magnitude) < 0) = (d.negative = true) := by
  refine propext ?_
  cases hneg : d.negative with
  | false => simp
  | true =>
    have hne : d.magnitude ≠ 0 := (of_decide_eq_true hneg).2
    simp [Nat.pos_iff_ne_zero, hne]

theorem canonical_eq :
    canonical (if 0 < d.Sign then -(d.Hi32.toNat * 18446744073709551616 + d.Lo64.toNat : ℤ)
      else d.Hi32.toNat * 18446744073709551616 + d.Lo64.toNat) = signed d := by
  have hmagnitude : (d.Hi32.toNat * 18446744073709551616 + d.Lo64.toNat : ℤ) = d.magnitude := by
    rw [DECIMAL.magnitude]
    push_cast
    rfl
  have habs : (if d.negative then -(d.magnitude : ℤ) else d.magnitude).natAbs = d.magnitude := by
    split
    · rw [Int.natAbs_neg, Int.natAbs_natCast]
    · exact Int.natAbs_natCast _
  rw [hmagnitude, ← signed_eq, canonical, habs, signed]
  simp only [signed_neg_iff]

theorem string_eq : d.String =
    if 0 < d.Scale then
      if (signed d).length < d.Scale.toNat then none
      else some ((signed d).take ((signed d).length - d.Scale.toNat) ++
        code '.' :: (signed d).drop ((signed d).length - d.Scale.toNat))
    else some (signed d) := by
  have hplace : ((signed d).length - d.Scale.toNat : ℤ).toNat =
      (signed d).length - d.Scale.toNat := by omega
  have hbefore : (((signed d).length - d.Scale.toNat : ℤ) < 0) =
      ((signed d).length < d.Scale.toNat) := propext (by omega)
  rw [DECIMAL.String]
  simp only [canonical_eq, hplace, hbefore]

theorem value_eq : d.value =
    (if d.negative then -1 else 1) * ((d.magnitude : ℚ) / 10 ^ d.Scale.toNat) := by
  rw [DECIMAL.value, mul_div_assoc]
  by_cases hzero : d.magnitude = 0
  · simp [hzero]
  · simp [DECIMAL.negative, hzero]

/-- **What is read of a text** whose digits, without the point, are those of the magnitude. -/
theorem setString_eq (e : DECIMAL) {s : List ℕ} {scale : BitVec 8}
    (hscale : (if s.idxOf (code '.') = s.length then (0 : BitVec 8)
      else BitVec.ofNat 8 (s.length - s.idxOf (code '.') - 1)) = scale)
    (hdigits : (if s.idxOf (code '.') = s.length then s
      else s.take (s.idxOf (code '.')) ++ s.drop (s.idxOf (code '.') + 1)) = signed d) :
    e.SetString s =
      (true, ⟨0, scale, if d.negative then 0x80 else 0, d.Hi32, d.Lo64⟩) := by
  have hread : bigSetString (signed d) =
      some (if d.negative then -(d.magnitude : ℤ) else d.magnitude) := by
    rw [signed, bigSetString_signed _ (fun c hc ↦ Text.isDigit_of_mem_numeral hc)
      (Text.numeral_ne_nil _), Text.value_numeral]
  have habs : |if d.negative then -(d.magnitude : ℤ) else d.magnitude| = d.magnitude := by
    split
    · rw [abs_neg, Nat.abs_cast]
    · exact Nat.abs_cast _
  rw [DECIMAL.SetString]
  simp only [hscale, hdigits, hread, habs, lo64_eq, hi32_eq, signed_neg_iff]

theorem sign_eq (hsign : d.Sign = 0 ∨ d.Sign = 0x80) :
    d.magnitude = 0 ∨ (if d.negative then (0x80 : BitVec 8) else 0) = d.Sign := by
  by_cases hzero : d.magnitude = 0
  · exact .inl hzero
  · right
    rcases hsign with hsign | hsign
    · simp [DECIMAL.negative, hsign]
    · simp [DECIMAL.negative, hsign, hzero]

theorem head?_numeral (n : ℕ) : (numeral n).head? ≠ some (code '-') := fun h ↦
  absurd (Text.isDigit_of_mem_numeral (List.mem_of_mem_head? h)) (by decide)

theorem point_notMem_signed : code '.' ∉ signed d := by
  intro hmem
  rcases List.mem_append.1 hmem with hmem | hmem
  · split at hmem
    · exact absurd (List.mem_singleton.1 hmem) (by decide)
    · exact absurd hmem List.not_mem_nil
  · exact absurd (Text.isDigit_of_mem_numeral hmem) (by decide)

/-- A decimal without a scale. -/
theorem comesBack_of_scale_zero (hsign : d.Sign = 0 ∨ d.Sign = 0x80) (hscale : d.Scale = 0) :
    d.ComesBack := by
  have hplace : (signed d).idxOf (code '.') = (signed d).length :=
    List.idxOf_eq_length_iff.2 (point_notMem_signed d)
  refine ⟨signed d, ?_, ?_, fun e ↦ ⟨_, setString_eq d e (if_pos hplace) (if_pos hplace), rfl, rfl,
    hscale.symm, sign_eq d hsign⟩⟩
  · rw [string_eq, hscale, if_neg (by decide)]
  · rw [signed, literal?_signed _ (head?_numeral _) (Text.numeral_ne_nil _),
      Text.unsignedLiteral?_digits (fun c hc ↦ Text.isDigit_of_mem_numeral hc)
        (Text.numeral_ne_nil _), Text.value_numeral, value_eq, hscale]
    simp

/-- A numeral of at least `Scale` digits, with a point in it. -/
theorem comesBack_of_le (hsign : d.Sign = 0 ∨ d.Sign = 0x80) (hscale : 0 < d.Scale)
    (h : d.Scale.toNat ≤ (numeral d.magnitude).length) : d.ComesBack := by
  obtain ⟨whole, fraction, hnumeral, hlength⟩ : ∃ whole fraction,
      numeral d.magnitude = whole ++ fraction ∧ fraction.length = d.Scale.toNat := by
    refine ⟨_, _, (List.take_append_drop ((numeral d.magnitude).length - d.Scale.toNat) _).symm, ?_⟩
    rw [List.length_drop]
    omega
  have hdigits : ∀ c ∈ whole ++ fraction, isDigit c = true := fun c hc ↦
    Text.isDigit_of_mem_numeral (hnumeral ▸ hc)
  have hne : whole ++ fraction ≠ [] := hnumeral ▸ Text.numeral_ne_nil _
  have hfront : signed d = ((if d.negative then [code '-'] else []) ++ whole) ++ fraction := by
    rw [signed, hnumeral, List.append_assoc]
  have hpoint : code '.' ∉ (if d.negative then [code '-'] else []) ++ whole := fun hmem ↦
    point_notMem_signed d (hfront ▸ List.mem_append_left _ hmem)
  have hplace : (((if d.negative then [code '-'] else []) ++ whole) ++ code '.' :: fraction).idxOf
      (code '.') = ((if d.negative then [code '-'] else []) ++ whole).length :=
    idxOf_point hpoint
  generalize hf : (if d.negative then [code '-'] else []) ++ whole = front at *
  have hin : (front ++ code '.' :: fraction).idxOf (code '.') ≠
      (front ++ code '.' :: fraction).length := by
    rw [hplace, List.length_append, List.length_cons]
    omega
  have hcut : (signed d).length - d.Scale.toNat = front.length := by
    rw [hfront, List.length_append, hlength, Nat.add_sub_cancel]
  refine ⟨front ++ code '.' :: fraction, ?_, ?_, fun e ↦ ⟨_, setString_eq d e (if_neg hin) ?_, rfl,
    rfl, ?_, sign_eq d hsign⟩⟩
  · rw [string_eq, if_pos hscale, if_neg, hcut, hfront, List.take_left, List.drop_left]
    rw [hfront, List.length_append]
    omega
  · have hminus : (whole ++ code '.' :: fraction).head? ≠ some (code '-') := by
      cases whole with
      | nil => exact fun h ↦ absurd (Option.some.inj h) (by decide)
      | cons c whole =>
        intro h
        exact absurd (hdigits c List.mem_cons_self)
          (by rw [show c = code '-' from Option.some.inj h]; decide)
    rw [← hf, List.append_assoc, literal?_signed _ hminus (by simp),
      Text.unsignedLiteral?_point (fun c hc ↦ hdigits c (List.mem_append_left _ hc))
        (fun c hc ↦ hdigits c (List.mem_append_right _ hc)) hne, value_eq, ← hnumeral,
      Text.value_numeral, hlength]
    rfl
  · rw [if_neg hin, hplace, List.take_left, List.drop_append, hfront]
    simp
  · show BitVec.ofNat 8 _ = _
    rw [hplace, List.length_append, List.length_cons]
    refine BitVec.eq_of_toNat_eq ?_
    rw [BitVec.toNat_ofNat]
    have hlt := d.Scale.isLt
    omega

/-- **Which decimals come back.** Those whose magnitude has at least `Scale` digits. -/
theorem comesBack_iff (hsign : d.Sign = 0 ∨ d.Sign = 0x80) :
    d.ComesBack ↔ d.Scale.toNat ≤ (numeral d.magnitude).length := by
  constructor
  · rintro ⟨s, hs, hliteral, -⟩
    by_contra hshort
    have hpos : 0 < d.Scale := by
      show (0 : BitVec 8).toNat < d.Scale.toNat
      exact Nat.zero_lt_of_lt (Nat.lt_of_not_le hshort)
    rw [string_eq, if_pos hpos] at hs
    split_ifs at hs with hpanic
    obtain rfl := Option.some.inj hs
    -- only the minus is left for the place before the point
    cases hneg : d.negative with
    | false =>
      rw [signed, hneg, if_neg Bool.false_ne_true, List.nil_append] at hpanic
      exact hpanic (Nat.lt_of_not_le hshort)
    | true =>
      have hsigned : signed d = code '-' :: numeral d.magnitude := by
        rw [signed, hneg, if_pos rfl, List.singleton_append]
      rw [hsigned, List.length_cons] at hpanic
      have hcut : (signed d).length - d.Scale.toNat = 0 := by
        rw [hsigned, List.length_cons]
        omega
      rw [hcut, hsigned, List.take_zero, List.drop_zero, List.nil_append,
        Text.literal?_point_minus] at hliteral
      exact nomatch hliteral
  · intro h
    by_cases hscale : d.Scale = 0
    · exact comesBack_of_scale_zero d hsign hscale
    · exact comesBack_of_le d hsign ((BitVec.pos_iff_ne_zero _).2 hscale) h

end

/-- -1.25 comes back. -/
theorem minus_one_and_a_quarter_comesBack : DECIMAL.ComesBack ⟨0, 2, 0x80, 0, 125⟩ :=
  (comesBack_iff _ (.inr rfl)).2 (by
    have hdigits : numeral 125 = "125".toList.map code := by
      simp [numeral, Json.decimal]
      decide
    show 2 ≤ (numeral 125).length
    rw [hdigits]
    decide)

/-- **0.05 makes `String` panic**, and -0.05 is printed as `.-5`. -/
theorem five_hundredths_not_comesBack :
    DECIMAL.String ⟨0, 2, 0, 0, 5⟩ = none ∧
      DECIMAL.String ⟨0, 2, 0x80, 0, 5⟩ = some (".-5".toList.map code) ∧
      ¬ ∀ d : DECIMAL, d.Scale ≤ 28 → d.Sign = 0 ∨ d.Sign = 0x80 → d.ComesBack := by
  have hdigits : numeral 5 = [code '5'] := by
    simp [numeral, Json.decimal]
    decide
  have hplus : signed ⟨0, 2, 0, 0, 5⟩ = [code '5'] := by
    rw [signed, show DECIMAL.negative ⟨0, 2, 0, 0, 5⟩ = false by decide,
      show DECIMAL.magnitude ⟨0, 2, 0, 0, 5⟩ = 5 by decide, hdigits]
    rfl
  have hminus : signed ⟨0, 2, 0x80, 0, 5⟩ = [code '-', code '5'] := by
    rw [signed, show DECIMAL.negative ⟨0, 2, 0x80, 0, 5⟩ = true by decide,
      show DECIMAL.magnitude ⟨0, 2, 0x80, 0, 5⟩ = 5 by decide, hdigits]
    rfl
  have hpanic : DECIMAL.String ⟨0, 2, 0, 0, 5⟩ = none := by
    rw [string_eq, hplus]
    rfl
  refine ⟨hpanic, ?_, fun hall ↦ ?_⟩
  · rw [string_eq, hminus]
    rfl
  · obtain ⟨s, hs, -⟩ := hall ⟨0, 2, 0, 0, 5⟩ (by decide) (by decide)
    exact absurd (hpanic.symm.trans hs) (Option.some_ne_none _).symm

end Go

end SocketPro
