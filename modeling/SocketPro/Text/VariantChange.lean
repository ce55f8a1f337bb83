import SocketPro.Text.Decimals

/-!
# Integer variants as texts and decimals

`VariantChangeType` of `membuffer.cpp` for platforms other than Windows, with the types that are no
floating-point numbers. An integer is cast to another type; it is printed by `swprintf` and read back
by `swscanf`, always through 64 bits; and it becomes a `DECIMAL`, a signed one through a text.

Two members of the family do something else. The texts of `VT_I8` go through `char` in both
directions, so only a number of one signed byte comes back. And a signed number goes to `DECIMAL` by
`ParseDec`, which reads nothing behind a minus (`integer_converts_iff`).
-/

namespace SocketPro.Text

open SocketPro.Json (code isDigit)

/-! ### Types -/

/-- The integer types among the `VARTYPE`s. -/
inductive IntegerType
  | I1
  | I2
  | I4
  | INT
  | I8
  | UI1
  | UI2
  | UI4
  | UINT
  | UI8
deriving DecidableEq, Repr

namespace IntegerType

def width : IntegerType → ℕ
  | I1 | UI1 => 8
  | I2 | UI2 => 16
  | I4 | INT | UI4 | UINT => 32
  | I8 | UI8 => 64

def signed : IntegerType → Bool
  | I1 | I2 | I4 | INT | I8 => true
  | _ => false

variable (t : IntegerType)

/-- A cast to the type. -/
def wrap (x : ℤ) : ℤ := if t.signed then x.bmod (2 ^ t.width) else x % 2 ^ t.width

def InRange (x : ℤ) : Prop :=
  if t.signed then -2 ^ (t.width - 1) ≤ x ∧ x < 2 ^ (t.width - 1) else 0 ≤ x ∧ x < 2 ^ t.width

instance (x : ℤ) : Decidable (t.InRange x) := by
  unfold InRange
  infer_instance

variable {t} {x : ℤ}

theorem width_pos : 0 < t.width := by cases t <;> decide

theorem wrap_of_inRange (h : t.InRange x) : t.wrap x = x := by
  unfold InRange at h
  unfold wrap
  split_ifs at h ⊢
  · exact bmod_eq_self width_pos h.1 h.2
  · exact Int.emod_eq_of_lt h.1 h.2

theorem inRange_wrap (x : ℤ) : t.InRange (t.wrap x) := by
  have hpos : (0 : ℤ) < 2 ^ t.width := by positivity
  have hhalf : (2 : ℤ) ^ t.width = 2 * 2 ^ (t.width - 1) := by
    rw [← pow_succ', Nat.sub_add_cancel width_pos]
  unfold InRange wrap
  split_ifs
  · have hlow := Int.le_bmod (x := x) (show 0 < 2 ^ t.width by positivity)
    have hhigh := Int.bmod_lt (x := x) (show 0 < 2 ^ t.width by positivity)
    push_cast at hlow hhigh
    rw [hhalf] at hlow hhigh
    omega
  · exact ⟨Int.emod_nonneg _ hpos.ne', Int.emod_lt_of_pos _ hpos⟩

theorem wrap_eq_self_iff : t.wrap x = x ↔ t.InRange x :=
  ⟨fun h ↦ h ▸ inRange_wrap x, wrap_of_inRange⟩

/-- A cast keeps the remainder. -/
theorem wrap_modEq (x : ℤ) : t.wrap x ≡ x [ZMOD 2 ^ t.width] := by
  unfold wrap
  split_ifs
  · exact_mod_cast Int.bmod_emod (x := x) (m := 2 ^ t.width)
  · exact Int.mod_modEq _ _

/-- A cast takes no more than the remainder. -/
theorem wrap_congr {y : ℤ} (h : x ≡ y [ZMOD 2 ^ t.width]) : t.wrap x = t.wrap y := by
  unfold wrap
  split_ifs
  · have hmod : x % (2 ^ t.width : ℕ) = y % (2 ^ t.width : ℕ) := by exact_mod_cast h
    rw [← Int.emod_bmod x, hmod, Int.emod_bmod]
  · exact h

end IntegerType

/-- A number of the type. -/
abbrev IntegerType.Value (t : IntegerType) : Type := {x : ℤ // t.InRange x}

/-- A cast. -/
def IntegerType.cast (t : IntegerType) (x : ℤ) : t.Value := ⟨t.wrap x, IntegerType.inRange_wrap x⟩

/-- The types of variants. -/
inductive VARTYPE
  | EMPTY
  | NULL
  | integer (t : IntegerType)
  | BOOL
  | BSTR
  | DECIMAL
  /-- `VT_CLSID`, `VT_SAFEARRAY`, `VT_PTR`, `VT_HRESULT`, `VT_RESERVED` or `VT_VOID` -/
  | bad
  /-- Any other type. -/
  | other
deriving DecidableEq, Repr

/-- `VARIANT`, with the member of the union that the type stands for. -/
inductive VARIANT
  | empty
  | null
  | integer (t : IntegerType) (x : t.Value)
  | bool (boolVal : IntegerType.I2.Value)
  | bstr (bstrVal : List ℕ)
  | decimal (decVal : DECIMAL)
  | other

inductive HRESULT
  | E_INVALIDARG
  | E_UNEXPECTED
  | DISP_E_TYPEMISMATCH
  | DISP_E_BADVARTYPE
deriving DecidableEq, Repr

/-- What the code leaves to the platform. -/
structure Platform where
  /-- What `"%ld"` prints for an argument of the type `char`, which is passed as an `int`. -/
  longArgument : IntegerType.I1.Value → IntegerType.I8.Value
  longArgument_modEq : ∀ c, (longArgument c).1 ≡ c.1 [ZMOD 2 ^ 32]
  /-- The integer that a `double` is cast to. -/
  ofDouble : DECIMAL → ℤ
  /-- A local variable before its first assignment. -/
  uninitialized : ℤ
  /-- Whether `"%lf"` reads a number that is not zero, if it reads one. -/
  scanDouble : List ℕ → Option Bool

/-! ### Texts -/

/-- `iswspace` -/
def isSpace (c : ℕ) : Bool := c = 32 || 9 ≤ c && c ≤ 13

/-- What `swscanf` returns for one conversion. -/
inductive Scanned
  | eof
  | mismatch
  | matched (data : ℤ)
deriving DecidableEq, Repr

/-- The number nearest to one, of 64 bits with a sign. -/
def clamp (x : ℤ) : ℤ := max (-2 ^ 63) (min x (2 ^ 63 - 1))

/-- `"%lld"` or `"%llu"`: of the latter, a number with a minus is taken modulo `2 ^ 64`. -/
def swscanf (signed : Bool) (text : List ℕ) : Scanned :=
  match text.dropWhile isSpace with
  | [] => .eof
  | c :: s =>
    let negative : Bool := c = code '-'
    let digits := (if negative ∨ c = code '+' then s else c :: s).takeWhile isDigit
    let n : ℤ := value digits
    if digits = [] then .mismatch
    else if signed then .matched (clamp (if negative then -n else n))
    else if 2 ^ 64 ≤ n then .matched (2 ^ 64 - 1)
    else .matched ((if negative then -n else n) % 2 ^ 64)

/-! ### Conversions -/

variable (P : Platform)

/-- Whether the text of a type is read by `"%lld"`. -/
def IntegerType.readsSigned : IntegerType → Bool
  | .UI1 | .UI2 | .UI8 => false
  | _ => true

/-- The data of 64 bits that were read, as a number of the type. -/
def IntegerType.ofData (data : ℤ) : (t : IntegerType) → t.Value
  | .I8 => IntegerType.cast .I8 (IntegerType.wrap .I1 data)
  | .UI1 => IntegerType.cast .UI1 (IntegerType.wrap .I1 data)
  | t => t.cast data

/-- What is returned for a text that is no number. -/
def IntegerType.mismatch : IntegerType → HRESULT
  | .UI1 | .UI2 => .E_UNEXPECTED
  | _ => .DISP_E_TYPEMISMATCH

/-- The cases of an integer type. -/
def toInteger (t : IntegerType) : VARIANT → Except HRESULT t.Value
  | .integer _ x => .ok (t.cast x.1)
  | .bool boolVal => .ok (t.cast boolVal.1)
  | .decimal decVal => .ok (t.cast (P.ofDouble decVal))
  | .bstr bstrVal =>
    match swscanf t.readsSigned bstrVal with
    | .matched data => .ok (t.ofData data)
    | .eof => .ok (t.ofData P.uninitialized)
    | .mismatch => .error t.mismatch
  | _ => .error .DISP_E_TYPEMISMATCH

/-- The case of `VT_BSTR`. -/
def toBSTR : VARIANT → Except HRESULT (List ℕ)
  | .bstr bstrVal => .ok bstrVal
  | .decimal decVal => .ok (toStringDecimal decVal)
  -- `cVal` is printed, the first byte of the number
  | .integer .I8 x => .ok (canonical (P.longArgument (IntegerType.cast .I1 x.1)).1)
  | .integer _ x => .ok (canonical x.1)
  | .bool boolVal => .ok (canonical boolVal.1)
  | _ => .error .DISP_E_TYPEMISMATCH

/-- The case of `VT_DECIMAL`. -/
def toDECIMAL : VARIANT → DECIMAL
  | .decimal decVal => decVal
  | .bool boolVal => if boolVal.1 ≠ 0 then ⟨0, 0, 0x80, 0, 1⟩ else ⟨0, 0, 0, 0, 0⟩
  | .integer t x =>
    if t.signed then parseDec (canonical x.1) else ⟨0, 0, 0, 0, UInt64.ofNat x.1.toNat⟩
  | .bstr bstrVal => parseDec bstrVal
  | _ => ⟨0, 0, 0, 0, 0⟩

/-- `VARIANT_TRUE` or `VARIANT_FALSE`. -/
def variantBool (b : Bool) : IntegerType.I2.Value := IntegerType.cast .I2 (if b then -1 else 0)

/-- The cases of `VT_BOOL`. -/
def toBOOL : VARIANT → Except HRESULT IntegerType.I2.Value
  | .bool boolVal => .ok boolVal
  | .integer _ x => .ok (variantBool (x.1 ≠ 0))
  | .decimal decVal => .ok (variantBool (decVal.lo64 ≠ 0 || decVal.hi32 ≠ 0))
  | .bstr bstrVal =>
    match P.scanDouble bstrVal with
    | some b => .ok (variantBool b)
    | none => .error .DISP_E_TYPEMISMATCH
  | _ => .error .DISP_E_TYPEMISMATCH

/-- `VariantChangeType` to another variant. -/
def VariantChangeType (pvarSrc : VARIANT) (vt : VARTYPE) : Except HRESULT VARIANT :=
  match vt with
  | .integer t => (toInteger P t pvarSrc).map (.integer t)
  | .BSTR => (toBSTR P pvarSrc).map .bstr
  | .BOOL => (toBOOL P pvarSrc).map .bool
  | .DECIMAL => .ok (.decimal (toDECIMAL pvarSrc))
  -- an empty or null source keeps its type
  | .EMPTY => .ok (match pvarSrc with | .null => .null | _ => .empty)
  | .NULL => .ok (match pvarSrc with | .empty => .empty | _ => .null)
  | .bad => .error .DISP_E_BADVARTYPE
  | .other => .error .DISP_E_TYPEMISMATCH

/-! ### Reading a canonical form -/

section Reading

variable {x : ℤ}

theorem numeral_cons (n : ℕ) : ∃ c ds, numeral n = c :: ds ∧ isDigit c = true := by
  obtain ⟨c, ds, h⟩ := List.exists_cons_of_ne_nil (numeral_ne_nil n)
  exact ⟨c, ds, h, isDigit_of_mem_numeral (h ▸ List.mem_cons_self)⟩

theorem takeWhile_numeral (n : ℕ) : (numeral n).takeWhile isDigit = numeral n :=
  List.takeWhile_eq_self_iff.2 fun _ ↦ isDigit_of_mem_numeral

/-- What is read of a canonical form, before it is made to fit. -/
theorem swscanf_canonical (signed : Bool) (x : ℤ) : swscanf signed (canonical x) =
    if signed then .matched (clamp x)
    else if 2 ^ 64 ≤ (x.natAbs : ℤ) then .matched (2 ^ 64 - 1) else .matched (x % 2 ^ 64) := by
  by_cases hneg : x < 0
  · have htext : canonical x = code '-' :: numeral x.natAbs := by rw [canonical, if_pos hneg]; rfl
    have hdrop : (code '-' :: numeral x.natAbs).dropWhile isSpace =
        code '-' :: numeral x.natAbs := List.dropWhile_cons_of_neg (by decide)
    have habs : -(x.natAbs : ℤ) = x := by omega
    rw [htext, swscanf, hdrop]
    simp only [decide_true, true_or, if_true, takeWhile_numeral, if_neg (numeral_ne_nil _),
      value_numeral, habs]
  · obtain ⟨c, ds, hnumeral, hc⟩ := numeral_cons x.natAbs
    have htext : canonical x = c :: ds := by
      rw [canonical, if_neg hneg, List.nil_append, hnumeral]
    have hspace : isSpace c = false := by
      simp only [isDigit, Bool.and_eq_true, decide_eq_true_eq] at hc
      have hrange : 48 ≤ c := hc.1
      simp only [isSpace, Bool.or_eq_false_iff, Bool.and_eq_false_iff, decide_eq_false_iff_not]
      omega
    have hminus : c ≠ code '-' := fun h ↦ absurd (h ▸ hc) (by decide)
    have hplus : c ≠ code '+' := fun h ↦ absurd (h ▸ hc) (by decide)
    have hdrop : (c :: ds).dropWhile isSpace = c :: ds :=
      List.dropWhile_cons_of_neg (by simp [hspace])
    have habs : (x.natAbs : ℤ) = x := by omega
    have htake : (c :: ds).takeWhile isDigit = c :: ds := by
      rw [← hnumeral, takeWhile_numeral]
    have hvalue : value (c :: ds) = x.natAbs := by rw [← hnumeral, value_numeral]
    rw [htext, swscanf, hdrop]
    simp only [hminus, hplus, decide_false, Bool.false_eq_true, or_self, if_false, htake,
      if_neg (List.cons_ne_nil c ds), hvalue, habs]

theorem clamp_eq_self (hmin : -2 ^ 63 ≤ x) (hmax : x < 2 ^ 63) : clamp x = x := by
  unfold clamp
  omega

/-- **A number of the type is read as itself.** -/
theorem swscanf_of_inRange {t : IntegerType} (h : t.InRange x) :
    swscanf t.readsSigned (canonical x) = .matched x := by
  have hbounds : if t.readsSigned then -2 ^ 63 ≤ x ∧ x < 2 ^ 63 else 0 ≤ x ∧ x < 2 ^ 64 := by
    cases t <;> simp [IntegerType.InRange, IntegerType.readsSigned, IntegerType.signed,
      IntegerType.width] at h ⊢ <;> omega
  rw [swscanf_canonical]
  split_ifs at hbounds ⊢ with hsigned hlarge
  · rw [clamp_eq_self hbounds.1 hbounds.2]
  · omega
  · rw [Int.emod_eq_of_lt hbounds.1 hbounds.2]

end Reading

/-! ### What comes back -/

/-- The number that a decimal stands for. -/
def DECIMAL.value (d : DECIMAL) : ℚ :=
  (if d.sign ≠ 0 then -1 else 1) * ((d.hi32.toNat * 2 ^ 64 + d.lo64.toNat : ℕ) : ℚ) /
    10 ^ d.scale.toNat

variable (t : IntegerType) (x : t.Value)

/-- The text of an integer is the integer. -/
def TextComesBack : Prop := ∃ text, VariantChangeType P (.integer t x) .BSTR = .ok (.bstr text) ∧
  VariantChangeType P (.bstr text) (.integer t) = .ok (.integer t x)

/-- The decimal of an integer has its value. -/
def DecimalKept : Prop := ∃ d, VariantChangeType P (.integer t x) .DECIMAL = .ok (.decimal d) ∧
  d.value = x.1

variable {P t x}

/-- What becomes of a text that is a number of the type. -/
theorem toInteger_canonical {y : ℤ} (hy : t.InRange y) :
    VariantChangeType P (.bstr (canonical y)) (.integer t) = .ok (.integer t (t.ofData y)) := by
  rw [VariantChangeType, toInteger, swscanf_of_inRange hy]
  rfl

/-- Data in range are the number, but for one type. -/
theorem ofData_eq_self (ht : t ≠ .I8) : t.ofData x.1 = x := by
  have hcast : t.cast x.1 = x := Subtype.ext (IntegerType.wrap_of_inRange x.2)
  cases t with
  | I8 => exact absurd rfl ht
  | UI1 =>
    refine Subtype.ext ?_
    have hbyte : IntegerType.wrap .UI1 (IntegerType.wrap .I1 x.1) = IntegerType.wrap .UI1 x.1 :=
      IntegerType.wrap_congr (t := .UI1) (IntegerType.wrap_modEq (t := .I1) x.1)
    exact hbyte.trans (IntegerType.wrap_of_inRange x.2)
  | _ => exact hcast

/-- Of the data of `VT_I8` one byte is left. -/
theorem ofData_I8 {y c : ℤ} (hy : y ≡ c [ZMOD 2 ^ 32]) :
    (IntegerType.ofData y .I8).1 = IntegerType.wrap .I1 c := by
  have hbyte : y ≡ c [ZMOD 2 ^ 8] := hy.of_dvd (by decide)
  have hrange : IntegerType.InRange .I8 (IntegerType.wrap .I1 c) := by
    have h := IntegerType.inRange_wrap (t := .I1) c
    simp only [IntegerType.InRange, IntegerType.signed, IntegerType.width, if_true] at h ⊢
    omega
  show IntegerType.wrap .I8 (IntegerType.wrap .I1 y) = _
  rw [IntegerType.wrap_congr (t := .I1) hbyte, IntegerType.wrap_of_inRange hrange]

theorem textComesBack_iff : TextComesBack P t x ↔ (t = .I8 → -128 ≤ x.1 ∧ x.1 ≤ 127) := by
  by_cases ht : t = .I8
  · subst ht
    have htext : VariantChangeType P (.integer .I8 x) .BSTR =
        .ok (.bstr (canonical (P.longArgument (IntegerType.cast .I1 x.1)).1)) := rfl
    have hback := toInteger_canonical (P := P) (P.longArgument (IntegerType.cast .I1 x.1)).2
    have hbyte := ofData_I8 (P.longArgument_modEq (IntegerType.cast .I1 x.1))
    rw [TextComesBack, htext]
    simp only [Except.ok.injEq, VARIANT.bstr.injEq, exists_eq_left', hback, VARIANT.integer.injEq,
      heq_eq_eq, true_and, forall_const, Subtype.ext_iff, hbyte]
    show IntegerType.wrap .I1 (IntegerType.wrap .I1 x.1) = x.1 ↔ _
    rw [IntegerType.wrap_of_inRange (IntegerType.inRange_wrap x.1), IntegerType.wrap_eq_self_iff]
    simp only [IntegerType.InRange, IntegerType.signed, IntegerType.width, if_true]
    omega
  · refine iff_of_true ⟨canonical x.1, ?_, ?_⟩ fun h ↦ absurd h ht
    · cases t <;> first | rfl | exact absurd rfl ht
    · rw [toInteger_canonical x.2, ofData_eq_self ht]

theorem value_lo64 {n : ℕ} (hn : n < 2 ^ 64) :
    DECIMAL.value ⟨0, 0, 0, 0, UInt64.ofNat n⟩ = n := by
  have hword : (UInt64.ofNat n).toNat = n := UInt64.toNat_ofNat_of_lt hn
  simp [DECIMAL.value, hword]

theorem natAbs_lt (x : t.Value) : x.1.natAbs < 2 ^ 64 := by
  obtain ⟨x, hx⟩ := x
  cases t <;> simp [IntegerType.InRange, IntegerType.signed, IntegerType.width] at hx ⊢ <;> omega

theorem decimalKept_iff : DecimalKept P t x ↔ 0 ≤ x.1 := by
  have hconvert : VariantChangeType P (.integer t x) .DECIMAL =
      .ok (.decimal (toDECIMAL (.integer t x))) := rfl
  rw [DecimalKept, hconvert]
  simp only [Except.ok.injEq, VARIANT.decimal.injEq, exists_eq_left', toDECIMAL]
  split_ifs with hsigned
  · by_cases hneg : x.1 < 0
    · have htext : canonical x.1 = code '-' :: numeral x.1.natAbs := by
        rw [canonical, if_pos hneg]
        rfl
      have hzero : DECIMAL.value ⟨0, 0, 0x80, 0, 0⟩ = 0 := by simp [DECIMAL.value]
      rw [htext, parseDec_minus, hzero, ← Int.cast_zero, Int.cast_inj]
      omega
    · have htext : canonical x.1 = numeral x.1.natAbs := by
        rw [canonical, if_neg hneg, List.nil_append]
      have hcast : ((x.1.natAbs : ℕ) : ℚ) = x.1 := by
        rw [← Int.cast_natCast, Int.natAbs_of_nonneg (by omega)]
      rw [htext, parseDec_digits fun _ ↦ isDigit_of_mem_numeral, value_numeral,
        value_lo64 (natAbs_lt x), hcast]
      exact iff_of_true rfl (Int.not_lt.1 hneg)
  · have hrange := x.2
    rw [IntegerType.InRange, if_neg hsigned] at hrange
    have hcast : ((x.1.toNat : ℕ) : ℚ) = x.1 := by
      rw [← Int.cast_natCast, Int.toNat_of_nonneg hrange.1]
    have hlt := natAbs_lt x
    rw [value_lo64 (by omega), hcast]
    exact iff_of_true rfl hrange.1

/-- **Which integers are converted.** The texts of 64 bits with a sign hold one byte, and a decimal
has no negative numbers; everything else comes back and keeps its value. -/
theorem integer_converts_iff (P : Platform) (t : IntegerType) (x : t.Value) :
    (TextComesBack P t x ↔ (t = .I8 → -128 ≤ x.1 ∧ x.1 ≤ 127)) ∧
      (DecimalKept P t x ↔ 0 ≤ x.1) :=
  ⟨textComesBack_iff, decimalKept_iff⟩

/-- A platform where the upper half of the register is zero, and where nothing else matters. -/
def zeroExtended : Platform where
  longArgument c := ⟨c.1 % 2 ^ 32, by
    simp only [IntegerType.InRange, IntegerType.signed, IntegerType.width, if_true]
    omega⟩
  longArgument_modEq c := Int.mod_modEq _ _
  ofDouble _ := 0
  uninitialized := 0
  scanDouble _ := none

/-- **The number 1000 of `VT_I8`** is printed by its first byte, which is -24, and the number -1
becomes the decimal 0. -/
theorem thousand_not_printed :
    (toBSTR zeroExtended (.integer .I8 ⟨1000, by decide⟩) = .ok ("4294967272".toList.map code)) ∧
      (toDECIMAL (.integer .I4 ⟨-1, by decide⟩)).value = 0 ∧
      ¬ ∀ (P : Platform) (t : IntegerType) (x : t.Value), TextComesBack P t x ∧ DecimalKept P t x := by
  refine ⟨by decide +kernel, ?_, fun hall ↦ ?_⟩
  · have hdecimal : toDECIMAL (.integer .I4 ⟨-1, by decide⟩) = ⟨0, 0, 0x80, 0, 0⟩ := by decide +kernel
    rw [hdecimal]
    simp [DECIMAL.value]
  · have hback := textComesBack_iff.1 (hall zeroExtended .I8 ⟨1000, by decide⟩).1 rfl
    exact absurd hback.2 (by decide)

end SocketPro.Text
