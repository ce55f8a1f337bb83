import SocketPro.Cache.OrderKeys
import SocketPro.Database.DBVariant

/-!
# When two database values are equal

`CDBVariant::operator==` (`udatabase.h`). It asks for the type of its left operand and then for that
of the right one, text first: texts are compared without their case, binaries byte by byte, decimals
by their three members, and everything else through a number of 64 bits. What the `switch` has no
case for is equal to nothing.

**Two slips.** Floats, doubles and currencies have no case, so such a value is not equal to itself.
And a `BSTR` on the left of an ASCII array is compared with what an earlier user left in the buffer
`sb`: the text converted for the comparison is dropped.

**Elsewhere it is an equivalence** (`equalityOn_iff`): there two values are equal if their keys are
the same.
-/

namespace SocketPro.Database

open Bytes Buffer TableCache CDBVariant

/-- What the comparison takes from the platform: lower case of a unit and of a byte, which leave the
terminating NUL alone among all characters, and the conversion of UTF-16 into UTF-8. -/
structure TextRules where
  tolower : UInt16 → UInt16
  tolowerByte : UInt8 → UInt8
  toUTF8 : List UInt16 → List UInt8
  tolower_zero : ∀ c, tolower c = tolower 0 → c = 0
  tolowerByte_zero : ∀ c, tolowerByte c = tolowerByte 0 → c = 0

variable (P : TextRules)

/-! ### The comparison -/

/-- `strncasecmp`. -/
def strncasecmp : ℕ → List UInt8 → List UInt8 → ℤ
  | 0, _, _ => 0
  | n + 1, s₀, s =>
    let res : ℤ := (P.tolowerByte (s₀.headD 0)).toNat - (P.tolowerByte (s.headD 0)).toNat
    if res ≠ 0 ∨ s₀.headD 0 = 0 then res else strncasecmp n s₀.tail s.tail

/-- `Utilities::ToUTF8(bstrVal, GetLen(bstrVal), *sb)`. -/
def toUTF8BSTR : Option (List UInt16) → List UInt8
  | none => []
  | some s => if s.headD 0 = 0 then [] else P.toUTF8 (s.takeWhile (· ≠ 0))

/-- `Lo64`, `Hi32` and `signscale`. -/
def decimalMembers (raw : List UInt8) : ℕ × ℕ × ℕ :=
  (ofLE ((raw.drop 8).take 8), ofLE ((raw.drop 4).take 4), ofLE ((raw.drop 2).take 2))

/-- The `switch` that sets `d` and `d0`, modulo 2^64. -/
def number? : VARIANT → Option ℤ
  | .scalar .BOOL raw => some (if ofLE raw ≠ 0 then 1 else 0)
  | .scalar .I1 raw | .scalar .I2 raw | .scalar .I4 raw | .scalar .INT raw | .scalar .I8 raw =>
    some (signed raw % 2 ^ 64)
  | .scalar .UI1 raw | .scalar .UI2 raw | .scalar .UI4 raw | .scalar .UINT raw
  | .scalar .DATE raw | .scalar .UI8 raw => some (ofLE raw)
  | _ => none

/-- `return (d == d0)`, or false where one of the two has no case. -/
def equalNumbers : Option ℤ → Option ℤ → Bool
  | some d, some d₀ => d = d₀
  | _, _ => false

/-- The branch for a `BSTR`; `scratch` is what stands in the buffer of `sb`. -/
def equalBSTR (scratch : List UInt16) (s : Option (List UInt16)) : VARIANT → Bool
  | .bstr t => ucompareBSTR P.tolower s t = 0
  | .scalarArray .I1 _ _ => ucompareBSTR P.tolower (some scratch) s = 0
  | _ => false

/-- The branch for an array of `VT_I1`. -/
def equalASCII (n : ℕ) (s : List UInt8) : VARIANT → Bool
  | .scalarArray .I1 m s₀ => n = m ∧ strncasecmp P n s₀ s = 0
  | .bstr t => (toUTF8BSTR P t).length = n ∧ strncasecmp P n (toUTF8BSTR P t) s = 0
  | _ => false

/-- `vt == VT_NULL || vt == VT_EMPTY`. -/
def isNull (x : VARIANT) : Bool := x.vt = VT_NULL ∨ x.vt = VT_EMPTY

/-- `operator==`. -/
def equal (scratch : List UInt16) (x data : VARIANT) : Bool :=
  if isNull x ∧ isNull data then true
  else match x, data with
    | .bstr s, _ => equalBSTR P scratch s data
    | .scalarArray .I1 n s, _ => equalASCII P n s data
    | .scalarArray .UI1 n s, .scalarArray .UI1 m s₀ => n = m ∧ memcmp (s.take n) (s₀.take n) = 0
    | .scalar .DECIMAL a, .scalar .DECIMAL b => decimalMembers a = decimalMembers b
    | _, _ => equalNumbers (number? x) (number? data)

/-! ### What is compared -/

/-- What two equal values have in common. -/
inductive Key
  | null
  | text (key : List ℤ)
  | ascii (cElements : ℕ) (folded : List UInt8)
  | binary (cElements : ℕ) (data : List UInt8)
  | decimal (members : ℕ × ℕ × ℕ)
  | number (d : Option ℤ)

/-- The bytes up to the end of a C string, in lower case. -/
def foldBytes (s : List UInt8) : List UInt8 := (s.takeWhile (· ≠ 0)).map P.tolowerByte

/-- The key of a value. -/
def key : VARIANT → Key
  | .empty | .null => .null
  | .bstr s => .text (bstrKey P.tolower s)
  | .scalarArray .I1 n s => .ascii n (foldBytes P (s.take n))
  | .scalarArray .UI1 n s => .binary n (s.take n)
  | .scalar .DECIMAL raw => .decimal (decimalMembers raw)
  | x => .number (number? x)

/-- The types that the `switch` has no case for. -/
def hasNoCase : VARIANT → Bool
  | .scalar .R4 _ | .scalar .R8 _ | .scalar .CY _ => true
  | _ => false

/-- A `BSTR` and an ASCII array, unless the one is a null pointer and the other not empty. -/
def clashes : VARIANT → VARIANT → Bool
  | .bstr s, .scalarArray .I1 n _ => s.isSome ∨ n = 0
  | _, _ => false

variable {P}

theorem ucompareBSTR_eq_zero_iff (s t : Option (List UInt16)) :
    ucompareBSTR P.tolower s t = 0 ↔ bstrKey P.tolower s = bstrKey P.tolower t := by
  have hlt := ucompareBSTR_neg_iff P.tolower_zero s t
  have hgt := ucompareBSTR_pos_iff P.tolower_zero s t
  constructor
  · intro hzero
    exact le_antisymm (not_lt.1 (mt hgt.2 (by omega))) (not_lt.1 (mt hlt.2 (by omega)))
  · intro hkey
    have hnlt := mt hlt.1 hkey.not_lt
    have hngt := mt hgt.1 hkey.not_gt
    omega

theorem foldBytes_take (n : ℕ) (s : List UInt8) :
    foldBytes P (s.take (n + 1)) =
      if s.headD 0 = 0 then [] else P.tolowerByte (s.headD 0) :: foldBytes P (s.tail.take n) := by
  cases s with
  | nil => rfl
  | cons c s =>
    rw [List.take_succ_cons, List.headD_cons, List.tail_cons, foldBytes, foldBytes,
      List.takeWhile_cons]
    by_cases hc : c = 0 <;> simp [hc]

theorem tolowerByte_sub_eq_zero (c d : UInt8) :
    ((P.tolowerByte c).toNat : ℤ) - (P.tolowerByte d).toNat = 0 ↔
      P.tolowerByte c = P.tolowerByte d := by
  rw [Int.sub_eq_zero, Int.ofNat_inj, UInt8.toNat_inj]

/-- Two strings of `n` bytes are equal if they are up to their ends, without their case. -/
theorem strncasecmp_eq_zero_iff (n : ℕ) (s₀ s : List UInt8) :
    strncasecmp P n s₀ s = 0 ↔ foldBytes P (s₀.take n) = foldBytes P (s.take n) := by
  induction n generalizing s₀ s with
  | zero => simp [strncasecmp]
  | succ n ih =>
    rw [strncasecmp, foldBytes_take, foldBytes_take]
    have hsame := tolowerByte_sub_eq_zero (P := P) (s₀.headD 0) (s.headD 0)
    by_cases hc : s₀.headD 0 = 0
    · rw [if_pos (.inr hc), if_pos hc, hsame, hc]
      constructor
      · intro h
        rw [if_pos (P.tolowerByte_zero _ h.symm)]
      · intro h
        by_cases hd : s.headD 0 = 0
        · rw [hd]
        · rw [if_neg hd] at h
          exact nomatch h
    · rw [if_neg hc]
      by_cases hd : s.headD 0 = 0
      · have hne : ¬ P.tolowerByte (s₀.headD 0) = P.tolowerByte (s.headD 0) := fun h ↦
          hc (P.tolowerByte_zero _ (h.trans (congrArg P.tolowerByte hd)))
        rw [if_pos (.inl (mt hsame.1 hne)), if_pos hd, hsame]
        exact iff_of_false hne (List.cons_ne_nil _ _)
      · rw [if_neg hd, List.cons.injEq, ← ih, ← hsame]
        split_ifs with hstop
        · have hres := hstop.resolve_right hc
          exact iff_of_false hres fun h ↦ hres h.1
        · push Not at hstop
          exact ⟨fun h ↦ ⟨hstop.1, h⟩, And.right⟩

theorem equal_scalar (scratch : List UInt16) (t u : ScalarVT) (a b : List UInt8) :
    equal P scratch (.scalar t a) (.scalar u b) =
      if t = .DECIMAL ∧ u = .DECIMAL then decide (decimalMembers a = decimalMembers b)
      else equalNumbers (number? (.scalar t a)) (number? (.scalar u b)) := by
  cases t with
  | DECIMAL => cases u <;> rfl
  | _ => rfl

theorem key_scalar (t : ScalarVT) (a : List UInt8) :
    key P (.scalar t a) =
      if t = .DECIMAL then .decimal (decimalMembers a) else .number (number? (.scalar t a)) := by
  cases t <;> rfl

/-- What has a case and is no decimal is compared through a number. -/
theorem exists_number {t : ScalarVT} {a : List UInt8} (h : hasNoCase (.scalar t a) = false)
    (ht : t ≠ .DECIMAL) : ∃ d, number? (.scalar t a) = some d := by
  cases t with
  | R4 | R8 | CY => cases h
  | DECIMAL => exact absurd rfl ht
  | _ => exact ⟨_, rfl⟩

theorem equalNumbers_none (d : Option ℤ) : equalNumbers d none = false := by
  cases d <;> rfl

/-- A value of a column. -/
structure Stored where
  value : VARIANT
  flat : Flat value
  wellFormed : value.WellFormed

theorem length_of_wellFormed {n : ℕ} {data : List UInt8}
    (h : (VARIANT.scalarArray .UI1 n data).WellFormed) : data.length = n := by
  cases h with
  | scalarArray _ hdata => exact hdata.trans (Nat.mul_one n)

def isScalar : VARIANT → Bool
  | .scalar _ _ => true
  | _ => false

/-- A scalar is equal to scalars only. -/
theorem equal_scalar_other (scratch : List UInt16) (t : ScalarVT) (a : List UInt8) {y : VARIANT}
    (hflat : Flat y) (hy : isScalar y = false) :
    equal P scratch (.scalar t a) y = false ∧ equal P scratch y (.scalar t a) = false ∧
      key P (.scalar t a) ≠ key P y := by
  cases hflat with
  | scalar => cases hy
  | _ => cases t <;> exact ⟨rfl, rfl, nofun⟩

theorem equal_scalar_iff {t u : ScalarVT} {a b : List UInt8} (ht : hasNoCase (.scalar t a) = false)
    (hu : hasNoCase (.scalar u b) = false) (scratch : List UInt16) :
    equal P scratch (.scalar t a) (.scalar u b) = true ↔
      key P (.scalar t a) = key P (.scalar u b) := by
  have hdecimal {c : List UInt8} : number? (.scalar .DECIMAL c) = none := rfl
  rw [equal_scalar, key_scalar, key_scalar]
  by_cases htd : t = .DECIMAL <;> by_cases hud : u = .DECIMAL
  · rw [if_pos ⟨htd, hud⟩, if_pos htd, if_pos hud, decide_eq_true_eq, Key.decimal.injEq]
  · subst htd
    rw [if_neg fun h ↦ hud h.2, if_pos rfl, if_neg hud]
    exact iff_of_false Bool.false_ne_true (nofun)
  · subst hud
    rw [if_neg fun h ↦ htd h.1, if_neg htd, if_pos rfl, hdecimal, equalNumbers_none]
    exact iff_of_false Bool.false_ne_true nofun
  · obtain ⟨d, hd⟩ := exists_number ht htd
    obtain ⟨d₀, hd₀⟩ := exists_number hu hud
    rw [if_neg fun h ↦ htd h.1, if_neg htd, if_neg hud, hd, hd₀, Key.number.injEq, Option.some.injEq]
    exact decide_eq_true_iff

/-- **Equal values are those with the same key**, away from the two slips. -/
theorem equal_iff_key {x y : Stored} (hx : hasNoCase x.value = false)
    (hy : hasNoCase y.value = false) (hxy : clashes x.value y.value = false)
    (hyx : clashes y.value x.value = false) (scratch : List UInt16) :
    equal P scratch x.value y.value = true ↔ key P x.value = key P y.value := by
  obtain ⟨x, hxflat, hxwf⟩ := x
  obtain ⟨y, hyflat, hywf⟩ := y
  simp only at hx hy hxy hyx ⊢
  have hdiffer {o : Bool} {k k' : Key} (ho : o = false) (hk : k ≠ k') : o = true ↔ k = k' :=
    iff_of_false (fun h ↦ Bool.false_ne_true (ho.symm.trans h)) hk
  by_cases hscalar : isScalar y = true
  · cases hyflat with
    | @scalar u b =>
      by_cases hscalar' : isScalar x = true
      · cases hxflat with
        | @scalar t a => exact equal_scalar_iff hx hy scratch
        | _ => cases hscalar'
      · obtain ⟨-, hfalse, hkey⟩ :=
          equal_scalar_other (P := P) scratch u b hxflat (by simpa using hscalar')
        exact hdiffer hfalse hkey.symm
    | _ => cases hscalar
  · cases hxflat with
    | empty | null =>
      cases hyflat with
      | empty | null => exact iff_of_true rfl rfl
      | scalar => exact absurd rfl hscalar
      | bstr | ascii | binary => exact hdiffer rfl nofun
    | @scalar t a =>
      obtain ⟨hfalse, -, hkey⟩ :=
        equal_scalar_other (P := P) scratch t a hyflat (by simpa using hscalar)
      exact hdiffer hfalse hkey
    | @bstr s =>
      cases hyflat with
      | @bstr s' =>
        refine decide_eq_true_iff.trans ?_
        rw [ucompareBSTR_eq_zero_iff, key, key, Key.text.injEq]
      | @ascii m b =>
        -- only a null pointer meets an array here, and it is before every text
        cases s with
        | none => exact hdiffer rfl nofun
        | some s => cases hxy
      | scalar => exact absurd rfl hscalar
      | empty | null | binary => exact hdiffer rfl nofun
    | @ascii n a =>
      cases hyflat with
      | @bstr s =>
        cases s with
        | none =>
          refine hdiffer (decide_eq_false fun h ↦ ?_) nofun
          have hn : n ≠ 0 := by simpa [clashes] using hyx
          exact hn h.1.symm
        | some s => cases hyx
      | @ascii m b =>
        refine decide_eq_true_iff.trans ?_
        rw [strncasecmp_eq_zero_iff, key, key, Key.ascii.injEq]
        refine and_congr_right fun hnm ↦ ?_
        rw [hnm, eq_comm]
      | scalar => exact absurd rfl hscalar
      | empty | null | binary => exact hdiffer rfl nofun
    | @binary n a =>
      cases hyflat with
      | @binary m b =>
        have ha := length_of_wellFormed hxwf
        have hb := length_of_wellFormed hywf
        refine decide_eq_true_iff.trans ?_
        rw [key, key, Key.binary.injEq]
        refine and_congr_right fun hnm ↦ ?_
        rw [memcmp_eq_zero (by simp [ha, hb, hnm]), hnm]
      | scalar => exact absurd rfl hscalar
      | empty | null | bstr | ascii => exact hdiffer rfl nofun

/-! ### An equivalence -/

/-- A `BSTR` and an ASCII array with the same text. -/
def SameASCII (s : List UInt16) (n : ℕ) (data : List UInt8) : Prop :=
  n = s.length ∧ data = s.map UInt16.toUInt8 ∧ ∀ u ∈ s, 0 < u.toNat ∧ u.toNat < 0x80

variable (P)

/-- **`operator==` is an equivalence** on the values of `S`, whatever the buffers hold that it takes,
and a `BSTR` and an ASCII array with the same text are equal in both directions. -/
structure EqualityOn (S : Set Stored) : Prop where
  refl : ∀ x ∈ S, ∀ m, equal P m x.value x.value = true
  symm : ∀ x ∈ S, ∀ y ∈ S, ∀ m m', equal P m x.value y.value = true →
    equal P m' y.value x.value = true
  trans : ∀ x ∈ S, ∀ y ∈ S, ∀ z ∈ S, ∀ m m' m'', equal P m x.value y.value = true →
    equal P m' y.value z.value = true → equal P m'' x.value z.value = true
  text : ∀ x ∈ S, ∀ y ∈ S, ∀ s n data, x.value = .bstr (some s) →
    y.value = .scalarArray .I1 n data → SameASCII s n data →
    ∀ m, equal P m x.value y.value = true ∧ equal P m y.value x.value = true

variable {P}

/-- Where the `switch` has no case a value is not equal to itself. -/
theorem equal_self_of_hasNoCase {x : VARIANT} (hx : hasNoCase x = true) (scratch : List UInt16) :
    equal P scratch x x = false := by
  cases x with
  | scalar t raw =>
    cases t with
    | R4 | R8 | CY => rfl
    | _ => cases hx
  | _ => cases hx

/-- **What is left in the buffer decides** about a `BSTR` before an array. -/
theorem exists_scratch_false (s : Option (List UInt16)) (n : ℕ) (data : List UInt8) :
    ∃ m, equal P m (.bstr s) (.scalarArray .I1 n data) = false := by
  by_contra hall
  have hsame (m : List UInt16) : bstrKey P.tolower (some m) = bstrKey P.tolower s := by
    rw [← ucompareBSTR_eq_zero_iff]
    exact of_decide_eq_true (Bool.eq_true_of_not_eq_false fun hfalse ↦ hall ⟨m, hfalse⟩)
  have hlength := congrArg List.length ((hsame []).trans (hsame [1]).symm)
  exact absurd hlength (by simp [bstrKey, textKey])

theorem equal_scratch (s : List UInt16) (n : ℕ) (data : List UInt8) :
    equal P s (.bstr (some s)) (.scalarArray .I1 n data) = true :=
  decide_eq_true ((ucompareBSTR_eq_zero_iff _ _).2 rfl)

theorem clashes_eq_true {v w : VARIANT} (h : clashes v w = true) :
    ∃ s n data, v = .bstr s ∧ w = .scalarArray .I1 n data ∧ (s.isSome ∨ n = 0) := by
  unfold clashes at h
  split at h
  · exact ⟨_, _, _, rfl, rfl, of_decide_eq_true h⟩
  · cases h

/-- A `BSTR` beside an ASCII array breaks the symmetry. -/
theorem clashes_eq_false {S : Set Stored} (h : EqualityOn P S) {x y : Stored} (hx : x ∈ S)
    (hy : y ∈ S) : clashes x.value y.value = false := by
  by_contra hclash
  obtain ⟨s, n, data, hs, hdata, hor⟩ := clashes_eq_true (Bool.eq_true_of_not_eq_false hclash)
  have hsymm := h.symm x hx y hy
  have hsymm' := h.symm y hy x hx
  rw [hs, hdata] at hsymm hsymm'
  obtain ⟨m, hm⟩ := exists_scratch_false (P := P) s n data
  have hright : equalASCII P n data (.bstr s) = false := by
    by_contra htrue
    have hleft := hsymm' [] m (Bool.eq_true_of_not_eq_false htrue)
    exact Bool.false_ne_true (hm.symm.trans hleft)
  cases s with
  | none =>
    -- an empty array is equal to a null pointer
    rcases hor with hnone | rfl
    · cases hnone
    · exact Bool.false_ne_true (hright.symm.trans rfl)
  | some s =>
    have htrue := hsymm s [] (equal_scratch s n data)
    exact Bool.false_ne_true (hright.symm.trans htrue)

/-- **It is an equivalence on the values** without floats, doubles and currencies, and without a
`BSTR` beside an ASCII array, and on no others. -/
theorem equalityOn_iff (S : Set Stored) :
    EqualityOn P S ↔ (∀ x ∈ S, hasNoCase x.value = false) ∧
      ∀ x ∈ S, ∀ y ∈ S, clashes x.value y.value = false := by
  constructor
  · intro h
    refine ⟨fun x hx ↦ ?_, fun x hx y hy ↦ clashes_eq_false h hx hy⟩
    by_contra hcase
    have hself := equal_self_of_hasNoCase (P := P) (by simpa using hcase) []
    exact Bool.false_ne_true (hself.symm.trans (h.refl x hx []))
  · rintro ⟨hcase, hclash⟩
    have hkey {x y : Stored} (hx : x ∈ S) (hy : y ∈ S) (m : List UInt16) :
        equal P m x.value y.value = true ↔ key P x.value = key P y.value :=
      equal_iff_key (hcase x hx) (hcase y hy) (hclash x hx y hy) (hclash y hy x hx) m
    refine ⟨fun x hx m ↦ (hkey hx hx m).2 rfl, fun x hx y hy m m' h ↦ ?_,
      fun x hx y hy z hz m m' m'' h h' ↦ ?_, fun x hx y hy s n data hs hdata ↦ ?_⟩
    · exact (hkey hy hx m').2 ((hkey hx hy m).1 h).symm
    · exact (hkey hx hz m'').2 (((hkey hx hy m).1 h).trans ((hkey hy hz m').1 h'))
    · have hfalse := hclash x hx y hy
      rw [hs, hdata] at hfalse
      cases hfalse

/-! ### The two slips -/

/-- Lower case and UTF-8 of ASCII characters. -/
def asciiRules : TextRules where
  tolower c := if 65 ≤ c ∧ c ≤ 90 then c + 32 else c
  tolowerByte c := if 65 ≤ c ∧ c ≤ 90 then c + 32 else c
  toUTF8 s := s.map UInt16.toUInt8
  tolower_zero c h := by
    have hzero : (if (65 : UInt16) ≤ 0 ∧ (0 : UInt16) ≤ 90 then (0 + 32 : UInt16) else 0) = 0 := rfl
    rw [hzero] at h
    split_ifs at h with hupper
    · simp only [UInt16.le_iff_toNat_le] at hupper
      have := congrArg UInt16.toNat h
      simp at this hupper
      omega
    · exact h
  tolowerByte_zero c h := by
    have hzero : (if (65 : UInt8) ≤ 0 ∧ (0 : UInt8) ≤ 90 then (0 + 32 : UInt8) else 0) = 0 := rfl
    rw [hzero] at h
    split_ifs at h with hupper
    · simp only [UInt8.le_iff_toNat_le] at hupper
      have := congrArg UInt8.toNat h
      simp at this hupper
      omega
    · exact h

/-- A double is not equal to itself, and a text is equal to its array in one direction only. -/
theorem equal_double_text :
    (∀ m, equal asciiRules m (.scalar .R8 (leBytes 8 0)) (.scalar .R8 (leBytes 8 0)) = false) ∧
      equal asciiRules [] (.scalarArray .I1 1 [65]) (.bstr (some [65])) = true ∧
      equal asciiRules [] (.bstr (some [65])) (.scalarArray .I1 1 [65]) = false ∧
      ¬ EqualityOn asciiRules Set.univ := by
  have hself := equal_self_of_hasNoCase (P := asciiRules) (x := .scalar .R8 (leBytes 8 0)) rfl
  refine ⟨hself, by decide, by decide, fun h ↦ ?_⟩
  have hrefl := h.refl ⟨.scalar .R8 (leBytes 8 0), .scalar, .scalar rfl⟩ (Set.mem_univ _) []
  exact Bool.false_ne_true ((hself []).symm.trans hrefl)

end SocketPro.Database
