import SocketPro.Cache.Comparisons
import Mathlib.Data.List.Lex

/-!
# The keys of the comparisons

`gt`, `ge`, `lt` and `le` of the table cache compare two values of one type as their keys are
compared, and values without a key with nothing (`compareWith_pos_iff`). A key is a list of numbers
in lexicographic order: the number of a scalar, the folded characters of a text with the one that
ends it, the bytes of a binary.

Texts stop at their first NUL, so NUL must be told from all other characters after folding
(`KeepsNul`).
-/

namespace SocketPro.TableCache

open Bytes Buffer

/-- What a comparison says of two values of a linear order. -/
def Comparison.rel {κ : Type*} [LinearOrder κ] (c : Comparison) (x y : κ) : Prop :=
  match c with
  | .gt => y < x
  | .ge => y ≤ x
  | .lt => x < y
  | .le => x ≤ y
  | .neq => x ≠ y

theorem Comparison.on_iff_rel (c : Comparison) (x y : ℤ) : c.on x y = true ↔ c.rel x y := by
  cases c with
  | gt => exact Comparison.on_gt
  | ge => exact Comparison.on_ge
  | lt => exact Comparison.on_lt
  | le => exact Comparison.on_le
  | neq => exact Comparison.on_neq

/-- Single numbers in lexicographic order. -/
theorem Comparison.rel_singleton (c : Comparison) (x y : ℤ) : c.rel [x] [y] ↔ c.rel x y := by
  have hlt (x y : ℤ) : [x] < [y] ↔ x < y := by simp [List.cons_lt_cons_iff]
  cases c with
  | gt => exact hlt y x
  | ge => exact not_lt.symm.trans ((not_congr (hlt x y)).trans not_lt)
  | lt => exact hlt x y
  | le => exact not_lt.symm.trans ((not_congr (hlt y x)).trans not_lt)
  | neq => exact not_congr (by simp)

/-- A difference that changes its sign with the order of two keys compares them. -/
theorem Comparison.on_zero_iff {κ : Type*} [LinearOrder κ] {x y : κ} {z : ℤ}
    (hlt : z < 0 ↔ x < y) (hgt : 0 < z ↔ y < x) (c : Comparison) :
    c.on z 0 = true ↔ c.rel x y := by
  rw [Comparison.on_iff_rel]
  have hzero : z = 0 ↔ x = y := by
    refine ⟨fun hz ↦ ?_, fun hxy ↦ ?_⟩
    · exact le_antisymm (not_lt.1 (mt hgt.2 (by omega))) (not_lt.1 (mt hlt.2 (by omega)))
    · have hnlt := mt hlt.1 hxy.not_lt
      have hngt := mt hgt.1 hxy.not_gt
      omega
  cases c with
  | gt => exact hgt
  | ge => exact (not_lt.symm.trans (not_congr hlt)).trans not_lt
  | lt => exact hlt
  | le => exact (not_lt.symm.trans (not_congr hgt)).trans not_lt
  | neq => exact not_congr hzero

/-! ### Texts -/

/-- The characters of a text up to its end, and the end. -/
def textKey (fold : UInt16 → UInt16) : List UInt16 → List ℤ
  | [] => [((fold 0).toNat : ℤ)]
  | c :: s => if c = 0 then [((fold 0).toNat : ℤ)] else (fold c).toNat :: textKey fold s

theorem nil_lt_textKey (fold : UInt16 → UInt16) (s : List UInt16) : [] < textKey fold s := by
  cases s with
  | nil => exact List.nil_lt_cons _ _
  | cons c s =>
    rw [textKey]
    split_ifs <;> exact List.nil_lt_cons _ _

theorem textKey_zero (fold : UInt16 → UInt16) (s : List UInt16) :
    textKey fold (0 :: s) = textKey fold [] :=
  if_pos rfl

/-- A text that has ended is compared like the empty one. -/
theorem ucompare_zero (fold : UInt16 → UInt16) (s t : List UInt16) :
    ucompare fold (0 :: s) t = ucompare fold [] t := by
  show (if _ ∨ (0 : UInt16) = 0 ∨ _ then _ else _) = _
  rw [if_pos (.inr (.inl rfl))]
  rfl

theorem ucompare_zero_right (fold : UInt16 → UInt16) (s t : List UInt16) :
    ucompare fold s (0 :: t) = ucompare fold s [] := by
  rw [ucompare_swap, ucompare_zero, ← ucompare_swap]

/-- The end of a text is before every other character of another. -/
theorem ucompare_nil_neg_iff {fold : UInt16 → UInt16} (hfold : ∀ c, fold c = fold 0 → c = 0)
    (t : List UInt16) : ucompare fold [] t < 0 ↔ textKey fold [] < textKey fold t := by
  cases t with
  | nil => exact iff_of_false (by simp [ucompare]) (lt_irrefl _)
  | cons d t =>
    by_cases hd : d = 0
    · rw [hd, ucompare_zero_right, textKey_zero]
      exact iff_of_false (by simp [ucompare]) (lt_irrefl _)
    · have hne : (fold d).toNat ≠ (fold 0).toNat :=
        fun heq ↦ hd (hfold d (UInt16.toNat_inj.1 heq))
      rw [ucompare, List.headD_cons, textKey, textKey, if_neg hd, List.cons_lt_cons_iff]
      omega

/-- **Texts are in the order of their keys.** -/
theorem ucompare_neg_iff {fold : UInt16 → UInt16} (hfold : ∀ c, fold c = fold 0 → c = 0)
    (s t : List UInt16) : ucompare fold s t < 0 ↔ textKey fold s < textKey fold t := by
  induction s generalizing t with
  | nil => exact ucompare_nil_neg_iff hfold t
  | cons c s ih =>
    by_cases hc : c = 0
    · rw [hc, ucompare_zero, textKey_zero]
      exact ucompare_nil_neg_iff hfold t
    -- what the end of the other text means for this one
    have hend : ucompare fold (c :: s) [] < 0 ↔ textKey fold (c :: s) < textKey fold [] := by
      have hright : ucompare fold (c :: s) [] = (fold c).toNat - (fold 0).toNat := by
        simp [ucompare]
      rw [hright, textKey, textKey, if_neg hc, List.cons_lt_cons_iff]
      have hnot := List.not_lt_nil (textKey fold s)
      simp only [hnot, and_false, or_false]
      omega
    cases t with
    | nil => exact hend
    | cons d t =>
      by_cases hd : d = 0
      · rw [hd, ucompare_zero_right, textKey_zero]
        exact hend
      · rw [ucompare_cons, textKey, textKey, if_neg hc, if_neg hd, List.cons_lt_cons_iff, ← ih t]
        split_ifs with hstop
        · have hdiff := hstop.resolve_right fun hzero ↦ hzero.elim hc hd
          omega
        · push Not at hstop
          have hsame := hstop.1
          omega

/-- Lower case keeps NUL apart from all other characters. -/
def KeepsNul (P : Platform) : Prop := ∀ c, P.tolower c = 0 ↔ c = 0

theorem KeepsNul.fold {P : Platform} (h : KeepsNul P) (caseSensitive : Bool) (c : UInt16)
    (heq : (if caseSensitive then id else P.tolower) c =
      (if caseSensitive then id else P.tolower) 0) : c = 0 := by
  cases caseSensitive with
  | true => exact heq
  | false => exact (h c).1 (Eq.trans heq ((h 0).2 rfl))

/-- The key of a `BSTR`; a null pointer comes first. -/
def bstrKey (fold : UInt16 → UInt16) : Option (List UInt16) → List ℤ
  | none => []
  | some s => textKey fold s

theorem ucompareBSTR_neg_iff {fold : UInt16 → UInt16} (hfold : ∀ c, fold c = fold 0 → c = 0)
    (s t : Option (List UInt16)) : ucompareBSTR fold s t < 0 ↔ bstrKey fold s < bstrKey fold t := by
  cases s with
  | none =>
    cases t with
    | none => exact iff_of_false (lt_irrefl 0) (lt_irrefl _)
    | some t => exact iff_of_true (by simp [ucompareBSTR]) (nil_lt_textKey fold t)
  | some s =>
    cases t with
    | none => exact iff_of_false (by simp [ucompareBSTR]) (List.not_lt_nil _)
    | some t => exact ucompare_neg_iff hfold s t

theorem ucompareBSTR_pos_iff {fold : UInt16 → UInt16} (hfold : ∀ c, fold c = fold 0 → c = 0)
    (s t : Option (List UInt16)) : 0 < ucompareBSTR fold s t ↔ bstrKey fold t < bstrKey fold s := by
  rw [← ucompareBSTR_neg_iff hfold, ucompareBSTR_swap fold s t, neg_lt_zero]

/-! ### Binaries -/

/-- The bytes of a binary. -/
def bytesKey (data : List UInt8) : List ℤ := data.map fun b ↦ (b.toNat : ℤ)

theorem memcmp_neg_iff {as bs : List UInt8} (h : as.length = bs.length) :
    memcmp as bs < 0 ↔ bytesKey as < bytesKey bs := by
  induction as generalizing bs with
  | nil =>
    rw [List.length_eq_zero_iff.1 h.symm]
    exact iff_of_false (lt_irrefl 0) (lt_irrefl _)
  | cons a as ih =>
    cases bs with
    | nil => cases h
    | cons b bs =>
      show _ ↔ (a.toNat : ℤ) :: bytesKey as < (b.toNat : ℤ) :: bytesKey bs
      rw [memcmp, List.cons_lt_cons_iff, ← ih (Nat.succ.inj h)]
      split_ifs with hab
      · rw [hab]
        omega
      · have hne : a.toNat ≠ b.toNat := mt UInt8.toNat_inj.1 hab
        omega

theorem memcmp_pos_iff {as bs : List UInt8} (h : as.length = bs.length) :
    0 < memcmp as bs ↔ bytesKey bs < bytesKey as := by
  rw [← memcmp_neg_iff h.symm, memcmp_swap as bs, neg_lt_zero]

/-! ### Values -/

/-- A value of the width that its type and count say. -/
def Complete : VARIANT → Prop
  | .scalar t raw => raw.length = t.size
  | .scalarArray t n data => data.length = n * t.size
  | _ => True

instance : DecidablePred Complete
  | .scalar t raw => inferInstanceAs (Decidable (raw.length = t.size))
  | .scalarArray t n data => inferInstanceAs (Decidable (data.length = n * t.size))
  | .empty | .null | .bstr _ | .bstrArray _ | .variantArray _ | .unsupported _
  | .unsupportedArray _ _ => .isTrue trivial

/-- A value of a type that is compared: binaries only with 16 bytes. -/
def Supported : VARIANT → Prop
  | .scalar t _ => t ≠ .CY
  | .bstr _ => True
  | .scalarArray .UI1 n _ => n = 16
  | _ => False

theorem supported_scalarArray {t : ScalarVT} {n : ℕ} {data : List UInt8} :
    Supported (.scalarArray t n data) ↔ t = .UI1 ∧ n = 16 := by
  cases t <;> simp [Supported]

instance : DecidablePred Supported
  | .scalar t _ => inferInstanceAs (Decidable (t ≠ .CY))
  | .scalarArray _ _ _ => decidable_of_iff _ supported_scalarArray.symm
  | .bstr _ => .isTrue trivial
  | .empty | .null | .bstrArray _ | .variantArray _ | .unsupported _ | .unsupportedArray _ _ =>
    .isFalse id

/-- The key of a value; other types, other binaries and NaN compare with nothing. -/
def orderKey (P : Platform) (caseSensitive : Bool) : VARIANT → Option (List ℤ)
  | .scalar t raw => if isOdd t raw then none else some [scalarKey t raw]
  | .bstr s => some (bstrKey (if caseSensitive then id else P.tolower) s)
  | .scalarArray .UI1 n data => if n = 16 then some (bytesKey data) else none
  | _ => none

theorem ScalarVT.vt_inj {t t' : ScalarVT} (h : t.vt = t'.vt) : t = t' := by
  cases t <;> cases t' <;> first | rfl | exact absurd h (by decide)

/-- The tags of scalars are small. -/
theorem ScalarVT.vt_lt (t : ScalarVT) : t.vt < VT_ARRAY ∧ t.vt ≠ VT_BSTR := by
  cases t <;> decide

/-- Two values of one type: the `switch` knows scalars, texts and binaries. -/
theorem sameType_cases (P : ComparingPlatform) (caseSensitive : Bool) {a b : VARIANT}
    (hnull : ¬ a.vt ≤ VT_NULL) (hvt : a.vt = b.vt) :
    (∃ t x y, a = .scalar t x ∧ b = .scalar t y) ∨ (∃ s t, a = .bstr s ∧ b = .bstr t) ∨
      (∃ n x m y, a = .scalarArray .UI1 n x ∧ b = .scalarArray .UI1 m y) ∨
      (∀ c, compareWith c P caseSensitive a b = COMPARISON_NOT_SUPPORTED) ∧
        (orderKey P.toPlatform caseSensitive a = none ∨
          orderKey P.toPlatform caseSensitive b = none) ∧ ¬ (Supported a ∧ Supported b) := by
  have hswitch (c : Comparison) := (if_neg hnull :
    compareWith c P caseSensitive a b = _).trans (if_neg (not_not.2 hvt))
  have hnull' : ¬ b.vt ≤ VT_NULL := hvt ▸ hnull
  cases a with
  | empty => exact absurd (by decide) hnull
  | null => exact absurd (by decide) hnull
  | scalar t x =>
    have htag := ScalarVT.vt_lt t
    cases b with
    | empty => exact absurd (by decide) hnull'
    | null => exact absurd (by decide) hnull'
    | scalar t' y =>
      cases ScalarVT.vt_inj hvt
      exact .inl ⟨t, x, y, rfl, rfl⟩
    | bstr s => exact absurd hvt htag.2
    | scalarArray t' m y => exact absurd hvt (htag.1.trans_le (Nat.le_add_right _ _)).ne
    | bstrArray | variantArray | unsupported | unsupportedArray =>
      exact .inr (.inr (.inr ⟨hswitch, .inr rfl, And.right⟩))
  | bstr s =>
    cases b with
    | empty => exact absurd (by decide) hnull'
    | null => exact absurd (by decide) hnull'
    | scalar t' y => exact absurd hvt.symm (ScalarVT.vt_lt t').2
    | bstr s' => exact .inr (.inl ⟨s, s', rfl, rfl⟩)
    | scalarArray t' m y =>
      have hlt : VT_BSTR < VT_ARRAY + t'.vt := Nat.lt_add_right _ (by decide)
      exact absurd hvt hlt.ne
    | bstrArray | variantArray | unsupported | unsupportedArray =>
      exact .inr (.inr (.inr ⟨hswitch, .inr rfl, And.right⟩))
  | scalarArray t n x =>
    cases b with
    | empty => exact absurd (by decide) hnull'
    | null => exact absurd (by decide) hnull'
    | scalar t' y =>
      exact absurd hvt.symm ((ScalarVT.vt_lt t').1.trans_le (Nat.le_add_right _ _)).ne
    | bstr s' =>
      have hlt : VT_BSTR < VT_ARRAY + t.vt := Nat.lt_add_right _ (by decide)
      exact absurd hvt.symm hlt.ne
    | scalarArray t' m y =>
      cases ScalarVT.vt_inj (Nat.add_left_cancel hvt)
      cases t with
      | UI1 => exact .inr (.inr (.inl ⟨n, x, m, y, rfl, rfl⟩))
      | _ => exact .inr (.inr (.inr ⟨hswitch, .inl rfl, And.left⟩))
    | bstrArray | variantArray | unsupported | unsupportedArray =>
      refine .inr (.inr (.inr ⟨fun c ↦ (hswitch c).trans ?_, .inr rfl, And.right⟩))
      cases t <;> rfl
  | bstrArray | variantArray | unsupported | unsupportedArray =>
    exact .inr (.inr (.inr ⟨hswitch, .inl rfl, And.left⟩))

theorem Comparison.onFloat_odd {c : Comparison} (hc : c ≠ .neq) {exponent mantissa a b : ℕ}
    (h : isNaN exponent mantissa a = true ∨ isNaN exponent mantissa b = true) :
    c.onFloat exponent mantissa a b = false := by
  rw [Comparison.onFloat, if_pos (Bool.or_eq_true_iff.2 h), decide_eq_false hc]

/-- What compares with nothing. -/
theorem compareScalar_odd {c : Comparison} (hc : c ≠ .neq) {t : ScalarVT} {a b : List UInt8}
    (h : isOdd t a = true ∨ isOdd t b = true) : ¬ 0 < compareScalar c t a b := by
  cases t with
  | CY => exact (by decide : ¬ (0 : ℤ) < COMPARISON_NOT_SUPPORTED)
  | R4 | R8 =>
    rw [compareScalar, Comparison.onFloat_odd hc h]
    exact lt_irrefl 0
  | DECIMAL =>
    rw [compareScalar, if_neg hc, Comparison.onFloat_odd hc h]
    exact lt_irrefl 0
  | _ => simp [isOdd] at h

/-- **Values of one type are compared by their keys**, and without a key with nothing. -/
theorem compareWith_pos_iff {c : Comparison} (hc : c ≠ .neq) {P : ComparingPlatform}
    (hP : KeepsNul P.toPlatform) {caseSensitive : Bool} {a b : VARIANT}
    (hnull : ¬ a.vt ≤ VT_NULL) (hvt : a.vt = b.vt) (ha : Complete a) (hb : Complete b) :
    0 < compareWith c P caseSensitive a b ↔
      ∃ x ∈ orderKey P.toPlatform caseSensitive a,
        ∃ y ∈ orderKey P.toPlatform caseSensitive b, c.rel x y := by
  have hkeys {x y : List ℤ} (hx : orderKey P.toPlatform caseSensitive a = some x)
      (hy : orderKey P.toPlatform caseSensitive b = some y)
      (hcompare : 0 < compareWith c P caseSensitive a b ↔ c.rel x y) :
      0 < compareWith c P caseSensitive a b ↔
        ∃ x ∈ orderKey P.toPlatform caseSensitive a,
          ∃ y ∈ orderKey P.toPlatform caseSensitive b, c.rel x y := by
    rw [hcompare, hx, hy]
    simp
  have hnone (hcompare : ¬ 0 < compareWith c P caseSensitive a b)
      (h : orderKey P.toPlatform caseSensitive a = none ∨
        orderKey P.toPlatform caseSensitive b = none) :
      0 < compareWith c P caseSensitive a b ↔
        ∃ x ∈ orderKey P.toPlatform caseSensitive a,
          ∃ y ∈ orderKey P.toPlatform caseSensitive b, c.rel x y := by
    refine iff_of_false hcompare ?_
    rintro ⟨x, hx, y, hy, -⟩
    rcases h with h | h
    · rw [h] at hx
      cases hx
    · rw [h] at hy
      cases hy
  have hunsupported : ¬ (0 : ℤ) < COMPARISON_NOT_SUPPORTED := by decide
  rcases sameType_cases P caseSensitive hnull hvt with ⟨t, x, y, rfl, rfl⟩ | ⟨s, t, rfl, rfl⟩ |
    ⟨n, x, m, y, rfl, rfl⟩ | ⟨hcompare, h, -⟩
  · by_cases hodd : isOdd t x = true ∨ isOdd t y = true
    · refine hnone (by rw [compareWith_scalar]; exact compareScalar_odd hc hodd) ?_
      exact hodd.imp (fun h ↦ if_pos h) fun h ↦ if_pos h
    · obtain ⟨hx, hy⟩ := not_or.1 hodd
      refine hkeys (if_neg hx) (if_neg hy) ?_
      rw [compareWith_scalar, compareScalar_eq hc (Bool.eq_false_iff.2 hx) (Bool.eq_false_iff.2 hy),
        flag_pos, Comparison.on_iff_rel, Comparison.rel_singleton]
  · exact hkeys rfl rfl (flag_pos.trans (Comparison.on_zero_iff
      (ucompareBSTR_neg_iff (hP.fold caseSensitive) s t)
      (ucompareBSTR_pos_iff (hP.fold caseSensitive) s t) c))
  · have hbinary (hlen : ¬ (n = m ∧ n = 16)) :
        ¬ 0 < compareWith c P caseSensitive (.scalarArray .UI1 n x) (.scalarArray .UI1 m y) := by
      have hcompare : compareWith c P caseSensitive (.scalarArray .UI1 n x)
          (.scalarArray .UI1 m y) = COMPARISON_NOT_SUPPORTED := if_neg hlen
      rwa [hcompare]
    by_cases hn : n = 16
    · by_cases hm : m = 16
      · subst hn hm
        have hlen : x.length = y.length := ha.trans hb.symm
        exact hkeys rfl rfl (flag_pos.trans
          (Comparison.on_zero_iff (memcmp_neg_iff hlen) (memcmp_pos_iff hlen) c))
      · exact hnone (hbinary fun h ↦ hm (h.1 ▸ h.2)) (.inr (if_neg hm))
    · exact hnone (hbinary fun h ↦ hn h.2) (.inl (if_neg hn))
  · exact hnone (hcompare c ▸ hunsupported) h

/-! ### Columns -/

/-- The value of a row at an ordinal. -/
def cellAt (ordinal : ℕ) (row : CRow) : VARIANT := row.getD ordinal .null

/-- A column of a table: all rows have it, and its values are those of its type, besides null. -/
structure CTable.TypedColumn (t : CTable) (ordinal : ℕ) : Prop where
  ordinal_lt : ordinal < t.columns.length
  width : ∀ row ∈ t.rows, row.length = t.columns.length
  vt_eq : ∀ row ∈ t.rows, VT_NULL < (cellAt ordinal row).vt →
    (cellAt ordinal row).vt = tableType (t.columns.getD ordinal default).DataType
  complete : ∀ row ∈ t.rows, Complete (cellAt ordinal row)

end SocketPro.TableCache
