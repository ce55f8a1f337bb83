import SocketPro.Cache.Sorting

/-!
# The queries of a table

`In`, `NotIn`, `Find` and `Between` of `CTable`. Each of them fills another table with rows of this
one; it converts the values it is given to the type of the column first. The five paths have their
own tests of null and their own order of the arguments of `eq`.

**The queries agree** (`query_algebra_iff`): for the values of a column and values that are
converted to its type, `eq` is symmetric, so `In` and `NotIn` split the rows that are not null, and
`Between` selects by the keys. Only `neq` is not the negation of `eq`: for truth values it compares
the encodings (`neq_pos_iff`).

The conversion is a parameter. The table that is filled is another one than the table that is asked:
every query clears it first.
-/

namespace SocketPro.TableCache

open Bytes Buffer

/-- What the queries take from the platform: `VariantChangeType` gives a value, or fails. -/
structure QueryPlatform extends ComparingPlatform where
  changesType : VARIANT → ℕ → Bool

abbrev BAD_DATA_TYPE : ℤ := -2

/-- `CTable::Operator`. -/
inductive Operator
  | equal | great | less | great_equal | less_equal | not_equal | is_null
deriving DecidableEq, Repr

/-- What a query gives, the table it was asked of, and the table it filled. -/
structure Answer where
  res : ℤ
  source : CTable
  tbl : CTable

/-- `CTable::ChangeType`; `none` is `BAD_DATA_TYPE`. -/
def changeType (P : QueryPlatform) (vtTarget : ℕ) (vtSrc : VARIANT) : Option VARIANT :=
  match vtSrc with
  | .scalarArray .I1 _ s =>
    if vtTarget = VT_BSTR then some (.bstr (some (P.ToBSTR s)))
    else if P.changesType vtSrc vtTarget then some (P.VariantChangeType vtSrc vtTarget) else none
  | _ => if P.changesType vtSrc vtTarget then some (P.VariantChangeType vtSrc vtTarget) else none

namespace CTable

variable (t : CTable) (P : QueryPlatform) (ordinal : ℕ)

/-- The type of a column, strings always as UTF-16 strings. -/
def columnType : ℕ := tableType (t.columns.getD ordinal default).DataType

/-- A row for the other table, copied or shared. -/
def pick (copyData : Bool) (prow : CRow) : CRow :=
  if copyData then prow.take t.columns.length else prow

/-- What a query makes of the other table, with the rows that it puts into it. -/
def answer (res : ℤ) (rows : List CRow) : Answer := ⟨res, t, { t with rows := rows }⟩

/-- `CTable::In(v, v0)`. -/
def inValues (v : List VARIANT) (v₀ : VARIANT) : Bool :=
  v.any fun w ↦ 0 < eq P.toPlatform t.m_bDataCaseSensitive w v₀

/-- `CTable::In`. -/
def In (vArray : List VARIANT) (copyData : Bool) : Answer :=
  if vArray.isEmpty then t.answer 1 []
  else if t.columns.length ≤ ordinal then t.answer BAD_ORDINAL []
  else match vArray.mapM (changeType P (t.columnType ordinal)) with
    | none => t.answer BAD_DATA_TYPE []
    | some v =>
      let ok (prow : CRow) : Bool :=
        v.any fun v₁ ↦ 0 < eq P.toPlatform t.m_bDataCaseSensitive (cellAt ordinal prow) v₁
      t.answer 1 ((t.rows.filter ok).map (t.pick copyData))

/-- `CTable::NotIn`. -/
def NotIn (vArray : List VARIANT) (copyData : Bool) : Answer :=
  if t.columns.length ≤ ordinal then t.answer BAD_ORDINAL []
  else match vArray.mapM (changeType P (t.columnType ordinal)) with
    | none => t.answer BAD_DATA_TYPE []
    | some v =>
      let ok (prow : CRow) : Bool :=
        VT_NULL < (cellAt ordinal prow).vt && !t.inValues P v (cellAt ordinal prow)
      t.answer 1 ((t.rows.filter ok).map (t.pick copyData))

/-- The loop of `Find` and `Between`, with the result of the comparison for each row. -/
def findLoop (copyData : Bool) (compare : VARIANT → ℤ) : List CRow → ℤ × List CRow
  | [] => (1, [])
  | prow :: rows =>
    let res := compare (cellAt ordinal prow)
    if res < 0 then (res, [])
    else
      let rest := findLoop copyData compare rows
      if 0 < res then (rest.1, t.pick copyData prow :: rest.2) else rest

/-- The comparison of `Find`. -/
def compareBy (op : Operator) (v₀ v : VARIANT) : ℤ :=
  match op with
  | .equal => eq P.toPlatform t.m_bDataCaseSensitive v₀ v
  | .not_equal => neq P.toComparingPlatform t.m_bDataCaseSensitive v₀ v
  | .great => gt P.toComparingPlatform t.m_bDataCaseSensitive v₀ v
  | .great_equal => ge P.toComparingPlatform t.m_bDataCaseSensitive v₀ v
  | .less => lt P.toComparingPlatform t.m_bDataCaseSensitive v₀ v
  | .less_equal => le P.toComparingPlatform t.m_bDataCaseSensitive v₀ v
  | .is_null => flag (v₀.vt = VT_NULL ∨ v₀.vt = VT_EMPTY)

/-- `CTable::Find`. -/
def Find (op : Operator) (vt : VARIANT) (copyData : Bool) : Answer :=
  if t.columns.length ≤ ordinal then t.answer BAD_ORDINAL []
  else if vt.vt ≤ VT_NULL ∧ op ≠ .is_null then t.answer COMPARISON_NOT_SUPPORTED []
  else match if op = .is_null then some .empty else changeType P (t.columnType ordinal) vt with
    | none => t.answer BAD_DATA_TYPE []
    | some v =>
      let out := t.findLoop ordinal copyData (t.compareBy P op · v) t.rows
      t.answer out.1 out.2

/-- The comparison of `Between`. -/
def compareBetween (small_vt large_vt vt : VARIANT) : ℤ :=
  let res := ge P.toComparingPlatform t.m_bDataCaseSensitive vt small_vt
  if res ≤ 0 then res else le P.toComparingPlatform t.m_bDataCaseSensitive vt large_vt

/-- `CTable::Between`. -/
def Between (vt₀ vt₁ : VARIANT) (copyData : Bool) : Answer :=
  if t.columns.length ≤ ordinal then t.answer BAD_ORDINAL []
  else if vt₀.vt ≤ VT_NULL ∨ vt₁.vt ≤ VT_NULL then t.answer COMPARISON_NOT_SUPPORTED []
  else match changeType P (t.columnType ordinal) vt₀, changeType P (t.columnType ordinal) vt₁ with
    | some v₀, some v₁ =>
      let res := gt P.toComparingPlatform t.m_bDataCaseSensitive v₀ v₁
      if res < 0 then t.answer res []
      else
        let out := t.findLoop ordinal copyData (if res ≠ 0 then t.compareBetween P v₁ v₀
          else t.compareBetween P v₀ v₁) t.rows
        t.answer out.1 out.2
    | _, _ => t.answer BAD_DATA_TYPE []

end CTable

/-! ### Two values of a column -/

/-- A value of a type. -/
structure ValueOf (type : ℕ) (v : VARIANT) : Prop where
  vt_eq : v.vt = type
  complete : Complete v
  supported : Supported v

theorem Supported.not_isNull {v : VARIANT} (h : Supported v) : ¬ isNull v := by
  cases v with
  | scalar t raw =>
    show ¬ t.vt ≤ VT_NULL
    cases t <;> decide
  | bstr s => exact (by decide : ¬ VT_BSTR ≤ VT_NULL)
  | scalarArray t n data =>
    have hlt : VT_NULL < VT_ARRAY + t.vt := Nat.lt_add_right _ (by decide)
    exact hlt.not_ge
  | _ => exact h.elim

/-- Two values that are compared by one case of the `switch`. -/
inductive ComparedPair : VARIANT → VARIANT → Prop
  | scalar {t : ScalarVT} {a b : List UInt8} (ht : t ≠ .CY) (ha : a.length = t.size)
      (hb : b.length = t.size) : ComparedPair (.scalar t a) (.scalar t b)
  | bstr (s₁ s₂ : Option (List UInt16)) : ComparedPair (.bstr s₁) (.bstr s₂)
  | uuid {a b : List UInt8} (ha : a.length = 16) (hb : b.length = 16) :
      ComparedPair (.scalarArray .UI1 16 a) (.scalarArray .UI1 16 b)

theorem ValueOf.comparedPair {type : ℕ} {a b : VARIANT} (ha : ValueOf type a)
    (hb : ValueOf type b) (P : ComparingPlatform) : ComparedPair a b := by
  have hvt : a.vt = b.vt := ha.vt_eq.trans hb.vt_eq.symm
  rcases sameType_cases P true ha.supported.not_isNull hvt with ⟨t, x, y, rfl, rfl⟩ |
    ⟨s, s', rfl, rfl⟩ | ⟨n, x, m, y, rfl, rfl⟩ | ⟨-, -, hnone⟩
  · exact .scalar ha.supported ha.complete hb.complete
  · exact .bstr s s'
  · cases ha.supported
    cases hb.supported
    exact .uuid ha.complete hb.complete
  · exact absurd ⟨ha.supported, hb.supported⟩ hnone

section Pair

variable {P : ComparingPlatform} {caseSensitive : Bool} {a b : VARIANT}

theorem floatEq_comm (exponent mantissa a b : ℕ) :
    floatEq exponent mantissa a b = floatEq exponent mantissa b a := by
  unfold floatEq
  simp only [Bool.and_comm, BEq.comm]

theorem eqScalar_comm (t : ScalarVT) (a b : List UInt8) : eqScalar t a b = eqScalar t b a := by
  cases t <;> simp only [eqScalar, floatEq_comm, eq_comm]

theorem isEqualBSTR_comm (P : Platform) (caseSensitive : Bool) (s₁ s₂ : Option (List UInt16)) :
    isEqualBSTR P caseSensitive s₁ s₂ = isEqualBSTR P caseSensitive s₂ s₁ := by
  rw [Bool.eq_iff_iff, ← ucompareBSTR_eq_zero, ← ucompareBSTR_eq_zero, ucompareBSTR_swap _ s₁ s₂,
    neg_eq_zero]

theorem eq_bstr (P : Platform) (caseSensitive : Bool) (s₁ s₂ : Option (List UInt16)) :
    eq P caseSensitive (.bstr s₁) (.bstr s₂) =
      if isEqualBSTR P caseSensitive s₁ s₂ then 1 else 0 := rfl

theorem eq_uuid (P : Platform) (caseSensitive : Bool) (a b : List UInt8) :
    eq P caseSensitive (.scalarArray .UI1 16 a) (.scalarArray .UI1 16 b) =
      if a = b then 1 else 0 := by
  exact rfl

/-- `eq` is symmetric. -/
theorem ComparedPair.eq_symm (h : ComparedPair a b) :
    eq P.toPlatform caseSensitive a b = eq P.toPlatform caseSensitive b a := by
  cases h with
  | scalar ht ha hb => rw [eq_scalar, eq_scalar, eqScalar_comm]
  | bstr s₁ s₂ => rw [eq_bstr, eq_bstr, isEqualBSTR_comm]
  | uuid ha hb => simp only [eq_uuid, eq_comm]

/-- The comparison is supported. -/
theorem ComparedPair.eq_nonneg (h : ComparedPair a b) :
    0 ≤ eq P.toPlatform caseSensitive a b := by
  cases h with
  | @scalar t a b ht ha hb =>
    rw [eq_scalar]
    cases t with
    | CY => exact absurd rfl ht
    | _ =>
      simp only [eqScalar]
      split_ifs <;> decide
  | bstr s₁ s₂ =>
    rw [eq_bstr]
    split_ifs <;> decide
  | uuid ha hb =>
    rw [eq_uuid]
    split_ifs <;> decide

theorem flag_nonneg (b : Bool) : 0 ≤ flag b := by
  cases b <;> decide

theorem ComparedPair.compareWith_nonneg (h : ComparedPair a b) (c : Comparison) :
    0 ≤ compareWith c P caseSensitive a b := by
  cases h with
  | @scalar t a b ht ha hb =>
    rw [compareWith_scalar]
    cases t with
    | CY => exact absurd rfl ht
    | DECIMAL =>
      rw [compareScalar]
      split_ifs <;> exact flag_nonneg _
    | _ => exact flag_nonneg _
  | bstr s₁ s₂ => exact flag_nonneg _
  | uuid ha hb => exact flag_nonneg _

/-- The condition: truth values that are both true have the same encoding. -/
def SameEncoding : VARIANT → VARIANT → Prop
  | .scalar .BOOL x, .scalar .BOOL y => (ofLE x ≠ 0 ↔ ofLE y ≠ 0) → x = y
  | _, _ => True

/-- A NaN is different from everything. -/
theorem neqFloat_pos_iff {exponent mantissa x y : ℕ}
    (h : isNaN exponent mantissa x = true ∨ isNaN exponent mantissa y = true) :
    0 < flag (Comparison.neq.onFloat exponent mantissa x y) ↔
      ¬ 0 < (if floatEq exponent mantissa x y then 1 else 0 : ℤ) := by
  have heq : floatEq exponent mantissa x y =
      (!isNaN exponent mantissa x && !isNaN exponent mantissa y &&
        (x == y || x % 2 ^ (exponent + mantissa) == 0 && y % 2 ^ (exponent + mantissa) == 0)) := rfl
  rw [flag_pos, Comparison.onFloat, if_pos (Bool.or_eq_true_iff.2 h), ite_pos, heq]
  refine iff_of_true rfl ?_
  rcases h with h | h <;> simp [h]

theorem Coherent.neqScalar_iff {t : ScalarVT} {x y : List UInt8}
    (h : Coherent P caseSensitive (.scalar t x) (.scalar t y)) :
    0 < compareScalar .neq t x y ↔ ¬ 0 < eqScalar t x y := by
  have hneq := h.neq_iff
  rwa [neq, compareWith_scalar, eq_scalar] at hneq

/-- **When `neq` is the negation of `eq`.** -/
theorem ComparedPair.neq_pos_iff (h : ComparedPair a b) :
    (0 < neq P caseSensitive a b ↔ ¬ 0 < eq P.toPlatform caseSensitive a b) ↔
      SameEncoding a b := by
  cases h with
  | bstr s₁ s₂ => exact iff_of_true (coherent_bstr P caseSensitive s₁ s₂).neq_iff trivial
  | uuid ha hb => exact iff_of_true (coherent_uuid P caseSensitive ha hb).neq_iff trivial
  | @scalar t a b ht ha hb =>
    have hlen : a.length = b.length := ha.trans hb.symm
    rw [neq, compareWith_scalar, eq_scalar]
    cases t with
    | CY => exact absurd rfl ht
    | BOOL =>
      rw [eqScalar_bool_pos, neqScalar_bool_pos hlen]
      constructor
      · exact fun h htruth ↦ not_not.1 fun hne ↦ h.1 hne htruth
      · exact fun h ↦ ⟨fun hne htruth ↦ hne (h htruth), fun hnot hab ↦ hnot (by rw [hab])⟩
    | DECIMAL =>
      refine iff_of_true ?_ trivial
      show 0 < flag (decide (a ≠ b)) ↔ ¬ 0 < (if a = b then 1 else 0 : ℤ)
      rw [flag_pos, decide_eq_true_iff, ite_pos]
    | R4 | R8 =>
      refine iff_of_true ?_ trivial
      cases hna : isNaN _ _ (ofLE a) with
      | true => exact neqFloat_pos_iff (.inl hna)
      | false =>
        cases hnb : isNaN _ _ (ofLE b) with
        | true => exact neqFloat_pos_iff (.inr hnb)
        | false =>
          exact (@coherent_scalar P caseSensitive _ a b ha hb (fun _ ↦ ⟨hna, hnb⟩) ht (by decide)
            (by decide)).neqScalar_iff
    | _ =>
      refine iff_of_true ?_ trivial
      exact (@coherent_scalar P caseSensitive _ a b ha hb
        (fun h ↦ by rcases h with h | h <;> cases h) ht (by decide) (by decide)).neqScalar_iff

end Pair

/-! ### Queries as selections -/

namespace CTable

variable {t : CTable} {P : QueryPlatform} {ordinal : ℕ}

/-- The answer of a query that selects rows. -/
def select (t : CTable) (copyData : Bool) (p : CRow → Bool) : Answer :=
  t.answer 1 ((t.rows.filter p).map (t.pick copyData))

/-- The rows that are not null in a column. -/
def nonNull (t : CTable) (ordinal : ℕ) : List CRow :=
  t.rows.filter fun row ↦ VT_NULL < (cellAt ordinal row).vt

/-- A column of which the values are compared. -/
structure ComparableColumn (t : CTable) (ordinal : ℕ) : Prop extends t.TypedColumn ordinal where
  supported : ∀ row ∈ t.rows, ¬ isNull (cellAt ordinal row) → Supported (cellAt ordinal row)

/-- A value, other than null, that converts to the type of a column. -/
structure Converts (t : CTable) (P : QueryPlatform) (ordinal : ℕ) (v w : VARIANT) : Prop where
  not_isNull : ¬ isNull v
  changeType_eq : changeType P (t.columnType ordinal) v = some w
  valueOf : ValueOf (t.columnType ordinal) w

theorem ComparableColumn.valueOf (h : t.ComparableColumn ordinal) {row : CRow} (hrow : row ∈ t.rows)
    (hn : ¬ isNull (cellAt ordinal row)) : ValueOf (t.columnType ordinal) (cellAt ordinal row) :=
  ⟨h.vt_eq row hrow (not_le.1 hn), h.complete row hrow, h.supported row hrow hn⟩

/-- A copied row is the row. -/
theorem ComparableColumn.map_pick (h : t.ComparableColumn ordinal) (copyData : Bool)
    (p : CRow → Bool) : (t.rows.filter p).map (t.pick copyData) = t.rows.filter p := by
  refine (List.map_congr_left fun row hrow ↦ ?_).trans (List.map_id _)
  cases copyData with
  | false => rfl
  | true => exact List.take_of_length_le (h.width row (List.mem_of_mem_filter hrow)).le

theorem ComparableColumn.select_rows (h : t.ComparableColumn ordinal) (copyData : Bool)
    (p : CRow → Bool) : (t.select copyData p).tbl.rows = t.rows.filter p :=
  h.map_pick copyData p

theorem select_congr {copyData : Bool} {p q : CRow → Bool} (h : ∀ row ∈ t.rows, p row = q row) :
    t.select copyData p = t.select copyData q := by
  rw [select, List.filter_congr h, select]

/-- A loop without an unsupported comparison selects. -/
theorem findLoop_eq {copyData : Bool} {compare : VARIANT → ℤ} {rows : List CRow}
    (h : ∀ row ∈ rows, 0 ≤ compare (cellAt ordinal row)) :
    t.findLoop ordinal copyData compare rows =
      (1, (rows.filter fun row ↦ 0 < compare (cellAt ordinal row)).map (t.pick copyData)) := by
  induction rows with
  | nil => rfl
  | cons row rows ih =>
    obtain ⟨hrow, hrows⟩ := List.forall_mem_cons.1 h
    rw [findLoop, ih hrows, List.filter_cons]
    simp only [not_lt.2 hrow, if_false, decide_eq_true_eq]
    split_ifs <;> rfl

/-- The conversion of a list. -/
theorem mapM_changeType {vs : List VARIANT} (h : ∀ v ∈ vs, ∃ w, t.Converts P ordinal v w) :
    ∃ ws, vs.mapM (changeType P (t.columnType ordinal)) = some ws ∧
      ∀ w ∈ ws, ValueOf (t.columnType ordinal) w := by
  induction vs with
  | nil => exact ⟨[], rfl, List.forall_mem_nil _⟩
  | cons v vs ih =>
    obtain ⟨⟨w, hw⟩, hvs⟩ := List.forall_mem_cons.1 h
    obtain ⟨ws, hws, hvalues⟩ := ih hvs
    refine ⟨w :: ws, ?_, List.forall_mem_cons.2 ⟨hw.valueOf, hvalues⟩⟩
    rw [List.mapM_cons, hw.changeType_eq, hws]
    rfl

theorem mapM_singleton {v w : VARIANT} (h : t.Converts P ordinal v w) :
    [v].mapM (changeType P (t.columnType ordinal)) = some [w] := by
  rw [List.mapM_cons, h.changeType_eq]
  rfl

/-- `In` selects the rows of which the value is equal to one of the given ones. -/
theorem In_eq (h : ordinal < t.columns.length) {vs ws : List VARIANT}
    (hws : vs.mapM (changeType P (t.columnType ordinal)) = some ws) (copyData : Bool) :
    t.In P ordinal vs copyData = t.select copyData fun row ↦
      ws.any fun w ↦ 0 < eq P.toPlatform t.m_bDataCaseSensitive (cellAt ordinal row) w := by
  cases vs with
  | nil =>
    obtain rfl : ws = [] := (Option.some.inj hws).symm
    have hnone : t.rows.filter (fun _ ↦ false) = [] :=
      List.filter_eq_nil_iff.2 fun _ _ ↦ Bool.false_ne_true
    show _ = t.answer 1 ((t.rows.filter fun _ ↦ false).map (t.pick copyData))
    rw [hnone]
    rfl
  | cons v vs =>
    rw [In, if_neg (by simp), if_neg (not_le.2 h), hws]
    rfl

theorem NotIn_eq (h : ordinal < t.columns.length) {vs ws : List VARIANT}
    (hws : vs.mapM (changeType P (t.columnType ordinal)) = some ws) (copyData : Bool) :
    t.NotIn P ordinal vs copyData = t.select copyData fun row ↦
      VT_NULL < (cellAt ordinal row).vt && !t.inValues P ws (cellAt ordinal row) := by
  rw [NotIn, if_neg (not_le.2 h), hws]
  rfl

/-- `Find` selects the rows of which the comparison holds. -/
theorem Find_eq (h : ordinal < t.columns.length) {op : Operator} (hop : op ≠ .is_null)
    {v w : VARIANT} (hv : t.Converts P ordinal v w)
    (hsupported : ∀ row ∈ t.rows, 0 ≤ t.compareBy P op (cellAt ordinal row) w) (copyData : Bool) :
    t.Find P ordinal op v copyData =
      t.select copyData fun row ↦ 0 < t.compareBy P op (cellAt ordinal row) w := by
  rw [Find, if_neg (not_le.2 h), if_neg fun hn ↦ hv.not_isNull hn.1, if_neg hop, hv.changeType_eq]
  dsimp only
  rw [findLoop_eq hsupported]
  rfl

/-! ### Comparisons with the values of a column -/

theorem eq_of_isNull {P : Platform} {caseSensitive : Bool} {v w : VARIANT} (h : isNull v) :
    eq P caseSensitive v w = 0 :=
  if_pos h

theorem compareWith_of_isNull {c : Comparison} {P : ComparingPlatform} {caseSensitive : Bool}
    {v w : VARIANT} (h : isNull v) : compareWith c P caseSensitive v w = 0 :=
  if_pos h

/-- In a column, no comparison with a converted value is unsupported. -/
theorem ComparableColumn.nonneg (h : t.ComparableColumn ordinal) {row : CRow} (hrow : row ∈ t.rows)
    {w : VARIANT} (hw : ValueOf (t.columnType ordinal) w) :
    0 ≤ eq P.toPlatform t.m_bDataCaseSensitive (cellAt ordinal row) w ∧
      ∀ c, 0 ≤ compareWith c P.toComparingPlatform t.m_bDataCaseSensitive (cellAt ordinal row) w := by
  by_cases hn : isNull (cellAt ordinal row)
  · rw [eq_of_isNull hn]
    exact ⟨le_refl 0, fun c ↦ (compareWith_of_isNull hn).ge⟩
  · have hpair := (h.valueOf hrow hn).comparedPair hw P.toComparingPlatform
    exact ⟨hpair.eq_nonneg, hpair.compareWith_nonneg⟩

theorem ComparableColumn.compareBy_nonneg (h : t.ComparableColumn ordinal) {w : VARIANT}
    (hw : ValueOf (t.columnType ordinal) w) (op : Operator) :
    ∀ row ∈ t.rows, 0 ≤ t.compareBy P op (cellAt ordinal row) w := by
  intro row hrow
  obtain ⟨heq, hcompare⟩ := h.nonneg (P := P) hrow hw
  cases op with
  | equal => exact heq
  | great => exact hcompare .gt
  | less => exact hcompare .lt
  | great_equal => exact hcompare .ge
  | less_equal => exact hcompare .le
  | not_equal => exact hcompare .neq
  | is_null => exact flag_nonneg _

/-- The order of the arguments of `eq` does not matter in a column. -/
theorem ComparableColumn.inValues_eq (h : t.ComparableColumn ordinal) {row : CRow}
    (hrow : row ∈ t.rows) (hn : ¬ isNull (cellAt ordinal row)) {ws : List VARIANT}
    (hws : ∀ w ∈ ws, ValueOf (t.columnType ordinal) w) :
    t.inValues P ws (cellAt ordinal row) = ws.any fun w ↦
      0 < eq P.toPlatform t.m_bDataCaseSensitive (cellAt ordinal row) w := by
  rw [inValues, Bool.eq_iff_iff, List.any_eq_true, List.any_eq_true]
  refine exists_congr fun w ↦ and_congr_right fun hw ↦ ?_
  have hpair := (h.valueOf hrow hn).comparedPair (hws w hw) P.toComparingPlatform
  rw [hpair.eq_symm]

/-! ### `Between` -/

/-- What `Between` compares a value with: no less than one value and no greater than another. -/
theorem compareBetween_pos_iff {small large v : VARIANT} :
    0 < t.compareBetween P small large v ↔
      0 < ge P.toComparingPlatform t.m_bDataCaseSensitive v small ∧
        0 < le P.toComparingPlatform t.m_bDataCaseSensitive v large := by
  rw [compareBetween]
  split_ifs with hle
  · exact iff_of_false hle.not_gt fun h ↦ hle.not_gt h.1
  · exact ⟨fun h ↦ ⟨not_le.1 hle, h⟩, And.right⟩

/-- The smaller of two values, as `gt` says after the conversion. -/
def smaller (t : CTable) (P : QueryPlatform) (ordinal : ℕ) (a b : VARIANT) : VARIANT :=
  match changeType P (t.columnType ordinal) a, changeType P (t.columnType ordinal) b with
  | some v₀, some v₁ => if 0 < gt P.toComparingPlatform t.m_bDataCaseSensitive v₀ v₁ then b else a
  | _, _ => a

/-- The greater of two values. -/
def greater (t : CTable) (P : QueryPlatform) (ordinal : ℕ) (a b : VARIANT) : VARIANT :=
  match changeType P (t.columnType ordinal) a, changeType P (t.columnType ordinal) b with
  | some v₀, some v₁ => if 0 < gt P.toComparingPlatform t.m_bDataCaseSensitive v₀ v₁ then a else b
  | _, _ => b

theorem smaller_converts {a b v₀ v₁ : VARIANT} (ha : t.Converts P ordinal a v₀)
    (hb : t.Converts P ordinal b v₁) : t.Converts P ordinal (t.smaller P ordinal a b)
    (if 0 < gt P.toComparingPlatform t.m_bDataCaseSensitive v₀ v₁ then v₁ else v₀) := by
  rw [smaller, ha.changeType_eq, hb.changeType_eq]
  dsimp only
  split_ifs
  · exact hb
  · exact ha

theorem greater_converts {a b v₀ v₁ : VARIANT} (ha : t.Converts P ordinal a v₀)
    (hb : t.Converts P ordinal b v₁) : t.Converts P ordinal (t.greater P ordinal a b)
    (if 0 < gt P.toComparingPlatform t.m_bDataCaseSensitive v₀ v₁ then v₀ else v₁) := by
  rw [greater, ha.changeType_eq, hb.changeType_eq]
  dsimp only
  split_ifs
  · exact ha
  · exact hb

/-- `Between` selects the rows between the smaller and the greater value. -/
theorem Between_eq {a b v₀ v₁ : VARIANT} (ha : t.Converts P ordinal a v₀)
    (hb : t.Converts P ordinal b v₁) (h : t.ComparableColumn ordinal) (copyData : Bool) :
    t.Between P ordinal a b copyData = t.select copyData fun row ↦ 0 < t.compareBetween P
      (if 0 < gt P.toComparingPlatform t.m_bDataCaseSensitive v₀ v₁ then v₁ else v₀)
      (if 0 < gt P.toComparingPlatform t.m_bDataCaseSensitive v₀ v₁ then v₀ else v₁)
      (cellAt ordinal row) := by
  have hres : 0 ≤ gt P.toComparingPlatform t.m_bDataCaseSensitive v₀ v₁ :=
    (ha.valueOf.comparedPair hb.valueOf P.toComparingPlatform).compareWith_nonneg .gt
  have hloop {s l : VARIANT} (hs : ValueOf (t.columnType ordinal) s)
      (hl : ValueOf (t.columnType ordinal) l) :
      ∀ row ∈ t.rows, 0 ≤ t.compareBetween P s l (cellAt ordinal row) := by
    intro row hrow
    rw [compareBetween]
    split_ifs
    · exact (h.nonneg hrow hs).2 .ge
    · exact (h.nonneg hrow hl).2 .le
  have hnull : ¬ (a.vt ≤ VT_NULL ∨ b.vt ≤ VT_NULL) := not_or.2 ⟨ha.not_isNull, hb.not_isNull⟩
  rw [Between, if_neg (not_le.2 h.ordinal_lt), if_neg hnull, ha.changeType_eq, hb.changeType_eq]
  dsimp only
  rw [if_neg hres.not_gt]
  by_cases hgt : 0 < gt P.toComparingPlatform t.m_bDataCaseSensitive v₀ v₁
  · rw [if_pos hgt.ne', if_pos hgt, if_pos hgt, findLoop_eq (hloop hb.valueOf ha.valueOf)]
    rfl
  · have hzero : gt P.toComparingPlatform t.m_bDataCaseSensitive v₀ v₁ = 0 :=
      le_antisymm (not_lt.1 hgt) hres
    rw [if_neg (not_not.2 hzero), if_neg hgt, if_neg hgt,
      findLoop_eq (hloop ha.valueOf hb.valueOf)]
    rfl

/-- The comparison of two values of a column through their keys. -/
theorem compare_pos_iff {type : ℕ} {v w : VARIANT} {caseSensitive : Bool} {c : Comparison}
    (hc : c ≠ .neq) (hP : KeepsNul P.toPlatform) (hv : ValueOf type v) (hw : ValueOf type w) :
    0 < compareWith c P.toComparingPlatform caseSensitive v w ↔
      ∃ x ∈ orderKey P.toPlatform caseSensitive v,
        ∃ y ∈ orderKey P.toPlatform caseSensitive w, c.rel x y :=
  compareWith_pos_iff hc hP hv.supported.not_isNull (hv.vt_eq.trans hw.vt_eq.symm) hv.complete
    hw.complete

/-- Two values of which none is greater are the same bounds. -/
theorem compareBetween_swap (h : t.ComparableColumn ordinal) (hP : KeepsNul P.toPlatform)
    {v₀ v₁ : VARIANT} (h₀ : ValueOf (t.columnType ordinal) v₀)
    (h₁ : ValueOf (t.columnType ordinal) v₁)
    (hngt : ¬ 0 < gt P.toComparingPlatform t.m_bDataCaseSensitive v₀ v₁)
    (hnlt : ¬ 0 < gt P.toComparingPlatform t.m_bDataCaseSensitive v₁ v₀) {row : CRow}
    (hrow : row ∈ t.rows) (hbetween : 0 < t.compareBetween P v₀ v₁ (cellAt ordinal row)) :
    0 < t.compareBetween P v₁ v₀ (cellAt ordinal row) := by
  rw [compareBetween_pos_iff] at hbetween ⊢
  by_cases hn : isNull (cellAt ordinal row)
  · rw [ge, compareWith_of_isNull hn] at hbetween
    exact absurd hbetween.1 (lt_irrefl 0)
  have hcell := h.valueOf hrow hn
  rw [ge, le, compare_pos_iff (by decide) hP hcell h₀, compare_pos_iff (by decide) hP hcell h₁]
    at hbetween
  obtain ⟨⟨x, hx, y₀, hy₀, hle₀⟩, x', hx', y₁, hy₁, hle₁⟩ := hbetween
  obtain rfl : x = x' := Option.some.inj (hx.symm.trans hx')
  have hsame : y₀ = y₁ := by
    rw [gt, compare_pos_iff (by decide) hP h₀ h₁] at hngt
    rw [gt, compare_pos_iff (by decide) hP h₁ h₀] at hnlt
    exact le_antisymm (not_lt.1 fun hlt ↦ hngt ⟨y₀, hy₀, y₁, hy₁, hlt⟩)
      (not_lt.1 fun hlt ↦ hnlt ⟨y₁, hy₁, y₀, hy₀, hlt⟩)
  subst hsame
  rw [ge, le, compare_pos_iff (by decide) hP hcell h₀, compare_pos_iff (by decide) hP hcell h₁]
  exact ⟨⟨x, hx, y₀, hy₁, hle₀⟩, x, hx, y₀, hy₀, hle₁⟩

theorem not_gt_gt {type : ℕ} {v w : VARIANT} {caseSensitive : Bool} (hP : KeepsNul P.toPlatform)
    (hv : ValueOf type v) (hw : ValueOf type w)
    (hgt : 0 < gt P.toComparingPlatform caseSensitive v w) :
    ¬ 0 < gt P.toComparingPlatform caseSensitive w v := by
  rw [gt, compare_pos_iff (by decide) hP hv hw] at hgt
  rw [gt, compare_pos_iff (by decide) hP hw hv]
  obtain ⟨x, hx, y, hy, hlt⟩ := hgt
  rintro ⟨y', hy', x', hx', hlt'⟩
  obtain rfl : x = x' := Option.some.inj (hx.symm.trans hx')
  obtain rfl : y = y' := Option.some.inj (hy.symm.trans hy')
  exact lt_asymm hlt hlt'

/-- **`Between` does not depend on the order of its bounds.** -/
theorem Between_comm (h : t.ComparableColumn ordinal) (hP : KeepsNul P.toPlatform)
    {a b v₀ v₁ : VARIANT} (ha : t.Converts P ordinal a v₀) (hb : t.Converts P ordinal b v₁)
    (copyData : Bool) :
    t.Between P ordinal a b copyData = t.Between P ordinal b a copyData := by
  rw [Between_eq ha hb h, Between_eq hb ha h]
  refine select_congr fun row hrow ↦ ?_
  by_cases hgt : 0 < gt P.toComparingPlatform t.m_bDataCaseSensitive v₀ v₁
  · simp only [if_pos hgt, if_neg (not_gt_gt hP ha.valueOf hb.valueOf hgt)]
  · by_cases hlt : 0 < gt P.toComparingPlatform t.m_bDataCaseSensitive v₁ v₀
    · simp only [if_neg hgt, if_pos hlt]
    · simp only [if_neg hgt, if_neg hlt, decide_eq_decide]
      exact ⟨compareBetween_swap h hP ha.valueOf hb.valueOf hgt hlt hrow,
        compareBetween_swap h hP hb.valueOf ha.valueOf hlt hgt hrow⟩

/-! ### The algebra of the queries -/

/-- **The query algebra**, for a list of values, a value, and two bounds: `In` and `NotIn` split the
rows that are not null in the column, `Find` for equal and not equal is `In` and `NotIn` of the
value, `Between` has the rows between its bounds in either order, and no query changes the table. -/
structure QueryAlgebra (t : CTable) (P : QueryPlatform) (ordinal : ℕ) (vs : List VARIANT)
    (v a b : VARIANT) (copyData : Bool) : Prop where
  res_eq : (t.In P ordinal vs copyData).res = 1 ∧ (t.NotIn P ordinal vs copyData).res = 1 ∧
    (t.Between P ordinal a b copyData).res = 1
  split : ∃ p : CRow → Bool,
    (t.In P ordinal vs copyData).tbl.rows = (t.nonNull ordinal).filter p ∧
      (t.NotIn P ordinal vs copyData).tbl.rows = (t.nonNull ordinal).filter fun row ↦ !p row
  find_equal : t.Find P ordinal .equal v copyData = t.In P ordinal [v] copyData
  find_not_equal : t.Find P ordinal .not_equal v copyData = t.NotIn P ordinal [v] copyData
  between_comm : t.Between P ordinal a b copyData = t.Between P ordinal b a copyData
  between_rows : (t.Between P ordinal a b copyData).tbl.rows =
    ((t.Find P ordinal .great_equal (t.smaller P ordinal a b) copyData).tbl.Find P ordinal
      .less_equal (t.greater P ordinal a b) copyData).tbl.rows
  mem_between : ∀ row, row ∈ (t.Between P ordinal a b copyData).tbl.rows ↔
    row ∈ (t.Find P ordinal .great_equal (t.smaller P ordinal a b) copyData).tbl.rows ∧
      row ∈ (t.Find P ordinal .less_equal (t.greater P ordinal a b) copyData).tbl.rows
  source_eq : (t.In P ordinal vs copyData).source = t ∧ (t.NotIn P ordinal vs copyData).source = t ∧
    (t.Between P ordinal a b copyData).source = t ∧
    ∀ op, op ≠ .is_null → (t.Find P ordinal op v copyData).source = t

/-- The rows that a query selected are a column again. -/
theorem ComparableColumn.select (h : t.ComparableColumn ordinal) (copyData : Bool)
    (p : CRow → Bool) : (t.select copyData p).tbl.ComparableColumn ordinal := by
  have hmem {row : CRow} (hrow : row ∈ (t.select copyData p).tbl.rows) : row ∈ t.rows := by
    rw [h.select_rows] at hrow
    exact List.mem_of_mem_filter hrow
  exact
    { ordinal_lt := h.ordinal_lt
      width := fun row hrow ↦ h.width row (hmem hrow)
      vt_eq := fun row hrow ↦ h.vt_eq row (hmem hrow)
      complete := fun row hrow ↦ h.complete row (hmem hrow)
      supported := fun row hrow ↦ h.supported row (hmem hrow) }

theorem filter_eq_filter_iff {α : Type} {p q : α → Bool} {l : List α} :
    l.filter p = l.filter q ↔ ∀ a ∈ l, p a = q a := by
  refine ⟨fun heq a ha ↦ ?_, List.filter_congr⟩
  rw [Bool.eq_iff_iff]
  constructor
  · exact fun hp ↦ (List.mem_filter.1 (heq ▸ List.mem_filter.2 ⟨ha, hp⟩)).2
  · exact fun hq ↦ (List.mem_filter.1 (heq ▸ List.mem_filter.2 ⟨ha, hq⟩)).2

/-- `Find` for equal is `In` of the value. -/
theorem Find_equal_eq (h : t.ComparableColumn ordinal) {v w : VARIANT}
    (hv : t.Converts P ordinal v w) (copyData : Bool) :
    t.Find P ordinal .equal v copyData = t.In P ordinal [v] copyData := by
  rw [Find_eq h.ordinal_lt (by decide) hv (h.compareBy_nonneg hv.valueOf _),
    In_eq h.ordinal_lt (mapM_singleton hv)]
  refine select_congr fun row _ ↦ ?_
  rw [List.any_cons, List.any_nil, Bool.or_false]
  rfl

/-- **`Find` for not equal is `NotIn` of the value** exactly where truth values that are both true
have the same encoding. -/
theorem Find_not_equal_iff (h : t.ComparableColumn ordinal) {v w : VARIANT}
    (hv : t.Converts P ordinal v w) (copyData : Bool) :
    t.Find P ordinal .not_equal v copyData = t.NotIn P ordinal [v] copyData ↔
      ∀ row ∈ t.rows, ¬ isNull (cellAt ordinal row) → SameEncoding (cellAt ordinal row) w := by
  have hrows : t.Find P ordinal .not_equal v copyData = t.NotIn P ordinal [v] copyData ↔
      ∀ row ∈ t.rows, decide (0 < t.compareBy P .not_equal (cellAt ordinal row) w) =
        (decide (VT_NULL < (cellAt ordinal row).vt) && !t.inValues P [w] (cellAt ordinal row)) := by
    rw [Find_eq h.ordinal_lt (by decide) hv (h.compareBy_nonneg hv.valueOf _),
      NotIn_eq h.ordinal_lt (mapM_singleton hv), ← filter_eq_filter_iff]
    constructor
    · intro heq
      have := congrArg (fun answer ↦ answer.tbl.rows) heq
      rwa [h.select_rows, h.select_rows] at this
    · intro heq
      rw [CTable.select, heq, CTable.select]
  rw [hrows]
  refine forall₂_congr fun row hrow ↦ ?_
  by_cases hn : isNull (cellAt ordinal row)
  · refine iff_of_true ?_ fun hne ↦ absurd hn hne
    have hle : ¬ VT_NULL < (cellAt ordinal row).vt := not_lt.2 hn
    have hzero : t.compareBy P .not_equal (cellAt ordinal row) w = 0 := compareWith_of_isNull hn
    rw [hzero, decide_eq_false hle]
    rfl
  · have hpair := (h.valueOf hrow hn).comparedPair hv.valueOf P.toComparingPlatform
    rw [← @ComparedPair.neq_pos_iff P.toComparingPlatform t.m_bDataCaseSensitive _ _ hpair,
      h.inValues_eq hrow hn (List.forall_mem_singleton.2 hv.valueOf), decide_eq_true (not_le.1 hn),
      Bool.true_and, List.any_cons, List.any_nil, Bool.or_false, Bool.eq_iff_iff,
      decide_eq_true_iff, Bool.not_eq_true', decide_eq_false_iff_not]
    exact ⟨fun hiff _ ↦ hiff, fun hiff ↦ hiff hn⟩

/-- `In` and `NotIn` of a list of values that convert. -/
theorem In_NotIn_split (h : t.ComparableColumn ordinal) {vs ws : List VARIANT}
    (hws : vs.mapM (changeType P (t.columnType ordinal)) = some ws)
    (hvalues : ∀ w ∈ ws, ValueOf (t.columnType ordinal) w) (copyData : Bool) :
    ∃ p : CRow → Bool,
      (t.In P ordinal vs copyData).tbl.rows = (t.nonNull ordinal).filter p ∧
        (t.NotIn P ordinal vs copyData).tbl.rows = (t.nonNull ordinal).filter fun row ↦ !p row := by
  refine ⟨fun row ↦ ws.any fun w ↦
    0 < eq P.toPlatform t.m_bDataCaseSensitive (cellAt ordinal row) w, ?_, ?_⟩
  · rw [In_eq h.ordinal_lt hws, h.select_rows, nonNull, List.filter_filter]
    refine List.filter_congr fun row _ ↦ ?_
    by_cases hn : isNull (cellAt ordinal row)
    · have hnone : (ws.any fun w ↦
          0 < eq P.toPlatform t.m_bDataCaseSensitive (cellAt ordinal row) w) = false :=
        List.any_eq_false.2 fun w _ ↦ by simp [eq_of_isNull hn]
      rw [hnone, Bool.false_and]
    · rw [decide_eq_true (not_le.1 hn), Bool.and_true]
  · rw [NotIn_eq h.ordinal_lt hws, h.select_rows, nonNull, List.filter_filter]
    refine List.filter_congr fun row hrow ↦ ?_
    by_cases hn : isNull (cellAt ordinal row)
    · have hle : ¬ VT_NULL < (cellAt ordinal row).vt := not_lt.2 hn
      rw [decide_eq_false hle, Bool.false_and, Bool.and_false]
    · rw [h.inValues_eq hrow hn hvalues, Bool.and_comm]

/-- **When the query algebra holds**: for every comparable column and all values that convert to its
type, exactly if the truth values in the column that are as true as the value have its encoding. -/
theorem query_algebra_iff (h : t.ComparableColumn ordinal) (hP : KeepsNul P.toPlatform)
    {vs : List VARIANT} (hvs : ∀ v ∈ vs, ∃ w, t.Converts P ordinal v w) {v w a v₀ b v₁ : VARIANT}
    (hv : t.Converts P ordinal v w) (ha : t.Converts P ordinal a v₀)
    (hb : t.Converts P ordinal b v₁) (copyData : Bool) :
    t.QueryAlgebra P ordinal vs v a b copyData ↔
      ∀ row ∈ t.rows, ¬ isNull (cellAt ordinal row) → SameEncoding (cellAt ordinal row) w := by
  refine ⟨fun halgebra ↦ (Find_not_equal_iff h hv copyData).1 halgebra.find_not_equal,
    fun hencoding ↦ ?_⟩
  obtain ⟨ws, hws, hvalues⟩ := mapM_changeType hvs
  have hIn := In_eq h.ordinal_lt hws copyData
  have hNotIn := NotIn_eq h.ordinal_lt hws copyData
  have hBetween := Between_eq ha hb h copyData
  have hsmaller := smaller_converts ha hb
  have hgreater := greater_converts ha hb
  have hge := Find_eq h.ordinal_lt (by decide) hsmaller
    (h.compareBy_nonneg hsmaller.valueOf .great_equal) copyData
  have hle := Find_eq h.ordinal_lt (by decide) hgreater
    (h.compareBy_nonneg hgreater.valueOf .less_equal) copyData
  refine
    { res_eq := by rw [hIn, hNotIn, hBetween]; exact ⟨rfl, rfl, rfl⟩
      split := In_NotIn_split h hws hvalues copyData
      find_equal := Find_equal_eq h hv copyData
      find_not_equal := (Find_not_equal_iff h hv copyData).2 hencoding
      between_comm := Between_comm h hP ha hb copyData
      between_rows := ?_
      mem_between := ?_
      source_eq := ?_ }
  · rw [hBetween, hge]
    have hcolumn := h.select copyData fun row ↦ 0 < t.compareBy P .great_equal (cellAt ordinal row)
      (if 0 < gt P.toComparingPlatform t.m_bDataCaseSensitive v₀ v₁ then v₁ else v₀)
    rw [Find_eq hcolumn.ordinal_lt (by decide)
      ⟨hgreater.not_isNull, hgreater.changeType_eq, hgreater.valueOf⟩
      (hcolumn.compareBy_nonneg hgreater.valueOf .less_equal), hcolumn.select_rows,
      h.select_rows, h.select_rows, List.filter_filter]
    refine List.filter_congr fun row _ ↦ ?_
    rw [Bool.eq_iff_iff, Bool.and_eq_true, decide_eq_true_iff, decide_eq_true_iff,
      decide_eq_true_iff, compareBetween_pos_iff, and_comm]
    rfl
  · intro row
    rw [hBetween, hge, hle, h.select_rows, h.select_rows, h.select_rows, List.mem_filter,
      List.mem_filter, List.mem_filter, decide_eq_true_iff, decide_eq_true_iff, decide_eq_true_iff,
      compareBetween_pos_iff, and_and_left]
    rfl
  · rw [hIn, hNotIn, hBetween]
    refine ⟨rfl, rfl, rfl, fun op hop ↦ ?_⟩
    rw [Find_eq h.ordinal_lt hop hv (h.compareBy_nonneg hv.valueOf _)]
    rfl

end CTable

/-- A platform that leaves values of the right type as they are, and converts no others. -/
def keepingPlatform : QueryPlatform where
  toComparingPlatform := plainPlatform
  changesType v vt := v.vt = vt

/-- A table with one column of truth values. -/
def bools (rows : List CRow) : CTable where
  columns := [{ DBPath := [], TablePath := [], Flags := 0, DataType := ScalarVT.BOOL.vt }]
  rows := rows
  m_bDataCaseSensitive := true

/-- True, null and false. -/
theorem query_algebra_bools :
    (bools [[.scalar .BOOL [0xff, 0xff]], [.null], [.scalar .BOOL [0, 0]]]).QueryAlgebra
      keepingPlatform 0 [.scalar .BOOL [0xff, 0xff]] (.scalar .BOOL [0xff, 0xff])
      (.scalar .BOOL [0, 0]) (.scalar .BOOL [0xff, 0xff]) false :=
  have hfalse : (bools [[.scalar .BOOL [0xff, 0xff]], [.null], [.scalar .BOOL [0, 0]]]).Converts
      keepingPlatform 0 (.scalar .BOOL [0, 0]) (.scalar .BOOL [0, 0]) :=
    ⟨by decide, rfl, rfl, rfl, by decide⟩
  have htrue : (bools [[.scalar .BOOL [0xff, 0xff]], [.null], [.scalar .BOOL [0, 0]]]).Converts
      keepingPlatform 0 (.scalar .BOOL [0xff, 0xff]) (.scalar .BOOL [0xff, 0xff]) :=
    ⟨by decide, rfl, rfl, rfl, by decide⟩
  (CTable.query_algebra_iff
    { ordinal_lt := by decide
      width := by decide
      vt_eq := by decide
      complete := by decide
      supported := by decide }
    (fun _ ↦ Iff.rfl) (List.forall_mem_singleton.2 ⟨_, htrue⟩) htrue hfalse htrue false).2
    (List.forall_mem_cons.2 ⟨fun _ _ ↦ rfl, List.forall_mem_cons.2
      ⟨fun hn ↦ absurd (by decide) hn, List.forall_mem_singleton.2
        fun _ htruth ↦ absurd htruth (by decide)⟩⟩)

/-- The encoding 1 of true is not unequal to -1 in `NotIn`, and is in `Find`. -/
theorem not_query_algebra :
    ¬ (bools [[.scalar .BOOL [1, 0]]]).QueryAlgebra keepingPlatform 0 [.scalar .BOOL [0xff, 0xff]]
      (.scalar .BOOL [0xff, 0xff]) (.scalar .BOOL [0, 0]) (.scalar .BOOL [0xff, 0xff]) false := by
  intro h
  have hlength := congrArg (fun answer ↦ answer.tbl.rows.length) h.find_not_equal
  exact absurd hlength (by decide +kernel)

end SocketPro.TableCache
