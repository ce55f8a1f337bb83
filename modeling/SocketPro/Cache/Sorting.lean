import SocketPro.Cache.OrderKeys
import SocketPro.Foundation.WeakOrder

/-!
# Sorting a table

`CTable::Sort` hands the rows to `std::sort`, with a comparator that puts null in front, or behind
everything else, and compares other values with `lt` or `gt`. The sorting function is a parameter;
what it promises of a comparator that is a strict weak order is `WeakOrder.IsSort`.

**The comparator is such an order exactly if no value is without a key**, or there is nothing to
compare (`sort_sorts_iff`): a value that compares with nothing, a NaN for instance, is equivalent to
two values that are not equivalent to each other. Columns of integers, dates, texts and truth values
have no such values (`sortable_of_plain`).
-/

namespace SocketPro.TableCache

open Buffer WeakOrder

abbrev BAD_ORDINAL : ℤ := -1

/-- The comparator of `CTable::Sort`, on the values of the column. -/
def sortLess (P : ComparingPlatform) (caseSensitive desc : Bool) (va vb : VARIANT) : Bool :=
  if vb.vt ≤ VT_NULL ∧ va.vt ≤ VT_NULL then false
  else if desc then
    if vb.vt ≤ VT_NULL then true
    else if va.vt ≤ VT_NULL then false
    else 0 < gt P caseSensitive va vb
  else if va.vt ≤ VT_NULL then true
  else if vb.vt ≤ VT_NULL then false
  else 0 < lt P caseSensitive va vb

/-- `CTable::Sort`. -/
def CTable.Sort (t : CTable) (sort : (CRow → CRow → Bool) → List CRow → List CRow)
    (P : ComparingPlatform) (ordinal : ℕ) (desc : Bool) : ℤ × CTable :=
  if t.columns.length ≤ ordinal then (BAD_ORDINAL, t)
  else
    let less (a b : CRow) :=
      sortLess P t.m_bDataCaseSensitive desc (cellAt ordinal a) (cellAt ordinal b)
    (1, { t with rows := sort less t.rows })

/-- The values of a column. -/
def CTable.cells (t : CTable) (ordinal : ℕ) : List VARIANT := t.rows.map (cellAt ordinal)

def isNull (v : VARIANT) : Prop := v.vt ≤ VT_NULL

instance : DecidablePred isNull := fun v ↦ inferInstanceAs (Decidable (v.vt ≤ VT_NULL))

/-- **`Sort` is a sort**: the comparator is a strict weak order on the values of the column in both
directions, the result consists of the rows of the table, with null together in front or at the end,
and no row compares before an earlier one. -/
structure CTable.Sorts (t : CTable) (sort : (CRow → CRow → Bool) → List CRow → List CRow)
    (P : ComparingPlatform) (ordinal : ℕ) : Prop where
  strictWeakOn : ∀ desc, StrictWeakOn (fun va vb ↦ sortLess P t.m_bDataCaseSensitive desc va vb)
    (valuesOf (t.cells ordinal))
  res_eq : ∀ desc, (t.Sort sort P ordinal desc).1 = 1
  perm : ∀ desc, (t.Sort sort P ordinal desc).2.rows.Perm t.rows
  nulls_first : ∃ nulls others, (t.Sort sort P ordinal false).2.rows = nulls ++ others ∧
    (∀ row ∈ nulls, isNull (cellAt ordinal row)) ∧ ∀ row ∈ others, ¬ isNull (cellAt ordinal row)
  nulls_last : ∃ others nulls, (t.Sort sort P ordinal true).2.rows = others ++ nulls ∧
    (∀ row ∈ others, ¬ isNull (cellAt ordinal row)) ∧ ∀ row ∈ nulls, isNull (cellAt ordinal row)
  ordered : ∀ desc, (t.Sort sort P ordinal desc).2.rows.Pairwise fun a b ↦
    ¬ sortLess P t.m_bDataCaseSensitive desc (cellAt ordinal b) (cellAt ordinal a)

/-- The condition: every value other than null has a key, or those that have one have the same. -/
def CTable.Sortable (t : CTable) (P : ComparingPlatform) (ordinal : ℕ) : Prop :=
  (∀ v ∈ t.cells ordinal, ¬ isNull v → (orderKey P.toPlatform t.m_bDataCaseSensitive v).isSome) ∨
    ∀ v ∈ t.cells ordinal, ∀ w ∈ t.cells ordinal,
      ∀ x ∈ orderKey P.toPlatform t.m_bDataCaseSensitive v,
        ∀ y ∈ orderKey P.toPlatform t.m_bDataCaseSensitive w, x = y

/-! ### The comparator -/

/-- Ascending, the comparator puts null in front of what `lt` orders. -/
theorem sortLess_asc (P : ComparingPlatform) (caseSensitive : Bool) (va vb : VARIANT) :
    sortLess P caseSensitive false va vb = true ↔
      first isNull (fun a b ↦ 0 < lt P caseSensitive a b) va vb := by
  by_cases ha : va.vt ≤ VT_NULL <;> by_cases hb : vb.vt ≤ VT_NULL <;>
    simp [sortLess, first, isNull, ha, hb]

/-- Descending, it is the other way round with what `gt` orders. -/
theorem sortLess_desc (P : ComparingPlatform) (caseSensitive : Bool) (va vb : VARIANT) :
    sortLess P caseSensitive true va vb = true ↔
      first isNull (fun a b ↦ 0 < gt P caseSensitive b a) vb va := by
  by_cases ha : va.vt ≤ VT_NULL <;> by_cases hb : vb.vt ≤ VT_NULL <;>
    simp [sortLess, first, isNull, ha, hb]

/-- Null has no key. -/
theorem not_isNull_of_mem_orderKey {P : Platform} {caseSensitive : Bool} {v : VARIANT}
    {x : List ℤ} (h : x ∈ orderKey P caseSensitive v) : ¬ isNull v := by
  cases v with
  | scalar t raw =>
    show ¬ t.vt ≤ VT_NULL
    cases t <;> decide
  | bstr s => exact (by decide : ¬ VT_BSTR ≤ VT_NULL)
  | scalarArray t n data =>
    have hlt : VT_NULL < VT_ARRAY + t.vt := Nat.lt_add_right _ (by decide)
    exact hlt.not_ge
  | _ => cases h

section Column

variable {t : CTable} {P : ComparingPlatform} {ordinal : ℕ}

/-- In a column, `lt` and `gt` are the order of the keys, one the other way round. -/
theorem CTable.TypedColumn.lt_iff_byKey (h : t.TypedColumn ordinal) (hP : KeepsNul P.toPlatform)
    {v w : VARIANT} (hv : v ∈ t.cells ordinal) (hw : w ∈ t.cells ordinal) (hnv : ¬ isNull v)
    (hnw : ¬ isNull w) :
    (0 < lt P t.m_bDataCaseSensitive v w ↔
      byKey (orderKey P.toPlatform t.m_bDataCaseSensitive) v w) ∧
    (0 < gt P t.m_bDataCaseSensitive w v ↔
      byKey (orderKey P.toPlatform t.m_bDataCaseSensitive) v w) := by
  obtain ⟨row, hrow, rfl⟩ := List.mem_map.1 hv
  obtain ⟨row', hrow', rfl⟩ := List.mem_map.1 hw
  have hvt : (cellAt ordinal row).vt = (cellAt ordinal row').vt :=
    (h.vt_eq row hrow (not_le.1 hnv)).trans (h.vt_eq row' hrow' (not_le.1 hnw)).symm
  constructor
  · exact compareWith_pos_iff (by decide) hP hnv hvt (h.complete row hrow) (h.complete row' hrow')
  · refine (compareWith_pos_iff (by decide) hP hnw hvt.symm (h.complete row' hrow')
      (h.complete row hrow)).trans ?_
    exact ⟨fun ⟨y, hy, x, hx, hlt⟩ ↦ ⟨x, hx, y, hy, hlt⟩,
      fun ⟨x, hx, y, hy, hlt⟩ ↦ ⟨y, hy, x, hx, hlt⟩⟩

/-- In a column, the comparator puts null in front of the order of the keys, or is that order the
other way round. -/
theorem CTable.TypedColumn.sortLess_iff (h : t.TypedColumn ordinal) (hP : KeepsNul P.toPlatform)
    {v w : VARIANT} (hv : v ∈ t.cells ordinal) (hw : w ∈ t.cells ordinal) :
    (sortLess P t.m_bDataCaseSensitive false v w = true ↔
      first isNull (byKey (orderKey P.toPlatform t.m_bDataCaseSensitive)) v w) ∧
    (sortLess P t.m_bDataCaseSensitive true v w = true ↔
      first isNull (byKey (orderKey P.toPlatform t.m_bDataCaseSensitive)) w v) := by
  rw [sortLess_asc, sortLess_desc]
  constructor
  · refine and_congr_right fun hnw ↦ or_congr_right' fun hnv ↦ ?_
    exact (h.lt_iff_byKey hP hv hw hnv hnw).1
  · refine and_congr_right fun hnv ↦ or_congr_right' fun hnw ↦ ?_
    exact (h.lt_iff_byKey hP hw hv hnw hnv).2

/-- **The comparator is a strict weak order exactly under the condition**, in both directions. -/
theorem CTable.TypedColumn.strictWeakOn_iff (h : t.TypedColumn ordinal)
    (hP : KeepsNul P.toPlatform) (desc : Bool) :
    StrictWeakOn (fun va vb ↦ sortLess P t.m_bDataCaseSensitive desc va vb)
      (valuesOf (t.cells ordinal)) ↔ t.Sortable P ordinal := by
  have hdirection : StrictWeakOn (fun va vb ↦ sortLess P t.m_bDataCaseSensitive desc va vb)
      (valuesOf (t.cells ordinal)) ↔
        StrictWeakOn (first isNull (byKey (orderKey P.toPlatform t.m_bDataCaseSensitive)))
          (valuesOf (t.cells ordinal)) := by
    cases desc with
    | false => exact strictWeakOn_congr fun v hv w hw ↦ (h.sortLess_iff hP hv hw).1
    | true =>
      rw [← strictWeakOn_swap_iff]
      exact strictWeakOn_congr fun v hv w hw ↦ (h.sortLess_iff hP hw hv).2
  rw [hdirection, strictWeakOn_first_iff, strictWeakOn_byKey_iff]
  refine or_congr ⟨fun h v hv hn ↦ h v ⟨hv, hn⟩, fun h v hv ↦ h v hv.1 hv.2⟩ ⟨?_, ?_⟩
  · intro hnone v hv w hw x hx y hy
    have hv' := And.intro hv (not_isNull_of_mem_orderKey hx)
    have hw' := And.intro hw (not_isNull_of_mem_orderKey hy)
    exact le_antisymm (not_lt.1 fun hlt ↦ hnone w hw' v hv' ⟨y, hy, x, hx, hlt⟩)
      (not_lt.1 fun hlt ↦ hnone v hv' w hw' ⟨x, hx, y, hy, hlt⟩)
  · rintro hsame v ⟨hv, -⟩ w ⟨hw, -⟩ ⟨x, hx, y, hy, hlt⟩
    exact hlt.ne (hsame v hv w hw x hx y hy)

/-- The comparator on the rows. -/
theorem StrictWeakOn.rows {r : VARIANT → VARIANT → Prop}
    (h : StrictWeakOn r (valuesOf (t.cells ordinal))) :
    StrictWeakOn (fun a b ↦ r (cellAt ordinal a) (cellAt ordinal b)) (valuesOf t.rows) :=
  have : IsStrictWeakOrder (valuesOf (t.cells ordinal)) (Order.Preimage Subtype.val r) := h
  Order.Preimage.instIsStrictWeakOrder (r := Order.Preimage Subtype.val r)
    (f := fun row : valuesOf t.rows ↦
      (⟨cellAt ordinal row, List.mem_map_of_mem row.2⟩ : valuesOf (t.cells ordinal)))

/-- **When `Sort` is a sort**, for every table and column, and every sorting function that keeps its
promise. -/
theorem sort_sorts_iff {sort : (CRow → CRow → Bool) → List CRow → List CRow} (hsort : IsSort sort)
    (hP : KeepsNul P.toPlatform) (h : t.TypedColumn ordinal) :
    t.Sorts sort P ordinal ↔ t.Sortable P ordinal := by
  refine ⟨fun hsorts ↦ (h.strictWeakOn_iff hP true).1 (hsorts.strictWeakOn true), fun hsortable ↦ ?_⟩
  have hweak desc := (h.strictWeakOn_iff hP desc).2 hsortable
  have hdone desc := hsort _ _ (StrictWeakOn.rows (hweak desc))
  have hrun (desc : Bool) : t.Sort sort P ordinal desc = (1, { t with rows := sort (fun a b ↦
      sortLess P t.m_bDataCaseSensitive desc (cellAt ordinal a) (cellAt ordinal b)) t.rows }) :=
    if_neg (not_le.2 h.ordinal_lt)
  refine ⟨hweak, fun desc ↦ ?_, fun desc ↦ ?_, ?_, ?_, fun desc ↦ ?_⟩
  · rw [hrun]
  · rw [hrun]
    exact (hdone desc).1
  · rw [hrun]
    refine exists_append_of_pairwise ((hdone false).2.imp fun {a b} hless hb ↦ ?_)
    by_contra ha
    exact Bool.eq_false_iff.1 hless ((sortLess_asc P _ _ _).2 ⟨ha, .inl hb⟩)
  · rw [hrun]
    obtain ⟨others, nulls, heq, hothers, hnulls⟩ :=
      exists_append_of_pairwise (p := fun row ↦ ¬ isNull (cellAt ordinal row))
        ((hdone true).2.imp fun {a b} hless hb ha ↦
          Bool.eq_false_iff.1 hless ((sortLess_desc P _ _ _).2 ⟨hb, .inl ha⟩))
    exact ⟨others, nulls, heq, hothers, fun row hrow ↦ not_not.1 (hnulls row hrow)⟩
  · rw [hrun]
    exact (hdone desc).2.imp fun hless ↦ Bool.eq_false_iff.1 hless

end Column

/-- A table with one column of doubles. -/
def doubles (rows : List CRow) : CTable where
  columns := [{ DBPath := [], TablePath := [], Flags := 0, DataType := ScalarVT.R8.vt }]
  rows := rows
  m_bDataCaseSensitive := true

/-- 2, null and 1. -/
theorem sort_sorts_doubles :
    (doubles [[.scalar .R8 [0, 0, 0, 0, 0, 0, 0, 0x40]], [.null],
      [.scalar .R8 [0, 0, 0, 0, 0, 0, 0xf0, 0x3f]]]).Sorts mergeSort plainPlatform 0 :=
  (sort_sorts_iff isSort_mergeSort (fun _ ↦ Iff.rfl)
    ⟨by decide, by decide, by decide, by decide⟩).2 (.inl (by decide +kernel))

/-- 1, NaN and 2: NaN is equivalent to the two others. -/
theorem not_sort_sorts :
    ¬ (doubles [[.scalar .R8 [0, 0, 0, 0, 0, 0, 0xf0, 0x3f]],
      [.scalar .R8 [0, 0, 0, 0, 0, 0, 0xf8, 0x7f]],
      [.scalar .R8 [0, 0, 0, 0, 0, 0, 0, 0x40]]]).Sorts mergeSort plainPlatform 0 := by
  intro h
  have hweak := h.strictWeakOn false
  let one : VARIANT := .scalar .R8 [0, 0, 0, 0, 0, 0, 0xf0, 0x3f]
  let nan : VARIANT := .scalar .R8 [0, 0, 0, 0, 0, 0, 0xf8, 0x7f]
  let two : VARIANT := .scalar .R8 [0, 0, 0, 0, 0, 0, 0, 0x40]
  have hincomparable := hweak.incomp_trans ⟨one, .head _⟩ ⟨nan, .tail _ (.head _)⟩
    ⟨two, .tail _ (.tail _ (.head _))⟩
  exact (hincomparable (by decide +kernel) (by decide +kernel)).1 (by decide +kernel)

end SocketPro.TableCache
