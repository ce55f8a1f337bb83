import SocketPro.Cache.DataSet

/-!
# Texts in the table cache

A text arrives as a UTF-16 string or as an array of UTF-8 characters, and a column of texts may be
declared either way; the cache is to hold UTF-16 strings. The two functions `AddRows` and
`UpdateARow` see to it in two different places: `cell` looks at the type of the column, `eventCell`
at that of the value.

**Each forgets the other half** (`cell_eq_iff`, `eventCell_eq_iff`): `AddRows(.., vData)` hands a
UTF-8 text to `VariantChangeType`, which does not convert arrays, and the other two ask it for an
array when a UTF-16 text is in a column declared as UTF-8. Either way the cell becomes empty.
-/

namespace SocketPro.TableCache

open Buffer

/-- A column of texts. -/
def CDBColumnInfo.isText (col : CDBColumnInfo) : Prop :=
  col.DataType = VT_BSTR ∨ col.DataType = VT_ASCII

/-- A value that arrives for a column: a null, a text in either form for a column of texts, or a
value of another type, that of the column. -/
inductive Arrives (col : CDBColumnInfo) : VARIANT → Prop
  | empty : Arrives col .empty
  | null : Arrives col .null
  | utf16 (s : List UInt16) (h : col.isText) : Arrives col (.bstr (some s))
  | utf8 {n : ℕ} (s : List UInt8) (hlen : s.length = n) (h : col.isText) :
      Arrives col (.scalarArray .I1 n s)
  | other {vt : VARIANT} (h : vt.vt = col.DataType) (htext : ¬ col.isText)
      (hnull : VT_NULL < vt.vt) : Arrives col vt

/-- What is to be stored: a null for a null, the text as a UTF-16 string, and every other value as
it is. -/
def storedCell (P : Platform) (col : CDBColumnInfo) (vt : VARIANT) : VARIANT :=
  match vt with
  | .empty => if col.DataType = VT_EMPTY then .empty else .null
  | .null => .null
  | .scalarArray .I1 _ s => .bstr (some (P.ToBSTR s))
  | _ => vt

/-- `VariantChangeType` of `membuffer.cpp` has no case for an array of characters, neither as a
source for a string nor as a target. -/
structure LeavesArrays (P : Platform) : Prop where
  from_utf8 : ∀ n s, P.VariantChangeType (.scalarArray .I1 n s) VT_BSTR = .empty
  to_utf8 : ∀ s, P.VariantChangeType (.bstr s) VT_ASCII = .empty

variable {P : Platform} {col : CDBColumnInfo} {vt : VARIANT}

theorem CDBColumnInfo.isText.tableType (h : col.isText) : tableType col.DataType = VT_BSTR := by
  rcases h with h | h <;> rw [h] <;> decide

theorem tableType_of_not_text (h : ¬ col.isText) : tableType col.DataType = col.DataType :=
  if_neg fun hascii ↦ h (.inr hascii)

/-- What is neither null nor an array of characters is stored as it is. -/
theorem storedCell_other (hascii : vt.vt ≠ VT_ASCII) (hnull : VT_NULL < vt.vt) :
    storedCell P col vt = vt := by
  cases vt with
  | empty => exact absurd hnull (by decide)
  | null => exact absurd hnull (by decide)
  | scalarArray t n s =>
    cases t with
    | I1 => exact absurd rfl hascii
    | _ => rfl
  | _ => rfl

theorem eventCell_other (hascii : vt.vt ≠ VT_ASCII) :
    eventCell P col vt = convert P vt col.DataType := by
  cases vt with
  | scalarArray t n s =>
    cases t with
    | I1 => exact absurd rfl hascii
    | _ => rfl
  | _ => rfl

theorem tableType_eq_empty : VT_EMPTY = tableType col.DataType ↔ col.DataType = VT_EMPTY := by
  unfold tableType
  split_ifs with h
  · rw [h]
    decide
  · exact eq_comm

/-- **The value is looked at by its column**: `AddRows(.., vData)` loses the texts that arrive as
UTF-8. -/
theorem cell_eq_iff (hP : LeavesArrays P) (h : Arrives col vt) :
    cell P col vt = storedCell P col vt ↔ vt.vt ≠ VT_ASCII := by
  cases h with
  | empty =>
    refine iff_of_true ?_ (by decide)
    have hempty : VARIANT.empty.vt = VT_EMPTY := rfl
    simp only [cell, convert, hempty, tableType_eq_empty, storedCell]
  | null =>
    refine iff_of_true ?_ (by decide)
    simp only [cell, convert, storedCell, ite_self]
  | utf16 s htext =>
    exact iff_of_true (convert_self htext.tableType.symm) (show VT_BSTR ≠ VT_ASCII by decide)
  | @utf8 n s hlen htext =>
    refine iff_of_false ?_ (not_not.2 rfl)
    have hlost : cell P col (.scalarArray .I1 n s) = .empty := by
      rw [cell, htext.tableType]
      exact hP.from_utf8 n s
    rw [hlost]
    exact VARIANT.noConfusion
  | other hvt htext hnull =>
    have hne : vt.vt ≠ VT_ASCII := fun hascii ↦ htext (.inr (hvt.symm.trans hascii))
    refine iff_of_true ?_ hne
    rw [cell, tableType_of_not_text htext, convert_self hvt]
    exact (storedCell_other hne hnull).symm

/-- **The value is looked at by its own type**: `AddRows(.., pvt, count)` and `UpdateARow` lose the
texts that arrive as UTF-16 strings for a column declared as UTF-8. -/
theorem eventCell_eq_iff (hP : LeavesArrays P) (h : Arrives col vt) :
    eventCell P col vt = storedCell P col vt ↔ ¬ (vt.vt = VT_BSTR ∧ col.DataType = VT_ASCII) := by
  have hno {vt : VARIANT} (hvt : vt.vt ≠ VT_BSTR) : ¬ (vt.vt = VT_BSTR ∧ col.DataType = VT_ASCII) :=
    fun hboth ↦ hvt hboth.1
  cases h with
  | empty =>
    refine iff_of_true ?_ (hno (by decide))
    have hempty : VARIANT.empty.vt = VT_EMPTY := rfl
    simp only [eventCell, convert, hempty, eq_comm (a := VT_EMPTY), storedCell]
  | null =>
    refine iff_of_true ?_ (hno (by decide))
    simp only [eventCell, convert, storedCell, ite_self]
  | utf16 s htext =>
    rcases htext with hbstr | hascii
    · refine iff_of_true (convert_self hbstr.symm) fun hboth ↦ ?_
      exact absurd (hbstr.symm.trans hboth.2) (by decide)
    · refine iff_of_false ?_ (not_not.2 ⟨rfl, hascii⟩)
      have hlost : eventCell P col (.bstr (some s)) = .empty := by
        have hvt : (VARIANT.bstr (some s)).vt ≠ VT_ASCII := show VT_BSTR ≠ VT_ASCII by decide
        rw [eventCell_other hvt, hascii]
        exact hP.to_utf8 (some s)
      rw [hlost]
      exact VARIANT.noConfusion
  | @utf8 n s hlen htext =>
    refine iff_of_true ?_ (hno (show VT_ASCII ≠ VT_BSTR by decide))
    show convert P (.bstr (some (P.ToBSTR s))) (tableType col.DataType) = _
    exact convert_self htext.tableType.symm
  | other hvt htext hnull =>
    have hascii : vt.vt ≠ VT_ASCII := fun h ↦ htext (.inr (hvt.symm.trans h))
    refine iff_of_true ?_ (hno fun h ↦ htext (.inl (hvt.symm.trans h)))
    rw [eventCell_other hascii, convert_self hvt, storedCell_other hascii hnull]

/-- A text arrives as a UTF-16 string, for a column that is declared so. -/
def ArrivesAsUTF16 (col : CDBColumnInfo) (vt : VARIANT) : Prop :=
  vt.vt = VT_BSTR ∨ vt.vt = VT_ASCII → vt.vt = VT_BSTR ∧ col.DataType = VT_BSTR

/-- Both halves together. -/
theorem both_eq_iff (hP : LeavesArrays P) (h : Arrives col vt) :
    cell P col vt = storedCell P col vt ∧ eventCell P col vt = storedCell P col vt ↔
      ArrivesAsUTF16 col vt := by
  rw [cell_eq_iff hP h, eventCell_eq_iff hP h]
  constructor
  · rintro ⟨hascii, hcolumn⟩ htext
    have hbstr : vt.vt = VT_BSTR := htext.resolve_right hascii
    refine ⟨hbstr, ?_⟩
    cases h with
    | utf16 s hs => exact hs.resolve_right fun h ↦ hcolumn ⟨hbstr, h⟩
    | empty => exact absurd hbstr (by decide)
    | null => exact absurd hbstr (by decide)
    | utf8 s hlen hs => exact absurd rfl hascii
    | other hvt hs hnull => exact absurd (.inl (hvt.symm.trans hbstr)) hs
  · intro hutf16
    refine ⟨fun hascii ↦ ?_, fun hboth ↦ ?_⟩
    · exact absurd (hascii.symm.trans (hutf16 (.inr hascii)).1) (by decide)
    · exact absurd (hboth.2.symm.trans (hutf16 (.inl hboth.1)).2) (by decide)

/-! ### Blocks of rows -/

/-- Two functions make the same of a row exactly if they make the same of each of its cells. -/
theorem zipWith_eq_zipWith_iff {α β γ : Type} {f g : α → β → γ} {as : List α} {bs : List β} :
    List.zipWith f as bs = List.zipWith g as bs ↔ ∀ p ∈ as.zip bs, f p.1 p.2 = g p.1 p.2 := by
  rw [← List.map_uncurry_zip_eq_zipWith, ← List.map_uncurry_zip_eq_zipWith, List.map_inj_left]
  rfl

namespace CTable

/-- Rows are added as they are. -/
def appendRows (rows : List CRow) (t : CTable) : ℕ × CTable :=
  (rows.length, { t with rows := t.rows ++ rows })

/-- The row that `UpdateARow` finds is overwritten with a given one. -/
def replaceRow (P : Platform) (pvt : List VARIANT) (row : CRow) (t : CTable) : ℕ × CTable :=
  let key (k : ℕ) := keyValue P t.columns k (pvt.getD (2 * k) .null)
  if pvt.length % t.columns.length ≠ 0 ∨ 2 * t.columns.length ≠ pvt.length then (INVALID_VALUE, t)
  else match findKeyColIndices t.columns 0 none with
    | (none, _) => (INVALID_VALUE, t)
    | (some key0, none) => t.overwriteRow P [key key0] row
    | (some key0, some key1) => t.overwriteRow P [key key0, key key1] row

theorem updateARow_eq (P : Platform) (pvt : List VARIANT) (t : CTable) :
    t.updateARow P pvt =
      t.replaceRow P pvt (List.zipWith (eventCell P) t.columns (newValues pvt)) := rfl

variable {t : CTable} {rows : List (List VARIANT)}

/-- A block of complete rows is added with the cells that are made of its values. -/
theorem addRows_flatten {stored : CDBColumnInfo → VARIANT → VARIANT} (hcolumns : 0 < t.columns.length)
    (h : ∀ row ∈ rows, row.length = t.columns.length) :
    t.addRows stored rows.flatten = t.appendRows (rows.map (List.zipWith stored t.columns)) := by
  have hlen := length_flatten_of_width h
  have hmod : ¬ rows.flatten.length % t.columns.length ≠ 0 := by
    rw [hlen, Nat.mul_mod_left]
    exact fun hne ↦ hne rfl
  rw [addRows, if_neg hmod, rowsOf_flatten hcolumns h, hlen, Nat.mul_div_cancel _ hcolumns,
    appendRows, List.length_map]

/-- Two ways to store a block agree exactly if they agree on each of its cells. -/
theorem addRows_eq_iff {stored stored' : CDBColumnInfo → VARIANT → VARIANT}
    (hcolumns : 0 < t.columns.length) (h : ∀ row ∈ rows, row.length = t.columns.length) :
    t.addRows stored rows.flatten =
        t.appendRows (rows.map (List.zipWith stored' t.columns)) ↔
      ∀ row ∈ rows, ∀ p ∈ t.columns.zip row, stored p.1 p.2 = stored' p.1 p.2 := by
  rw [addRows_flatten hcolumns h]
  simp only [appendRows, List.length_map, Prod.mk.injEq, true_and, CTable.mk.injEq,
    List.append_cancel_left_eq, and_true]
  rw [List.map_inj_left]
  exact forall₂_congr fun row _ ↦ zipWith_eq_zipWith_iff

end CTable

/-! ### Data sets -/

/-- What is done to the tables with given names depends on the first of them only. -/
theorem onFirst_eq_iff {α : Type} {found : α → Bool} {f g : α → ℕ × α} {ts : List α} {t : α}
    (h : ts.find? found = some t) :
    CDataSet.onFirst found f ts = CDataSet.onFirst found g ts ↔ f t = g t := by
  induction ts with
  | nil => cases h
  | cons u ts ih =>
    rw [CDataSet.onFirst, CDataSet.onFirst]
    by_cases hu : found u
    · rw [List.find?_cons_of_pos hu] at h
      obtain rfl := Option.some.inj h
      rw [if_pos hu, if_pos hu, Prod.mk.injEq, List.cons.injEq, and_iff_left rfl]
      exact Prod.ext_iff.symm
    · rw [List.find?_cons_of_neg hu] at h
      rw [if_neg hu, if_neg hu, Prod.mk.injEq, List.cons.injEq, and_iff_right rfl, ← ih h]
      exact Prod.ext_iff.symm

theorem onFirst_unchanged {α : Type} (found : α → Bool) (ts : List α) :
    CDataSet.onFirst found (fun t ↦ (0, t)) ts = (0, ts) := by
  induction ts with
  | nil => rfl
  | cons t ts ih => rw [CDataSet.onFirst, ih, ite_self]

/-- The first table with the given names. -/
def CDataSet.table? (P : Platform) (ds : CDataSet) (dbName tblName : List UInt16) : Option CTable :=
  ds.m_ds.find? fun t ↦
    is P ds.m_bDBNameCaseSensitive ds.m_bTableNameCaseSensitive t.columns dbName tblName

theorem onTable_eq_iff {ds : CDataSet} {dbName tblName : List UInt16} {t : CTable}
    {f g : CTable → ℕ × CTable} (h : ds.table? P dbName tblName = some t) :
    ds.onTable P dbName tblName f = ds.onTable P dbName tblName g ↔ f t = g t := by
  rw [← onFirst_eq_iff h]
  simp only [CDataSet.onTable, Prod.mk.injEq, CDataSet.mk.injEq, and_true]
  exact Prod.ext_iff.symm

/-- **No text is lost**: both functions `AddRows` add a block with each text as a UTF-16 string and
each null as a null, and `UpdateARow` makes these the cells of the row that it finds, for every row
of the block as its new values. -/
structure KeepsTexts (P : Platform) (ds : CDataSet) (dbName tblName : List UInt16) (t : CTable)
    (rows : List (List VARIANT)) : Prop where
  addRows : ds.addRows P dbName tblName rows.flatten = ds.onTable P dbName tblName
    (CTable.appendRows (rows.map (List.zipWith (storedCell P) t.columns)))
  addEventRows : ds.addEventRows P dbName tblName rows.flatten = ds.onTable P dbName tblName
    (CTable.appendRows (rows.map (List.zipWith (storedCell P) t.columns)))
  updateARow : ∀ pvt, pvt.length = 2 * t.columns.length → newValues pvt ∈ rows →
    ds.updateARow P dbName tblName pvt = ds.onTable P dbName tblName
      (CTable.replaceRow P pvt (List.zipWith (storedCell P) t.columns (newValues pvt)))

section Block

variable {ds : CDataSet} {dbName tblName : List UInt16} {t : CTable} {rows : List (List VARIANT)}

/-- Nothing is added for a block without values, whatever is said about it. -/
theorem addRows_block (stored : CDBColumnInfo → VARIANT → VARIANT)
    (htable : ds.table? P dbName tblName = some t) (hcolumns : 0 < t.columns.length)
    (hrows : ∀ row ∈ rows, row.length = t.columns.length) :
    (if rows.flatten.length = 0 then (0, ds)
      else ds.onTable P dbName tblName (CTable.addRows stored rows.flatten)) =
        ds.onTable P dbName tblName
          (CTable.appendRows (rows.map (List.zipWith (storedCell P) t.columns))) ↔
      ∀ row ∈ rows, ∀ p ∈ t.columns.zip row, stored p.1 p.2 = storedCell P p.1 p.2 := by
  split_ifs with hempty
  · have hnil : rows = [] := by
      rw [length_flatten_of_width hrows, Nat.mul_eq_zero] at hempty
      exact List.eq_nil_of_length_eq_zero (hempty.resolve_right hcolumns.ne')
    subst hnil
    refine iff_of_true ?_ fun row hrow ↦ absurd hrow List.not_mem_nil
    have hsame : CTable.appendRows ([].map (List.zipWith (storedCell P) t.columns)) =
        fun t ↦ (0, t) := by
      funext u
      simp [CTable.appendRows]
    rw [hsame, CDataSet.onTable, onFirst_unchanged]
  · exact (onTable_eq_iff htable).trans (CTable.addRows_eq_iff hcolumns hrows)

end Block

/-- A platform that leaves arrays as they are said to be left. -/
def arrayPlatform : Platform where
  VariantChangeType _ _ := .empty
  UDateTime _ := []
  ToBSTR s := s.map fun c ↦ c.toUInt16
  tolower c := c
  eqMixed _ _ := 0

/-- A data set of one table with one column, of the given type. -/
def textTable (DataType : ℕ) : CTable := ⟨[⟨[], [], FLAG_PRIMARY_KEY, DataType⟩], [], true⟩

end SocketPro.TableCache
