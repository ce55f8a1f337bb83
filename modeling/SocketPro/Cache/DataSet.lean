import SocketPro.Foundation.KeyedRelation
import SocketPro.Buffer.Variant

/-!
# The table cache

`CTable` and `CDataSet` of `tablecache.h`: a list of tables, each with the descriptions of its
columns and its rows, and the functions that add, update and delete rows. Locks, the names of server
and updater and the queries on tables are left out.

A row is found by its key columns, those that are flagged as primary key or auto-increment. One
function looks for the first of them (`findKeyColIndex`), the other two for the first two
(`findKeyColIndices`); a table with more of them is not provided for (`masterpool.h`: "there must be
one or two key columns. For other cases, you must implement them").

What the class takes from the platform is a parameter: the conversion of a value to another type,
the reading of a date, UTF-16 strings made from ASCII ones, lower case, and what the comparison
gives for two values of different types, which it asserts not to get.
-/

namespace SocketPro.TableCache

open Bytes Buffer

/-- A column, as far as the cache uses it. -/
structure CDBColumnInfo where
  DBPath : List UInt16
  TablePath : List UInt16
  Flags : UInt32
  DataType : ℕ
deriving DecidableEq, Repr, Inhabited

/-- A row of values. -/
abbrev CRow := List VARIANT

/-- What the class takes from the platform. -/
structure Platform where
  VariantChangeType : VARIANT → ℕ → VARIANT
  UDateTime : Option (List UInt16) → List UInt8
  ToBSTR : List UInt8 → List UInt16
  tolower : UInt16 → UInt16
  eqMixed : VARIANT → VARIANT → ℤ

abbrev FLAG_PRIMARY_KEY : UInt32 := 0x4
abbrev FLAG_AUTOINCREMENT : UInt32 := 0x8

/-- The flags of a key column. -/
def CDBColumnInfo.isKey (col : CDBColumnInfo) : Bool :=
  col.Flags &&& (FLAG_PRIMARY_KEY ||| FLAG_AUTOINCREMENT) != 0

abbrev COMPARISON_NOT_SUPPORTED : ℤ := -4

/-- `INVALID_VALUE`, and `BAD_ORDINAL` as a `size_t`. -/
abbrev INVALID_VALUE : ℕ := 2 ^ 64 - 1

abbrev VT_ASCII : ℕ := VT_ARRAY + ScalarVT.I1.vt
abbrev VT_BYTES : ℕ := VT_ARRAY + ScalarVT.UI1.vt

/-! ### Comparisons -/

/-- `UCompare` or `UCompareNoCase` give zero, for NUL-terminated texts. -/
def uequal (fold : UInt16 → UInt16) : List UInt16 → List UInt16 → Bool
  | [], s₂ => fold 0 == fold (s₂.headD 0)
  | c :: s₁, s₂ =>
    fold c == fold (s₂.headD 0) && (c == 0 || s₂.headD 0 == 0 || uequal fold s₁ s₂.tail)

/-- `IsEqual` for two texts. -/
def isEqual (P : Platform) (s₁ s₂ : List UInt16) (caseSensitive : Bool) : Bool :=
  uequal (if caseSensitive then id else P.tolower) s₁ s₂

theorem uequal_self (fold : UInt16 → UInt16) (s : List UInt16) : uequal fold s s = true := by
  induction s with
  | nil => exact beq_self_eq_true _
  | cons c s ih =>
    show (fold c == fold c && (c == 0 || c == 0 || uequal fold s s)) = true
    rw [ih]
    simp

theorem isEqual_self (P : Platform) (s : List UInt16) (caseSensitive : Bool) :
    isEqual P s s caseSensitive = true :=
  uequal_self _ s

/-- The comparison of two `BSTR`s, null pointers included. -/
def isEqualBSTR (P : Platform) (caseSensitive : Bool) :
    Option (List UInt16) → Option (List UInt16) → Bool
  | none, none => true
  | some s₁, some s₂ => isEqual P s₁ s₂ caseSensitive
  | _, _ => false

/-- `==` on floating-point numbers, from their bits. -/
def floatEq (exponent mantissa : ℕ) (a b : ℕ) : Bool :=
  let isNaN (x : ℕ) := x / 2 ^ mantissa % 2 ^ exponent == 2 ^ exponent - 1 && x % 2 ^ mantissa != 0
  let isZero (x : ℕ) := x % 2 ^ (exponent + mantissa) == 0
  !isNaN a && !isNaN b && (a == b || isZero a && isZero b)

/-- `CTable::eq` on two scalars of the same type. -/
def eqScalar (t : ScalarVT) (a b : List UInt8) : ℤ :=
  match t with
  | .CY => COMPARISON_NOT_SUPPORTED
  | .BOOL => if (ofLE a != 0) = (ofLE b != 0) then 1 else 0
  | .R4 => if floatEq 8 23 (ofLE a) (ofLE b) then 1 else 0
  | .R8 => if floatEq 11 52 (ofLE a) (ofLE b) then 1 else 0
  | _ => if a = b then 1 else 0

/-- `CTable::eq`. -/
def eq (P : Platform) (caseSensitive : Bool) (vt₀ vt₁ : VARIANT) : ℤ :=
  if vt₀.vt ≤ VT_NULL then 0
  else if vt₀.vt ≠ vt₁.vt then P.eqMixed vt₀ vt₁
  else match vt₀, vt₁ with
    | .scalar t a, .scalar _ b => eqScalar t a b
    | .bstr s₀, .bstr s₁ => if isEqualBSTR P caseSensitive s₀ s₁ then 1 else 0
    | .scalarArray .UI1 n a, .scalarArray _ m b =>
      if n = m ∧ n = 16 then (if a = b then 1 else 0) else COMPARISON_NOT_SUPPORTED
    | _, _ => COMPARISON_NOT_SUPPORTED

/-! ### Values that compare as what they are -/

theorem eq_uuid_pos {P : Platform} {caseSensitive : Bool} {a b : List UInt8} :
    0 < eq P caseSensitive (.scalarArray .UI1 16 a) (.scalarArray .UI1 16 b) ↔ a = b := by
  have heq : eq P caseSensitive (.scalarArray .UI1 16 a) (.scalarArray .UI1 16 b) =
      if a = b then 1 else 0 := rfl
  rw [heq]
  split_ifs with hab <;> simp [hab]

/-! ### Conversions -/

/-- `CDataSet::Convert`. -/
def convert (P : Platform) (data : VARIANT) (vtTarget : ℕ) : VARIANT :=
  if data.vt = vtTarget then data
  else match data with
    | .empty => .null
    | .null => .null
    | .scalarArray .I1 n s =>
      if vtTarget = VT_BYTES then .scalarArray .UI1 n s else P.VariantChangeType data vtTarget
    | .bstr s =>
      if vtTarget = ScalarVT.DATE.vt then .scalar .DATE (P.UDateTime s)
      else P.VariantChangeType data vtTarget
    | _ => P.VariantChangeType data vtTarget

/-- A value of the type that is asked for is left as it is. -/
theorem convert_self {P : Platform} {data : VARIANT} {vtTarget : ℕ} (h : data.vt = vtTarget) :
    convert P data vtTarget = data :=
  if_pos h

/-- Strings of a table are always UTF-16 strings. -/
def tableType (vt : ℕ) : ℕ := if vt = VT_ASCII then VT_BSTR else vt

/-- A value that is stored by `AddRows(…, vData)`, and a key value. -/
def cell (P : Platform) (col : CDBColumnInfo) (vt : VARIANT) : VARIANT :=
  convert P vt (tableType col.DataType)

/-- A value that is stored by `AddRows(…, pvt, count)` or `UpdateARow`. -/
def eventCell (P : Platform) (col : CDBColumnInfo) (vt : VARIANT) : VARIANT :=
  match vt with
  | .scalarArray .I1 _ s => convert P (.bstr (some (P.ToBSTR s))) (tableType col.DataType)
  | _ => convert P vt col.DataType

/-! ### Key columns -/

/-- `FindKeyColIndex(meta)`, from ordinal `index` on. -/
def findKeyColIndex : List CDBColumnInfo → ℕ → Option ℕ
  | [], _ => none
  | col :: cols, index => if col.isKey then some index else findKeyColIndex cols (index + 1)

/-- `FindKeyColIndex(meta, key1)`, from ordinal `n` on, with the `index` found so far. -/
def findKeyColIndices : List CDBColumnInfo → ℕ → Option ℕ → Option ℕ × Option ℕ
  | [], _, index => (index, none)
  | col :: cols, n, none => findKeyColIndices cols (n + 1) (if col.isKey then some n else none)
  | col :: cols, n, some index =>
    if col.isKey then (some index, some n) else findKeyColIndices cols (n + 1) (some index)

/-- All key columns, from ordinal `n` on. -/
def keyCols : List CDBColumnInfo → ℕ → List ℕ
  | [], _ => []
  | col :: cols, n => if col.isKey then n :: keyCols cols (n + 1) else keyCols cols (n + 1)

theorem findKeyColIndex_eq (cols : List CDBColumnInfo) (n : ℕ) :
    findKeyColIndex cols n = (keyCols cols n).head? := by
  induction cols generalizing n with
  | nil => rfl
  | cons col cols ih =>
    rw [findKeyColIndex, keyCols]
    split_ifs
    · rfl
    · exact ih (n + 1)

theorem findKeyColIndices_some (cols : List CDBColumnInfo) (n index : ℕ) :
    findKeyColIndices cols n (some index) = (some index, (keyCols cols n).head?) := by
  induction cols generalizing n with
  | nil => rfl
  | cons col cols ih =>
    rw [findKeyColIndices, keyCols]
    split_ifs
    · rfl
    · exact ih (n + 1)

/-- The first two of the key columns. -/
theorem findKeyColIndices_none (cols : List CDBColumnInfo) (n : ℕ) :
    findKeyColIndices cols n none = ((keyCols cols n).head?, (keyCols cols n).tail.head?) := by
  induction cols generalizing n with
  | nil => rfl
  | cons col cols ih =>
    rw [findKeyColIndices, keyCols]
    split_ifs
    · exact findKeyColIndices_some cols (n + 1) n
    · exact ih (n + 1)

theorem lt_of_mem_keyCols {cols : List CDBColumnInfo} {n k : ℕ} (h : k ∈ keyCols cols n) :
    n ≤ k ∧ k < n + cols.length := by
  induction cols generalizing n with
  | nil => cases h
  | cons col cols ih =>
    rw [keyCols] at h
    rw [List.length_cons]
    split_ifs at h
    · rcases List.mem_cons.1 h with rfl | h
      · omega
      · have := ih h
        omega
    · have := ih h
      omega

/-- The key columns are in the order of the columns. -/
theorem keyCols_pairwise (cols : List CDBColumnInfo) (n : ℕ) :
    (keyCols cols n).Pairwise (· < ·) := by
  induction cols generalizing n with
  | nil => exact .nil
  | cons col cols ih =>
    rw [keyCols]
    split_ifs
    · refine List.pairwise_cons.2 ⟨fun k hk ↦ ?_, ih (n + 1)⟩
      have := lt_of_mem_keyCols hk
      omega
    · exact ih (n + 1)

/-! ### Tables -/

/-- `CTable`: columns and rows. -/
structure CTable where
  columns : List CDBColumnInfo
  rows : List CRow
  m_bDataCaseSensitive : Bool
deriving Repr

/-- A list of values cut into `n` rows of `w` values. -/
def chunk {α : Type} (w : ℕ) : ℕ → List α → List (List α)
  | 0, _ => []
  | n + 1, xs => xs.take w :: chunk w n (xs.drop w)

/-- Rows of the right width are cut out of the list of all their values. -/
theorem chunk_flatten {α : Type} {w : ℕ} {rows : List (List α)} (h : ∀ row ∈ rows, row.length = w) :
    chunk w rows.length rows.flatten = rows := by
  induction rows with
  | nil => rfl
  | cons row rows ih =>
    have hrow : row.length = w := h row List.mem_cons_self
    subst hrow
    rw [List.length_cons, chunk, List.flatten_cons, List.take_left, List.drop_left,
      ih fun r hr ↦ h r (List.mem_cons_of_mem _ hr)]

theorem length_flatten_of_width {α : Type} {w : ℕ} {rows : List (List α)}
    (h : ∀ row ∈ rows, row.length = w) : rows.flatten.length = rows.length * w := by
  induction rows with
  | nil => rw [List.flatten_nil, List.length_nil, List.length_nil, Nat.zero_mul]
  | cons row rows ih =>
    rw [List.flatten_cons, List.length_append, h row List.mem_cons_self,
      ih fun r hr ↦ h r (List.mem_cons_of_mem _ hr), List.length_cons, Nat.add_mul, Nat.one_mul,
      Nat.add_comm]

/-- The rows that `AddRows` makes of a list of values. -/
def rowsOf (stored : CDBColumnInfo → VARIANT → VARIANT) (columns : List CDBColumnInfo)
    (data : List VARIANT) : List CRow :=
  (chunk columns.length (data.length / columns.length) data).map (List.zipWith stored columns)

theorem rowsOf_flatten {stored : CDBColumnInfo → VARIANT → VARIANT} {columns : List CDBColumnInfo}
    {rows : List CRow} (hcolumns : 0 < columns.length)
    (h : ∀ row ∈ rows, row.length = columns.length) :
    rowsOf stored columns rows.flatten = rows.map (List.zipWith stored columns) := by
  rw [rowsOf, length_flatten_of_width h, Nat.mul_div_cancel _ hcolumns, chunk_flatten h]

/-- An ordinal with the value that is looked for in its column. -/
def keyValue (P : Platform) (columns : List CDBColumnInfo) (k : ℕ) (vt : VARIANT) : ℕ × VARIANT :=
  (k, cell P (columns.getD k default) vt)

/-- A row with the given key values, as `FindARowInternal` and `DeleteARow` look for it. -/
def isRow (P : Platform) (caseSensitive : Bool) (keys : List (ℕ × VARIANT)) (row : CRow) : Bool :=
  keys.all fun key ↦ 0 < eq P caseSensitive (row.getD key.1 .null) key.2

/-- The new values of an update, every second one. -/
def newValues : List VARIANT → List VARIANT
  | _ :: vt :: pvt => vt :: newValues pvt
  | _ => []

namespace CTable

/-- `AddRows` on a table. -/
def addRows (stored : CDBColumnInfo → VARIANT → VARIANT) (data : List VARIANT) (t : CTable) :
    ℕ × CTable :=
  if data.length % t.columns.length ≠ 0 then (INVALID_VALUE, t)
  else (data.length / t.columns.length, { t with rows := t.rows ++ rowsOf stored t.columns data })

/-- The first row with the given key values is erased. -/
def eraseRow (P : Platform) (keys : List (ℕ × VARIANT)) (t : CTable) : ℕ × CTable :=
  let found := isRow P t.m_bDataCaseSensitive keys
  (if t.rows.any found then 1 else 0, { t with rows := t.rows.eraseP found })

/-- The first row with the given key values is overwritten. -/
def overwriteRow (P : Platform) (keys : List (ℕ × VARIANT)) (row : CRow) (t : CTable) :
    ℕ × CTable :=
  let found := isRow P t.m_bDataCaseSensitive keys
  (if t.rows.any found then 1 else 0, { t with rows := Keyed.replaceFirst found row t.rows })

/-- `UpdateARow` on a table. -/
def updateARow (P : Platform) (pvt : List VARIANT) (t : CTable) : ℕ × CTable :=
  let key (k : ℕ) := keyValue P t.columns k (pvt.getD (2 * k) .null)
  let row := List.zipWith (eventCell P) t.columns (newValues pvt)
  if pvt.length % t.columns.length ≠ 0 ∨ 2 * t.columns.length ≠ pvt.length then (INVALID_VALUE, t)
  else match findKeyColIndices t.columns 0 none with
    | (none, _) => (INVALID_VALUE, t)
    | (some key0, none) => t.overwriteRow P [key key0] row
    | (some key0, some key1) => t.overwriteRow P [key key0, key key1] row

/-- `DeleteARow(…, vtKey)` on a table. -/
def deleteARowByKey (P : Platform) (vtKey : VARIANT) (t : CTable) : ℕ × CTable :=
  match findKeyColIndex t.columns 0 with
  | none => (INVALID_VALUE, t)
  | some key => t.eraseRow P [keyValue P t.columns key vtKey]

/-- `DeleteARow(…, pRow, cols)` on a table. -/
def deleteARow (P : Platform) (pRow : List VARIANT) (t : CTable) : ℕ × CTable :=
  let key (k n : ℕ) := keyValue P t.columns k (pRow.getD n .null)
  match findKeyColIndices t.columns 0 none with
  | (none, _) => (INVALID_VALUE, t)
  | (some key0, none) => t.eraseRow P [key key0 key0]
  | (some key0, some key1) =>
    -- Of two values the second one is taken, whatever the ordinal of the second key column.
    t.eraseRow P [key key0 key0, key key1 (if pRow.length = 2 then 1 else key1)]

end CTable

/-! ### Data sets -/

/-- `CDataSet`. -/
structure CDataSet where
  m_ds : List CTable
  m_bDBNameCaseSensitive : Bool
  m_bTableNameCaseSensitive : Bool
  m_bDataCaseSensitive : Bool
deriving Repr

namespace CDataSet

/-- `Is`: the columns are those of the table with the given names. -/
def is (P : Platform) (dbCase tableCase : Bool) (columns : List CDBColumnInfo)
    (dbName tblName : List UInt16) : Bool :=
  isEqual P (columns.headD default).DBPath dbName dbCase &&
    isEqual P (columns.headD default).TablePath tblName tableCase

/-- The loop over the tables: the first one with the given names is changed. -/
def onFirst {α : Type} (found : α → Bool) (f : α → ℕ × α) : List α → ℕ × List α
  | [] => (0, [])
  | t :: ts => if found t then ((f t).1, (f t).2 :: ts) else
    ((onFirst found f ts).1, t :: (onFirst found f ts).2)

/-- A function on the table with the given names. -/
def onTable (P : Platform) (dbName tblName : List UInt16) (f : CTable → ℕ × CTable)
    (ds : CDataSet) : ℕ × CDataSet :=
  let found (t : CTable) :=
    is P ds.m_bDBNameCaseSensitive ds.m_bTableNameCaseSensitive t.columns dbName tblName
  ((onFirst found f ds.m_ds).1, { ds with m_ds := (onFirst found f ds.m_ds).2 })

/-- `Empty`. -/
def empty (ds : CDataSet) : CDataSet := { ds with m_ds := [] }

/-- `AddEmptyRowset`. -/
def addEmptyRowset (columns : List CDBColumnInfo) (ds : CDataSet) : CDataSet :=
  if columns.length = 0 then ds
  else { ds with m_ds := ds.m_ds ++ [⟨columns, [], ds.m_bDataCaseSensitive⟩] }

/-- `Swap`: the tables are exchanged, the flags are not. -/
def swap (ds tc : CDataSet) : CDataSet × CDataSet :=
  ({ ds with m_ds := tc.m_ds }, { tc with m_ds := ds.m_ds })

/-- `AddRows(dbName, tblName, vData)`. -/
def addRows (P : Platform) (dbName tblName : List UInt16) (vData : List VARIANT)
    (ds : CDataSet) : ℕ × CDataSet :=
  if vData.length = 0 then (0, ds) else ds.onTable P dbName tblName (CTable.addRows (cell P) vData)

/-- `AddRows(dbName, tblName, pvt, count)`. -/
def addEventRows (P : Platform) (dbName tblName : List UInt16) (pvt : List VARIANT)
    (ds : CDataSet) : ℕ × CDataSet :=
  if pvt.length = 0 then (0, ds) else ds.onTable P dbName tblName (CTable.addRows (eventCell P) pvt)

/-- `UpdateARow(dbName, tblName, pvt, count)`. -/
def updateARow (P : Platform) (dbName tblName : List UInt16) (pvt : List VARIANT)
    (ds : CDataSet) : ℕ × CDataSet :=
  if pvt.length = 0 ∨ pvt.length % 2 ≠ 0 then (INVALID_VALUE, ds)
  else ds.onTable P dbName tblName (CTable.updateARow P pvt)

/-- `DeleteARow(dbName, tblName, vtKey)`. -/
def deleteARowByKey (P : Platform) (dbName tblName : List UInt16) (vtKey : VARIANT)
    (ds : CDataSet) : ℕ × CDataSet :=
  ds.onTable P dbName tblName (CTable.deleteARowByKey P vtKey)

/-- `DeleteARow(dbName, tblName, pRow, cols)`. -/
def deleteARow (P : Platform) (dbName tblName : List UInt16) (pRow : List VARIANT)
    (ds : CDataSet) : ℕ × CDataSet :=
  ds.onTable P dbName tblName (CTable.deleteARow P pRow)

end CDataSet

end SocketPro.TableCache
