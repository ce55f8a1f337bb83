import SocketPro.Python.Objects
import SocketPro.Foundation.KeyedRelation
import Mathlib.Data.List.ModifyLast

/-!
# The Python table cache

`CTable` and `CDataSet` of `dataset.py`, as far as rows are added, updated and deleted. A function
that raises gives `none`. Locks, the names of server and updater and the queries on tables are left
out.

A table has one or two key columns (`AddEmptyRowset`). `FindARow` looks for the first row with the
given values in these columns, and `DeleteARow` removes the first row that is equal to the one that
has been found.

The lower case of a text is that of the platform.
-/

namespace SocketPro.Python

open Keyed

/-- A column, as far as the cache uses it. -/
structure CDBColumnInfo where
  DBPath : List CodePoint
  TablePath : List CodePoint
  Flags : ℕ
deriving DecidableEq

abbrev FLAG_PRIMARY_KEY : ℕ := 0x4

abbrev FLAG_AUTOINCREMENT : ℕ := 0x8

/-- The column is flagged as a key. -/
def CDBColumnInfo.isKey (col : CDBColumnInfo) : Bool :=
  col.Flags &&& FLAG_AUTOINCREMENT = FLAG_AUTOINCREMENT ||
    col.Flags &&& FLAG_PRIMARY_KEY = FLAG_PRIMARY_KEY

abbrev Row := List Obj

abbrev INVALID_VALUE : ℤ := -1

abbrev NO_TABLE_FOUND : ℤ := -6

section Cache

-- `str.lower`
variable (lower : List CodePoint → List CodePoint)

/-! ### Tables -/

structure CTable where
  columns : List CDBColumnInfo
  vRow : List Row
  bDataCaseSensitive : Bool

namespace CTable

/-- The ordinals of the key columns, from `index` on. -/
def keysFrom : List CDBColumnInfo → ℕ → List ℕ
  | [], _ => []
  | col :: cols, index =>
    if col.isKey then index :: keysFrom cols (index + 1) else keysFrom cols (index + 1)

/-- `Keys` -/
def keys (t : CTable) : List ℕ := keysFrom t.columns 0

/-- `v.lower()` -/
def lowered : Obj → Option Obj
  | .str s => some (.str (lower s))
  | .bytearray a => some (.bytearray (a.map fun c ↦ if 65 ≤ c ∧ c ≤ 90 then c + 32 else c))
  | _ => none

/-- `_eq_` -/
def eq (t : CTable) (vt0 vt1 : Obj) : Option Bool :=
  match vt0 with
  | .none => some false
  | .str s =>
    if t.bDataCaseSensitive = true then some ((Obj.str s).eq vt1)
    else do return (Obj.str (lower s)).eq (← lowered lower vt1)
  | vt0 => some (vt0.eq vt1)

/-- The loop of `FindARow`, from the row with the number `n` on. -/
def findFrom (found : Row → Option Bool) : List Row → ℕ → Option (Option ℕ)
  | [], _ => some none
  | r :: rows, n => do if ← found r then return some n else findFrom found rows (n + 1)

/-- The test of `FindARow` for the second key, which may be missing. -/
def isSecond (t : CTable) (v_col : List ℕ) (key1 : Obj) (r : Row) : Option Bool :=
  if key1.isNone = true then some true
  else match v_col with
  | [_, c] => do t.eq lower key1 (← r[c]?)
  | _ => some false

/-- The test of `FindARow`, for a table with the key columns `v_col`. -/
def isRow (t : CTable) (v_col : List ℕ) (key0 key1 : Obj) (r : Row) : Option Bool := do
  if ← t.eq lower key0 (← r[← v_col[0]?]?) then t.isSecond lower v_col key1 r else return false

/-- `FindARow(key0, key1)`, with the number of the row. -/
def findARow (t : CTable) (key0 key1 : Obj) : Option (Option ℕ) :=
  match key0 with
  | .none => some none
  | _ => findFrom (t.isRow lower t.keys key0 key1) t.vRow 0

/-- The loop of `AddRows`, from the value with the number `index` on. -/
def addValues (col_count : ℕ) : List Obj → ℕ → List Row → List Row
  | [], _, vRow => vRow
  | d :: vData, index, vRow =>
    addValues col_count vData (index + 1)
      (if index % col_count = 0 then vRow ++ [[d]] else vRow.modifyLast fun r ↦ r ++ [d])

/-- `AddRows` on a table. -/
def addRows (vData : List Obj) (t : CTable) : Option (ℤ × CTable) :=
  let col_count := t.columns.length
  if 0 < vData.length % col_count then some (INVALID_VALUE, t)
  else some (vData.length / col_count, { t with vRow := addValues col_count vData 0 t.vRow })

/-- The loop of `UpdateARow`: every value of a row is replaced by the second one of its pair. -/
def overwrite : List Obj → Row → Option Row
  | _ :: d :: vData, _ :: r => do return d :: (← overwrite vData r)
  | [], r => some r
  | _, _ => none

/-- `UpdateARow` on a table. -/
def updateARow (vData : List Obj) (t : CTable) : Option (ℤ × CTable) := do
  if 2 * t.columns.length ≠ vData.length then return (INVALID_VALUE, t)
  let v ← t.keys.mapM fun c ↦ vData[2 * c]?
  let key1 := if v.length = 2 then v.getD 1 .none else .none
  match ← t.findARow lower (← v[0]?) key1 with
  | none => return (0, t)
  | some n => return (1, { t with vRow := t.vRow.set n (← overwrite vData (← t.vRow[n]?)) })

/-- `_vRow_.remove(r)`, where `r` is the row with the number `n`. -/
def remove (n : ℕ) (r : Row) : List Row → Option (List Row)
  | [] => none
  | row :: rows =>
    if n = 0 ∨ Obj.eqList row r = true then some rows
    else do return row :: (← remove (n - 1) r rows)

/-- The row that `DeleteARow` looks for. -/
def rowToDelete (t : CTable) (keys : List Obj) : Option (Option ℕ) :=
  if keys.length = 2 ∧ keys.length < t.columns.length then do
    t.findARow lower (← keys[0]?) (← keys[1]?)
  else if keys.length = 1 then do t.findARow lower (← keys[0]?) .none
  else do
    let values ← t.keys.mapM fun k ↦ keys[k]?
    t.findARow lower (values.headD .none) (values.tail.getLastD .none)

/-- `DeleteARow` on a table. -/
def deleteARow (keys : List Obj) (t : CTable) : Option (ℤ × CTable) := do
  match ← t.rowToDelete lower keys with
  | none => return (0, t)
  | some n => return (1, { t with vRow := ← remove n (← t.vRow[n]?) t.vRow })

end CTable

/-! ### Data sets -/

structure CDataSet where
  ds : List CTable
  DBNameCase : Bool
  TableNameCase : Bool
  DataCase : Bool

namespace CDataSet

/-- A name as it is compared. -/
def cased (case : Bool) (s : List CodePoint) : List CodePoint := if case = true then s else lower s

/-- `_Is_` for a table with the first column `col`. -/
def is (dbCase tableCase : Bool) (dbName tblName : List CodePoint) (col : CDBColumnInfo) : Bool :=
  cased lower dbCase col.DBPath = cased lower dbCase dbName &&
    cased lower tableCase col.TablePath = cased lower tableCase tblName

/-- The loop over the tables: the first one that is found is changed. -/
def onFirst (found : CDBColumnInfo → Bool) (f : CTable → Option (ℤ × CTable)) (missing : ℤ) :
    List CTable → Option (ℤ × List CTable)
  | [] => some (missing, [])
  | t :: ts => do
    if found (← t.columns[0]?) then
      let (n, t) ← f t
      return (n, t :: ts)
    else
      let (n, ts) ← onFirst found f missing ts
      return (n, t :: ts)

/-- A function on the table with the given names. -/
def onTable (dbName tblName : List CodePoint) (f : CTable → Option (ℤ × CTable)) (missing : ℤ)
    (s : CDataSet) : Option (ℤ × CDataSet) := do
  let (n, ds) ← onFirst (is lower s.DBNameCase s.TableNameCase dbName tblName) f missing s.ds
  return (n, { s with ds })

/-- `AddEmptyRowset(meta)` -/
def AddEmptyRowset (columns : List CDBColumnInfo) (s : CDataSet) : Option CDataSet := do
  let col ← columns[0]?
  if col.DBPath.length = 0 ∨ col.TablePath.length = 0 then none
  else
    let tbl : CTable := ⟨columns, [], s.DataCase⟩
    if 2 < tbl.keys.length ∨ tbl.keys.length = 0 then none
    else some { s with ds := s.ds ++ [tbl] }

/-- `AddRows(dbName, tblName, vData)` -/
def AddRows (dbName tblName : List CodePoint) (vData : List Obj) (s : CDataSet) :
    Option (ℤ × CDataSet) :=
  if vData.length = 0 then some (0, s)
  else s.onTable lower dbName tblName (CTable.addRows vData) NO_TABLE_FOUND

/-- `UpdateARow(dbName, tblName, vData)` -/
def UpdateARow (dbName tblName : List CodePoint) (vData : List Obj) (s : CDataSet) :
    Option (ℤ × CDataSet) :=
  if vData.length = 0 then some (0, s)
  else s.onTable lower dbName tblName (CTable.updateARow lower vData) 0

/-- `DeleteARow(dbName, tblName, keys)` -/
def DeleteARow (dbName tblName : List CodePoint) (keys : List Obj) (s : CDataSet) :
    Option (ℤ × CDataSet) :=
  s.onTable lower dbName tblName (CTable.deleteARow lower keys) 0

end CDataSet

end Cache

end SocketPro.Python
