import SocketPro.Java.ChangeType
import SocketPro.Foundation.KeyedRelation
import Mathlib.Data.List.ModifyLast

/-!
# The Java table cache

`CTable` and `CDataSet`, as far as rows are added, updated and deleted, and `OnPublish` of
`CMasterPool`, which calls them. A function that throws gives `none`. Locks, the names of server and
updater and the queries on tables are left out, and the deep copy of the columns is taken for the
columns.

A table that the cache has is one with one or two key columns (`one_or_two`); `AddEmptyRowset`
leaves out the others.
-/

namespace SocketPro.Java

/-- A column, as far as the cache uses it. -/
structure CDBColumnInfo where
  DBPath : Text
  TablePath : Text
  Flags : ℕ
  DataType : ℕ
deriving DecidableEq, Repr

abbrev FLAG_PRIMARY_KEY : ℕ := 0x4

abbrev FLAG_AUTOINCREMENT : ℕ := 0x8

/-- The column is flagged as a key. -/
def CDBColumnInfo.isKey (col : CDBColumnInfo) : Bool :=
  0 < col.Flags &&& (FLAG_PRIMARY_KEY ||| FLAG_AUTOINCREMENT)

abbrev Row := List Obj

abbrev INVALID_VALUE : ℤ := -1

/-- The ordinals of the key columns, from `index` on. -/
def keysFrom : List CDBColumnInfo → ℕ → List ℕ
  | [], _ => []
  | col :: cols, index =>
    if col.isKey = true then index :: keysFrom cols (index + 1) else keysFrom cols (index + 1)

/-- The place of a key in a hash map of 16 buckets. -/
def bucket (key : ℕ) : ℕ := (key ^^^ (key >>> 16)) % 16

/-- `keySet().toArray()` of a hash map of at most twelve keys: they come bucket by bucket. -/
def hashOrder (keys : List ℕ) : List ℕ :=
  (List.range 16).flatMap fun b ↦ keys.filter fun key ↦ bucket key = b

structure CTable where
  m_meta : List CDBColumnInfo
  m_vRow : List Row
  m_bDataCaseSensitive : Bool
  one_or_two : 0 < (keysFrom m_meta 0).length ∧ (keysFrom m_meta 0).length ≤ 2

theorem length_keysFrom_le (columns : List CDBColumnInfo) (n : ℕ) :
    (keysFrom columns n).length ≤ columns.length := by
  induction columns generalizing n with
  | nil => exact Nat.le_refl 0
  | cons col columns ih =>
    rw [keysFrom, List.length_cons]
    split_ifs
    · exact Nat.succ_le_succ (ih (n + 1))
    · exact (ih (n + 1)).trans (Nat.le_succ _)

section Cache

variable (l : Library)

namespace CTable

/-- The ordinals of the key columns. -/
def keys (t : CTable) : List ℕ := keysFrom t.m_meta 0

theorem columns_pos (t : CTable) : 0 < t.m_meta.length :=
  t.one_or_two.1.trans_le (length_keysFrom_le _ _)

/-- `meta.get(0)` -/
def first (t : CTable) : CDBColumnInfo := t.m_meta.get ⟨0, t.columns_pos⟩

/-- `ChangeType` for a column. -/
def changeType (t : CTable) (v : Obj) (ordinal : ℕ) : Option Obj := do
  ChangeType l v (← t.m_meta[ordinal]?).DataType

/-- `eq(vt0, vt1) > 0` -/
def isEqual (t : CTable) (vt0 vt1 : Obj) : Option Bool :=
  (eq l t.m_bDataCaseSensitive vt0 vt1).map fun n ↦ decide (0 < n)

/-- The loop of `AddRows`, from the value with the number `n` on. -/
def addValues (t : CTable) : List Obj → ℕ → List Row → Option (List Row)
  | [], _, vRow => some vRow
  | v :: vs, n, vRow => do
    let obj ← t.changeType l v (n % t.m_meta.length)
    addValues t vs (n + 1)
      (if n % t.m_meta.length = 0 then vRow ++ [[obj]] else vRow.modifyLast fun r ↦ r ++ [obj])

/-- `AddRows` on a table. -/
def addRows (v : List Obj) (t : CTable) : Option (ℤ × CTable) := do
  let col_count := t.m_meta.length
  if 0 < v.length % col_count then return (INVALID_VALUE, t)
  return (v.length / col_count, { t with m_vRow := ← t.addValues l v 0 t.m_vRow })

/-- The loop of `DeleteARow`: the first row that is found goes. -/
def removeFirst (found : Row → Option Bool) : List Row → Option (Bool × List Row)
  | [] => some (false, [])
  | r :: rows => do
    if ← found r then return (true, rows)
    let (deleted, rows) ← removeFirst found rows
    return (deleted, r :: rows)

/-- The body of `DeleteARow` for one key, without a result if there is no key column. -/
def deleteByKey (vtKey : Obj) (t : CTable) : Option (Option (Bool × CTable)) :=
  match t.keys[0]? with
  | none => some none
  | some key => do
    let v0 ← t.changeType l vtKey key
    let (deleted, vRow) ← removeFirst (fun r ↦ do t.isEqual l (← r[key]?) v0) t.m_vRow
    return some (deleted, { t with m_vRow := vRow })

/-- The body of `DeleteARow` for two keys. -/
def deleteByKeys (vtKey0 vtKey1 : Obj) (t : CTable) : Option (Option (Bool × CTable)) :=
  match t.keys[0]?, t.keys[1]? with
  | some key, some key1 => do
    let v0 ← t.changeType l vtKey0 key
    let v1 ← t.changeType l vtKey1 key1
    let (deleted, vRow) ← removeFirst (fun r ↦ do
      let vtKey ← r[key]?
      let vt2 ← r[key1]?
      if ← t.isEqual l v0 vtKey then t.isEqual l vt2 v1 else return false) t.m_vRow
    return some (deleted, { t with m_vRow := vRow })
  | _, _ => some none

/-- The loop over a row that has been found: its cells become the values of `pvt` with odd
numbers. -/
def overwrite (col_count : ℕ) (pvt : List Obj) (row : Row) : Option Row := do
  if row.length < col_count then none
  return (← (List.range col_count).mapM fun n ↦ pvt[2 * n + 1]?) ++ row.drop col_count

/-- The first row that `FindARowInternal` finds is overwritten. -/
def replaceFirst (found : Row → Option Bool) (col_count : ℕ) (pvt : List Obj) :
    List Row → Option (ℤ × List Row)
  | [] => some (0, [])
  | r :: rows => do
    if ← found r then return (1, (← overwrite col_count pvt r) :: rows)
    let (updated, rows) ← replaceFirst found col_count pvt rows
    return (updated, r :: rows)

/-- The test of `FindARowInternal` for the keys of `pvt`. -/
def isRow (t : CTable) (pvt : List Obj) : Option (Row → Option Bool) :=
  match t.keys[0]?, t.keys[1]? with
  | some key0, some key1 => do
    let v0 ← t.changeType l (← pvt[key0 * 2]?) key0
    let v1 ← t.changeType l (← pvt[key1 * 2]?) key1
    return fun r ↦ do
      let vtKey ← r[key0]?
      let vtKey1 ← r[key1]?
      if ← t.isEqual l v0 vtKey then t.isEqual l v1 vtKey1 else return false
  | some key0, none => do
    let v0 ← t.changeType l (← pvt[key0 * 2]?) key0
    return fun r ↦ do t.isEqual l v0 (← r[key0]?)
  | _, _ => none

/-- `UpdateARow` on a table. -/
def updateARow (pvt : List Obj) (t : CTable) : Option (ℤ × CTable) := do
  if 0 < pvt.length % t.m_meta.length ∨ 2 * t.m_meta.length ≠ pvt.length then
    return (INVALID_VALUE, t)
  let (updated, vRow) ← replaceFirst (← t.isRow l pvt) t.m_meta.length pvt t.m_vRow
  return (updated, { t with m_vRow := vRow })

end CTable

/-! ### Data sets -/

structure CDataSet where
  m_ds : List CTable
  m_bDBNameCaseSensitive : Bool
  m_bTableNameCaseSensitive : Bool
  m_bDataCaseSensitive : Bool

namespace CDataSet

variable (dbName tblName : Text)

/-- `Is(tbl, dbName, tblName)` -/
def is (s : CDataSet) (tbl : CTable) : Bool :=
  sameText l s.m_bDBNameCaseSensitive tbl.first.DBPath dbName &&
    sameText l s.m_bTableNameCaseSensitive tbl.first.TablePath tblName

/-- The loops that end with the first table that is found. -/
def onFirst (found : CTable → Bool) (f : CTable → Option (ℤ × CTable)) :
    List CTable → Option (ℤ × List CTable)
  | [] => some (0, [])
  | t :: ts => do
    if found t = true then
      let (n, t) ← f t
      return (n, t :: ts)
    let (n, ts) ← onFirst found f ts
    return (n, t :: ts)

/-- The loops that go on: a row is deleted from each table that is found, up to one without the
keys. -/
def onAll (found : CTable → Bool) (f : CTable → Option (Option (Bool × CTable))) :
    ℤ → List CTable → Option (ℤ × List CTable)
  | deleted, [] => some (deleted, [])
  | deleted, t :: ts => do
    if found t = true then
      match ← f t with
      | none => return (INVALID_VALUE, t :: ts)
      | some (removed, t) =>
        let (n, ts) ← onAll found f (if removed = true then 1 else deleted) ts
        return (n, t :: ts)
    else
      let (n, ts) ← onAll found f deleted ts
      return (n, t :: ts)

/-- The tables after a loop. -/
def withTables (s : CDataSet) (r : Option (ℤ × List CTable)) : Option (ℤ × CDataSet) :=
  r.map fun r ↦ (r.1, { s with m_ds := r.2 })

/-- `AddEmptyRowset(meta)` -/
def AddEmptyRowset (columns : List CDBColumnInfo) (s : CDataSet) : CDataSet :=
  if h : 0 < (keysFrom columns 0).length ∧ (keysFrom columns 0).length ≤ 2 then
    { s with m_ds := s.m_ds ++ [⟨columns, [], s.m_bDataCaseSensitive, h⟩] }
  else s

/-- `AddRows(dbName, tblName, v)` -/
def AddRows (v : List Obj) (s : CDataSet) : Option (ℤ × CDataSet) :=
  if v = [] then some (0, s)
  else s.withTables (onFirst (s.is l dbName tblName) (CTable.addRows l v) s.m_ds)

/-- `UpdateARow(dbName, tblName, pvt)` -/
def UpdateARow (pvt : List Obj) (s : CDataSet) : Option (ℤ × CDataSet) :=
  if pvt = [] ∨ 0 < pvt.length % 2 then some (INVALID_VALUE, s)
  else s.withTables (onFirst (s.is l dbName tblName) (CTable.updateARow l pvt) s.m_ds)

/-- `DeleteARow(dbName, tblName, vtKey)` -/
def DeleteByKey (vtKey : Obj) (s : CDataSet) : Option (ℤ × CDataSet) :=
  s.withTables (onAll (s.is l dbName tblName) (CTable.deleteByKey l vtKey) 0 s.m_ds)

/-- `DeleteARow(dbName, tblName, vtKey0, vtKey1)` -/
def DeleteByKeys (vtKey0 vtKey1 : Obj) (s : CDataSet) : Option (ℤ × CDataSet) :=
  s.withTables (onAll (s.is l dbName tblName) (CTable.deleteByKeys l vtKey0 vtKey1) 0 s.m_ds)

/-- `GetColumnCount(dbName, tblName)` -/
def GetColumnCount (s : CDataSet) : ℕ :=
  ((s.m_ds.find? (s.is l dbName tblName)).map fun t ↦ t.m_meta.length).getD 0

/-- The keys of `FindKeys(dbName, tblName)`, as an array. -/
def findKeys (s : CDataSet) : List ℕ :=
  hashOrder (((s.m_ds.find? (s.is l dbName tblName)).map CTable.keys).getD [])

/-- `DeleteARow(dbName, tblName, row)` -/
def DeleteByRow (row : Row) (s : CDataSet) : Option (ℤ × CDataSet) :=
  if s.GetColumnCount l dbName tblName ≠ row.length then some (INVALID_VALUE, s)
  else match s.findKeys l dbName tblName with
  | [key] => do s.DeleteByKey l dbName tblName (← row[key]?)
  | keys => do s.DeleteByKeys l dbName tblName (← row[← keys[0]?]?) (← row[← keys[1]?]?)

/-- The branch for `ueDelete` of `OnPublish`. -/
def onDelete (v : List Obj) (s : CDataSet) : Option (ℤ × CDataSet) :=
  if v.length = s.GetColumnCount l dbName tblName then s.DeleteByRow l dbName tblName v
  else match v with
  | [vtKey] => s.DeleteByKey l dbName tblName vtKey
  | [vtKey0, vtKey1] => s.DeleteByKeys l dbName tblName vtKey0 vtKey1
  | _ => some (0, s)

end CDataSet

end Cache

end SocketPro.Java
