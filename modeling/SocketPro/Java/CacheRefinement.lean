import SocketPro.Foundation.ReadBack
import SocketPro.Java.DataSet

/-!
# The Java cache follows its master

The master has a relation for every table, a multiset of rows whose cells are in the Java types of
their columns. A change addresses a row by the values of its key columns. `Master.Allows` says that
a change is well-formed and addresses one row: so it is in the valid histories of a relation with
these keys.

`Master.Followed` is the condition on a change under which the cache does the same.

**What the cache does otherwise.** A `Boolean` that is inserted into a column of them becomes a
`Byte`, and as a key it is not found; a row that is updated gets the values of the event as they
are; a key that is an array of bytes is equal to none; the two keys of a row that is deleted are
swapped where the hash map of the key columns has the second one first; and texts are found that
differ in the case of letters, unless the data is case-sensitive.

* `javaCache_follows` — **along every history whose changes are followed, nothing is thrown and the
  tables of the cache have the rows of the relations.**
-/

namespace SocketPro.Java

open Keyed Machine

variable (l : Library)

/-! ### Changes -/

/-- A change of a table: rows are added, a row is updated, or one is deleted. -/
inductive TableChange
  | insert (rows : List Row)
  | update (old new : Row)
  | delete (values : List Obj)

/-- What the master does. -/
inductive Event
  | table (columns : List CDBColumnInfo)
  | change (dbName tblName : Text) (c : TableChange)

/-- The values of two rows, in pairs. -/
def pairs : Row → Row → List Obj
  | o :: old, n :: new => o :: n :: pairs old new
  | _, _ => []

/-- `OnPublish` calls the cache. -/
def CDataSet.change (s : CDataSet) (dbName tblName : Text) : TableChange → Option (ℤ × CDataSet)
  | .insert rows => s.AddRows l dbName tblName rows.flatten
  | .update old new => s.UpdateARow l dbName tblName (pairs old new)
  | .delete values => s.onDelete l dbName tblName values

/-- The cache takes an event. -/
def CDataSet.apply (s : CDataSet) : Event → Option CDataSet
  | .table columns => some (s.AddEmptyRowset columns)
  | .change dbName tblName c => (s.change l dbName tblName c).map Prod.snd

section Columns

variable (columns : List CDBColumnInfo)

/-- The value in the type of the column with an ordinal. -/
def typedAt (ordinal : ℕ) (v : Obj) : Option Obj :=
  columns[ordinal]?.bind fun col ↦ inType l v col.DataType

/-- The row with its values in the types of the columns, null where there is none. -/
def typed (row : Row) : Row :=
  List.zipWith (fun col v ↦ (inType l v col.DataType).getD .null) columns row

/-- A row has a value for each column, in a type that can be the one of the column, and its keys are
not null. -/
def IsRow (row : Row) : Prop :=
  row.length = columns.length ∧
    (∀ cell ∈ columns.zip row, (inType l cell.2 cell.1.DataType).isSome) ∧
    ∀ k ∈ keysFrom columns 0, row.getD k .null ≠ .null

instance (row : Row) : Decidable (IsRow l columns row) := by
  unfold IsRow
  infer_instance

namespace TableChange

/-- The values of the key columns of a row. -/
def keysOf (row : Row) : List (ℕ × Obj) := (keysFrom columns 0).map fun k ↦ (k, row.getD k .null)

/-- The ordinals and values that a change is addressed by: with as many values as columns, a row is
deleted. -/
def keys : TableChange → List (ℕ × Obj)
  | insert _ => []
  | update old _ => keysOf columns old
  | delete values =>
    if values.length = columns.length then keysOf columns values
    else (keysFrom columns 0).zip values

/-- A row with the given values. -/
def selects (keys : List (ℕ × Obj)) (row : Row) : Bool :=
  keys.all fun key ↦ (typedAt l columns key.1 key.2).any fun v ↦ v.same (row.getD key.1 .null)

/-- What the change does to the relation. -/
def toChange (c : TableChange) : Change Row :=
  match c with
  | insert rows => .insert (rows.map (typed l columns))
  | update _ new => .replace (selects l columns (c.keys columns)) (typed l columns new)
  | delete _ => .remove (selects l columns (c.keys columns))

/-- Rows are those of the columns, and the keys are not null and in types that can be those of their
columns. -/
def WellFormed (c : TableChange) : Prop :=
  (∀ key ∈ c.keys columns, key.2 ≠ .null ∧ (typedAt l columns key.1 key.2).isSome) ∧ match c with
  | insert rows => ∀ row ∈ rows, IsRow l columns row
  | update old new => old.length = columns.length ∧ IsRow l columns new
  | delete values => values.length = columns.length ∨ values.length = (keysFrom columns 0).length

instance (c : TableChange) : Decidable (c.WellFormed l columns) := by
  cases c <;> unfold WellFormed <;> infer_instance

/-- A row is found by a key: it is no array of bytes and no `Boolean`, and no row has a text there
that differs in the case of its letters, unless the data is case-sensitive. -/
def FindsKey (caseSensitive : Bool) (rows : Multiset Row) (key : ℕ × Obj) : Prop :=
  (∀ col ∈ columns[key.1]?, columnType col.DataType ≠ some .bytes ∧
    ¬ IsBoolean key.2 col.DataType) ∧
  ∀ v ∈ typedAt l columns key.1 key.2, ∀ row ∈ rows,
    matching l caseSensitive v (row.getD key.1 .null) = v.same (row.getD key.1 .null)

instance (caseSensitive : Bool) (rows : Multiset Row) (key : ℕ × Obj) :
    Decidable (FindsKey l columns caseSensitive rows key) := by
  unfold FindsKey
  infer_instance

/-- **The condition on a change**: rows are found by its keys; the values that are inserted are no
`Boolean`s; the new values of a row are in the types of their columns; and the hash map has the keys
of a row in their order. -/
def Followed (caseSensitive : Bool) (rows : Multiset Row) (c : TableChange) : Prop :=
  (∀ key ∈ c.keys columns, FindsKey l columns caseSensitive rows key) ∧ match c with
  | insert rows => ∀ row ∈ rows, ∀ cell ∈ columns.zip row, ¬ IsBoolean cell.2 cell.1.DataType
  | update _ new => ∀ cell ∈ columns.zip new, inType l cell.2 cell.1.DataType = some cell.2
  | delete values =>
    values.length = columns.length → hashOrder (keysFrom columns 0) = keysFrom columns 0

instance (caseSensitive : Bool) (rows : Multiset Row) (c : TableChange) :
    Decidable (c.Followed l columns caseSensitive rows) := by
  cases c <;> unfold Followed <;> infer_instance

end TableChange

end Columns

/-! ### The master -/

/-- The relation of a table. -/
structure Relation where
  columns : List CDBColumnInfo
  rows : Multiset Row

/-- The relations of the master, how it compares names, and how the cache compares texts. -/
structure Master where
  relations : List Relation
  dbCase : Bool
  tableCase : Bool
  dataCase : Bool

/-- A master without relations. -/
def Master.empty (dbCase tableCase dataCase : Bool) : Master := ⟨[], dbCase, tableCase, dataCase⟩

/-- A change of a relation. -/
def Relation.apply (c : TableChange) (r : Relation) : Relation :=
  { r with rows := (c.toChange l r.columns).apply r.rows }

/-- The names are those of the first column. -/
def Relation.named (dbCase tableCase : Bool) (dbName tblName : Text) (r : Relation) : Bool :=
  r.columns.head?.any fun col ↦
    sameText l dbCase col.DBPath dbName && sameText l tableCase col.TablePath tblName

namespace Master

/-- The relation with the names. -/
def find (m : Master) (dbName tblName : Text) : Option Relation :=
  m.relations.find? (Relation.named l m.dbCase m.tableCase dbName tblName)

/-- The master takes an event: a new relation, or a change of the one with the names. -/
def apply (m : Master) : Event → Master
  | .table columns => { m with relations := m.relations ++ [⟨columns, 0⟩] }
  | .change dbName tblName c =>
    { m with
      relations := m.relations.map fun r ↦
        if r.named l m.dbCase m.tableCase dbName tblName = true then r.apply l c else r }

/-- A new table has one or two key columns, and names that no relation has. A change is for a
relation, for which it is well-formed, and addresses one row of it. -/
def Allows (m : Master) : Event → Prop
  | .table columns =>
    (0 < (keysFrom columns 0).length ∧ (keysFrom columns 0).length ≤ 2) ∧
      ∀ col ∈ columns.head?, m.find l col.DBPath col.TablePath = none
  | .change dbName tblName c =>
    ∃ r ∈ m.find l dbName tblName,
      c.WellFormed l r.columns ∧ (c.toChange l r.columns).Addressed r.rows

/-- The change is `TableChange.Followed`. -/
def Followed (m : Master) : Event → Prop
  | .table _ => True
  | .change dbName tblName c =>
    ∀ r ∈ m.find l dbName tblName, c.Followed l r.columns m.dataCase r.rows

instance (m : Master) (e : Event) : Decidable (m.Allows l e) := by
  cases e <;> unfold Allows <;> infer_instance

instance (m : Master) (e : Event) : Decidable (m.Followed l e) := by
  cases e <;> unfold Followed <;> infer_instance

end Master

variable {l}

/-! ### Cells in the types of their columns -/

section Cells

variable {columns : List CDBColumnInfo} {row : Row}

/-- The cells that are compared are of the types of their columns. -/
def Typed (columns : List CDBColumnInfo) (row : Row) : Prop :=
  row.length = columns.length ∧ ∀ k ∈ keysFrom columns 0, ∀ col ∈ columns[k]?,
    ∃ t, columnType col.DataType = some t ∧ (row.getD k .null).type = some t

theorem lt_of_mem_keysFrom {n k : ℕ} (h : k ∈ keysFrom columns n) : k < n + columns.length := by
  induction columns generalizing n with
  | nil => cases h
  | cons col columns ih =>
    rw [keysFrom] at h
    rw [List.length_cons]
    split_ifs at h
    · obtain rfl | h := List.mem_cons.1 h
      · omega
      · have := ih h
        omega
    · have := ih h
      omega

theorem lt_of_mem_keys {k : ℕ} (h : k ∈ keysFrom columns 0) : k < columns.length := by
  have := lt_of_mem_keysFrom h
  omega

theorem getElem?_eq_getD {k : ℕ} (h : k < row.length) : row[k]? = some (row.getD k .null) := by
  rw [List.getD_eq_getElem?_getD, List.getElem?_eq_getElem h]
  rfl

theorem length_typed (h : row.length = columns.length) :
    (typed l columns row).length = columns.length := by
  rw [typed, List.length_zipWith, h, Nat.min_self]

/-- The cells of a row in its types. -/
theorem getD_typed {k : ℕ} {col : CDBColumnInfo} (hcol : columns[k]? = some col)
    (h : row.length = columns.length) :
    (typed l columns row).getD k .null = (inType l (row.getD k .null) col.DataType).getD .null := by
  have hk : k < columns.length := (List.getElem?_eq_some_iff.1 hcol).1
  have hrow : row[k]? = some (row.getD k .null) := getElem?_eq_getD (h ▸ hk)
  rw [List.getD_eq_getElem?_getD, typed, List.getElem?_zipWith, hcol, hrow]
  rfl

/-- A row that is in its types. -/
theorem typed_eq_self (h : row.length = columns.length)
    (hcells : ∀ cell ∈ columns.zip row, inType l cell.2 cell.1.DataType = some cell.2) :
    typed l columns row = row := by
  induction columns generalizing row with
  | nil =>
    obtain rfl := List.length_eq_zero_iff.1 h
    rfl
  | cons col columns ih =>
    obtain ⟨v, row, rfl⟩ := List.exists_cons_of_length_eq_add_one h
    rw [List.zip_cons_cons, List.forall_mem_cons] at hcells
    have hrest := ih (Nat.succ.inj h) hcells.2
    have hhead : inType l v col.DataType = some v := hcells.1
    rw [typed] at hrest ⊢
    rw [List.zipWith_cons_cons, hrest, hhead]
    rfl

/-- **A row in its types** has cells that can be compared. -/
theorem typed_of_isRow (h : IsRow l columns row) : Typed columns (typed l columns row) := by
  obtain ⟨hlength, hcells, hkeys⟩ := h
  refine ⟨length_typed hlength, fun k hk col hcol ↦ ?_⟩
  have hmem : (col, row.getD k .null) ∈ columns.zip row := by
    refine List.mem_iff_getElem?.2 ⟨k, List.getElem?_zip_eq_some.2 ⟨hcol, ?_⟩⟩
    exact getElem?_eq_getD (hlength ▸ lt_of_mem_keys hk)
  obtain ⟨w, hw⟩ := Option.isSome_iff_exists.1 (hcells _ hmem)
  have hw : inType l (row.getD k .null) col.DataType = some w := hw
  rw [getD_typed hcol hlength, hw]
  obtain ⟨hnull, -⟩ | ⟨-, htype⟩ := type_of_inType hw
  · exact absurd hnull (hkeys k hk)
  · exact htype

end Cells

namespace CTable

variable {t : CTable} {before after : List Row} {r new : Row} {rows : List Row}

/-- A key that rows are found by: its value in the type of the column, and what it is compared
with. -/
structure Key (l : Library) (t : CTable) (key : ℕ × Obj) (v : Obj) : Prop where
  typedAt : typedAt l t.m_meta key.1 key.2 = some v
  converted : t.changeType l key.2 key.1 = some v
  forward : ∀ r ∈ t.m_vRow, t.isEqual l v (r.getD key.1 .null) = some (v.same (r.getD key.1 .null))
  backward : ∀ r ∈ t.m_vRow, t.isEqual l (r.getD key.1 .null) v = some (v.same (r.getD key.1 .null))
  cell : ∀ r ∈ t.m_vRow, r[key.1]? = some (r.getD key.1 .null)

theorem isEqual_of_type {v w : Obj} {c : ColumnType} (hv : v.type = some c) (hw : w.type = some c)
    (hc : c ≠ .bytes) : t.isEqual l v w = some (matching l t.m_bDataCaseSensitive v w) := by
  rw [isEqual, eq_of_type hv hw hc]
  cases matching l t.m_bDataCaseSensitive v w <;> rfl

/-- **A key of a change** that rows are found by. -/
theorem exists_key {key : ℕ × Obj} (hkey : key.1 ∈ t.keys) (hnull : key.2 ≠ .null)
    (hsome : (SocketPro.Java.typedAt l t.m_meta key.1 key.2).isSome)
    (hfinds : TableChange.FindsKey l t.m_meta t.m_bDataCaseSensitive (t.m_vRow : Multiset Row) key)
    (htyped : ∀ row ∈ t.m_vRow, Typed t.m_meta row) : ∃ v, t.Key l key v := by
  obtain ⟨v, hv⟩ := Option.isSome_iff_exists.1 hsome
  obtain ⟨col, hcol, hin⟩ := Option.bind_eq_some_iff.1 hv
  obtain ⟨hbytes, hboolean⟩ := hfinds.1 col hcol
  obtain ⟨hnull', -⟩ | ⟨-, c, hc, htype⟩ := type_of_inType hin
  · exact absurd hnull' hnull
  have hc' : c ≠ .bytes := fun h ↦ hbytes (h ▸ hc)
  have hcell (r : Row) (hr : r ∈ t.m_vRow) : (r.getD key.1 .null).type = some c := by
    obtain ⟨d, hd, htype⟩ := (htyped r hr).2 key.1 hkey col hcol
    rw [htype, ← hd, hc]
  refine ⟨v, hv, ?_, fun r hr ↦ ?_, fun r hr ↦ ?_, fun r hr ↦ ?_⟩
  · have hchange : t.changeType l key.2 key.1 =
        t.m_meta[key.1]?.bind fun col ↦ ChangeType l key.2 col.DataType := rfl
    rw [hchange, hcol, Option.bind_some]
    exact ChangeType_of_inType hin hboolean
  · rw [isEqual_of_type htype (hcell r hr) hc', hfinds.2 v hv r hr]
  · rw [isEqual_of_type (hcell r hr) htype hc', matching_comm, hfinds.2 v hv r hr]
  · exact getElem?_eq_getD ((htyped r hr).1 ▸ lt_of_mem_keys hkey)

/-! ### Loops -/

/-- **The loop of `DeleteARow`** removes the first row that is found. -/
theorem removeFirst_eq {found : Row → Option Bool} {selects : Row → Bool}
    (h : ∀ r ∈ rows, found r = some (selects r)) :
    removeFirst found rows = some (rows.any selects, rows.eraseP selects) := by
  induction rows with
  | nil => rfl
  | cons r rows ih =>
    rw [removeFirst, h r List.mem_cons_self, ih fun x hx ↦ h x (List.mem_cons_of_mem r hx)]
    cases hr : selects r with
    | true =>
      rw [List.any_cons, hr, List.eraseP_cons_of_pos hr]
      rfl
    | false =>
      rw [List.any_cons, hr, List.eraseP_cons_of_neg (Bool.eq_false_iff.1 hr)]
      rfl

/-- **The loop of `UpdateARow`** overwrites the first row that is found. -/
theorem replaceFirst_eq {found : Row → Option Bool} {selects : Row → Bool} {col_count : ℕ}
    {pvt : List Obj} (h : ∀ r ∈ rows, found r = some (selects r))
    (hnew : ∀ r ∈ rows, overwrite col_count pvt r = some new) :
    ∃ n, replaceFirst found col_count pvt rows = some (n, Keyed.replaceFirst selects new rows) := by
  induction rows with
  | nil => exact ⟨0, rfl⟩
  | cons r rows ih =>
    obtain ⟨n, hn⟩ := ih (fun x hx ↦ h x (List.mem_cons_of_mem r hx))
      fun x hx ↦ hnew x (List.mem_cons_of_mem r hx)
    rw [replaceFirst, h r List.mem_cons_self, hnew r List.mem_cons_self, hn, Keyed.replaceFirst]
    cases hr : selects r with
    | true => exact ⟨1, rfl⟩
    | false => exact ⟨n, rfl⟩

theorem length_pairs {old new : Row} (h : new.length = old.length) :
    (pairs old new).length = 2 * old.length := by
  induction old generalizing new with
  | nil => rfl
  | cons o old ih =>
    obtain ⟨n, new, rfl⟩ := List.exists_cons_of_length_eq_add_one h
    rw [pairs, List.length_cons, List.length_cons, ih (Nat.succ.inj h), List.length_cons]
    omega

/-- The values of the pairs. -/
theorem getElem?_pairs {old new : Row} (h : new.length = old.length) (k : ℕ) :
    (pairs old new)[2 * k]? = old[k]? ∧ (pairs old new)[2 * k + 1]? = new[k]? := by
  induction old generalizing new k with
  | nil =>
    obtain rfl := List.length_eq_zero_iff.1 h
    exact ⟨rfl, rfl⟩
  | cons o old ih =>
    obtain ⟨n, new, rfl⟩ := List.exists_cons_of_length_eq_add_one h
    cases k with
    | zero => exact ⟨rfl, rfl⟩
    | succ k => exact ih (Nat.succ.inj h) k

/-- **A row that is updated.** -/
theorem overwrite_pairs {old row : Row} (h : new.length = old.length)
    (hrow : row.length = old.length) :
    overwrite old.length (pairs old new) row = some new := by
  have hvalues : ((List.range old.length).mapM fun n ↦ (pairs old new)[2 * n + 1]?) = some new := by
    refine mapM_eq_some.2 (List.ext_getElem ?_ fun k hk hk' ↦ ?_)
    · rw [List.length_map, List.length_range, List.length_map, h]
    · rw [List.getElem_map, List.getElem_range, (getElem?_pairs h k).2, List.getElem_map]
      exact List.getElem?_eq_getElem _
  rw [overwrite, if_neg (by omega), hvalues, ← hrow, List.drop_length]
  exact congrArg some (List.append_nil new)

/-! ### Rows that are added -/

/-- A value becomes the one in the type of its column. -/
def Converts (l : Library) (columns : List CDBColumnInfo) (row : Row) : Prop :=
  ∀ cell ∈ columns.zip row,
    ChangeType l cell.2 cell.1.DataType = some ((inType l cell.2 cell.1.DataType).getD .null)

theorem changeType_eq {col : CDBColumnInfo} {k : ℕ} (hcol : t.m_meta[k]? = some col) (v : Obj) :
    t.changeType l v k = ChangeType l v col.DataType := by
  have hchange : t.changeType l v k = t.m_meta[k]?.bind fun col ↦ ChangeType l v col.DataType := rfl
  rw [hchange, hcol, Option.bind_some]

theorem addValues_cons (v : Obj) (vs : List Obj) (n : ℕ) (vRow : List Row) :
    t.addValues l (v :: vs) n vRow = (t.changeType l v (n % t.m_meta.length)).bind fun obj ↦
      t.addValues l vs (n + 1) (if n % t.m_meta.length = 0 then vRow ++ [[obj]]
        else vRow.modifyLast fun r ↦ r ++ [obj]) := rfl

/-- The rest of a row is added. -/
theorem addValues_row {p ds rest : List Obj} {vRow : List Row} {n : ℕ} (hp : 0 < p.length)
    (hw : p.length + ds.length = t.m_meta.length)
    (hn : n % t.m_meta.length = p.length % t.m_meta.length)
    (hds : Converts l (t.m_meta.drop p.length) ds) :
    t.addValues l (ds ++ rest) n (vRow ++ [p]) =
      t.addValues l rest (n + ds.length) (vRow ++ [p ++ typed l (t.m_meta.drop p.length) ds]) := by
  induction ds generalizing p n with
  | nil =>
    rw [List.nil_append, typed, List.zipWith_nil_right, List.append_nil, List.length_nil,
      Nat.add_zero]
  | cons d ds ih =>
    rw [List.length_cons] at hw
    have hlt : p.length < t.m_meta.length := by omega
    have hdrop : t.m_meta.drop p.length = t.m_meta[p.length] :: t.m_meta.drop (p.length + 1) :=
      List.drop_eq_getElem_cons hlt
    rw [hdrop, Converts, List.zip_cons_cons, List.forall_mem_cons] at hds
    have hplace : n % t.m_meta.length = p.length := hn.trans (Nat.mod_eq_of_lt hlt)
    have hconvert := changeType_eq (l := l) (List.getElem?_eq_getElem hlt) d
    rw [hds.1] at hconvert
    have hmod : ¬ p.length = 0 := by omega
    have hnext : (n + 1) % t.m_meta.length = (p.length + 1) % t.m_meta.length := by
      rw [Nat.add_mod, hplace, ← Nat.mod_eq_of_lt hlt, ← Nat.add_mod, Nat.mod_eq_of_lt hlt]
    have hone (x : Obj) : (p ++ [x]).length = p.length + 1 := by
      rw [List.length_append, List.length_singleton]
    rw [List.cons_append, addValues_cons, hplace, hconvert, Option.bind_some, if_neg hmod,
      List.modifyLast_concat, ih (by rw [hone]; omega) (by rw [hone]; omega) (by rw [hone, hnext])
      (by rw [hone]; exact hds.2), hone, hdrop, List.length_cons, List.append_assoc,
      Nat.add_assoc, Nat.add_comm 1]
    rfl

/-- **Rows that are added** get their values in the types of the columns. -/
theorem addValues_flatten {rows vRow : List Row} {n : ℕ}
    (hlength : ∀ row ∈ rows, row.length = t.m_meta.length)
    (hrows : ∀ row ∈ rows, Converts l t.m_meta row) (hn : n % t.m_meta.length = 0) :
    t.addValues l rows.flatten n vRow = some (vRow ++ rows.map (typed l t.m_meta)) := by
  induction rows generalizing vRow n with
  | nil => exact congrArg some (List.append_nil _).symm
  | cons row rows ih =>
    have hw : row.length = t.m_meta.length := hlength row List.mem_cons_self
    obtain ⟨d, ds, rfl⟩ := List.exists_cons_of_length_pos (hw ▸ t.columns_pos)
    obtain ⟨col, cols, hcols⟩ := List.exists_cons_of_length_pos t.columns_pos
    have hds : 1 + ds.length = t.m_meta.length := by rw [← hw, List.length_cons, Nat.add_comm]
    have hrow := hrows (d :: ds) List.mem_cons_self
    rw [hcols, Converts, List.zip_cons_cons, List.forall_mem_cons] at hrow
    have hconvert : t.changeType l d 0 = some ((inType l d col.DataType).getD .null) :=
      (changeType_eq (by rw [hcols]; rfl) d).trans hrow.1
    have hdrop : t.m_meta.drop 1 = cols := by rw [hcols]; rfl
    have hlast : (n + 1 + ds.length) % t.m_meta.length = 0 := by
      rw [Nat.add_assoc, hds, Nat.add_mod_right, hn]
    rw [List.flatten_cons, List.cons_append, addValues_cons, hn, hconvert, Option.bind_some,
      if_pos rfl]
    refine (addValues_row (p := [(inType l d col.DataType).getD .null]) Nat.one_pos hds
      (by rw [Nat.add_mod, hn, Nat.zero_add, Nat.mod_mod, List.length_singleton])
      (by rw [List.length_singleton, hdrop]; exact hrow.2)).trans ?_
    rw [List.length_singleton, hdrop, ih (fun r hr ↦ hlength r (List.mem_cons_of_mem _ hr))
      (fun r hr ↦ hrows r (List.mem_cons_of_mem _ hr)) hlast, List.append_assoc, List.map_cons,
      typed, hcols]
    rfl

/-- **`AddRows`** on a table. -/
theorem addRows_eq {rows : List Row} (hrows : ∀ row ∈ rows, IsRow l t.m_meta row)
    (hno : ∀ row ∈ rows, ∀ cell ∈ t.m_meta.zip row, ¬ IsBoolean cell.2 cell.1.DataType) :
    ∃ n, t.addRows l rows.flatten =
      some (n, { t with m_vRow := t.m_vRow ++ rows.map (typed l t.m_meta) }) := by
  have hlength (row : Row) (hrow : row ∈ rows) : row.length = t.m_meta.length := (hrows row hrow).1
  have hmod : rows.flatten.length % t.m_meta.length = 0 := by
    have hsum : rows.map List.length = List.replicate rows.length t.m_meta.length :=
      List.map_eq_replicate_iff.2 hlength
    rw [List.length_flatten, hsum, List.sum_replicate_nat, Nat.mul_mod_left]
  have hconverts (row : Row) (hrow : row ∈ rows) : Converts l t.m_meta row := fun cell hcell ↦ by
    obtain ⟨w, hw⟩ := Option.isSome_iff_exists.1 ((hrows row hrow).2.1 cell hcell)
    rw [hw, ChangeType_of_inType hw (hno row hrow cell hcell)]
    rfl
  refine ⟨(rows.flatten.length : ℤ) / t.m_meta.length, ?_⟩
  rw [addRows, hmod, if_neg (Nat.lt_irrefl 0),
    addValues_flatten hlength hconverts (Nat.zero_mod _)]
  rfl

/-! ### Rows that are deleted and updated -/

theorem keys_cases (t : CTable) : (∃ k, t.keys = [k]) ∨ ∃ k0 k1, t.keys = [k0, k1] := by
  have hone := t.one_or_two
  rw [keys]
  match keysFrom t.m_meta 0, hone with
  | [k], _ => exact .inl ⟨k, rfl⟩
  | [k0, k1], _ => exact .inr ⟨k0, k1, rfl⟩

theorem selects_cons {key : ℕ × Obj} {v : Obj} (hkey : t.Key l key v) (keys : List (ℕ × Obj))
    (row : Row) : TableChange.selects l t.m_meta (key :: keys) row =
      (v.same (row.getD key.1 .null) && TableChange.selects l t.m_meta keys row) := by
  rw [TableChange.selects, List.all_cons, hkey.typedAt]
  rfl

/-- **`DeleteARow` with one key.** -/
theorem deleteByKey_eq {k : ℕ} {x v : Obj} (hkeys : t.keys = [k]) (hkey : t.Key l (k, x) v) :
    ∃ b, t.deleteByKey l x = some (some (b, { t with
      m_vRow := t.m_vRow.eraseP (TableChange.selects l t.m_meta [(k, x)]) })) := by
  have hbind : t.deleteByKey l x = (t.changeType l x k).bind fun v0 ↦
      (removeFirst (fun r ↦ r[k]?.bind fun c ↦ t.isEqual l c v0) t.m_vRow).bind fun p ↦
        some (some (p.1, { t with m_vRow := p.2 })) := by
    rw [deleteByKey, hkeys]
    rfl
  have hfound : ∀ r ∈ t.m_vRow, (r[k]?.bind fun c ↦ t.isEqual l c v) =
      some (TableChange.selects l t.m_meta [(k, x)] r) := fun r hr ↦ by
    rw [hkey.cell r hr, Option.bind_some, hkey.backward r hr, selects_cons hkey]
    exact congrArg some (Bool.and_true _).symm
  rw [hbind, hkey.converted, Option.bind_some, removeFirst_eq hfound]
  exact ⟨_, rfl⟩

/-- **`DeleteARow` with two keys.** -/
theorem deleteByKeys_eq {k0 k1 : ℕ} {x0 x1 v0 v1 : Obj} (hkeys : t.keys = [k0, k1])
    (hkey0 : t.Key l (k0, x0) v0) (hkey1 : t.Key l (k1, x1) v1) :
    ∃ b, t.deleteByKeys l x0 x1 = some (some (b, { t with
      m_vRow := t.m_vRow.eraseP (TableChange.selects l t.m_meta [(k0, x0), (k1, x1)]) })) := by
  have hbind : t.deleteByKeys l x0 x1 = (t.changeType l x0 k0).bind fun v0 ↦
      (t.changeType l x1 k1).bind fun v1 ↦
        (removeFirst (fun r ↦ r[k0]?.bind fun c0 ↦ r[k1]?.bind fun c1 ↦
          (t.isEqual l v0 c0).bind fun b ↦ if b = true then t.isEqual l c1 v1 else some false)
            t.m_vRow).bind fun p ↦ some (some (p.1, { t with m_vRow := p.2 })) := by
    rw [deleteByKeys, hkeys]
    rfl
  have hfound : ∀ r ∈ t.m_vRow, (r[k0]?.bind fun c0 ↦ r[k1]?.bind fun c1 ↦
      (t.isEqual l v0 c0).bind fun b ↦ if b = true then t.isEqual l c1 v1 else some false) =
        some (TableChange.selects l t.m_meta [(k0, x0), (k1, x1)] r) := fun r hr ↦ by
    rw [hkey0.cell r hr, Option.bind_some, hkey1.cell r hr, Option.bind_some, hkey0.forward r hr,
      Option.bind_some, hkey1.backward r hr, selects_cons hkey0, selects_cons hkey1]
    cases v0.same (r.getD k0 .null) with
    | true => exact congrArg some (Bool.and_true _).symm
    | false => rfl
  rw [hbind, hkey0.converted, Option.bind_some, hkey1.converted, Option.bind_some,
    removeFirst_eq hfound]
  exact ⟨_, rfl⟩

/-- **The test of `FindARowInternal`** says whether the row has the keys of the old one. -/
theorem isRow_eq {old new : Row} (hold : old.length = t.m_meta.length)
    (hnew : new.length = t.m_meta.length)
    (hkeys : ∀ key ∈ TableChange.keysOf t.m_meta old, ∃ v, t.Key l key v) :
    ∃ found, t.isRow l (pairs old new) = some found ∧ ∀ r ∈ t.m_vRow,
      found r = some (TableChange.selects l t.m_meta (TableChange.keysOf t.m_meta old) r) := by
  have hvalue (k : ℕ) (hk : k ∈ t.keys) : (pairs old new)[k * 2]? = some (old.getD k .null) := by
    rw [Nat.mul_comm, (getElem?_pairs (hnew.trans hold.symm) k).1]
    exact getElem?_eq_getD (hold ▸ lt_of_mem_keys hk)
  have hkeysOf : TableChange.keysOf t.m_meta old = t.keys.map fun k ↦ (k, old.getD k .null) := rfl
  rw [hkeysOf] at hkeys ⊢
  obtain ⟨k, hk⟩ | ⟨k0, k1, hk⟩ := t.keys_cases
  · obtain ⟨v, hkey⟩ := hkeys (k, old.getD k .null) (by rw [hk]; exact List.mem_cons_self)
    have hbind : t.isRow l (pairs old new) = (pairs old new)[k * 2]?.bind fun x ↦
        (t.changeType l x k).bind fun v0 ↦
          some fun r : Row ↦ r[k]?.bind fun c ↦ t.isEqual l v0 c := by
      rw [isRow, hk]
      rfl
    rw [hvalue k (hk ▸ List.mem_cons_self), Option.bind_some, hkey.converted,
      Option.bind_some] at hbind
    refine ⟨_, hbind, fun r hr ↦ ?_⟩
    rw [hkey.cell r hr, Option.bind_some, hkey.forward r hr, hk, List.map_cons, selects_cons hkey]
    exact congrArg some (Bool.and_true _).symm
  · obtain ⟨v0, hkey0⟩ := hkeys (k0, old.getD k0 .null) (by rw [hk]; exact List.mem_cons_self)
    obtain ⟨v1, hkey1⟩ := hkeys (k1, old.getD k1 .null)
      (by rw [hk]; exact List.mem_cons_of_mem _ List.mem_cons_self)
    have hbind : t.isRow l (pairs old new) = (pairs old new)[k0 * 2]?.bind fun x0 ↦
        (t.changeType l x0 k0).bind fun v0 ↦ (pairs old new)[k1 * 2]?.bind fun x1 ↦
          (t.changeType l x1 k1).bind fun v1 ↦ some fun r : Row ↦
            r[k0]?.bind fun c0 ↦ r[k1]?.bind fun c1 ↦
              (t.isEqual l v0 c0).bind fun b ↦
                if b = true then t.isEqual l v1 c1 else some false := by
      rw [isRow, hk]
      rfl
    rw [hvalue k0 (hk ▸ List.mem_cons_self), Option.bind_some, hkey0.converted, Option.bind_some,
      hvalue k1 (hk ▸ List.mem_cons_of_mem _ List.mem_cons_self), Option.bind_some,
      hkey1.converted, Option.bind_some] at hbind
    refine ⟨_, hbind, fun r hr ↦ ?_⟩
    rw [hkey0.cell r hr, Option.bind_some, hkey1.cell r hr, Option.bind_some, hkey0.forward r hr,
      Option.bind_some, hkey1.forward r hr, hk, List.map_cons, selects_cons hkey0, List.map_cons,
      selects_cons hkey1]
    cases v0.same (r.getD k0 .null) with
    | true => exact congrArg some (Bool.and_true _).symm
    | false => rfl

/-- **`UpdateARow`** on a table. -/
theorem updateARow_eq {old new : Row} (hold : old.length = t.m_meta.length)
    (hnew : new.length = t.m_meta.length) (htyped : ∀ row ∈ t.m_vRow, Typed t.m_meta row)
    (hkeys : ∀ key ∈ TableChange.keysOf t.m_meta old, ∃ v, t.Key l key v) :
    ∃ n, t.updateARow l (pairs old new) = some (n, { t with
      m_vRow := Keyed.replaceFirst
        (TableChange.selects l t.m_meta (TableChange.keysOf t.m_meta old)) new t.m_vRow }) := by
  have hlength : (pairs old new).length = 2 * t.m_meta.length := by
    rw [length_pairs (hnew.trans hold.symm), hold]
  have hguard : ¬ (0 < (pairs old new).length % t.m_meta.length ∨
      2 * t.m_meta.length ≠ (pairs old new).length) := by
    rw [hlength, Nat.mul_mod_left]
    exact not_or.2 ⟨Nat.lt_irrefl 0, not_not.2 rfl⟩
  obtain ⟨found, hfound, hselects⟩ := isRow_eq hold hnew hkeys
  have hoverwrite : ∀ r ∈ t.m_vRow,
      overwrite t.m_meta.length (pairs old new) r = some new := fun r hr ↦ by
    rw [← hold]
    exact overwrite_pairs (hnew.trans hold.symm) ((htyped r hr).1.trans hold.symm)
  obtain ⟨n, hn⟩ := replaceFirst_eq hselects hoverwrite
  refine ⟨n, ?_⟩
  rw [updateARow, if_neg hguard, hfound]
  exact congrArg (fun r ↦ r.bind fun p ↦ some (p.1, { t with m_vRow := p.2 })) hn

end CTable

/-! ### The table of a change -/

namespace CDataSet

variable {s : CDataSet} {dbName tblName : Text} {before after : List CTable} {t t' : CTable}

/-- The table with the names is the only one. -/
structure Located (l : Library) (s : CDataSet) (dbName tblName : Text) (before : List CTable)
    (t : CTable) (after : List CTable) : Prop where
  tables : s.m_ds = before ++ t :: after
  here : s.is l dbName tblName t = true
  before : ∀ x ∈ before, s.is l dbName tblName x = false
  after : ∀ x ∈ after, s.is l dbName tblName x = false

theorem onFirst_append {found : CTable → Bool} {f : CTable → Option (ℤ × CTable)} {n : ℤ}
    (ht : found t = true) (hbefore : ∀ x ∈ before, found x = false) (hf : f t = some (n, t')) :
    onFirst found f (before ++ t :: after) = some (n, before ++ t' :: after) := by
  induction before with
  | nil =>
    rw [List.nil_append, onFirst, if_pos ht, hf]
    rfl
  | cons x before ih =>
    have hx : ¬ found x = true := Bool.eq_false_iff.1 (hbefore x List.mem_cons_self)
    rw [List.cons_append, onFirst, if_neg hx, ih fun y hy ↦ hbefore y (List.mem_cons_of_mem x hy)]
    rfl

theorem onAll_none {found : CTable → Bool} {f : CTable → Option (Option (Bool × CTable))}
    (h : ∀ x ∈ after, found x = false) (deleted : ℤ) :
    onAll found f deleted after = some (deleted, after) := by
  induction after with
  | nil => rfl
  | cons x after ih =>
    have hx : ¬ found x = true := Bool.eq_false_iff.1 (h x List.mem_cons_self)
    rw [onAll, if_neg hx, ih fun y hy ↦ h y (List.mem_cons_of_mem x hy)]
    rfl

theorem onAll_append {found : CTable → Bool} {f : CTable → Option (Option (Bool × CTable))}
    {b : Bool} (ht : found t = true) (hbefore : ∀ x ∈ before, found x = false)
    (hafter : ∀ x ∈ after, found x = false) (hf : f t = some (some (b, t'))) (deleted : ℤ) :
    onAll found f deleted (before ++ t :: after) =
      some (if b = true then 1 else deleted, before ++ t' :: after) := by
  induction before with
  | nil =>
    rw [List.nil_append, onAll, if_pos ht, hf]
    show (onAll found f _ after).bind _ = _
    rw [onAll_none hafter]
    rfl
  | cons x before ih =>
    have hx : ¬ found x = true := Bool.eq_false_iff.1 (hbefore x List.mem_cons_self)
    rw [List.cons_append, onAll, if_neg hx, ih fun y hy ↦ hbefore y (List.mem_cons_of_mem x hy)]
    rfl

theorem Located.find (h : s.Located l dbName tblName before t after) :
    s.m_ds.find? (s.is l dbName tblName) = some t := by
  refine List.find?_eq_some_iff_append.2 ⟨h.here, before, after, h.tables, fun x hx ↦ ?_⟩
  rw [h.before x hx]
  rfl

theorem Located.count (h : s.Located l dbName tblName before t after) :
    s.GetColumnCount l dbName tblName = t.m_meta.length := by
  rw [GetColumnCount, h.find]
  rfl

theorem Located.onFirst {f : CTable → Option (ℤ × CTable)} {n : ℤ}
    (h : s.Located l dbName tblName before t after) (hf : f t = some (n, t')) :
    s.withTables (onFirst (s.is l dbName tblName) f s.m_ds) =
      some (n, { s with m_ds := before ++ t' :: after }) := by
  rw [h.tables, onFirst_append h.here h.before hf]
  rfl

theorem Located.onAll {f : CTable → Option (Option (Bool × CTable))} {b : Bool}
    (h : s.Located l dbName tblName before t after) (hf : f t = some (some (b, t'))) :
    s.withTables (onAll (s.is l dbName tblName) f 0 s.m_ds) =
      some (if b = true then 1 else 0, { s with m_ds := before ++ t' :: after }) := by
  rw [h.tables, onAll_append h.here h.before h.after hf]
  rfl

/-- **A row is deleted by the values of its keys.** -/
theorem Located.delete {keys : List (ℕ × Obj)} (h : s.Located l dbName tblName before t after)
    (hfst : keys.map Prod.fst = t.keys) (hkeys : ∀ key ∈ keys, ∃ v, t.Key l key v) :
    ∃ n, (match keys.map Prod.snd with
      | [x] => s.DeleteByKey l dbName tblName x
      | [x0, x1] => s.DeleteByKeys l dbName tblName x0 x1
      | _ => none) = some (n, { s with m_ds := before ++
        { t with m_vRow := t.m_vRow.eraseP (TableChange.selects l t.m_meta keys) } :: after }) := by
  obtain ⟨k, hk⟩ | ⟨k0, k1, hk⟩ := t.keys_cases
  · rw [hk] at hfst
    obtain ⟨⟨k', x⟩, rfl⟩ : ∃ key, keys = [key] :=
      List.length_eq_one_iff.1 (by rw [← List.length_map, hfst]; rfl)
    obtain rfl : k' = k := (List.cons.inj hfst).1
    obtain ⟨v, hkey⟩ := hkeys _ List.mem_cons_self
    obtain ⟨b, hb⟩ := CTable.deleteByKey_eq hk hkey
    exact ⟨_, h.onAll hb⟩
  · rw [hk] at hfst
    obtain ⟨⟨k0', x0⟩, ⟨k1', x1⟩, rfl⟩ : ∃ key0 key1, keys = [key0, key1] :=
      List.length_eq_two.1 (by rw [← List.length_map, hfst]; rfl)
    obtain ⟨rfl, hrest⟩ := List.cons.inj hfst
    obtain rfl : k1' = k1 := (List.cons.inj hrest).1
    obtain ⟨v0, hkey0⟩ := hkeys _ List.mem_cons_self
    obtain ⟨v1, hkey1⟩ := hkeys (k1', x1) (List.mem_cons_of_mem _ List.mem_cons_self)
    obtain ⟨b, hb⟩ := CTable.deleteByKeys_eq hk hkey0 hkey1
    exact ⟨_, h.onAll hb⟩

/-- **The branch for `ueDelete`** deletes the row. -/
theorem Located.onDelete {values : List Obj} (h : s.Located l dbName tblName before t after)
    (hvalues : values.length = t.m_meta.length ∨ values.length = t.keys.length)
    (hhash : values.length = t.m_meta.length → hashOrder t.keys = t.keys)
    (hkeys : ∀ key ∈ (TableChange.delete values).keys t.m_meta, ∃ v, t.Key l key v) :
    ∃ n, s.onDelete l dbName tblName values = some (n, { s with m_ds := before ++ { t with
      m_vRow := t.m_vRow.eraseP (TableChange.selects l t.m_meta
        ((TableChange.delete values).keys t.m_meta)) } :: after }) := by
  rw [TableChange.keys] at hkeys ⊢
  by_cases hrow : values.length = t.m_meta.length
  · rw [if_pos hrow] at hkeys ⊢
    have hfst : (TableChange.keysOf t.m_meta values).map Prod.fst = t.keys := by
      rw [TableChange.keysOf, List.map_map]
      exact List.map_id _
    have hsnd : (TableChange.keysOf t.m_meta values).map Prod.snd =
        t.keys.map fun k ↦ values.getD k .null := by
      rw [TableChange.keysOf, List.map_map]
      rfl
    obtain ⟨n, hn⟩ := h.delete hfst hkeys
    refine ⟨n, ?_⟩
    have hmap : s.findKeys l dbName tblName = t.keys := by
      rw [findKeys, h.find]
      exact hhash hrow
    have hget (k : ℕ) (hk : k ∈ t.keys) : values[k]? = some (values.getD k .null) :=
      getElem?_eq_getD (hrow ▸ lt_of_mem_keys hk)
    have hrowForm : s.onDelete l dbName tblName values = s.DeleteByRow l dbName tblName values :=
      if_pos (hrow.trans h.count.symm)
    rw [hrowForm, DeleteByRow, h.count, if_neg (not_not.2 hrow.symm), hmap, ← hn, hsnd]
    obtain ⟨k, hk⟩ | ⟨k0, k1, hk⟩ := t.keys_cases
    · rw [hk]
      show (values[k]?.bind fun x ↦ s.DeleteByKey l dbName tblName x) = _
      rw [hget k (hk ▸ List.mem_cons_self)]
      rfl
    · rw [hk]
      show (values[k0]?.bind fun x0 ↦ values[k1]?.bind fun x1 ↦
        s.DeleteByKeys l dbName tblName x0 x1) = _
      rw [hget k0 (hk ▸ List.mem_cons_self),
        hget k1 (hk ▸ List.mem_cons_of_mem _ List.mem_cons_self)]
      rfl
  · rw [if_neg hrow] at hkeys ⊢
    have hlength : values.length = t.keys.length := hvalues.resolve_left hrow
    obtain ⟨n, hn⟩ := h.delete (List.map_fst_zip hlength.ge) hkeys
    refine ⟨n, ?_⟩
    rw [List.map_snd_zip hlength.le] at hn
    refine Eq.trans (if_neg (by rw [h.count]; exact hrow)) (Eq.trans ?_ hn)
    obtain ⟨k, hk⟩ | ⟨k0, k1, hk⟩ := t.keys_cases
    · rw [hk] at hlength
      obtain ⟨x, rfl⟩ := List.length_eq_one_iff.1 hlength
      rfl
    · rw [hk] at hlength
      obtain ⟨x0, x1, rfl⟩ := List.length_eq_two.1 hlength
      rfl

end CDataSet

/-! ### One event -/

theorem sameText_trans {c : Bool} {s t u : Text} (hs : sameText l c s u = true)
    (ht : sameText l c t u = true) : sameText l c s t = true := by
  rw [sameText] at hs ht ⊢
  cases c with
  | true => exact decide_eq_true ((of_decide_eq_true hs).trans (of_decide_eq_true ht).symm)
  | false => exact decide_eq_true ((of_decide_eq_true hs).trans (of_decide_eq_true ht).symm)

theorem named_iff {dbCase tableCase : Bool} {dbName tblName : Text} {r : Relation} :
    r.named l dbCase tableCase dbName tblName = true ↔ ∃ col, r.columns.head? = some col ∧
      sameText l dbCase col.DBPath dbName = true ∧
        sameText l tableCase col.TablePath tblName = true := by
  rw [Relation.named, Option.any_eq_true]
  simp only [Bool.and_eq_true]

/-- A change leaves the names. -/
theorem named_change {dbCase tableCase : Bool} {dbName tblName : Text} {p : Prop} [Decidable p]
    {c : TableChange} {r : Relation} :
    (if p then r.apply l c else r).named l dbCase tableCase dbName tblName =
      r.named l dbCase tableCase dbName tblName := by
  split_ifs <;> rfl

/-- The table has the columns and the rows of the relation. -/
structure CTable.Holds (dataCase : Bool) (t : CTable) (r : Relation) : Prop where
  columns : t.m_meta = r.columns
  rows : (t.m_vRow : Multiset Row) = r.rows
  typed : ∀ row ∈ t.m_vRow, Typed t.m_meta row
  dataCase : t.m_bDataCaseSensitive = dataCase

/-- No two relations have the same names. -/
def Distinct (l : Library) (m : Master) : Prop :=
  m.relations.Pairwise fun r r' ↦ ∀ dbName tblName,
    r.named l m.dbCase m.tableCase dbName tblName = true →
      r'.named l m.dbCase m.tableCase dbName tblName = false

/-- The cache has the tables of the master, with their rows. -/
structure CDataSet.Follows (l : Library) (s : CDataSet) (m : Master) : Prop where
  tables : List.Forall₂ (CTable.Holds m.dataCase) s.m_ds m.relations
  dbCase : s.m_bDBNameCaseSensitive = m.dbCase
  tableCase : s.m_bTableNameCaseSensitive = m.tableCase
  dataCase : s.m_bDataCaseSensitive = m.dataCase
  names : Distinct l m

namespace CDataSet

variable {s : CDataSet} {m : Master} {dbName tblName : Text} {r : Relation}

theorem is_eq_named {t : CTable} (h : t.Holds m.dataCase r)
    (hdb : s.m_bDBNameCaseSensitive = m.dbCase)
    (htable : s.m_bTableNameCaseSensitive = m.tableCase) :
    s.is l dbName tblName t = r.named l m.dbCase m.tableCase dbName tblName := by
  obtain ⟨col, cols, hcols⟩ := List.exists_cons_of_length_pos t.columns_pos
  have hfirst : t.first = col := by
    rw [CTable.first, List.get_eq_getElem]
    simp only [hcols, List.getElem_cons_zero]
  rw [is, Relation.named, ← h.columns, hcols, hfirst, hdb, htable]
  rfl

/-- **The relation of a change and its table.** -/
theorem exists_located (h : s.Follows l m) (hfind : m.find l dbName tblName = some r) :
    ∃ before after t rbefore rafter, s.Located l dbName tblName before t after ∧
      t.Holds m.dataCase r ∧ m.relations = rbefore ++ r :: rafter ∧
      List.Forall₂ (CTable.Holds m.dataCase) before rbefore ∧
      List.Forall₂ (CTable.Holds m.dataCase) after rafter ∧
      r.named l m.dbCase m.tableCase dbName tblName = true ∧
      (∀ x ∈ rbefore, x.named l m.dbCase m.tableCase dbName tblName = false) ∧
      ∀ x ∈ rafter, x.named l m.dbCase m.tableCase dbName tblName = false := by
  obtain ⟨hnamed, rbefore, rafter, hrels, hbefore⟩ := List.find?_eq_some_iff_append.1 hfind
  have hnot : ∀ x ∈ rbefore, x.named l m.dbCase m.tableCase dbName tblName = false := fun x hx ↦ by
    simpa using hbefore x hx
  have hafter : ∀ x ∈ rafter, x.named l m.dbCase m.tableCase dbName tblName = false := by
    have hpair := h.names
    rw [Distinct, hrels, List.pairwise_append, List.pairwise_cons] at hpair
    exact fun x hx ↦ hpair.2.1.1 x hx dbName tblName hnamed
  have htables := h.tables
  rw [hrels] at htables
  have hleft := List.forall₂_take_append _ _ _ htables
  have hrest := List.forall₂_drop_append _ _ _ htables
  obtain ⟨t, after, ht, hright, hdrop⟩ := List.forall₂_cons_right_iff.1 hrest
  have hds : s.m_ds = s.m_ds.take rbefore.length ++ t :: after := by
    rw [← hdrop, List.take_append_drop]
  have hnone {ts : List CTable} {rels : List Relation}
      (hts : List.Forall₂ (CTable.Holds m.dataCase) ts rels)
      (hrels : ∀ x ∈ rels, x.named l m.dbCase m.tableCase dbName tblName = false) :
      ∀ x ∈ ts, s.is l dbName tblName x = false := by
    induction hts with
    | nil => exact List.forall_mem_nil _
    | cons hx _ ih =>
      obtain ⟨hhead, htail⟩ := List.forall_mem_cons.1 hrels
      exact List.forall_mem_cons.2 ⟨(is_eq_named hx h.dbCase h.tableCase).trans hhead, ih htail⟩
  exact ⟨_, after, t, rbefore, rafter,
    ⟨hds, (is_eq_named ht h.dbCase h.tableCase).trans hnamed, hnone hleft hnot,
      hnone hright hafter⟩,
    ht, hrels, hleft, hright, hnamed, hnot, hafter⟩

/-- **One change of a table** is the change of the relation. -/
theorem change_located {before after : List CTable} {t : CTable} {c : TableChange}
    (hs : s.Located l dbName tblName before t after) (ht : t.Holds m.dataCase r)
    (hform : c.WellFormed l r.columns) (haddr : (c.toChange l r.columns).Addressed r.rows)
    (hfollowed : c.Followed l r.columns m.dataCase r.rows) :
    ∃ n t', s.change l dbName tblName c = some (n, { s with m_ds := before ++ t' :: after }) ∧
      t'.Holds m.dataCase (r.apply l c) := by
  obtain ⟨columns, rows⟩ := r
  obtain ⟨hcolumns, hrows, htyped, hdata⟩ := ht
  obtain rfl : t.m_meta = columns := hcolumns
  obtain rfl : (t.m_vRow : Multiset Row) = rows := hrows
  rw [← hdata] at hfollowed ⊢
  have hkeys (hmem : ∀ key ∈ c.keys t.m_meta, key.1 ∈ t.keys) :
      ∀ key ∈ c.keys t.m_meta, ∃ v, t.Key l key v := fun key hkey ↦
    CTable.exists_key (hmem key hkey) (hform.1 key hkey).1 (hform.1 key hkey).2
      (hfollowed.1 key hkey) htyped
  have hkeysOf (row : Row) : ∀ key ∈ TableChange.keysOf t.m_meta row, key.1 ∈ t.keys :=
    fun key hkey ↦ by
      obtain ⟨k, hk, rfl⟩ := List.mem_map.1 hkey
      exact hk
  have happly := coe_applyFirst haddr
  cases c with
  | insert new =>
    have hadded : ∀ row ∈ t.m_vRow ++ new.map (typed l t.m_meta), Typed t.m_meta row :=
      fun row hrow ↦ (List.mem_append.1 hrow).elim (htyped row) fun hrow ↦ by
        obtain ⟨row', hrow', rfl⟩ := List.mem_map.1 hrow
        exact typed_of_isRow (hform.2 row' hrow')
    by_cases hempty : new.flatten = []
    · have hnew : new = [] := by
        cases new with
        | nil => rfl
        | cons row new =>
          have hlength : row.length = t.m_meta.length := (hform.2 row List.mem_cons_self).1
          have hpos := t.columns_pos
          rw [List.flatten_cons, List.append_eq_nil_iff] at hempty
          rw [hempty.1, List.length_nil] at hlength
          omega
      refine ⟨0, t, ?_, rfl, ?_, htyped, rfl⟩
      · rw [← hs.tables]
        exact if_pos hempty
      · rw [hnew] at happly ⊢
        exact (congrArg _ (List.append_nil t.m_vRow).symm).trans happly
    · obtain ⟨n, hn⟩ := CTable.addRows_eq hform.2 hfollowed.2
      exact ⟨n, _, (if_neg hempty).trans (hs.onFirst hn), rfl, happly, hadded, rfl⟩
  | update old new =>
    obtain ⟨hold, hnew⟩ : old.length = t.m_meta.length ∧ IsRow l t.m_meta new := hform.2
    obtain ⟨n, hn⟩ := CTable.updateARow_eq hold hnew.1 htyped (hkeys (hkeysOf old))
    have hsame : typed l t.m_meta new = new := typed_eq_self hnew.1 hfollowed.2
    have hpairs : ¬ (pairs old new = [] ∨ 0 < (pairs old new).length % 2) := by
      have hpos := t.columns_pos
      have hlength := CTable.length_pairs (hnew.1.trans hold.symm)
      refine not_or.2 ⟨fun h ↦ ?_, by omega⟩
      rw [h, List.length_nil] at hlength
      omega
    have htoChange : (TableChange.update old new).toChange l t.m_meta =
        .replace (TableChange.selects l t.m_meta (TableChange.keysOf t.m_meta old)) new := by
      rw [TableChange.toChange, hsame]
      rfl
    dsimp only at happly
    rw [htoChange] at happly
    refine ⟨n, _, (if_neg hpairs).trans (hs.onFirst hn), rfl, ?_, fun row hrow ↦ ?_, rfl⟩
    · exact happly.trans (congrArg (fun c ↦ Change.apply _ c) htoChange.symm)
    · obtain hrow | rfl := mem_of_mem_replaceFirst hrow
      · exact htyped row hrow
      · exact hsame ▸ typed_of_isRow hnew
  | delete values =>
    have hmem : ∀ key ∈ (TableChange.delete values).keys t.m_meta, key.1 ∈ t.keys := by
      intro key hkey
      rw [TableChange.keys] at hkey
      split_ifs at hkey with hrow
      · exact hkeysOf values key hkey
      · exact (List.of_mem_zip hkey).1
    obtain ⟨n, hn⟩ := hs.onDelete hform.2 hfollowed.2 (hkeys hmem)
    exact ⟨n, _, hn, rfl, happly, fun row hrow ↦ htyped row (List.mem_of_mem_eraseP hrow), rfl⟩

end CDataSet

namespace CDataSet

variable {s : CDataSet} {m : Master}

/-- **One event** throws nothing and keeps the tables of the cache those of the master. -/
theorem apply_follows {e : Event} (h : s.Follows l m) (hallows : m.Allows l e)
    (hfollowed : m.Followed l e) : ∃ s', s.apply l e = some s' ∧ s'.Follows l (m.apply l e) := by
  cases e with
  | table columns =>
    obtain ⟨hone, hnames⟩ := hallows
    refine ⟨_, rfl, ?_⟩
    rw [AddEmptyRowset, dif_pos hone]
    refine ⟨List.rel_append h.tables (.cons ⟨rfl, rfl, List.forall_mem_nil _, h.dataCase⟩ .nil),
      h.dbCase, h.tableCase, h.dataCase, ?_⟩
    refine List.pairwise_append.2 ⟨h.names, List.pairwise_singleton _ _, fun r hr r' hr' ↦ ?_⟩
    obtain rfl := List.mem_singleton.1 hr'
    intro dbName tblName hnamed
    refine Bool.eq_false_iff.2 fun hnew ↦ ?_
    -- The names of the new table would be those of the relation.
    obtain ⟨col, hcol, hdb, htable⟩ := named_iff.1 hnew
    obtain ⟨col', hcol', hdb', htable'⟩ := named_iff.1 hnamed
    refine List.find?_eq_none.1 (hnames col hcol) r hr (named_iff.2 ⟨col', hcol', ?_, ?_⟩)
    · exact sameText_trans hdb' hdb
    · exact sameText_trans htable' htable
  | change dbName tblName c =>
    obtain ⟨r, hfind, hform, haddr⟩ := hallows
    obtain ⟨before, after, t, rbefore, rafter, hs, ht, hrels, hleft, hright, hnamed, hnot, hnot'⟩ :=
      exists_located h hfind
    obtain ⟨n, t', hchange, hholds⟩ := change_located hs ht hform haddr (hfollowed r hfind)
    refine ⟨_, congrArg (Option.map Prod.snd) hchange, ?_, h.dbCase, h.tableCase, h.dataCase, ?_⟩
    · have hsame {rels : List Relation}
          (hrels : ∀ x ∈ rels, x.named l m.dbCase m.tableCase dbName tblName = false) :
          rels.map (fun r ↦ if r.named l m.dbCase m.tableCase dbName tblName = true then r.apply l c
            else r) = rels :=
        (List.map_congr_left fun x hx ↦ if_neg (Bool.eq_false_iff.1 (hrels x hx))).trans
          (List.map_id _)
      rw [Master.apply, hrels, List.map_append, List.map_cons, hsame hnot, hsame hnot',
        if_pos hnamed]
      exact List.rel_append hleft (.cons hholds hright)
    · rw [Distinct, Master.apply, List.pairwise_map]
      refine h.names.imp fun hpair dbName' tblName' hx ↦ ?_
      rw [named_change] at hx ⊢
      exact hpair dbName' tblName' hx

end CDataSet

/-! ### Histories -/

/-- **The cache follows its master** along every history that the relations allow and whose changes
are followed, and no call throws. -/
theorem javaCache_follows (l : Library) (dbCase tableCase dataCase : Bool) (events : List Event)
    (hin : Within (fun m e ↦ some (m.apply l e)) (fun m e ↦ m.Allows l e ∧ m.Followed l e)
      (Master.empty dbCase tableCase dataCase) events) :
    ∃ s, run (CDataSet.apply l) ⟨[], dbCase, tableCase, dataCase⟩ events = some s ∧
      s.Follows l (events.foldl (Master.apply l) (Master.empty dbCase tableCase dataCase)) := by
  refine run_follows (R := CDataSet.Follows l) ?_ events _ _
    ⟨.nil, rfl, rfl, rfl, List.Pairwise.nil⟩ hin
  exact fun s m e h hstep ↦ CDataSet.apply_follows h hstep.1 hstep.2

/-- A table with two columns of keys around another one, and one with its key in the last column. -/
def twoTables : List Event :=
  [.table [⟨[100], [116], FLAG_PRIMARY_KEY, sdVT_INT⟩, ⟨[100], [116], 0, sdVT_BOOL⟩,
      ⟨[100], [116], FLAG_PRIMARY_KEY, sdVT_BSTR⟩],
    .table [⟨[100], [117], 0, sdVT_DATE⟩, ⟨[100], [117], FLAG_AUTOINCREMENT, sdVT_I8⟩],
    .change [100] [116] (.insert [[.int 1, .null, .string [97]], [.long 1, .int 5, .string [98]]]),
    .change [68] [117] (.insert [[.null, .int 1], [.null, .long 2]]),
    .change [100] [116] (.update [.int 1, .null, .string [97]]
      [.int 2, .boolean true, .string [97]]),
    .change [100] [116] (.delete [.int 1, .string [98]]),
    .change [100] [116] (.delete [.short 2, .boolean true, .string [97]]),
    .change [100] [117] (.delete [.null, .long 1]),
    .change [100] [117] (.delete [.int 2])]

theorem javaCache_follows_twoTables :
    ∃ s, run (CDataSet.apply plainLibrary) ⟨[], false, false, false⟩ twoTables = some s ∧
      s.Follows plainLibrary
        (twoTables.foldl (Master.apply plainLibrary) (Master.empty false false false)) :=
  javaCache_follows plainLibrary false false false twoTables (by decide +kernel)

/-- A row with a `Boolean` in a column of them. -/
def oneBoolean : List Event :=
  [.table [⟨[100], [116], FLAG_PRIMARY_KEY, sdVT_INT⟩, ⟨[100], [116], 0, sdVT_BOOL⟩],
    .change [100] [116] (.insert [[.int 1, .boolean true]])]

theorem rows_eq {dataCase : Bool} {ts : List CTable} {rels : List Relation}
    (h : List.Forall₂ (CTable.Holds dataCase) ts rels) :
    ts.map (fun t ↦ (t.m_vRow : Multiset Row)) = rels.map Relation.rows := by
  induction h with
  | nil => rfl
  | cons ht _ ih => rw [List.map_cons, List.map_cons, ht.rows, ih]

/-- The cache has a `Byte` there. -/
theorem not_javaCache_follows :
    ¬ ∀ (l : Library) (dbCase tableCase dataCase : Bool) (events : List Event),
      Within (fun m e ↦ some (m.apply l e)) (Master.Allows l)
          (Master.empty dbCase tableCase dataCase) events →
        ∃ s, run (CDataSet.apply l) ⟨[], dbCase, tableCase, dataCase⟩ events = some s ∧
          s.Follows l (events.foldl (Master.apply l) (Master.empty dbCase tableCase dataCase)) := by
  intro h
  obtain ⟨s, hrun, hfollows⟩ := h plainLibrary false false true oneBoolean (by decide +kernel)
  have hcache : (run (CDataSet.apply plainLibrary) ⟨[], false, false, true⟩ oneBoolean).map
      (fun s ↦ s.m_ds.map fun t ↦ (t.m_vRow : Multiset Row)) =
        some [{[.int 1, .byte 1]}] := by decide +kernel
  have hmaster : (oneBoolean.foldl (Master.apply plainLibrary)
      (Master.empty false false true)).relations.map Relation.rows =
        [{[.int 1, .boolean true]}] := by decide +kernel
  rw [hrun, Option.map_some, Option.some.injEq, rows_eq hfollows.tables, hmaster] at hcache
  exact absurd hcache (by decide +kernel)

end SocketPro.Java
