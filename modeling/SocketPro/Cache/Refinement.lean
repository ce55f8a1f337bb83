import SocketPro.Foundation.Run
import SocketPro.Cache.DataSet

/-!
# The cache follows its master

The master has for every table a relation, a multiset of rows. Its changes address a row by the
values of *all* its key columns; two key values are the same when `CTable::eq` says so of the values
as they are stored. `WellFormed` is the form in which a change is sent, and `Change.Addressed` says
that the key values select one row.

**Result.** `cache_follows_master`: along every history in which the changes that look for a row
concern tables with one or two key columns, and two bare key values are sent only where the first
key column is the first column (`Covered`), the tables of the cache have the rows of the relations.

**Where it ends.** `third_key_ignored`: with three key columns a wrong row is deleted.
-/

namespace SocketPro.TableCache

open Keyed Machine Buffer

variable (P : Platform)

/-! ### Changes -/

/-- A change of a table, in the form in which it is sent. -/
inductive TableChange
  | insert (pvt : List VARIANT)
  | insertRows (vData : List VARIANT)
  | update (pvt : List VARIANT)
  | delete (vtKey : VARIANT)
  | deleteRow (pRow : List VARIANT)

/-- A change of the table with the given names. -/
structure Event where
  dbName : List UInt16
  tblName : List UInt16
  change : TableChange

/-- The cache takes an event. -/
def CDataSet.apply (ds : CDataSet) (e : Event) : CDataSet :=
  match e.change with
  | .insert pvt => (ds.addEventRows P e.dbName e.tblName pvt).2
  | .insertRows vData => (ds.addRows P e.dbName e.tblName vData).2
  | .update pvt => (ds.updateARow P e.dbName e.tblName pvt).2
  | .delete vtKey => (ds.deleteARowByKey P e.dbName e.tblName vtKey).2
  | .deleteRow pRow => (ds.deleteARow P e.dbName e.tblName pRow).2

namespace TableChange

variable (columns : List CDBColumnInfo)

/-- The key values that a change is addressed by: those of a row, or the bare ones. -/
def keys : TableChange → List (ℕ × VARIANT)
  | insert _ => []
  | insertRows _ => []
  | update pvt => (keyCols columns 0).map fun k ↦ keyValue P columns k (pvt.getD (2 * k) .null)
  | delete vtKey => (keyCols columns 0).map fun k ↦ keyValue P columns k vtKey
  | deleteRow pRow =>
    if pRow.length = columns.length then
      (keyCols columns 0).map fun k ↦ keyValue P columns k (pRow.getD k .null)
    else List.zipWith (keyValue P columns) (keyCols columns 0) pRow

/-- What the change does to the relation. -/
def toChange (caseSensitive : Bool) (c : TableChange) : Change CRow :=
  match c with
  | insert pvt => .insert (rowsOf (eventCell P) columns pvt)
  | insertRows vData => .insert (rowsOf (cell P) columns vData)
  | update pvt =>
    .replace (isRow P caseSensitive (c.keys P columns))
      (List.zipWith (eventCell P) columns (newValues pvt))
  | delete _ => .remove (isRow P caseSensitive (c.keys P columns))
  | deleteRow _ => .remove (isRow P caseSensitive (c.keys P columns))

/-- Rows have a value for each column, an update old and new values; a deletion sends the value of
the only key column, a row, or the values of two key columns. -/
def WellFormed : TableChange → Prop
  | insert pvt => pvt.length % columns.length = 0
  | insertRows vData => vData.length % columns.length = 0
  | update pvt => pvt.length = 2 * columns.length
  | delete _ => (keyCols columns 0).length = 1
  | deleteRow pRow =>
    pRow.length = columns.length ∨ pRow.length = 2 ∧ (keyCols columns 0).length = 2

/-- The changes the cache is made for. -/
def Covered : TableChange → Prop
  | insert _ => True
  | insertRows _ => True
  | update _ => (keyCols columns 0).length = 1 ∨ (keyCols columns 0).length = 2
  | delete _ => True
  | deleteRow pRow =>
    ((keyCols columns 0).length = 1 ∨ (keyCols columns 0).length = 2) ∧
      (pRow.length = columns.length ∨ (keyCols columns 0).head? = some 0)

instance (c : TableChange) : Decidable (c.WellFormed columns) := by
  cases c <;> unfold WellFormed <;> infer_instance

instance (c : TableChange) : Decidable (c.Covered columns) := by
  cases c <;> unfold Covered <;> infer_instance

end TableChange

/-! ### The master -/

/-- The relation of a table. -/
structure Relation where
  columns : List CDBColumnInfo
  rows : Multiset CRow
  caseSensitive : Bool

/-- The relations of the master, and how it compares names. -/
structure Master where
  relations : List Relation
  dbCase : Bool
  tableCase : Bool

/-- A change of a relation. -/
def Relation.apply (c : TableChange) (r : Relation) : Relation :=
  { r with rows := (c.toChange P r.columns r.caseSensitive).apply r.rows }

namespace Master

/-- The relation has the names of the event. -/
def isFor (m : Master) (e : Event) (r : Relation) : Bool :=
  CDataSet.is P m.dbCase m.tableCase r.columns e.dbName e.tblName

/-- The master takes an event. -/
def apply (m : Master) (e : Event) : Master :=
  { m with relations :=
      (CDataSet.onFirst (m.isFor P e) (fun r ↦ (0, r.apply P e.change)) m.relations).2 }

/-- The relation that an event is for allows it: the change is well-formed, and selects one row. -/
def Allows (m : Master) (e : Event) : Prop :=
  ∀ r ∈ m.relations.find? (m.isFor P e), e.change.WellFormed r.columns ∧
    (e.change.toChange P r.columns r.caseSensitive).Addressed r.rows

/-- The event is one that the cache is made for. -/
def Covers (m : Master) (e : Event) : Prop :=
  ∀ r ∈ m.relations.find? (m.isFor P e), e.change.Covered r.columns

instance (m : Master) (e : Event) : Decidable (m.Allows P e) := by
  unfold Allows
  infer_instance

instance (m : Master) (e : Event) : Decidable (m.Covers P e) := by
  unfold Covers
  infer_instance

end Master

/-- The table has the columns and the rows of the relation. -/
structure CTable.Holds (t : CTable) (r : Relation) : Prop where
  columns : t.columns = r.columns
  rows : (t.rows : Multiset CRow) = r.rows
  caseSensitive : t.m_bDataCaseSensitive = r.caseSensitive

/-- The cache has the tables of the master, with their rows. -/
structure CDataSet.Follows (ds : CDataSet) (m : Master) : Prop where
  tables : List.Forall₂ CTable.Holds ds.m_ds m.relations
  dbCase : ds.m_bDBNameCaseSensitive = m.dbCase
  tableCase : ds.m_bTableNameCaseSensitive = m.tableCase

/-! ### One change of a table -/

/-- The function that the cache calls on the table. -/
def TableChange.onTable : TableChange → CTable → ℕ × CTable
  | .insert pvt => CTable.addRows (eventCell P) pvt
  | .insertRows vData => CTable.addRows (cell P) vData
  | .update pvt => CTable.updateARow P pvt
  | .delete vtKey => CTable.deleteARowByKey P vtKey
  | .deleteRow pRow => CTable.deleteARow P pRow

variable {P}

/-- One or two key columns are those that the functions find. -/
theorem one_or_two {α : Type} {l : List α} (h : l.length = 1 ∨ l.length = 2) :
    (∃ a, l = [a]) ∨ ∃ a b, l = [a, b] := by
  match l, h with
  | [a], _ => exact .inl ⟨a, rfl⟩
  | [a, b], _ => exact .inr ⟨a, b, rfl⟩

section Change

variable {t : CTable} {pvt pRow : List VARIANT} {vtKey : VARIANT}

theorem addRows_eq {stored : CDBColumnInfo → VARIANT → VARIANT} {data : List VARIANT}
    (h : data.length % t.columns.length = 0) :
    (t.addRows stored data).2 = { t with rows := t.rows ++ rowsOf stored t.columns data } := by
  rw [CTable.addRows, if_neg (not_not.2 h)]

theorem updateARow_eq (hlen : pvt.length = 2 * t.columns.length)
    (hkeys : (keyCols t.columns 0).length = 1 ∨ (keyCols t.columns 0).length = 2) :
    (t.updateARow P pvt).2 = { t with
      rows := ((TableChange.update pvt).toChange P t.columns t.m_bDataCaseSensitive).applyFirst
        t.rows } := by
  have hcount : ¬ (pvt.length % t.columns.length ≠ 0 ∨ 2 * t.columns.length ≠ pvt.length) := by
    rw [hlen, Nat.mul_mod_left]
    simp
  rw [CTable.updateARow, if_neg hcount, findKeyColIndices_none, TableChange.toChange,
    TableChange.keys]
  rcases one_or_two hkeys with ⟨key0, hk⟩ | ⟨key0, key1, hk⟩
  · rw [hk]
    rfl
  · rw [hk]
    rfl

theorem deleteARowByKey_eq (hkeys : (keyCols t.columns 0).length = 1) :
    (t.deleteARowByKey P vtKey).2 = { t with
      rows := ((TableChange.delete vtKey).toChange P t.columns t.m_bDataCaseSensitive).applyFirst
        t.rows } := by
  obtain ⟨key, hk⟩ := List.length_eq_one_iff.1 hkeys
  rw [CTable.deleteARowByKey, findKeyColIndex_eq, TableChange.toChange, TableChange.keys, hk]
  rfl

/-- The second one of two values belongs to the second key column, where the first key column is the
first column or the values are a row. -/
theorem second_value {key0 key1 : ℕ} (hk : keyCols t.columns 0 = [key0, key1])
    (hrow : pRow.length = t.columns.length) : (if pRow.length = 2 then 1 else key1) = key1 := by
  split_ifs with htwo
  · have hlt := lt_of_mem_keyCols (show key1 ∈ keyCols t.columns 0 by simp [hk])
    have horder := keyCols_pairwise t.columns 0
    rw [hk] at horder
    have hless : key0 < key1 := by simpa using horder
    omega
  · rfl

theorem deleteARow_eq
    (hform : pRow.length = t.columns.length ∨ pRow.length = 2 ∧ (keyCols t.columns 0).length = 2)
    (hkeys : (keyCols t.columns 0).length = 1 ∨ (keyCols t.columns 0).length = 2)
    (hfirst : pRow.length = t.columns.length ∨ (keyCols t.columns 0).head? = some 0) :
    (t.deleteARow P pRow).2 = { t with
      rows := ((TableChange.deleteRow pRow).toChange P t.columns t.m_bDataCaseSensitive).applyFirst
        t.rows } := by
  rw [CTable.deleteARow, findKeyColIndices_none, TableChange.toChange, TableChange.keys]
  by_cases hrow : pRow.length = t.columns.length
  · rw [if_pos hrow]
    rcases one_or_two hkeys with ⟨key0, hk⟩ | ⟨key0, key1, hk⟩
    · rw [hk]
      rfl
    · have hsecond := second_value hk hrow
      rw [hk]
      show (t.eraseRow P [_, keyValue P t.columns key1 (pRow.getD _ .null)]).2 = _
      rw [hsecond]
      rfl
  · obtain ⟨hlen, htwo⟩ := hform.resolve_left hrow
    have hhead := hfirst.resolve_left hrow
    obtain ⟨key0, key1, hk⟩ := List.length_eq_two.1 htwo
    obtain ⟨v₀, v₁, rfl⟩ := List.length_eq_two.1 hlen
    obtain rfl : key0 = 0 := by simpa [hk] using hhead
    rw [if_neg hrow, hk]
    rfl

/-- **One change of a table** is the change of the relation. -/
theorem onTable_holds {r : Relation} {c : TableChange} (h : t.Holds r)
    (hform : c.WellFormed r.columns) (hcovered : c.Covered r.columns)
    (haddr : (c.toChange P r.columns r.caseSensitive).Addressed r.rows) :
    (c.onTable P t).2.Holds (r.apply P c) := by
  obtain ⟨columns, rows, caseSensitive⟩ := r
  obtain ⟨hcolumns, hrows, hcase⟩ := h
  obtain rfl : t.columns = columns := hcolumns
  obtain rfl : (t.rows : Multiset CRow) = rows := hrows
  obtain rfl : t.m_bDataCaseSensitive = caseSensitive := hcase
  have hchange : (c.onTable P t).2 = { t with
      rows := (c.toChange P t.columns t.m_bDataCaseSensitive).applyFirst t.rows } := by
    cases c with
    | insert pvt => exact addRows_eq hform
    | insertRows vData => exact addRows_eq hform
    | update pvt => exact updateARow_eq hform hcovered
    | delete vtKey => exact deleteARowByKey_eq hform
    | deleteRow pRow => exact deleteARow_eq hform hcovered.1 hcovered.2
  rw [hchange]
  exact ⟨rfl, coe_applyFirst haddr, rfl⟩

end Change

/-! ### One event -/

theorem onFirst_same {α : Type} {found : α → Bool} {f : α → ℕ × α} (h : ∀ a, (f a).2 = a)
    (l : List α) : (CDataSet.onFirst found f l).2 = l := by
  induction l with
  | nil => rfl
  | cons a l ih =>
    rw [CDataSet.onFirst]
    split_ifs
    · exact congrArg (· :: l) (h a)
    · exact congrArg (a :: ·) ih

/-- What holds of the first pair, a function on both keeps. -/
theorem onFirst_forall₂ {α β : Type} {R : α → β → Prop} {found : α → Bool} {found' : β → Bool}
    {f : α → ℕ × α} {g : β → ℕ × β} {l : List α} {l' : List β} (h : List.Forall₂ R l l')
    (hfound : ∀ a b, R a b → found a = found' b)
    (hstep : ∀ a, ∀ b ∈ l'.find? found', R a b → R (f a).2 (g b).2) :
    List.Forall₂ R (CDataSet.onFirst found f l).2 (CDataSet.onFirst found' g l').2 := by
  induction h with
  | nil => exact .nil
  | @cons a b l l' hab hll ih =>
    rw [CDataSet.onFirst, CDataSet.onFirst, hfound a b hab]
    by_cases hb : found' b
    · rw [if_pos hb, if_pos hb]
      exact .cons (hstep a b (List.find?_cons_of_pos hb ▸ rfl) hab) hll
    · rw [if_neg hb, if_neg hb]
      refine .cons hab (ih fun a b hmem ↦ hstep a b ?_)
      rwa [List.find?_cons_of_neg hb]

/-- An event is a function on the first table with its names. -/
theorem apply_eq (ds : CDataSet) (e : Event) :
    ds.apply P e = (ds.onTable P e.dbName e.tblName (e.change.onTable P)).2 := by
  obtain ⟨dbName, tblName, change⟩ := e
  have hsame {f : CTable → ℕ × CTable} (h : ∀ t, (f t).2 = t) :
      ds = (ds.onTable P dbName tblName f).2 := by
    rw [CDataSet.onTable, onFirst_same h]
  have hnone (stored : CDBColumnInfo → VARIANT → VARIANT) (t : CTable) :
      (t.addRows stored []).2 = t := by
    rw [addRows_eq (Nat.zero_mod _), rowsOf, List.length_nil, Nat.zero_div]
    simp [chunk]
  cases change with
  | insert pvt =>
    show (ds.addEventRows P dbName tblName pvt).2 = _
    rw [CDataSet.addEventRows]
    split_ifs with hlen
    · rw [List.length_eq_zero_iff.1 hlen]
      exact hsame (hnone _)
    · rfl
  | insertRows vData =>
    show (ds.addRows P dbName tblName vData).2 = _
    rw [CDataSet.addRows]
    split_ifs with hlen
    · rw [List.length_eq_zero_iff.1 hlen]
      exact hsame (hnone _)
    · rfl
  | update pvt =>
    show (ds.updateARow P dbName tblName pvt).2 = _
    rw [CDataSet.updateARow]
    split_ifs with hlen
    · refine hsame fun t ↦ ?_
      show (t.updateARow P pvt).2 = t
      rw [CTable.updateARow]
      split_ifs with hcount
      · rfl
      · -- No values, and no columns.
        have hnil : t.columns = [] := List.length_eq_zero_iff.1 (by omega)
        rw [hnil]
        rfl
    · rfl
  | delete vtKey => rfl
  | deleteRow pRow => rfl

/-- **One event** keeps the tables of the cache those of the master. -/
theorem apply_follows {ds : CDataSet} {m : Master} {e : Event} (h : ds.Follows m)
    (hallowed : m.Allows P e) (hcovered : m.Covers P e) :
    (ds.apply P e).Follows (m.apply P e) := by
  rw [apply_eq]
  refine ⟨onFirst_forall₂ h.tables ?_ ?_, h.dbCase, h.tableCase⟩
  · intro t r htr
    rw [Master.isFor, htr.columns, h.dbCase, h.tableCase]
  · intro t r hr htr
    obtain ⟨hform, haddr⟩ := hallowed r hr
    exact onTable_holds htr hform (hcovered r hr) haddr

/-! ### Histories -/

theorem foldl_follows (events : List Event) {ds : CDataSet} {m : Master} (h : ds.Follows m)
    (hin : Within (fun m e ↦ some (m.apply P e)) (fun m e ↦ m.Allows P e ∧ m.Covers P e) m events) :
    (events.foldl (fun ds e ↦ ds.apply P e) ds).Follows
      (events.foldl (fun m e ↦ m.apply P e) m) := by
  induction events generalizing ds m with
  | nil => exact h
  | cons e events ih =>
    obtain ⟨⟨hallowed, hcovered⟩, hrest⟩ := hin
    exact ih (apply_follows h hallowed hcovered) hrest

/-- **The cache follows its master** along every history that the relations allow, if its changes
are ones the cache is made for. -/
theorem cache_follows_master (P : Platform) (events : List Event) {ds : CDataSet} {m : Master}
    (h : ds.Follows m)
    (hin : Within (fun m e ↦ some (m.apply P e)) (fun m e ↦ m.Allows P e ∧ m.Covers P e) m events) :
    (events.foldl (fun ds e ↦ ds.apply P e) ds).Follows
      (events.foldl (fun m e ↦ m.apply P e) m) :=
  foldl_follows events h hin

/-! ### Histories of one table -/

/-- A platform on which no value has to be converted. -/
def plain : Platform where
  VariantChangeType vt _ := vt
  UDateTime _ := []
  ToBSTR s := s.map (·.toUInt16)
  tolower := id
  eqMixed _ _ := 0

/-- A column of 32-bit integers of the table `t` in the database `d`. -/
def intColumn (flags : UInt32) : CDBColumnInfo := ⟨[100], [116], flags, ScalarVT.I4.vt⟩

/-- A 32-bit integer. -/
def int (n : ℕ) : VARIANT := .scalar .I4 (Bytes.leBytes 4 n)

/-- A cache with one table without rows, and its master. -/
def oneTable (columns : List CDBColumnInfo) : CDataSet := ⟨[⟨columns, [], true⟩], true, true, true⟩

def oneRelation (columns : List CDBColumnInfo) : Master := ⟨[⟨columns, 0, true⟩], true, true⟩

theorem oneTable_follows (columns : List CDBColumnInfo) :
    (oneTable columns).Follows (oneRelation columns) :=
  ⟨.cons ⟨rfl, rfl, rfl⟩ .nil, rfl, rfl⟩

/-- The columns of a table with `n` key columns and one more. -/
def keyedColumns (n : ℕ) : List CDBColumnInfo :=
  List.replicate n (intColumn FLAG_PRIMARY_KEY) ++ [intColumn 0]

/-- Three rows are added, one is updated, one deleted by its key values and one as a row. -/
def twoKeyEvents : List Event :=
  [⟨[100], [116], .insertRows [int 1, int 1, int 5, int 1, int 2, int 6]⟩,
    ⟨[100], [116], .insert [int 2, int 1, int 7]⟩,
    ⟨[100], [116], .update [int 1, int 1, int 2, int 3, int 6, int 8]⟩,
    ⟨[100], [116], .deleteRow [int 1, int 3]⟩,
    ⟨[100], [116], .deleteRow [int 2, int 1, int 7]⟩]

theorem twoKeyEvents_within :
    Within (fun m e ↦ some (Master.apply plain m e))
      (fun m e ↦ m.Allows plain e ∧ m.Covers plain e) (oneRelation (keyedColumns 2))
      twoKeyEvents := by
  decide +kernel

theorem cache_follows_master_twoKeyEvents :
    (twoKeyEvents.foldl (fun ds e ↦ ds.apply plain e) (oneTable (keyedColumns 2))).Follows
      (twoKeyEvents.foldl (fun m e ↦ m.apply plain e) (oneRelation (keyedColumns 2))) :=
  cache_follows_master plain twoKeyEvents (oneTable_follows _) twoKeyEvents_within

/-- Two rows that differ in the third key column; the second one is deleted. -/
def threeKeyEvents : List Event :=
  [⟨[100], [116], .insertRows [int 1, int 1, int 1, int 5, int 1, int 1, int 2, int 6]⟩,
    ⟨[100], [116], .deleteRow [int 1, int 1, int 2, int 6]⟩]

/-- The relation allows these changes, and the cache deletes the first row. -/
theorem third_key_ignored :
    Within (fun m e ↦ some (Master.apply plain m e)) (Master.Allows plain)
        (oneRelation (keyedColumns 3)) threeKeyEvents ∧
      ¬ (threeKeyEvents.foldl (fun ds e ↦ ds.apply plain e) (oneTable (keyedColumns 3))).Follows
        (threeKeyEvents.foldl (fun m e ↦ m.apply plain e) (oneRelation (keyedColumns 3))) := by
  refine ⟨by decide +kernel, fun h ↦ ?_⟩
  have htables : List.Forall₂ CTable.Holds [_] [_] := h.tables
  have hrows := (List.forall₂_cons.1 htables).1.rows
  -- The rows with `2` in the third column.
  have hcount := congrArg (Multiset.countP fun row ↦
    0 < eq plain true (row.getD 2 .null) (int 2)) hrows
  revert hcount
  decide +kernel

end SocketPro.TableCache
