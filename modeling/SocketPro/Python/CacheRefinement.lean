import SocketPro.Foundation.Run
import SocketPro.Python.DataSet
import Mathlib.Data.List.Lookmap

/-!
# The Python cache follows its master

The master has for every table a relation, a multiset of rows. A change addresses a row by the
values of its key columns, which are compared by `==`; rows are added, and the row that a change
addresses is replaced or removed. `Master.Allows` says that a change is well-formed and addresses
one row: so it is in the valid histories of a relation with these keys.

The row found is removed by value, but the row that goes is the one that has been found: a row that
is equal to it has the same keys and would have been found before (`remove_found`).

* `pythonCache_follows` — **along every history nothing is raised and the tables of the cache have
  the rows of the relations.**
-/

namespace SocketPro.Python

open Keyed Machine

variable (lower : List CodePoint → List CodePoint)

/-! ### Changes -/

/-- A change of a table: rows are added, a row is updated, or one is deleted, by the row or by the
values of its keys. -/
inductive TableChange
  | insert (rows : List Row)
  | update (old new : Row)
  | deleteRow (row : Row)
  | deleteKeys (keys : List Obj)

/-- What the master does. -/
inductive Event
  | table (columns : List CDBColumnInfo)
  | change (dbName tblName : List CodePoint) (c : TableChange)

/-- The values of two rows, in pairs. -/
def pairs : Row → Row → List Obj
  | o :: old, n :: new => o :: n :: pairs old new
  | _, _ => []

/-- The cache is called. -/
def CDataSet.change (s : CDataSet) (dbName tblName : List CodePoint) :
    TableChange → Option (ℤ × CDataSet)
  | .insert rows => s.AddRows lower dbName tblName rows.flatten
  | .update old new => s.UpdateARow lower dbName tblName (pairs old new)
  | .deleteRow row => s.DeleteARow lower dbName tblName row
  | .deleteKeys keys => s.DeleteARow lower dbName tblName keys

/-- The cache takes an event. -/
def CDataSet.apply (s : CDataSet) : Event → Option CDataSet
  | .table columns => s.AddEmptyRowset columns
  | .change dbName tblName c => (s.change lower dbName tblName c).map Prod.snd

namespace TableChange

variable (columns : List CDBColumnInfo)

/-- The values of the key columns of a row. -/
def keysOf (row : Row) : List (ℕ × Obj) :=
  (CTable.keysFrom columns 0).map fun k ↦ (k, row.getD k .none)

/-- The ordinals and values that a change is addressed by. -/
def keys : TableChange → List (ℕ × Obj)
  | insert _ => []
  | update old _ => keysOf columns old
  | deleteRow row => keysOf columns row
  | deleteKeys keys => (CTable.keysFrom columns 0).zip keys

/-- A row with the given values. -/
def selects (keys : List (ℕ × Obj)) (row : Row) : Bool :=
  keys.all fun key ↦ key.2.eq (row.getD key.1 .none)

/-- What the change does to the relation. -/
def toChange (c : TableChange) : Change Row :=
  match c with
  | insert rows => .insert rows
  | update _ new => .replace (selects (c.keys columns)) new
  | deleteRow _ => .remove (selects (c.keys columns))
  | deleteKeys _ => .remove (selects (c.keys columns))

/-- Rows have a value for each column, the keys are not null, and there are not more of them than
key columns. -/
def WellFormed (c : TableChange) : Prop :=
  (∀ key ∈ c.keys columns, key.2.isNone = false) ∧ match c with
  | insert rows => ∀ row ∈ rows, row.length = columns.length
  | update old new => old.length = columns.length ∧ new.length = columns.length
  | deleteRow row => row.length = columns.length
  | deleteKeys keys => 0 < keys.length ∧ keys.length ≤ (CTable.keysFrom columns 0).length

instance (c : TableChange) : Decidable (c.WellFormed columns) := by
  cases c <;> unfold WellFormed <;> infer_instance

end TableChange

/-! ### The master -/

/-- The relation of a table. -/
structure Relation where
  columns : List CDBColumnInfo
  rows : Multiset Row

/-- The relations of the master, and how it compares names. -/
structure Master where
  relations : List Relation
  dbCase : Bool
  tableCase : Bool

/-- A master without relations. -/
def Master.empty (dbCase tableCase : Bool) : Master := ⟨[], dbCase, tableCase⟩

/-- A change of a relation. -/
def Relation.apply (c : TableChange) (r : Relation) : Relation :=
  { r with rows := (c.toChange r.columns).apply r.rows }

/-- The names are those of the first column. -/
def Relation.named (dbCase tableCase : Bool) (dbName tblName : List CodePoint) (r : Relation) :
    Bool :=
  r.columns.head?.any (CDataSet.is lower dbCase tableCase dbName tblName)

/-- A change of a relation with the names. -/
def Relation.applyNamed (dbCase tableCase : Bool) (dbName tblName : List CodePoint)
    (c : TableChange) (r : Relation) : Option Relation :=
  if r.named lower dbCase tableCase dbName tblName = true then some (r.apply c) else none

namespace Master

/-- The master takes an event: a new relation, or a change of the first one with the names. -/
def apply (m : Master) : Event → Master
  | .table columns => { m with relations := m.relations ++ [⟨columns, 0⟩] }
  | .change dbName tblName c =>
    { m with
      relations :=
        m.relations.lookmap (Relation.applyNamed lower m.dbCase m.tableCase dbName tblName c) }

/-- A new table has names and one or two key columns. A change is well-formed for the relation that
it is for, and addresses one row of it. -/
def Allows (m : Master) : Event → Prop
  | .table columns =>
    (∃ col ∈ columns.head?, col.DBPath.length ≠ 0 ∧ col.TablePath.length ≠ 0) ∧
      0 < (CTable.keysFrom columns 0).length ∧ (CTable.keysFrom columns 0).length ≤ 2
  | .change dbName tblName c =>
    ∀ r ∈ m.relations.find? (Relation.named lower m.dbCase m.tableCase dbName tblName),
      c.WellFormed r.columns ∧ (c.toChange r.columns).Addressed r.rows

instance (m : Master) (e : Event) : Decidable (m.Allows lower e) := by
  cases e <;> unfold Allows <;> infer_instance

end Master

/-- The table has the columns and the rows of the relation. -/
structure CTable.Holds (t : CTable) (r : Relation) : Prop where
  columns : t.columns = r.columns
  rows : (t.vRow : Multiset Row) = r.rows
  width : ∀ row ∈ t.vRow, row.length = t.columns.length
  dataCase : t.bDataCaseSensitive = true
  one_or_two : 0 < t.keys.length ∧ t.keys.length ≤ 2

/-- The cache has the tables of the master, with their rows. -/
structure CDataSet.Follows (s : CDataSet) (m : Master) : Prop where
  tables : List.Forall₂ CTable.Holds s.ds m.relations
  dbCase : s.DBNameCase = m.dbCase
  tableCase : s.TableNameCase = m.tableCase
  dataCase : s.DataCase = true

/-! ### The row that is found -/

namespace CTable

variable {lower} {t : CTable} {before after : List Row} {r new : Row}

theorem findFrom_append {found : Row → Option Bool} (hr : found r = some true)
    (hbefore : ∀ x ∈ before, found x = some false) (n : ℕ) :
    findFrom found (before ++ r :: after) n = some (some (n + before.length)) := by
  induction before generalizing n with
  | nil =>
    rw [List.nil_append, findFrom, hr]
    rfl
  | cons x before ih =>
    rw [List.cons_append, findFrom, hbefore x List.mem_cons_self, List.length_cons,
      Nat.add_comm before.length, ← Nat.add_assoc]
    exact ih (fun y hy ↦ hbefore y (List.mem_cons_of_mem _ hy)) (n + 1)

/-- **The row that goes is the one that has been found.** -/
theorem remove_found (hbefore : ∀ x ∈ before, Obj.eqList x r = false) :
    remove before.length r (before ++ r :: after) = some (before ++ after) := by
  induction before with
  | nil => exact if_pos (.inl rfl)
  | cons x before ih =>
    have hx : ¬ (before.length + 1 = 0 ∨ Obj.eqList x r = true) := by
      rw [hbefore x List.mem_cons_self]
      simp
    rw [List.length_cons, List.cons_append, remove, if_neg hx, Nat.add_sub_cancel,
      ih fun y hy ↦ hbefore y (List.mem_cons_of_mem _ hy)]
    rfl

theorem eq_of_case (h : t.bDataCaseSensitive = true) {key : Obj} (hkey : key.isNone = false)
    (v : Obj) : t.eq lower key v = some (key.eq v) := by
  cases key with
  | none => cases hkey
  | str s => exact if_pos h
  | _ => rfl

theorem lt_of_mem_keysFrom {columns : List CDBColumnInfo} {n k : ℕ} (h : k ∈ keysFrom columns n) :
    k < n + columns.length := by
  induction columns generalizing n with
  | nil => cases h
  | cons col columns ih =>
    rw [keysFrom] at h
    rw [List.length_cons]
    split_ifs at h
    · obtain rfl | h := List.mem_cons.1 h
      · omega
      · have := ih h
        omega
    · have := ih h
      omega

theorem length_keysFrom_le (columns : List CDBColumnInfo) (n : ℕ) :
    (keysFrom columns n).length ≤ columns.length := by
  induction columns generalizing n with
  | nil => exact Nat.le_refl 0
  | cons col columns ih =>
    rw [keysFrom, List.length_cons]
    split_ifs
    · exact Nat.succ_le_succ (ih (n + 1))
    · exact (ih (n + 1)).trans (Nat.le_succ _)

/-- A row has a value for each of its key columns. -/
theorem getElem?_key (hr : r.length = t.columns.length) {k : ℕ} (hk : k ∈ t.keys) :
    r[k]? = some (r.getD k .none) := by
  have hlt : k < r.length := by
    have := lt_of_mem_keysFrom hk
    omega
  rw [List.getD_eq_getElem?_getD, List.getElem?_eq_getElem hlt]
  rfl

/-- The first key is tested. -/
theorem isRow_cons (hcase : t.bDataCaseSensitive = true) (hr : r.length = t.columns.length)
    {c : ℕ} {cols : List ℕ} (hkeys : t.keys = c :: cols) {v key1 : Obj} (hv : v.isNone = false) :
    t.isRow lower t.keys v key1 r =
      if v.eq (r.getD c .none) = true then t.isSecond lower t.keys key1 r else some false := by
  have hget := getElem?_key hr (hkeys ▸ List.mem_cons_self : c ∈ t.keys)
  have hbind : t.isRow lower t.keys v key1 r = (t.keys[0]?).bind fun k ↦ (r[k]?).bind fun vt ↦
      (t.eq lower v vt).bind fun b ↦
        if b = true then t.isSecond lower t.keys key1 r else some false := rfl
  rw [hbind, hkeys, List.getElem?_cons_zero, Option.bind_some, hget, Option.bind_some,
    eq_of_case hcase hv, Option.bind_some]

/-- The second key is tested. -/
theorem isSecond_pair (hcase : t.bDataCaseSensitive = true) (hr : r.length = t.columns.length)
    {c0 c1 : ℕ} (hkeys : t.keys = [c0, c1]) {v : Obj} (hv : v.isNone = false) :
    t.isSecond lower t.keys v r = some (v.eq (r.getD c1 .none)) := by
  have hget := getElem?_key hr (hkeys ▸ List.mem_cons_of_mem _ List.mem_cons_self : c1 ∈ t.keys)
  have hbind : t.isSecond lower [c0, c1] v r = (r[c1]?).bind (t.eq lower v) :=
    if_neg (by rw [hv]; decide)
  rw [hkeys, hbind, hget, Option.bind_some, eq_of_case hcase hv]

/-- **The test of `FindARow`** says whether the row has the given values. -/
theorem isRow_eq (hcase : t.bDataCaseSensitive = true)
    (hone : 0 < t.keys.length ∧ t.keys.length ≤ 2)
    (hr : r.length = t.columns.length) {values : List Obj} (hpos : 0 < values.length)
    (hle : values.length ≤ t.keys.length) (hnone : ∀ v ∈ values, v.isNone = false) :
    t.isRow lower t.keys (values.getD 0 .none) (values.getD 1 .none) r =
      some (TableChange.selects (t.keys.zip values) r) := by
  obtain ⟨c0, cols, hkeys⟩ := List.exists_cons_of_length_pos hone.1
  obtain ⟨v0, rest, rfl⟩ := List.exists_cons_of_length_pos hpos
  have hzip : TableChange.selects (t.keys.zip (v0 :: rest)) r =
      (v0.eq (r.getD c0 .none) && TableChange.selects (cols.zip rest) r) := by
    rw [hkeys]
    rfl
  rw [show (v0 :: rest).getD 0 Obj.none = v0 from rfl,
    isRow_cons hcase hr hkeys (hnone v0 List.mem_cons_self), hzip]
  cases v0.eq (r.getD c0 .none) with
  | false => rfl
  | true =>
    rw [if_pos rfl, Bool.true_and]
    cases rest with
    | nil =>
      rw [List.zip_nil_right]
      rfl
    | cons v1 rest =>
      -- There is a second value, and so there are two keys.
      have hlength : cols.length = 1 ∧ rest.length = 0 := by
        rw [hkeys, List.length_cons] at hone hle
        rw [List.length_cons, List.length_cons] at hle
        omega
      obtain ⟨c1, rfl⟩ := List.length_eq_one_iff.1 hlength.1
      obtain rfl := List.length_eq_zero_iff.1 hlength.2
      have hv1 : v1.isNone = false := hnone v1 (List.mem_cons_of_mem _ List.mem_cons_self)
      refine (isSecond_pair hcase hr hkeys hv1).trans ?_
      exact congrArg some (Bool.and_true _).symm

/-- The loop finds the only row with the given values. -/
theorem findARow_eq (hcase : t.bDataCaseSensitive = true)
    (hone : 0 < t.keys.length ∧ t.keys.length ≤ 2)
    (hwidth : ∀ row ∈ t.vRow, row.length = t.columns.length) {values : List Obj}
    (hpos : 0 < values.length) (hle : values.length ≤ t.keys.length)
    (hnone : ∀ v ∈ values, v.isNone = false) (hrows : t.vRow = before ++ r :: after)
    (hr : TableChange.selects (t.keys.zip values) r = true)
    (hbefore : ∀ x ∈ before, TableChange.selects (t.keys.zip values) x = false) :
    t.findARow lower (values.getD 0 .none) (values.getD 1 .none) = some (some before.length) := by
  have htest : ∀ row ∈ t.vRow,
      t.isRow lower t.keys (values.getD 0 .none) (values.getD 1 .none) row =
        some (TableChange.selects (t.keys.zip values) row) := fun row hrow ↦
    isRow_eq hcase hone (hwidth row hrow) hpos hle hnone
  obtain ⟨v0, rest, rfl⟩ := List.exists_cons_of_length_pos hpos
  have hfind : t.findARow lower v0 ((v0 :: rest).getD 1 .none) =
      findFrom (t.isRow lower t.keys v0 ((v0 :: rest).getD 1 .none)) t.vRow 0 := by
    have hv0 := hnone v0 List.mem_cons_self
    cases v0 with
    | none => cases hv0
    | _ => rfl
  rw [hrows] at htest hfind
  refine hfind.trans ((findFrom_append ?_ (fun x hx ↦ ?_) 0).trans ?_)
  · exact (htest r (List.mem_append_right _ List.mem_cons_self)).trans (congrArg some hr)
  · exact (htest x (List.mem_append_left _ hx)).trans (congrArg some (hbefore x hx))
  · rw [Nat.zero_add]

/-! ### Rows that are added and overwritten -/

/-- The rest of a row is added. -/
theorem addValues_row {w : ℕ} {p ds rest : List Obj} {vRow : List Row} {index : ℕ}
    (hp : 0 < p.length) (hw : p.length + ds.length = w) (hindex : index % w = p.length % w) :
    addValues w (ds ++ rest) index (vRow ++ [p]) =
      addValues w rest (index + ds.length) (vRow ++ [p ++ ds]) := by
  induction ds generalizing p index with
  | nil => rw [List.nil_append, List.append_nil, List.length_nil, Nat.add_zero]
  | cons d ds ih =>
    rw [List.length_cons] at hw ⊢
    have hmod : ¬ index % w = 0 := by
      rw [hindex, Nat.mod_eq_of_lt (by omega)]
      omega
    have hnext : (index + 1) % w = (p ++ [d]).length % w := by
      rw [List.length_append, List.length_singleton, Nat.add_mod, hindex, ← Nat.add_mod]
    rw [List.cons_append, addValues, if_neg hmod, List.modifyLast_concat,
      ih (List.length_pos_of_ne_nil (List.append_ne_nil_of_right_ne_nil _ (List.cons_ne_nil _ _)))
        (by rw [List.length_append, List.length_singleton]; omega) hnext,
      List.append_assoc, List.singleton_append, Nat.add_assoc, Nat.add_comm 1]

/-- **Rows that are added.** -/
theorem addValues_flatten {w : ℕ} (hw : 0 < w) {rows vRow : List Row} {index : ℕ}
    (hrows : ∀ row ∈ rows, row.length = w) (hindex : index % w = 0) :
    addValues w rows.flatten index vRow = vRow ++ rows := by
  induction rows generalizing vRow index with
  | nil => exact (List.append_nil _).symm
  | cons row rows ih =>
    have hlength : row.length = w := hrows row List.mem_cons_self
    obtain ⟨d, ds, rfl⟩ := List.exists_cons_of_length_pos (hlength ▸ hw)
    have hds : 1 + ds.length = w := by rw [← hlength, List.length_cons, Nat.add_comm]
    have hfirst : (index + 1) % w = [d].length % w := by
      rw [Nat.add_mod, hindex, Nat.zero_add, Nat.mod_mod, List.length_singleton]
    have hlast : (index + 1 + ds.length) % w = 0 := by
      rw [Nat.add_assoc, hds, Nat.add_mod_right, hindex]
    rw [List.flatten_cons, List.cons_append, addValues, if_pos hindex,
      addValues_row (p := [d]) Nat.one_pos hds hfirst,
      ih (fun r hr ↦ hrows r (List.mem_cons_of_mem _ hr)) hlast, List.append_assoc]
    rfl

theorem length_pairs {old new : Row} (h : new.length = old.length) :
    (pairs old new).length = 2 * old.length := by
  induction old generalizing new with
  | nil => rfl
  | cons o old ih =>
    obtain ⟨n, new, rfl⟩ := List.exists_cons_of_length_eq_add_one h
    rw [pairs, List.length_cons, List.length_cons, ih (Nat.succ.inj h), List.length_cons]
    omega

/-- The first values of the pairs. -/
theorem getElem?_pairs {old new : Row} (h : new.length = old.length) (k : ℕ) :
    (pairs old new)[2 * k]? = old[k]? := by
  induction old generalizing new k with
  | nil => rfl
  | cons o old ih =>
    obtain ⟨n, new, rfl⟩ := List.exists_cons_of_length_eq_add_one h
    cases k with
    | zero => rfl
    | succ k => exact ih (Nat.succ.inj h) k

/-- **A row that is updated.** -/
theorem overwrite_pairs {old new row : Row} (h : new.length = old.length)
    (hrow : row.length = old.length) : overwrite (pairs old new) row = some new := by
  induction old generalizing new row with
  | nil =>
    obtain rfl := List.length_eq_zero_iff.1 h
    obtain rfl := List.length_eq_zero_iff.1 hrow
    rfl
  | cons o old ih =>
    obtain ⟨n, new, rfl⟩ := List.exists_cons_of_length_eq_add_one h
    obtain ⟨r, row, rfl⟩ := List.exists_cons_of_length_eq_add_one hrow
    rw [pairs, overwrite, ih (Nat.succ.inj h) (Nat.succ.inj hrow)]
    rfl

/-! ### One change of a table -/

/-- The key values of a row are read. -/
theorem mapM_keys {f : ℕ → Option Obj} (h : ∀ k ∈ t.keys, f k = some (r.getD k .none)) :
    t.keys.mapM f = some (t.keys.map fun k ↦ r.getD k .none) := by
  generalize t.keys = ks at h
  induction ks with
  | nil => rfl
  | cons k ks ih =>
    rw [List.mapM_cons, h k List.mem_cons_self, ih fun c hc ↦ h c (List.mem_cons_of_mem _ hc)]
    rfl

/-- The only column is the key. -/
theorem keys_of_one (hone : 0 < t.keys.length) (hcols : t.columns.length = 1) : t.keys = [0] := by
  obtain ⟨col, hcol⟩ := List.length_eq_one_iff.1 hcols
  rw [keys, hcol, keysFrom, keysFrom] at hone ⊢
  split_ifs at hone ⊢
  · rfl
  · exact absurd hone (Nat.lt_irrefl 0)

/-- Both columns are keys. -/
theorem keys_of_two (htwo : t.keys.length = 2) (hcols : t.columns.length = 2) :
    t.keys = [0, 1] := by
  obtain ⟨col, col', hcol⟩ := List.length_eq_two.1 hcols
  rw [keys, hcol, keysFrom, keysFrom, keysFrom] at htwo ⊢
  split_ifs at htwo ⊢
  · rfl
  all_goals exact absurd htwo (by decide)

/-- A row is given. -/
theorem rowToDelete_row (hone : 0 < t.keys.length ∧ t.keys.length ≤ 2)
    (hr : r.length = t.columns.length) {values : List Obj}
    (hvalues : values = t.keys.map fun k ↦ r.getD k .none) :
    t.rowToDelete lower r = t.findARow lower (values.getD 0 .none) (values.getD 1 .none) := by
  have hlong : ¬ (r.length = 2 ∧ r.length < t.columns.length) := fun h ↦ by omega
  rw [rowToDelete, if_neg hlong]
  by_cases hlength : r.length = 1
  · obtain ⟨v, rfl⟩ := List.length_eq_one_iff.1 hlength
    rw [keys_of_one hone.1 (hr.symm.trans hlength)] at hvalues
    rw [hvalues, if_pos hlength]
    rfl
  · rw [if_neg hlength, mapM_keys fun k hk ↦ getElem?_key hr hk, ← hvalues]
    have htwo : values.length ≤ 2 := by
      rw [hvalues, List.length_map]
      exact hone.2
    match values, htwo with
    | [], _ => rfl
    | [_], _ => rfl
    | [_, _], _ => rfl

/-- The values of keys are given. -/
theorem rowToDelete_keys (hone : 0 < t.keys.length ∧ t.keys.length ≤ 2) {values : List Obj}
    (hpos : 0 < values.length) (hle : values.length ≤ t.keys.length) :
    t.rowToDelete lower values = t.findARow lower (values.getD 0 .none) (values.getD 1 .none) := by
  match values, hpos with
  | [v], _ => rfl
  | [v0, v1], _ =>
    have htwo : t.keys.length = 2 := by
      rw [List.length_cons, List.length_singleton] at hle
      omega
    by_cases hcols : t.columns.length = 2
    · -- The two values are a row.
      refine rowToDelete_row (r := [v0, v1]) hone hcols.symm ?_
      rw [keys_of_two htwo hcols]
      rfl
    · have hmore : 2 < t.columns.length := by
        have hsub : t.keys.length ≤ t.columns.length := length_keysFrom_le t.columns 0
        omega
      exact if_pos ⟨rfl, hmore⟩
  | v0 :: v1 :: v2 :: rest, _ =>
    rw [List.length_cons, List.length_cons, List.length_cons] at hle
    omega

/-- The function that the cache calls on the table. -/
def change (lower : List CodePoint → List CodePoint) :
    TableChange → CTable → Option (ℤ × CTable)
  | .insert rows => addRows rows.flatten
  | .update old new => updateARow lower (pairs old new)
  | .deleteRow row => deleteARow lower row
  | .deleteKeys keys => deleteARow lower keys

/-- **The row that is found is removed.** -/
theorem deleteARow_eq {keys values : List Obj}
    (hcase : t.bDataCaseSensitive = true) (hone : 0 < t.keys.length ∧ t.keys.length ≤ 2)
    (hwidth : ∀ row ∈ t.vRow, row.length = t.columns.length)
    (hfind : t.rowToDelete lower keys =
      t.findARow lower (values.getD 0 .none) (values.getD 1 .none))
    (hpos : 0 < values.length) (hle : values.length ≤ t.keys.length)
    (hnone : ∀ v ∈ values, v.isNone = false)
    (hcount : t.vRow.countP (TableChange.selects (t.keys.zip values)) = 1) :
    t.deleteARow lower keys = some (1, { t with
      vRow := t.vRow.eraseP (TableChange.selects (t.keys.zip values)) }) := by
  obtain ⟨before, r, after, hrows, hr, hbefore⟩ := exists_only_selected hcount
  have hget : t.vRow[before.length]? = some r := by
    rw [hrows, List.getElem?_append_right (Nat.le_refl _), Nat.sub_self]
    rfl
  have hremove : remove before.length r t.vRow = some (before ++ after) := by
    rw [hrows]
    refine remove_found fun x hx ↦ Bool.eq_false_iff.2 fun heq ↦ ?_
    -- A row that is equal has the same keys.
    have hsame : TableChange.selects (t.keys.zip values) x =
        TableChange.selects (t.keys.zip values) r := by
      rw [TableChange.selects, TableChange.selects]
      exact congrArg _ (funext fun key ↦ Obj.eq_getD_of_eqList heq key.2 key.1)
    rw [hbefore x hx, hr] at hsame
    cases hsame
  rw [deleteARow, hfind, findARow_eq hcase hone hwidth hpos hle hnone hrows hr hbefore]
  show t.vRow[before.length]?.bind (fun r ↦ (remove before.length r t.vRow).bind fun rows ↦
    some ((1 : ℤ), { t with vRow := rows })) = _
  rw [hget, Option.bind_some, hremove, Option.bind_some, hrows, eraseP_append hr hbefore]

/-- **The row that is found is updated.** -/
theorem updateARow_eq {old new : Row} {values : List Obj}
    (hcase : t.bDataCaseSensitive = true) (hone : 0 < t.keys.length ∧ t.keys.length ≤ 2)
    (hwidth : ∀ row ∈ t.vRow, row.length = t.columns.length)
    (hold : old.length = t.columns.length) (hnew : new.length = t.columns.length)
    (hvalues : values = t.keys.map fun k ↦ old.getD k .none)
    (hnone : ∀ v ∈ values, v.isNone = false)
    (hcount : t.vRow.countP (TableChange.selects (t.keys.zip values)) = 1) :
    t.updateARow lower (pairs old new) = some (1, { t with
      vRow := replaceFirst (TableChange.selects (t.keys.zip values)) new t.vRow }) := by
  obtain ⟨before, r, after, hrows, hr, hbefore⟩ := exists_only_selected hcount
  have hlength : ¬ 2 * t.columns.length ≠ (pairs old new).length := by
    rw [length_pairs (hnew.trans hold.symm), hold]
    exact not_not.2 rfl
  have hmapM : (t.keys.mapM fun c ↦ (pairs old new)[2 * c]?) = some values := by
    rw [hvalues]
    refine mapM_keys fun k hk ↦ ?_
    rw [getElem?_pairs (hnew.trans hold.symm)]
    exact getElem?_key hold hk
  have hkeys : values.length = t.keys.length := by rw [hvalues, List.length_map]
  obtain ⟨v0, rest, hcons⟩ := List.exists_cons_of_length_pos (hkeys ▸ hone.1)
  have hsecond : (if values.length = 2 then values.getD 1 .none else .none) =
      values.getD 1 .none := by
    rw [hcons]
    rcases rest with - | ⟨_, - | ⟨_, _⟩⟩
    · rfl
    · rfl
    · rw [hcons, List.length_cons, List.length_cons, List.length_cons] at hkeys
      omega
  have hfind : t.findARow lower v0 (values.getD 1 .none) = some (some before.length) := by
    have hfirst : values.getD 0 .none = v0 := by
      rw [hcons]
      rfl
    rw [← hfirst]
    exact findARow_eq hcase hone hwidth (hkeys ▸ hone.1) hkeys.le hnone hrows hr hbefore
  have hget : t.vRow[before.length]? = some r := by
    rw [hrows, List.getElem?_append_right (Nat.le_refl _), Nat.sub_self]
    rfl
  have hoverwrite : overwrite (pairs old new) r = some new :=
    overwrite_pairs (hnew.trans hold.symm)
      ((hwidth r (hrows ▸ List.mem_append_right _ List.mem_cons_self)).trans hold.symm)
  have hset : t.vRow.set before.length new = before ++ new :: after := by
    rw [hrows, List.set_append_right _ _ (Nat.le_refl _), Nat.sub_self]
    rfl
  have hzero : values[0]? = some v0 := by
    rw [hcons]
    rfl
  rw [updateARow, if_neg hlength, hmapM]
  show values[0]?.bind _ = _
  rw [hzero]
  show (t.findARow lower v0 (if values.length = 2 then _ else _)).bind _ = _
  rw [hsecond, hfind]
  show t.vRow[before.length]?.bind _ = _
  rw [hget]
  show (overwrite (pairs old new) r).bind _ = _
  rw [hoverwrite, Option.bind_some, hset, hrows, replaceFirst_append hr hbefore]
  rfl

theorem keysOf_eq_zip (t : CTable) (row : Row) : TableChange.keysOf t.columns row =
    t.keys.zip (t.keys.map fun k ↦ row.getD k .none) := List.map_prod_left_eq_zip

/-- The values of a row that are not null. -/
theorem isNone_of_keysOf {row : Row}
    (h : ∀ key ∈ TableChange.keysOf t.columns row, key.2.isNone = false) :
    ∀ v ∈ t.keys.map fun k ↦ row.getD k .none, v.isNone = false := fun v hv ↦ by
  obtain ⟨k, hk, rfl⟩ := List.mem_map.1 hv
  exact h (k, row.getD k .none) (List.mem_map.2 ⟨k, hk, rfl⟩)

/-- Given values that are not null. -/
theorem isNone_of_zip {ks : List ℕ} {values : List Obj} (hle : values.length ≤ ks.length)
    (h : ∀ key ∈ ks.zip values, key.2.isNone = false) : ∀ v ∈ values, v.isNone = false :=
  fun v hv ↦ by
    rw [← List.map_snd_zip hle] at hv
    obtain ⟨key, hkey, rfl⟩ := List.mem_map.1 hv
    exact h key hkey

/-- **One change of a table** is the change of the relation. -/
theorem change_eq (lower : List CodePoint → List CodePoint) {c : TableChange}
    (hcase : t.bDataCaseSensitive = true)
    (hone : 0 < t.keys.length ∧ t.keys.length ≤ 2)
    (hwidth : ∀ row ∈ t.vRow, row.length = t.columns.length) (hform : c.WellFormed t.columns)
    (haddr : (c.toChange t.columns).Addressed t.vRow) :
    ∃ n, change lower c t =
      some (n, { t with vRow := (c.toChange t.columns).applyFirst t.vRow }) := by
  cases c with
  | insert new =>
    have hcols : 0 < t.columns.length := hone.1.trans_le (length_keysFrom_le _ _)
    have hmod : new.flatten.length % t.columns.length = 0 := by
      have hlength : new.map List.length = List.replicate new.length t.columns.length :=
        List.map_eq_replicate_iff.2 hform.2
      rw [List.length_flatten, hlength, List.sum_replicate_nat, Nat.mul_mod_left]
    refine ⟨(new.flatten.length : ℤ) / t.columns.length, ?_⟩
    rw [change, addRows, hmod, if_neg (Nat.lt_irrefl 0),
      addValues_flatten hcols hform.2 (Nat.zero_mod _)]
    rfl
  | update old new =>
    have haddr' : Multiset.countP (TableChange.selects (TableChange.keysOf t.columns old) ·)
      (t.vRow : Multiset Row) = 1 := haddr
    rw [coe_countP, keysOf_eq_zip] at haddr'
    refine ⟨1, (updateARow_eq hcase hone hwidth hform.2.1 hform.2.2 rfl
      (isNone_of_keysOf hform.1) haddr').trans ?_⟩
    rw [← keysOf_eq_zip]
    rfl
  | deleteRow row =>
    have haddr' : Multiset.countP (TableChange.selects (TableChange.keysOf t.columns row) ·)
      (t.vRow : Multiset Row) = 1 := haddr
    rw [coe_countP, keysOf_eq_zip] at haddr'
    have hlength : (t.keys.map fun k ↦ row.getD k Obj.none).length = t.keys.length :=
      List.length_map _
    refine ⟨1, (deleteARow_eq hcase hone hwidth (rowToDelete_row hone hform.2 rfl)
      (hlength ▸ hone.1) hlength.le (isNone_of_keysOf hform.1) haddr').trans ?_⟩
    rw [← keysOf_eq_zip]
    rfl
  | deleteKeys keys =>
    have haddr' : Multiset.countP (TableChange.selects (t.keys.zip keys) ·)
      (t.vRow : Multiset Row) = 1 := haddr
    rw [coe_countP] at haddr'
    exact ⟨1, deleteARow_eq hcase hone hwidth (rowToDelete_keys hone hform.2.1 hform.2.2)
      hform.2.1 hform.2.2 (isNone_of_zip hform.2.2 hform.1) haddr'⟩

/-- The rows of the table keep their width. -/
theorem width_applyFirst {c : TableChange}
    (hwidth : ∀ row ∈ t.vRow, row.length = t.columns.length) (hform : c.WellFormed t.columns) :
    ∀ row ∈ (c.toChange t.columns).applyFirst t.vRow, row.length = t.columns.length :=
  fun row hrow ↦ by
    cases c with
    | insert new => exact (List.mem_append.1 hrow).elim (hwidth row) (hform.2 row)
    | update old new =>
      obtain hrow | rfl := mem_of_mem_replaceFirst hrow
      · exact hwidth row hrow
      · exact hform.2.2
    | deleteRow row' => exact hwidth row (List.mem_of_mem_eraseP hrow)
    | deleteKeys keys => exact hwidth row (List.mem_of_mem_eraseP hrow)

theorem change_holds (lower : List CodePoint → List CodePoint) {rel : Relation}
    {c : TableChange} (h : t.Holds rel)
    (hform : c.WellFormed rel.columns) (haddr : (c.toChange rel.columns).Addressed rel.rows) :
    ∃ n t', change lower c t = some (n, t') ∧ t'.Holds (rel.apply c) := by
  obtain ⟨columns, rows⟩ := rel
  obtain ⟨hcolumns, hrows, hwidth, hcase, hone⟩ := h
  obtain rfl : t.columns = columns := hcolumns
  obtain rfl : (t.vRow : Multiset Row) = rows := hrows
  obtain ⟨n, hchange⟩ := change_eq lower hcase hone hwidth hform haddr
  exact ⟨n, _, hchange,
    ⟨rfl, coe_applyFirst haddr, width_applyFirst hwidth hform, hcase, hone⟩⟩

end CTable

/-! ### One event -/

variable {lower}

namespace CDataSet

theorem columns_pos {t : CTable} {rel : Relation} (h : t.Holds rel) : 0 < rel.columns.length :=
  h.columns ▸ h.one_or_two.1.trans_le (CTable.length_keysFrom_le _ _)

/-- The first column of a table has the names of the relation. -/
theorem exists_first_column (lower : List CodePoint → List CodePoint) {t : CTable}
    {rel : Relation} (h : t.Holds rel) :
    ∃ col, t.columns[0]? = some col ∧ ∀ dbCase tableCase dbName tblName,
      rel.named lower dbCase tableCase dbName tblName =
        is lower dbCase tableCase dbName tblName col := by
  obtain ⟨col, cols, hcols⟩ := List.exists_cons_of_length_pos (columns_pos h)
  refine ⟨col, by rw [h.columns, hcols]; rfl, fun dbCase tableCase dbName tblName ↦ ?_⟩
  rw [Relation.named, hcols]
  rfl

/-- The loop over the tables changes the one of the relation with the names. -/
theorem onFirst_holds {ts : List CTable} {rels : List Relation}
    (h : List.Forall₂ CTable.Holds ts rels) {dbCase tableCase : Bool}
    {dbName tblName : List CodePoint} {c : TableChange} (missing : ℤ)
    (hallows : ∀ rel ∈ rels.find? (Relation.named lower dbCase tableCase dbName tblName),
      c.WellFormed rel.columns ∧ (c.toChange rel.columns).Addressed rel.rows) :
    ∃ n ts', onFirst (is lower dbCase tableCase dbName tblName) (CTable.change lower c) missing ts =
        some (n, ts') ∧
      List.Forall₂ CTable.Holds ts'
        (rels.lookmap (Relation.applyNamed lower dbCase tableCase dbName tblName c)) := by
  induction h with
  | nil => exact ⟨missing, [], rfl, .nil⟩
  | @cons t rel ts rels ht hts ih =>
    obtain ⟨col, hcol, hnamed⟩ := exists_first_column lower ht
    have hbind : onFirst (is lower dbCase tableCase dbName tblName) (CTable.change lower c) missing
          (t :: ts) =
        t.columns[0]?.bind fun col ↦ if is lower dbCase tableCase dbName tblName col = true then
          (CTable.change lower c t).bind fun r ↦ some (r.1, r.2 :: ts)
        else (onFirst (is lower dbCase tableCase dbName tblName) (CTable.change lower c) missing
          ts).bind fun r ↦ some (r.1, t :: r.2) := rfl
    rw [hbind, hcol, Option.bind_some, ← hnamed]
    by_cases hrel : rel.named lower dbCase tableCase dbName tblName = true
    · have hchange : rel.applyNamed lower dbCase tableCase dbName tblName c = some (rel.apply c) :=
        if_pos hrel
      obtain ⟨hform, haddr⟩ := hallows rel (List.find?_cons_of_pos hrel ▸ rfl)
      obtain ⟨n, t', ht', hholds⟩ := CTable.change_holds lower ht hform haddr
      rw [if_pos hrel, ht', List.lookmap_cons_some _ _ hchange]
      exact ⟨n, t' :: ts, rfl, .cons hholds hts⟩
    · have hsame : rel.applyNamed lower dbCase tableCase dbName tblName c = none := if_neg hrel
      obtain ⟨n, ts', hts', hholds⟩ := ih fun rel hfind ↦
        hallows rel ((List.find?_cons_of_neg hrel).symm ▸ hfind)
      rw [if_neg hrel, hts', List.lookmap_cons_none _ _ hsame]
      exact ⟨n, t :: ts', rfl, .cons ht hholds⟩

/-- A change is one of the table, if there is something to change. -/
theorem change_cases (lower : List CodePoint → List CodePoint) (s : CDataSet)
    (dbName tblName : List CodePoint) (c : TableChange) :
    (∃ missing, s.change lower dbName tblName c =
        s.onTable lower dbName tblName (CTable.change lower c) missing) ∨
      s.change lower dbName tblName c = some (0, s) ∧
        ((∃ rows, c = .insert rows ∧ rows.flatten = []) ∨
          ∃ old new, c = .update old new ∧ pairs old new = []) := by
  cases c with
  | insert rows =>
    by_cases hrows : rows.flatten.length = 0
    · exact .inr ⟨if_pos hrows, .inl ⟨rows, rfl, List.length_eq_zero_iff.1 hrows⟩⟩
    · exact .inl ⟨_, if_neg hrows⟩
  | update old new =>
    by_cases hpairs : (pairs old new).length = 0
    · exact .inr ⟨if_pos hpairs, .inr ⟨old, new, rfl, List.length_eq_zero_iff.1 hpairs⟩⟩
    · exact .inl ⟨_, if_neg hpairs⟩
  | deleteRow row => exact .inl ⟨_, rfl⟩
  | deleteKeys keys => exact .inl ⟨_, rfl⟩

/-- Where there is nothing to change, the relations stay as they are. -/
theorem lookmap_empty {rels : List Relation}
    (h : ∀ rel ∈ rels, 0 < rel.columns.length) {dbCase tableCase : Bool}
    {dbName tblName : List CodePoint} {c : TableChange}
    (hallows : ∀ rel ∈ rels.find? (Relation.named lower dbCase tableCase dbName tblName),
      c.WellFormed rel.columns ∧ (c.toChange rel.columns).Addressed rel.rows)
    (hempty : (∃ rows, c = .insert rows ∧ rows.flatten = []) ∨
      ∃ old new, c = .update old new ∧ pairs old new = []) :
    rels.lookmap (Relation.applyNamed lower dbCase tableCase dbName tblName c) = rels := by
  cases hfind : rels.find? (Relation.named lower dbCase tableCase dbName tblName) with
  | none =>
    exact List.lookmap_of_forall_not _ fun rel hrel ↦ if_neg (List.find?_eq_none.1 hfind rel hrel)
  | some rel =>
    obtain ⟨hform, -⟩ := hallows rel hfind
    have hpos := h rel (List.mem_of_find?_eq_some hfind)
    obtain ⟨rows, rfl, hrows⟩ | ⟨old, new, rfl, hpairs⟩ := hempty
    · have hnil : rows = [] := List.eq_nil_iff_forall_not_mem.2 fun row hrow ↦ by
        have hrow' := List.flatten_eq_nil_iff.1 hrows row hrow
        have hlength := hform.2 row hrow
        rw [hrow', List.length_nil] at hlength
        omega
      refine List.lookmap_id' _ (fun r r' hr' ↦ ?_) rels
      rw [Relation.applyNamed] at hr'
      split at hr'
      · rw [← Option.some.inj hr', hnil]
        have hrows : r.rows + (([] : List Row) : Multiset Row) = r.rows := by
          rw [Multiset.coe_nil, Multiset.add_zero]
        exact congrArg (Relation.mk r.columns) hrows.symm
      · cases hr'
    · have hlength := CTable.length_pairs (hform.2.2.trans hform.2.1.symm)
      rw [hpairs, hform.2.1, List.length_nil] at hlength
      omega

theorem exists_table {ts : List CTable} {rels : List Relation}
    (h : List.Forall₂ CTable.Holds ts rels) {rel : Relation} (hrel : rel ∈ rels) :
    ∃ t ∈ ts, t.Holds rel := by
  induction h with
  | nil => cases hrel
  | @cons t rel' ts rels ht hts ih =>
    obtain rfl | hrel := List.mem_cons.1 hrel
    · exact ⟨t, List.mem_cons_self, ht⟩
    · obtain ⟨t', ht', hholds⟩ := ih hrel
      exact ⟨t', List.mem_cons_of_mem _ ht', hholds⟩

/-- **One event** raises nothing and keeps the tables of the cache those of the master. -/
theorem apply_follows {s : CDataSet} {m : Master} {e : Event} (h : s.Follows m)
    (hallows : m.Allows lower e) :
    ∃ s', s.apply lower e = some s' ∧ s'.Follows (m.apply lower e) := by
  obtain ⟨htables, hdb, htable, hdata⟩ := h
  cases e with
  | table columns =>
    obtain ⟨⟨col, hcol, hdbName, htblName⟩, hpos, htwo⟩ := hallows
    have hfirst : columns[0]? = some col := by rwa [← List.head?_eq_getElem?]
    have hnames : ¬ (col.DBPath.length = 0 ∨ col.TablePath.length = 0) :=
      not_or.2 ⟨hdbName, htblName⟩
    let tbl : CTable := ⟨columns, [], s.DataCase⟩
    have hkeys : ¬ (2 < tbl.keys.length ∨ tbl.keys.length = 0) :=
      not_or.2 ⟨not_lt.2 htwo, hpos.ne'⟩
    have hadd : s.AddEmptyRowset columns = some { s with ds := s.ds ++ [tbl] } := by
      have hbind : s.AddEmptyRowset columns = columns[0]?.bind fun col ↦
          if col.DBPath.length = 0 ∨ col.TablePath.length = 0 then none
          else if 2 < tbl.keys.length ∨ tbl.keys.length = 0 then none
          else some { s with ds := s.ds ++ [tbl] } := rfl
      rw [hbind, hfirst, Option.bind_some, if_neg hnames, if_neg hkeys]
    refine ⟨_, hadd, ?_, hdb, htable, hdata⟩
    exact List.rel_append htables (.cons ⟨rfl, rfl, nofun, hdata, hpos, htwo⟩ .nil)
  | change dbName tblName c =>
    obtain ⟨dbCase, rfl⟩ : ∃ b, b = m.dbCase := ⟨_, rfl⟩
    obtain ⟨missing, hchange⟩ | ⟨hchange, hempty⟩ :=
      s.change_cases lower dbName tblName c
    · obtain ⟨n, ts', hts', hholds⟩ := onFirst_holds htables missing hallows
      refine ⟨{ s with ds := ts' }, ?_, hholds, hdb, htable, hdata⟩
      have hbind : s.onTable lower dbName tblName (CTable.change lower c) missing =
          (onFirst (is lower s.DBNameCase s.TableNameCase dbName tblName) (CTable.change lower c)
            missing s.ds).bind fun r ↦ some (r.1, { s with ds := r.2 }) := rfl
      rw [apply, hchange, hbind, hdb, htable, hts']
      rfl
    · refine ⟨s, ?_, ?_, hdb, htable, hdata⟩
      · rw [apply, hchange]
        rfl
      · rw [Master.apply, lookmap_empty (fun rel hrel ↦ ?_) hallows hempty]
        · exact htables
        · obtain ⟨t, -, ht⟩ := exists_table htables hrel
          exact columns_pos ht

end CDataSet

/-! ### Histories -/

/-- **The cache follows its master** along every history that the relations allow, and no call
raises. -/
theorem pythonCache_follows (lower : List CodePoint → List CodePoint) (dbCase tableCase : Bool)
    (events : List Event)
    (hin : Within (fun m e ↦ some (m.apply lower e)) (Master.Allows lower)
      (Master.empty dbCase tableCase) events) :
    ∃ s, run (CDataSet.apply lower) ⟨[], dbCase, tableCase, true⟩ events = some s ∧
      s.Follows (events.foldl (Master.apply lower) (Master.empty dbCase tableCase)) := by
  refine run_follows (R := CDataSet.Follows) ?_ events _ _ ⟨.nil, rfl, rfl, rfl⟩ hin
  exact fun s m e h hallows ↦ CDataSet.apply_follows h hallows

/-- A text of lower-case letters. -/
def text (s : String) : List CodePoint := s.toList.map .char

/-- A table with two columns of keys around another column, and one with the key in its last
column. -/
def twoTables : List Event :=
  [.table [⟨text "d", text "t", FLAG_PRIMARY_KEY⟩, ⟨text "d", text "t", 0⟩,
      ⟨text "d", text "t", FLAG_PRIMARY_KEY⟩],
    .table [⟨text "d", text "u", 0⟩, ⟨text "d", text "u", FLAG_AUTOINCREMENT⟩],
    .change (text "d") (text "t")
      (.insert [[.int 1, .none, .int 1], [.int 1, .str (text "a"), .int 2]]),
    .change (text "d") (text "u") (.insert [[.none, .int 1], [.none, .int 2]]),
    .change (text "d") (text "t")
      (.update [.int 1, .none, .int 1] [.int 2, .float 0x7ff8000000000000, .int 1]),
    .change (text "d") (text "t") (.deleteKeys [.int 1, .int 2]),
    .change (text "d") (text "u") (.deleteRow [.none, .int 1]),
    .change (text "d") (text "u") (.deleteKeys [.int 2])]

theorem pythonCache_follows_twoTables :
    ∃ s, run (CDataSet.apply id) ⟨[], false, false, true⟩ twoTables = some s ∧
      s.Follows (twoTables.foldl (Master.apply id) (Master.empty false false)) :=
  pythonCache_follows id false false twoTables (by decide +kernel)

end SocketPro.Python
