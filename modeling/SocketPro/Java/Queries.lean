import SocketPro.Java.Sorting

/-!
# The queries of a Java table

`In`, `NotIn`, `Find` and `Between` of `CTable`. Each of them fills a table that is given with rows of
this one, as they are or copied. A query that throws gives `none`.

**The table that is filled** is there, and another one than the table that is asked. A query without a
copy gives it the columns of the table that is asked, the same object; a later query with a copy then
loads the columns of that one anew. Copies are made through a queue of the pool: what that makes of a
row or of the columns is open here, also where it throws.

**Null cells.** `eq` is asked whether a cell equals a given value with the cell as its second argument,
which throws for a null cell but in a column of dates. `NotIn` asks only for cells that are not null,
and `Find` and `Between` have the cell as the first argument.

**Booleans.** `ChangeType` makes a `Byte` of a `Boolean` for a column of them, both in `AddRows` and in
a query, and a `Boolean` of any other value. The two classes are not compared with each other.

The queries obey their algebra exactly if these two do not meet (`query_algebra_iff`).
-/

namespace SocketPro.Java

abbrev BAD_DATA_TYPE : ℤ := -2

abbrev OPERATION_NOT_SUPPORTED : ℤ := -3

/-- What is loaded from a queue of the pool, after columns or a row have been saved to it. -/
structure Copies where
  columns : List CDBColumnInfo → Option (List CDBColumnInfo)
  row : Row → Option Row

/-- The table that is asked, and the one that is filled, which may have the same columns. -/
structure Tables where
  source : Table
  tbl : Table
  shared : Bool
deriving DecidableEq, Repr

/-- What is done with a row. -/
inductive Verdict
  | take
  | skip
  /-- The query returns. -/
  | stop (res : ℤ)
deriving DecidableEq, Repr

def Verdict.ofBool (ok : Bool) : Verdict := if ok = true then .take else .skip

/-- The result of a comparison: a negative one is an error. -/
def Verdict.ofResult (res : ℤ) : Verdict :=
  if res < 0 then .stop res else if res = 0 then .skip else .take

/-- The type to which the values of a query are converted. -/
def queryType (DataType : ℕ) : ℕ :=
  if DataType = sdVT_ARRAY + sdVT_I1 then sdVT_BSTR else DataType

/-! ### The queries -/

section Queries

variable (l : Library) (c : Copies) (copyData : Bool)

/-- A row for the table that is filled. -/
def copyRow (prow : Row) : Option Row := if copyData = true then c.row prow else some prow

/-- What all queries do first. -/
def prepare (s : Tables) : Option Tables :=
  let empty (columns : List CDBColumnInfo) : Table := { s.source with m_meta := columns, m_vRow := [] }
  if copyData = true then do
    let columns ← c.columns s.source.m_meta
    let source := if s.shared = true then { s.source with m_meta := columns } else s.source
    some ⟨source, empty columns, s.shared⟩
  else some ⟨s.source, empty s.source.m_meta, true⟩

/-- The loop over the rows, with what is returned and the rows that are added. -/
def collect (verdict : Row → Option Verdict) : List Row → Option (ℤ × List Row)
  | [] => some (1, [])
  | prow :: rows => do
    match ← verdict prow with
    | .stop res => some (res, [])
    | .skip => collect verdict rows
    | .take =>
      let p ← copyRow c copyData prow
      let (res, vRow) ← collect verdict rows
      some (res, p :: vRow)

/-- A query, once the tables are prepared. -/
def fill (s : Tables) (verdict : Row → Option Verdict) : Option (ℤ × Tables) := do
  let (res, vRow) ← collect c copyData verdict s.source.m_vRow
  some (res, { s with tbl := { s.tbl with m_vRow := vRow } })

/-- The ordinal is not that of a column. -/
def badOrdinal (s : Tables) (ordinal : ℤ) : Prop :=
  ordinal < 0 ∨ (s.source.m_meta.length : ℤ) ≤ ordinal

instance (s : Tables) (ordinal : ℤ) : Decidable (badOrdinal s ordinal) :=
  inferInstanceAs (Decidable (_ ∨ _))

/-- The loop of `In` and `NotIn` that converts the values in the list itself; whether it got to the
end. -/
def convert (type : ℕ) : List Obj → Option (Bool × List Obj)
  | [] => some (true, [])
  | o :: vArray => do
    let vt ← ChangeType l o type
    if vt = .null then some (false, o :: vArray)
    else do
      let (converted, vArray) ← convert type vArray
      some (converted, vt :: vArray)

/-- `In(v, vArray)` -/
def inValues (caseSensitive : Bool) (v : Obj) : List Obj → Option Bool
  | [] => some false
  | o :: vArray => do
    if 0 < (← eq l caseSensitive o v) then some true else inValues caseSensitive v vArray

/-- `In` and `NotIn`, with the list as they leave it. -/
def queryValues (isChosen : Obj → List Obj → Option Bool) (s : Tables) (ordinal : ℤ)
    (vArray : Option (List Obj)) : Option ((ℤ × Tables) × Option (List Obj)) := do
  let s ← prepare c copyData s
  if badOrdinal s ordinal then some ((BAD_ORDINAL, s), vArray)
  else match vArray with
  | none => some ((OPERATION_NOT_SUPPORTED, s), none)
  | some vArray => do
    let type := queryType (← s.source.m_meta[ordinal.toNat]?).DataType
    let (converted, vArray) ← convert l type vArray
    if converted = true then do
      let r ← fill c copyData s fun prow ↦ do
        let v0 ← prow[ordinal.toNat]?
        some (.ofBool (← isChosen v0 vArray))
      some (r, some vArray)
    else some ((BAD_DATA_TYPE, s), some vArray)

/-- `In` -/
def In (s : Tables) : ℤ → Option (List Obj) → Option ((ℤ × Tables) × Option (List Obj)) :=
  queryValues l c copyData (inValues l s.source.m_bDataCaseSensitive) s

/-- `NotIn` -/
def NotIn (s : Tables) : ℤ → Option (List Obj) → Option ((ℤ × Tables) × Option (List Obj)) :=
  queryValues l c copyData (fun v0 vArray ↦
    if v0 = .null then some false
    else (inValues l s.source.m_bDataCaseSensitive v0 vArray).map (!·)) s

/-- The `switch` of `Find`. -/
def compareBy (caseSensitive : Bool) (op : Operator) (v0 v : Obj) : Option ℤ :=
  match op with
  | .equal => eq l caseSensitive v0 v
  | .not_equal => neq l caseSensitive v0 v
  | .great => gt l caseSensitive v0 v
  | .great_equal => ge l caseSensitive v0 v
  | .less => lt l caseSensitive v0 v
  | .less_equal => le l caseSensitive v0 v
  | .is_null => some OPERATION_NOT_SUPPORTED

/-- `Find`. The value is converted for every row. -/
def Find (s : Tables) (ordinal : ℤ) (op : Operator) (vt : Obj) : Option (ℤ × Tables) := do
  let s ← prepare c copyData s
  if badOrdinal s ordinal then some (BAD_ORDINAL, s)
  else if vt = .null ∧ op ≠ .is_null then some (COMPARISON_NOT_SUPPORTED, s)
  else do
    let type := queryType (← s.source.m_meta[ordinal.toNat]?).DataType
    fill c copyData s fun prow ↦
      if op = .is_null then do some (.ofBool (decide ((← prow[ordinal.toNat]?) = .null)))
      else do
        let v ← ChangeType l vt type
        if v = .null then some (.stop BAD_DATA_TYPE)
        else do
          let v0 ← prow[ordinal.toNat]?
          some (.ofResult (← compareBy l s.source.m_bDataCaseSensitive op v0 v))

/-- What `Between` does with a cell. -/
def between (caseSensitive : Bool) (small_vt large_vt vt : Obj) : Option Verdict := do
  match Verdict.ofResult (← ge l caseSensitive vt small_vt) with
  | .take => some (.ofResult (← le l caseSensitive vt large_vt))
  | verdict => some verdict

/-- `Between` -/
def Between (s : Tables) (ordinal : ℤ) (vt0 vt1 : Obj) : Option (ℤ × Tables) := do
  let s ← prepare c copyData s
  if badOrdinal s ordinal then some (BAD_ORDINAL, s)
  else if vt0 = .null ∨ vt1 = .null then some (OPERATION_NOT_SUPPORTED, s)
  else do
    let type := queryType (← s.source.m_meta[ordinal.toNat]?).DataType
    let v0 ← ChangeType l vt0 type
    if v0 = .null then some (BAD_DATA_TYPE, s)
    else do
      let v1 ← ChangeType l vt1 type
      if v1 = .null then some (BAD_DATA_TYPE, s)
      else do
        let res ← gt l s.source.m_bDataCaseSensitive v0 v1
        if res < 0 then some (res, s)
        else
          let (small_vt, large_vt) := if 0 < res then (v1, v0) else (v0, v1)
          fill c copyData s fun prow ↦ do
            between l s.source.m_bDataCaseSensitive small_vt large_vt (← prow[ordinal.toNat]?)

end Queries

/-! ### Two objects -/

namespace Comparison

variable {κ : Type*} [LinearOrder κ] {x y : κ}

theorem after_asymm (h : (of x y).after = true) : (of y x).after = false :=
  decide_eq_false (not_lt.2 (of_decide_eq_true h).le)

theorem eq_of_not_after (h : (of x y).after = false) (h' : (of y x).after = false) : x = y :=
  le_antisymm (not_lt.1 (of_decide_eq_false h)) (not_lt.1 (of_decide_eq_false h'))

end Comparison

section Compare

variable {l : Library} {caseSensitive : Bool} {v w : Obj} {t t' : ColumnType} {op : Operator}

/-- How two objects of a comparable type are related. -/
def related (l : Library) (caseSensitive : Bool) (v w : Obj) : Comparison :=
  match v.key l caseSensitive, w.key l caseSensitive with
  | some x, some y => .of x y
  | _, _ => ⟨false, false, false⟩

theorem related_after_asymm {v w : Obj} (h : (related l caseSensitive v w).after = true) :
    (related l caseSensitive w v).after = false := by
  revert h
  unfold related
  cases v.key l caseSensitive with
  | none => exact fun h ↦ nomatch h
  | some x =>
    cases w.key l caseSensitive with
    | none => exact fun h ↦ nomatch h
    | some y => exact Comparison.after_asymm

theorem related_equals_comm (v w : Obj) :
    (related l caseSensitive v w).equals = (related l caseSensitive w v).equals := by
  unfold related
  cases v.key l caseSensitive <;> cases w.key l caseSensitive <;> simp [Comparison.of, eq_comm]

/-- An object without a key is not a number. -/
theorem key_or_isNaN (hv : v.type = some t) (ht : t ≠ .bytes) :
    v.isNaN = true ∧ v.key l caseSensitive = none ∨
      v.isNaN = false ∧ ∃ x, v.key l caseSensitive = some x := by
  cases v with
  | float x =>
    cases hx : binary32.isNaN x.toNat with
    | true => exact .inl ⟨hx, if_pos hx⟩
    | false => exact .inr ⟨hx, _, if_neg (by rw [hx]; exact Bool.false_ne_true)⟩
  | double x =>
    cases hx : binary64.isNaN x.toNat with
    | true => exact .inl ⟨hx, if_pos hx⟩
    | false => exact .inr ⟨hx, _, if_neg (by rw [hx]; exact Bool.false_ne_true)⟩
  | null | char _ | date _ | other _ => cases hv
  | bytes _ => exact absurd (Option.some.inj hv).symm ht
  | _ => exact .inr ⟨rfl, _, rfl⟩

theorem relation_of_isNaN (hv : v.type = some t) (hw : w.type = some t)
    (h : v.isNaN = true ∨ w.isNaN = true) :
    relation l caseSensitive v w = some ⟨false, false, false⟩ := by
  cases v with
  | float a =>
    cases w with
    | float b => exact congrArg some (if_pos h)
    | _ => cases hv.trans hw.symm
  | double a =>
    cases w with
    | double b => exact congrArg some (if_pos h)
    | _ => cases hv.trans hw.symm
  | _ =>
    cases w with
    | float b => cases hv.trans hw.symm
    | double b => cases hv.trans hw.symm
    | _ => exact h.elim (fun h ↦ nomatch h) fun h ↦ nomatch h

/-- **Objects of one type** are related by their keys. -/
theorem relation_of_type (hv : v.type = some t) (hw : w.type = some t) (ht : t ≠ .bytes) :
    relation l caseSensitive v w = some (related l caseSensitive v w) := by
  have hkey {u : Obj} (hu : u.type = some t) : u.isNaN = true ∧ u.key l caseSensitive = none ∨
      u.isNaN = false ∧ ∃ x, u.key l caseSensitive = some x := key_or_isNaN hu ht
  rcases hkey hv with ⟨hnan, hx⟩ | ⟨-, x, hx⟩
  · rw [relation_of_isNaN hv hw (.inl hnan), related, hx]
  rcases hkey hw with ⟨hnan, hy⟩ | ⟨-, y, hy⟩
  · rw [relation_of_isNaN hv hw (.inr hnan), related, hx, hy]
  · rw [relation_eq (hv.trans hw.symm) hx hy, related, hx, hy]

/-- Objects of different types are not compared: the cast throws. -/
theorem relation_of_ne (hv : v.type = some t) (hw : w.type = some t') (hne : t ≠ t') :
    relation l caseSensitive v w = none := by
  cases v with
  | null | char _ | date _ | other _ => cases hv
  | _ =>
    cases hv
    cases w with
    | null | char _ | date _ | other _ => cases hw
    | _ =>
      cases hw
      first | rfl | exact absurd rfl hne

theorem compareWith_eq_relation (hv : v.type = some t) (ht : t ≠ .bytes) (hw : w ≠ .null) :
    compareWith l caseSensitive op v w =
      (relation l caseSensitive v w).map fun r ↦ if op.holds r = true then 1 else 0 := by
  cases v with
  | null | char _ | date _ | other _ => cases hv
  | bytes _ => exact absurd (Option.some.inj hv).symm ht
  | timestamp s =>
    cases w with
    | null => exact absurd rfl hw
    | _ => rfl
  | _ => rfl

theorem compareBy_eq (hop : op ≠ .is_null) (v w : Obj) :
    compareBy l caseSensitive op v w = compareWith l caseSensitive op v w := by
  cases op with
  | equal => exact eq_eq_compareWith v w
  | is_null => exact absurd rfl hop
  | _ => rfl

theorem Obj.ne_null (hv : v.type = some t) : v ≠ .null := fun h ↦ by
  rw [h] at hv
  cases hv

/-- **Two objects of one type** are compared. -/
theorem compareBy_of_type (hop : op ≠ .is_null) (hv : v.type = some t) (hw : w.type = some t)
    (ht : t ≠ .bytes) : compareBy l caseSensitive op v w =
      some (if op.holds (related l caseSensitive v w) = true then 1 else 0) := by
  rw [compareBy_eq hop, compareWith_eq_relation hv ht (w.ne_null hw), relation_of_type hv hw ht,
    Option.map_some]

theorem compareBy_null (hop : op ≠ .is_null) : compareBy l caseSensitive op .null w = some 0 := by
  rw [compareBy_eq hop]
  rfl

/-- An object of one type is compared with another one only if that is of the same type. -/
theorem type_of_compareBy (hop : op ≠ .is_null) (hv : v.type = some t) (hw : w.type = some t')
    (ht : t ≠ .bytes) {n : ℤ} (h : compareBy l caseSensitive op v w = some n) : t = t' := by
  by_contra hne
  rw [compareBy_eq hop, compareWith_eq_relation hv ht (w.ne_null hw), relation_of_ne hv hw hne] at h
  cases h

/-- An object is compared with null only if it is a date. -/
theorem eq_null (hv : v.type = some t) (ht : t ≠ .bytes) :
    eq l caseSensitive v .null = if t = .timestamp then some 0 else none := by
  cases v with
  | null | char _ | date _ | other _ => cases hv
  | bytes _ => exact absurd (Option.some.inj hv).symm ht
  | _ =>
    cases hv
    rfl

end Compare

/-! ### Queries as selections -/

section Select

variable {l : Library} {c : Copies} {copyData : Bool} {s s' : Tables} {verdict : Row → Option Verdict}
  {p : Row → Bool} {rows : List Row}

/-- The tables can be prepared, and the table that is asked stays what it was. -/
def Prepared (c : Copies) (copyData : Bool) (s : Tables) : Prop :=
  copyData = true → ∃ columns, c.columns s.source.m_meta = some columns ∧
    (s.shared = true → columns = s.source.m_meta)

theorem prepare_ok (h : Prepared c copyData s) :
    ∃ s', prepare c copyData s = some s' ∧ s'.source = s.source := by
  cases copyData with
  | false => exact ⟨_, rfl, rfl⟩
  | true =>
    obtain ⟨columns, hcolumns, hshared⟩ := h rfl
    rw [prepare, if_pos rfl, hcolumns]
    refine ⟨_, rfl, ?_⟩
    dsimp only
    split_ifs with hs
    · rw [hshared hs]
    · rfl

theorem prepared_of_source (h : prepare c copyData s = some s') (hs : s'.source = s.source) :
    Prepared c copyData s := by
  rintro rfl
  rw [prepare, if_pos rfl] at h
  obtain ⟨columns, hcolumns, h⟩ := Option.bind_eq_some_iff.1 h
  refine ⟨columns, hcolumns, fun hshared ↦ ?_⟩
  cases h
  rw [if_pos hshared] at hs
  exact congrArg Table.m_meta hs

theorem collect_eq (h : ∀ r ∈ rows, verdict r = some (.ofBool (p r))) :
    collect c copyData verdict rows =
      ((rows.filter p).mapM (copyRow c copyData)).map fun vRow ↦ (1, vRow) := by
  induction rows with
  | nil => rfl
  | cons r rows ih =>
    obtain ⟨hr, hrows⟩ := List.forall_mem_cons.1 h
    rw [collect, hr, ih hrows]
    cases hp : p r with
    | false =>
      rw [List.filter_cons_of_neg (by simp [hp])]
      rfl
    | true =>
      rw [List.filter_cons_of_pos hp, List.mapM_cons]
      cases copyRow c copyData r with
      | none => rfl
      | some r' =>
        cases (rows.filter p).mapM (copyRow c copyData) <;> rfl

/-- In a loop that gets to the end, every row is judged. -/
theorem judged_of_collect {vRow : List Row} (h : collect c copyData verdict rows = some (1, vRow))
    (hstop : ∀ r ∈ rows, ∀ res, verdict r = some (.stop res) → res ≠ 1) :
    ∀ r ∈ rows, ∃ ok, verdict r = some (.ofBool ok) := by
  induction rows generalizing vRow with
  | nil => exact fun r hr ↦ nomatch hr
  | cons r rows ih =>
    obtain ⟨hr, hrows⟩ := List.forall_mem_cons.1 hstop
    rw [collect] at h
    cases hverdict : verdict r with
    | none =>
      rw [hverdict] at h
      cases h
    | some v =>
      rw [hverdict] at h
      cases v with
      | stop res =>
        cases h
        exact absurd rfl (hr 1 hverdict)
      | skip => exact List.forall_mem_cons.2 ⟨⟨false, hverdict⟩, ih h hrows⟩
      | take =>
        replace h : ((copyRow c copyData r).bind fun r' ↦ (collect c copyData verdict rows).bind
          fun rest ↦ some (rest.1, r' :: rest.2)) = some (1, vRow) := h
        obtain ⟨r', -, h⟩ := Option.bind_eq_some_iff.1 h
        obtain ⟨⟨res, vRow'⟩, hrest, h⟩ := Option.bind_eq_some_iff.1 h
        cases h
        exact List.forall_mem_cons.2 ⟨⟨true, hverdict⟩, ih hrest hrows⟩

/-- What a query gives that takes some of the rows. -/
def select (c : Copies) (copyData : Bool) (s : Tables) (p : Row → Bool) : Option (ℤ × Tables) :=
  ((s.source.m_vRow.filter p).mapM (copyRow c copyData)).map fun vRow ↦
    (1, { s with tbl := { s.tbl with m_vRow := vRow } })

theorem fill_eq (h : ∀ r ∈ s.source.m_vRow, verdict r = some (.ofBool (p r))) :
    fill c copyData s verdict = select c copyData s p := by
  rw [fill, collect_eq h, select]
  cases (s.source.m_vRow.filter p).mapM (copyRow c copyData) <;> rfl

theorem judged_of_fill (h : fill c copyData s verdict = some (1, s'))
    (hstop : ∀ r ∈ s.source.m_vRow, ∀ res, verdict r = some (.stop res) → res ≠ 1) :
    s'.source = s.source ∧ ∀ r ∈ s.source.m_vRow, ∃ ok, verdict r = some (.ofBool ok) := by
  obtain ⟨⟨res, vRow⟩, hcollect, h⟩ := Option.bind_eq_some_iff.1 h
  cases h
  exact ⟨rfl, judged_of_collect hcollect hstop⟩

theorem select_congr {q : Row → Bool} (h : ∀ r ∈ s.source.m_vRow, p r = q r) :
    select c copyData s p = select c copyData s q := by
  rw [select, List.filter_congr h, select]

/-- The query returns 1, leaves the table that is asked as it is, and puts the rows of a kind into the
other one, in order. -/
def Selects (c : Copies) (copyData : Bool) (s : Tables) (answer : Option (ℤ × Tables))
    (p : Row → Bool) : Prop :=
  ∃ s', answer = some (1, s') ∧ s'.source = s.source ∧
    (s.source.m_vRow.filter p).mapM (copyRow c copyData) = some s'.tbl.m_vRow

theorem mapM_isSome {α β : Type} {f : α → Option β} {as : List α} (h : ∀ a ∈ as, (f a).isSome) :
    ∃ bs, as.mapM f = some bs := by
  induction as with
  | nil => exact ⟨[], rfl⟩
  | cons a as ih =>
    obtain ⟨ha, has⟩ := List.forall_mem_cons.1 h
    obtain ⟨b, hb⟩ := Option.isSome_iff_exists.1 ha
    obtain ⟨bs, hbs⟩ := ih has
    exact ⟨b :: bs, by rw [List.mapM_cons, hb, hbs]; rfl⟩

theorem isSome_of_mapM {α β : Type} {f : α → Option β} {as : List α} {bs : List β}
    (h : as.mapM f = some bs) : ∀ a ∈ as, (f a).isSome := by
  induction as generalizing bs with
  | nil => exact fun a ha ↦ nomatch ha
  | cons a as ih =>
    rw [List.mapM_cons] at h
    obtain ⟨b, hb, h⟩ := Option.bind_eq_some_iff.1 h
    obtain ⟨bs', hbs, -⟩ := Option.bind_eq_some_iff.1 h
    exact List.forall_mem_cons.2 ⟨by rw [hb]; rfl, ih hbs⟩

theorem select_selects (hs : s'.source = s.source)
    (h : ∀ r ∈ s.source.m_vRow, p r = true → (copyRow c copyData r).isSome) :
    Selects c copyData s (select c copyData s' p) p := by
  have hcopies : ∀ r ∈ s.source.m_vRow.filter p, (copyRow c copyData r).isSome :=
    fun r hr ↦ h r (List.mem_of_mem_filter hr) (List.of_mem_filter hr)
  obtain ⟨vRow, hvRow⟩ := mapM_isSome hcopies
  refine ⟨{ s' with tbl := { s'.tbl with m_vRow := vRow } }, ?_, hs, hvRow⟩
  rw [select, hs, hvRow]
  rfl

end Select

/-! ### The queries of a column -/

/-- An object of a type that is compared. -/
def Obj.Comparable (v : Obj) : Prop := ∃ t, v.type = some t ∧ t ≠ .bytes

/-- A column of objects that are compared. -/
structure ComparedColumn (t : Table) (n DataType : ℕ) : Prop where
  dataType : ∃ col, t.m_meta[n]? = some col ∧ col.DataType = DataType
  cells : ∀ r ∈ t.m_vRow, r[n]? = some (cell n r)
  comparable : ∀ r ∈ t.m_vRow, cell n r ≠ .null → (cell n r).Comparable

/-- What a value is converted to in a query. -/
def converted (l : Library) (DataType : ℕ) (v : Obj) : Obj :=
  (ChangeType l v (queryType DataType)).getD .null

/-- A value that is converted. -/
structure Converts (l : Library) (DataType : ℕ) (v : Obj) : Prop where
  ne_null : v ≠ .null
  changeType : ChangeType l v (queryType DataType) = some (converted l DataType v)
  converted_ne_null : converted l DataType v ≠ .null

/-- No conversion and no comparison of the query throws, nor does a copy. -/
structure Fits (c : Copies) (copyData : Bool) (s : Tables) (n : ℕ) (ws : List Obj) : Prop where
  prepared : Prepared c copyData s
  copied : ∀ r ∈ s.source.m_vRow, cell n r ≠ .null → (copyRow c copyData r).isSome
  nulls : ∀ w ∈ ws, ∀ r ∈ s.source.m_vRow, cell n r = .null → w.type = some .timestamp
  cells : ∀ w ∈ ws, ∀ r ∈ s.source.m_vRow, cell n r ≠ .null → (cell n r).type = w.type
  values : ∀ w ∈ ws, ∀ w' ∈ ws, w.type = w'.type

section Column

variable {l : Library} {c : Copies} {copyData : Bool} {s s' : Tables} {n DataType : ℕ}
  {v w a b : Obj} {vs ws : List Obj} {op : Operator}

/-- Whether the cell of a row passes a test. -/
def passes (l : Library) (s : Tables) (n : ℕ) (op : Operator) (w : Obj) (r : Row) : Bool :=
  cell n r ≠ .null && op.holds (related l s.source.m_bDataCaseSensitive (cell n r) w)

theorem not_badOrdinal (h : ComparedColumn s.source n DataType) : ¬ badOrdinal s n := by
  obtain ⟨col, hcol, -⟩ := h.dataType
  have hlt := (List.getElem?_eq_some_iff.1 hcol).1
  unfold badOrdinal
  omega

theorem convert_eq (h : ∀ v ∈ vs, Converts l DataType v) :
    convert l (queryType DataType) vs = some (true, vs.map (converted l DataType)) := by
  induction vs with
  | nil => rfl
  | cons v vs ih =>
    obtain ⟨hv, hvs⟩ := List.forall_mem_cons.1 h
    rw [convert, hv.changeType, Option.bind_eq_bind, Option.bind_some, if_neg hv.converted_ne_null,
      ih hvs]
    rfl

theorem Fits.compareBy (h : Fits c copyData s n ws) (hcolumn : ComparedColumn s.source n DataType)
    (hw : w ∈ ws) (hop : op ≠ .is_null) {r : Row} (hr : r ∈ s.source.m_vRow) :
    compareBy l s.source.m_bDataCaseSensitive op (cell n r) w =
      some (if passes l s n op w r = true then 1 else 0) := by
  unfold passes
  by_cases hnull : cell n r = .null
  · simp [hnull, compareBy_null hop]
  · obtain ⟨t, ht, hbytes⟩ := hcolumn.comparable r hr hnull
    rw [compareBy_of_type hop ht ((h.cells w hw r hr hnull).symm.trans ht) hbytes]
    simp [hnull]

theorem inValues_eq {v : Obj} {caseSensitive : Bool} {f : Obj → Bool}
    (h : ∀ w ∈ ws, eq l caseSensitive w v = some (if f w = true then 1 else 0)) :
    inValues l caseSensitive v ws = some (ws.any f) := by
  induction ws with
  | nil => rfl
  | cons w ws ih =>
    obtain ⟨hw, hws⟩ := List.forall_mem_cons.1 h
    rw [inValues, hw, List.any_cons, Option.bind_eq_bind, Option.bind_some, ih hws]
    cases f w <;> rfl

theorem Fits.inValues (h : Fits c copyData s n ws) (hcolumn : ComparedColumn s.source n DataType) {r : Row}
    (hr : r ∈ s.source.m_vRow) : inValues l s.source.m_bDataCaseSensitive (cell n r) ws =
      some (ws.any fun w ↦ passes l s n .equal w r) := by
  refine inValues_eq fun w hw ↦ ?_
  unfold passes
  by_cases hnull : cell n r = .null
  · have htype := h.nulls w hw r hr hnull
    rw [hnull, eq_null htype (by decide)]
    simp
  · obtain ⟨t, ht, hbytes⟩ := hcolumn.comparable r hr hnull
    have hcompare : Java.compareBy l s.source.m_bDataCaseSensitive .equal w (cell n r) = _ :=
      compareBy_of_type (by decide) ((h.cells w hw r hr hnull).symm.trans ht) ht hbytes
    rw [show eq l s.source.m_bDataCaseSensitive w (cell n r) = _ from hcompare]
    simp [hnull, Operator.holds, related_equals_comm w]

theorem ComparedColumn.of_source (h : ComparedColumn s.source n DataType) (hs : s'.source = s.source) :
    ComparedColumn s'.source n DataType := by rwa [hs]

/-- A query for a list, on tables that are prepared. -/
theorem queryValues_eq_fill {isChosen : Obj → List Obj → Option Bool}
    (hprepare : prepare c copyData s = some s') (hs : s'.source = s.source)
    (hcolumn : ComparedColumn s.source n DataType) (hvs : ∀ v ∈ vs, Converts l DataType v) :
    queryValues l c copyData isChosen s n (some vs) = (fill c copyData s' fun prow ↦ do
      let v0 ← prow[n]?
      some (.ofBool (← isChosen v0 (vs.map (converted l DataType))))).map fun r ↦
        (r, some (vs.map (converted l DataType))) := by
  obtain ⟨col, hcol, rfl⟩ := hcolumn.dataType
  have hordinal := not_badOrdinal (hcolumn.of_source hs)
  rw [queryValues, hprepare, Option.bind_eq_bind, Option.bind_some, if_neg hordinal]
  dsimp only
  rw [hs, Int.toNat_natCast, hcol, Option.bind_eq_bind, Option.bind_some, convert_eq hvs,
    Option.bind_eq_bind, Option.bind_some, if_pos rfl]
  generalize fill c copyData s' _ = r
  cases r <;> rfl

theorem queryValues_eq {isChosen : Obj → List Obj → Option Bool} {p : Row → Bool}
    (hprepare : prepare c copyData s = some s') (hs : s'.source = s.source)
    (hcolumn : ComparedColumn s.source n DataType) (hvs : ∀ v ∈ vs, Converts l DataType v)
    (h : ∀ r ∈ s.source.m_vRow, isChosen (cell n r) (vs.map (converted l DataType)) = some (p r)) :
    queryValues l c copyData isChosen s n (some vs) =
      (select c copyData s' p).map fun r ↦ (r, some (vs.map (converted l DataType))) := by
  rw [queryValues_eq_fill hprepare hs hcolumn hvs, fill_eq (p := p) fun r hr ↦ ?_]
  rw [hs] at hr
  rw [hcolumn.cells r hr, Option.bind_eq_bind, Option.bind_some, h r hr]
  rfl

theorem In_eq (hprepare : prepare c copyData s = some s') (hs : s'.source = s.source)
    (hcolumn : ComparedColumn s.source n DataType) (hvs : ∀ v ∈ vs, Converts l DataType v)
    (hfits : Fits c copyData s n (vs.map (converted l DataType))) :
    In l c copyData s n (some vs) = (select c copyData s' fun r ↦
      decide (cell n r ≠ .null) && (vs.map (converted l DataType)).any fun w ↦
        passes l s n .equal w r).map fun r ↦ (r, some (vs.map (converted l DataType))) := by
  refine queryValues_eq hprepare hs hcolumn hvs fun r hr ↦ ?_
  rw [hfits.inValues hcolumn hr]
  by_cases hnull : cell n r = .null
  · simp [passes, hnull]
  · simp [hnull]

theorem NotIn_eq (hprepare : prepare c copyData s = some s') (hs : s'.source = s.source)
    (hcolumn : ComparedColumn s.source n DataType) (hvs : ∀ v ∈ vs, Converts l DataType v)
    (hfits : Fits c copyData s n (vs.map (converted l DataType))) :
    NotIn l c copyData s n (some vs) = (select c copyData s' fun r ↦
      decide (cell n r ≠ .null) && !(vs.map (converted l DataType)).any fun w ↦
        passes l s n .equal w r).map fun r ↦ (r, some (vs.map (converted l DataType))) := by
  refine queryValues_eq hprepare hs hcolumn hvs fun r hr ↦ ?_
  by_cases hnull : cell n r = .null
  · simp [hnull]
  · rw [if_neg hnull, hfits.inValues hcolumn hr]
    simp [hnull]

theorem ofResult_ite (ok : Bool) : Verdict.ofResult (if ok = true then 1 else 0) = .ofBool ok := by
  cases ok <;> rfl

theorem Find_eq (hprepare : prepare c copyData s = some s') (hs : s'.source = s.source)
    (hcolumn : ComparedColumn s.source n DataType) (hv : Converts l DataType v)
    (hfits : Fits c copyData s n ws) (hw : converted l DataType v ∈ ws) (hop : op ≠ .is_null) :
    Find l c copyData s n op v =
      select c copyData s' (passes l s n op (converted l DataType v)) := by
  obtain ⟨col, hcol, rfl⟩ := hcolumn.dataType
  have hordinal := not_badOrdinal (hcolumn.of_source hs)
  rw [Find, hprepare, Option.bind_eq_bind, Option.bind_some, if_neg hordinal,
    if_neg fun h ↦ hv.ne_null h.1, hs, Int.toNat_natCast, hcol, Option.bind_eq_bind, Option.bind_some]
  refine fill_eq fun r hr ↦ ?_
  rw [hs] at hr
  rw [if_neg hop, hv.changeType, Option.bind_eq_bind, Option.bind_some, if_neg hv.converted_ne_null,
    hcolumn.cells r hr, Option.bind_eq_bind, Option.bind_some, hfits.compareBy hcolumn hw hop hr,
    Option.bind_some, ofResult_ite]

theorem between_eq {small large : Obj} (hcolumn : ComparedColumn s.source n DataType)
    (hfits : Fits c copyData s n ws) (hsmall : small ∈ ws) (hlarge : large ∈ ws) {r : Row}
    (hr : r ∈ s.source.m_vRow) :
    between l s.source.m_bDataCaseSensitive small large (cell n r) = some (.ofBool
      (passes l s n .great_equal small r && passes l s n .less_equal large r)) := by
  have hcompare {w : Obj} (op : Operator) (hop : op ≠ .is_null) (hw : w ∈ ws) :
      Java.compareBy l s.source.m_bDataCaseSensitive op (cell n r) w =
        some (if passes l s n op w r = true then 1 else 0) := hfits.compareBy hcolumn hw hop hr
  have hge : ge l s.source.m_bDataCaseSensitive (cell n r) small = _ :=
    hcompare .great_equal (by decide) hsmall
  have hle : le l s.source.m_bDataCaseSensitive (cell n r) large = _ :=
    hcompare .less_equal (by decide) hlarge
  rw [between, hge, Option.bind_eq_bind, Option.bind_some, ofResult_ite, hle]
  cases passes l s n .great_equal small r with
  | false => rfl
  | true => cases passes l s n .less_equal large r <;> rfl

/-- Two values of which none is greater bound the same rows. -/
theorem passes_swap (hab : (related l s.source.m_bDataCaseSensitive a b).after = false)
    (hba : (related l s.source.m_bDataCaseSensitive b a).after = false) {r : Row}
    (h : (passes l s n .great_equal a r && passes l s n .less_equal b r) = true) :
    (passes l s n .great_equal b r && passes l s n .less_equal a r) = true := by
  revert hab hba h
  unfold passes related
  generalize s.source.m_bDataCaseSensitive = caseSensitive
  cases (cell n r).key l caseSensitive with
  | none => simp [Operator.holds]
  | some z =>
    cases a.key l caseSensitive with
    | none => simp [Operator.holds]
    | some x =>
      cases b.key l caseSensitive with
      | none => simp [Operator.holds]
      | some y =>
        intro hab hba h
        obtain rfl := Comparison.eq_of_not_after hab hba
        simpa using h

/-- The smaller one of two values, after they are converted. -/
def smaller (l : Library) (s : Tables) (DataType : ℕ) (a b : Obj) : Obj :=
  if gt l s.source.m_bDataCaseSensitive (converted l DataType a) (converted l DataType b) = some 1
  then b else a

/-- The greater one of two values, after they are converted. -/
def greater (l : Library) (s : Tables) (DataType : ℕ) (a b : Obj) : Obj :=
  if gt l s.source.m_bDataCaseSensitive (converted l DataType a) (converted l DataType b) = some 1
  then a else b

theorem Between_eq (hprepare : prepare c copyData s = some s') (hs : s'.source = s.source)
    (hcolumn : ComparedColumn s.source n DataType) (hvs : ∀ v ∈ vs, Converts l DataType v)
    (hfits : Fits c copyData s n (vs.map (converted l DataType))) (ha : a ∈ vs) (hb : b ∈ vs)
    (hcomparable : (converted l DataType a).Comparable) :
    Between l c copyData s n a b = select c copyData s' fun r ↦
      passes l s n .great_equal (converted l DataType (smaller l s DataType a b)) r &&
        passes l s n .less_equal (converted l DataType (greater l s DataType a b)) r := by
  have hmem {v : Obj} (hv : v ∈ vs) : converted l DataType v ∈ vs.map (converted l DataType) :=
    List.mem_map_of_mem hv
  obtain ⟨col, hcol, rfl⟩ := hcolumn.dataType
  obtain ⟨t, ht, hbytes⟩ := hcomparable
  have hordinal := not_badOrdinal (hcolumn.of_source hs)
  have hcompare : Java.compareBy l s.source.m_bDataCaseSensitive .great
      (converted l col.DataType a) (converted l col.DataType b) = _ :=
    compareBy_of_type (by decide) ht ((hfits.values _ (hmem hb) _ (hmem ha)).trans ht) hbytes
  have hgt : gt l s.source.m_bDataCaseSensitive (converted l col.DataType a)
      (converted l col.DataType b) = _ := hcompare
  rw [Between, hprepare, Option.bind_eq_bind, Option.bind_some, if_neg hordinal,
    if_neg (not_or.2 ⟨(hvs a ha).ne_null, (hvs b hb).ne_null⟩), hs, Int.toNat_natCast, hcol,
    Option.bind_eq_bind, Option.bind_some]
  dsimp only
  rw [(hvs a ha).changeType, Option.bind_eq_bind, Option.bind_some,
    if_neg (hvs a ha).converted_ne_null, (hvs b hb).changeType, Option.bind_eq_bind,
    Option.bind_some, if_neg (hvs b hb).converted_ne_null, hgt, Option.bind_eq_bind, Option.bind_some]
  have hfill {small large : Obj} (hsmall : small ∈ vs.map (converted l col.DataType))
      (hlarge : large ∈ vs.map (converted l col.DataType)) :
      (fill c copyData s' fun prow ↦ do
        between l s.source.m_bDataCaseSensitive small large (← prow[n]?)) =
        select c copyData s' fun r ↦
          passes l s n .great_equal small r && passes l s n .less_equal large r := by
    refine fill_eq fun r hr ↦ ?_
    rw [hs] at hr
    rw [hcolumn.cells r hr, Option.bind_eq_bind, Option.bind_some,
      between_eq hcolumn hfits hsmall hlarge hr]
  unfold smaller greater
  rw [hgt]
  cases Operator.great.holds (related l s.source.m_bDataCaseSensitive (converted l col.DataType a)
    (converted l col.DataType b)) with
  | false => exact hfill (hmem ha) (hmem hb)
  | true => exact hfill (hmem hb) (hmem ha)

end Column

end SocketPro.Java
