import SocketPro.Java.Comparisons
import SocketPro.Java.DataSet
import SocketPro.Foundation.WeakOrder

/-!
# Sorting a Java table

`CDBVariantArray.compareTo` and `CTable.Sort`, which hands the rows to `Collections.sort`. The
sorting function is a parameter; what it promises of a comparator that is a total preorder is
`WeakOrder.IsComparatorSort`.

Numbers are compared by subtraction. The difference of two `Integer`s wraps, that of two `Long`s
wraps and loses its upper half, and that of an infinity and itself is no number, which is taken for
a negative one. All other types are compared right, and so are numbers whose difference keeps its
sign (`Subtractable`). **`Sort` is a sort** exactly if all cells of the column are
(`sort_by_subtraction_iff`).
-/

namespace SocketPro.Java

open Binary WeakOrder

/-- A `CTable`, whatever its columns. -/
structure Table where
  m_meta : List CDBColumnInfo
  m_vRow : List Row
  m_bFieldNameCaseSensitive : Bool
  m_bDataCaseSensitive : Bool
deriving DecidableEq, Repr

abbrev BAD_ORDINAL : ℤ := -1

/-! ### The comparator -/

/-- The sign of a relation. -/
def Comparison.sign (r : Comparison) : ℤ :=
  if r.after = true then 1 else if r.before = true then -1 else 0

/-- Two floating-point numbers, by the sign of their difference. -/
def compareDifference (f : Format) (a b : ℕ) : ℤ :=
  let d := f.sub a b
  if f.isZero d = true then 0 else if f.isPositive d = true then 1 else -1

/-- `CDBVariantArray.compareTo`, on the two objects. -/
def compareTo (l : Library) (CaseSenstive : Bool) : Obj → Obj → Option ℤ
  | .null, .null => some 0
  | _, .null => some 1
  | .null, _ => some (-1)
  | .int m, .int n => some (m - n).toInt
  | .long m, .long n => some (m - n).toInt32.toInt
  | .short m, .short n => some (m.toInt32 - n.toInt32).toInt
  | .double d, .double e => some (compareDifference binary64 d.toNat e.toNat)
  | .string s, .string t => some (compareText l CaseSenstive s t)
  | .boolean b, .boolean c => some (b.toInt - c.toInt)
  | .timestamp s, .timestamp t => some (s.relation t).sign
  | .decimal d, .decimal e => some (d.relation e).sign
  | .float d, .float e => some (compareDifference binary32 d.toNat e.toNat)
  | .uuid m n, .uuid m' n' => some (uuidRelation m n m' n').sign
  | .char c, .char d => some (c.toNat - d.toNat)
  | .byte m, .byte n => some (m.toInt32 - n.toInt32).toInt
  | .date s, .date t => some (Comparison.of s.toInt t.toInt).sign
  | .date s, .timestamp t => some (Comparison.of s.toInt t.fastTime).sign
  | .bytes _, _ | .other _, _ => some 0
  | _, _ => none

section Rows

variable (l : Library) (sort : (Row → Row → Option ℤ) → List Row → Option (List Row))

/-- `compareTo` of two rows, by their objects in the column. -/
def compareRows (caseSensitive : Bool) (ordinal : ℕ) (r r' : Row) : Option ℤ := do
  compareTo l caseSensitive (← r[ordinal]?) (← r'[ordinal]?)

/-- `Sort`. Descending, the comparator gets its arguments the other way round. -/
def Table.Sort (t : Table) (ordinal : ℤ) (desc : Bool) : Option (ℤ × Table) :=
  if ordinal < 0 ∨ t.m_meta.length ≤ ordinal then some (BAD_ORDINAL, t)
  else do
    let cmp := compareRows l t.m_bDataCaseSensitive ordinal.toNat
    let rows ← if desc = true then sort (fun r r' ↦ cmp r' r) t.m_vRow else sort cmp t.m_vRow
    some (1, { t with m_vRow := rows })

end Rows

/-- The cells of a column. -/
def Table.cells (t : Table) (ordinal : ℕ) : List Obj := t.m_vRow.filterMap fun r ↦ r[ordinal]?

/-- The object is a floating-point number that is none. -/
def Obj.isNaN : Obj → Bool
  | .float x => binary32.isNaN x.toNat
  | .double x => binary64.isNaN x.toNat
  | _ => false

/-- The difference of the numbers keeps its sign. -/
def Subtractable : Obj → Obj → Prop
  | .int m, .int n => -2 ^ 31 ≤ m.toInt - n.toInt ∧ m.toInt - n.toInt < 2 ^ 31
  | .long m, .long n =>
    let d := m.toInt - n.toInt
    d = 0 ∨ 0 < d ∧ 0 < d % 2 ^ 32 ∧ d % 2 ^ 32 < 2 ^ 31 ∨ d < 0 ∧ 2 ^ 31 ≤ d % 2 ^ 32
  | .float d, .float e =>
    ¬ (binary32.isInfinite d.toNat = true ∧ binary32.key d.toNat = binary32.key e.toNat)
  | .double d, .double e =>
    ¬ (binary64.isInfinite d.toNat = true ∧ binary64.key d.toNat = binary64.key e.toNat)
  | _, _ => True

/-! ### What `compareTo` tells -/

section Tells

variable {κ : Type*} [LinearOrder κ] {x y : κ}

theorem tells_sign : Tells (Comparison.of x y).sign x y := by
  obtain h | h | h := lt_trichotomy x y
  · simp [Tells, Comparison.sign, Comparison.of, h, h.not_gt]
  · simp [Tells, Comparison.sign, Comparison.of, h]
  · simp [Tells, Comparison.sign, Comparison.of, h, h.not_gt]

/-- A number that is related to 0 as two values are to each other. -/
theorem tells_of_relation {n : ℤ} (h : Comparison.of n 0 = Comparison.of x y) : Tells n x y :=
  ⟨decide_eq_decide.1 (congrArg Comparison.before h), decide_eq_decide.1 (congrArg Comparison.after h)⟩

theorem tells_integers (k m n : ℤ) : Tells k [(m : ℚ)] [(n : ℚ)] ↔ Tells k m n := by
  simp [Tells, List.cons_lt_cons_iff]

/-- A difference of floating-point numbers. -/
theorem tells_compareDifference {f : Format} (hf : f.Sound) {a b : ℕ}
    (ha : f.isNaN a = false) (hb : f.isNaN b = false) :
    Tells (compareDifference f a b) (f.key a) (f.key b) ↔
      ¬ (f.isInfinite a = true ∧ f.key a = f.key b) := by
  unfold compareDifference
  dsimp only
  by_cases hab : f.isInfinite a = true ∧ f.key a = f.key b
  · obtain ⟨hzero, hpositive⟩ := Format.sub_self_of_infinite hf hab.1 hab.2
    refine iff_of_false (fun h ↦ ?_) (not_not_intro hab)
    rw [hzero, hpositive] at h
    have hlt := h.1.1 (by decide)
    exact hlt.ne hab.2
  · obtain ⟨hzero, hpositive⟩ := Format.sign_sub hf ha hb hab
    refine iff_of_true ?_ hab
    rw [Tells]
    simp only [hzero, hpositive]
    split_ifs <;> omega

end Tells

/-- An integer in 32 bits. -/
theorem bmod_eq (d : ℤ) :
    d.bmod (2 ^ 32) = if d % 2 ^ 32 < 2 ^ 31 then d % 2 ^ 32 else d % 2 ^ 32 - 2 ^ 32 := by
  rw [Int.bmod]
  rfl

theorem binary64_sound : binary64.Sound := ⟨by decide, by decide⟩

theorem binary32_sound : binary32.Sound := ⟨by decide, by decide⟩

/-- **`compareTo` of two objects of one type** tells which one comes first exactly if their
difference keeps its sign. -/
theorem compareTo_tells_iff {l : Library} {caseSensitive : Bool} {v w : Obj} {x y : List ℚ}
    (htype : v.type = w.type) (hx : v.key l caseSensitive = some x)
    (hy : w.key l caseSensitive = some y) :
    ∃ n, compareTo l caseSensitive v w = some n ∧ (Tells n x y ↔ Subtractable v w) := by
  have hrelation := relation_eq htype hx hy
  cases v with
  | null | char _ | date _ | bytes _ | other _ => cases hx
  | int m =>
    cases w with
    | int n =>
      cases hx
      cases hy
      refine ⟨_, rfl, (tells_integers _ _ _).trans ?_⟩
      have hm := m.le_toInt
      have hm' := m.toInt_lt
      have hn := n.le_toInt
      have hn' := n.toInt_lt
      rw [Tells, Int32.toInt_sub, bmod_eq, Subtractable]
      split_ifs <;> omega
    | _ => cases htype
  | long m =>
    cases w with
    | long n =>
      cases hx
      cases hy
      refine ⟨_, rfl, (tells_integers _ _ _).trans ?_⟩
      rw [Tells, Int64.toInt_toInt32, Int64.toInt_sub, Int.bmod_bmod_of_dvd (by decide), bmod_eq,
        Subtractable]
      split_ifs <;> omega
    | _ => cases htype
  | short m =>
    cases w with
    | short n =>
      cases hx
      cases hy
      refine ⟨_, rfl, iff_of_true ((tells_integers _ _ _).2 ?_) trivial⟩
      have hm := m.le_toInt
      have hm' := m.toInt_lt
      have hn := n.le_toInt
      have hn' := n.toInt_lt
      rw [Tells, Int32.toInt_sub, Int16.toInt_toInt32, Int16.toInt_toInt32, bmod_eq]
      split_ifs <;> omega
    | _ => cases htype
  | byte m =>
    cases w with
    | byte n =>
      cases hx
      cases hy
      refine ⟨_, rfl, iff_of_true ((tells_integers _ _ _).2 ?_) trivial⟩
      have hm := m.le_toInt
      have hm' := m.toInt_lt
      have hn := n.le_toInt
      have hn' := n.toInt_lt
      rw [Tells, Int32.toInt_sub, Int8.toInt_toInt32, Int8.toInt_toInt32, bmod_eq]
      split_ifs <;> omega
    | _ => cases htype
  | boolean b =>
    cases w with
    | boolean c =>
      cases hx
      cases hy
      refine ⟨_, rfl, iff_of_true ?_ trivial⟩
      rw [← Int.cast_natCast b.toNat, ← Int.cast_natCast c.toNat, tells_integers, Tells]
      cases b <;> cases c <;> decide
    | _ => cases htype
  | float a =>
    cases w with
    | float b =>
      obtain ⟨hna, hx⟩ := Option.ite_none_left_eq_some.1 hx
      obtain ⟨hnb, hy⟩ := Option.ite_none_left_eq_some.1 hy
      cases hx
      cases hy
      refine ⟨_, rfl, (tells_integers _ _ _).trans ?_⟩
      exact tells_compareDifference binary32_sound (by simpa using hna) (by simpa using hnb)
    | _ => cases htype
  | double a =>
    cases w with
    | double b =>
      obtain ⟨hna, hx⟩ := Option.ite_none_left_eq_some.1 hx
      obtain ⟨hnb, hy⟩ := Option.ite_none_left_eq_some.1 hy
      cases hx
      cases hy
      refine ⟨_, rfl, (tells_integers _ _ _).trans ?_⟩
      exact tells_compareDifference binary64_sound (by simpa using hna) (by simpa using hnb)
    | _ => cases htype
  | string s =>
    cases w with
    | string t =>
      exact ⟨_, rfl, iff_of_true (tells_of_relation (Option.some.inj hrelation)) trivial⟩
    | _ => cases htype
  | decimal d =>
    cases w with
    | decimal e =>
      refine ⟨_, rfl, iff_of_true ?_ trivial⟩
      rw [(Option.some.inj hrelation : d.relation e = _)]
      exact tells_sign
    | _ => cases htype
  | uuid m n =>
    cases w with
    | uuid m' n' =>
      refine ⟨_, rfl, iff_of_true ?_ trivial⟩
      rw [(Option.some.inj hrelation : uuidRelation m n m' n' = _)]
      exact tells_sign
    | _ => cases htype
  | timestamp s =>
    cases w with
    | timestamp t =>
      refine ⟨_, rfl, iff_of_true ?_ trivial⟩
      rw [(Option.some.inj hrelation : s.relation t = _)]
      exact tells_sign
    | _ => cases htype

/-! ### Columns -/

/-- The cell of a row. -/
def cell (ordinal : ℕ) (r : Row) : Obj := r.getD ordinal .null

/-- A column of a comparable type: every row has a cell there, which is null or of the type, and not
a number that is none. -/
structure Table.Column (t : Table) (ordinal : ℕ) (type : ColumnType) : Prop where
  comparable : type ≠ .bytes
  inside : ordinal < t.m_meta.length
  complete : ∀ r ∈ t.m_vRow, ordinal < r.length
  typed : ∀ v ∈ t.cells ordinal, v = .null ∨ v.type = some type ∧ v.isNaN = false

/-- Rows in the order of a column, with null in front, or behind everything else. -/
def InOrder (l : Library) (caseSensitive : Bool) (ordinal : ℕ) (desc : Bool) (rows : List Row) :
    Prop :=
  ∃ nulls others, rows = (if desc = true then others ++ nulls else nulls ++ others) ∧
    (∀ r ∈ nulls, cell ordinal r = .null) ∧ (∀ r ∈ others, cell ordinal r ≠ .null) ∧
    others.Pairwise fun r r' ↦
      (if desc = true then lt else gt) l caseSensitive (cell ordinal r) (cell ordinal r') = some 0

/-- **`Sort` is a sort** of a column: the comparator is a total preorder and agrees with `gt` and
`lt`, and whatever sorting function takes it, the rows end up in order, all of them. -/
structure Table.Sorts (t : Table) (l : Library) (ordinal : ℕ) : Prop where
  preorder : ComparatorOn (compareTo l t.m_bDataCaseSensitive) (valuesOf (t.cells ordinal))
  agrees : ∀ v ∈ t.cells ordinal, ∀ w ∈ t.cells ordinal, v ≠ .null → w ≠ .null →
    ∀ n ∈ compareTo l t.m_bDataCaseSensitive v w,
      (0 < n ↔ gt l t.m_bDataCaseSensitive v w = some 1) ∧
        (n < 0 ↔ lt l t.m_bDataCaseSensitive v w = some 1)
  sorted : ∀ sort, IsComparatorSort sort → ∀ desc, ∃ rows,
    t.Sort l sort ordinal desc = some (1, { t with m_vRow := rows }) ∧ rows.Perm t.m_vRow ∧
      InOrder l t.m_bDataCaseSensitive ordinal desc rows

theorem exists_key {l : Library} {caseSensitive : Bool} {v : Obj} {type : ColumnType}
    (hcomparable : type ≠ .bytes) (htype : v.type = some type) (hnan : v.isNaN = false) :
    ∃ x, v.key l caseSensitive = some x := by
  cases v with
  | null | char _ | date _ | other _ => cases htype
  | bytes _ => exact absurd (Option.some.inj htype).symm hcomparable
  | float x => exact ⟨_, if_neg (by simpa [Obj.isNaN] using hnan)⟩
  | double x => exact ⟨_, if_neg (by simpa [Obj.isNaN] using hnan)⟩
  | _ => exact ⟨_, rfl⟩

/-- The place of a cell in the order of its column; null comes first. -/
def place (l : Library) (caseSensitive : Bool) (v : Obj) : WithBot (List ℚ) := v.key l caseSensitive

section Column

variable {t : Table} {l : Library} {ordinal : ℕ} {type : ColumnType} {v w : Obj} {r : Row}

theorem place_eq {caseSensitive : Bool} {x : List ℚ} (hx : v.key l caseSensitive = some x) :
    place l caseSensitive v = (x : WithBot (List ℚ)) := hx

theorem place_null_lt {caseSensitive : Bool} {x : List ℚ} (hx : v.key l caseSensitive = some x) :
    place l caseSensitive .null < place l caseSensitive v := by
  rw [place, place, hx]
  exact WithBot.bot_lt_coe x

theorem cell_mem_cells (hr : r ∈ t.m_vRow) (hlt : ordinal < r.length) :
    r[ordinal]? = some (cell ordinal r) ∧ cell ordinal r ∈ t.cells ordinal := by
  have hcell : r[ordinal]? = some (cell ordinal r) := by
    rw [cell, List.getD_eq_getElem?_getD, List.getElem?_eq_getElem hlt, Option.getD_some]
  exact ⟨hcell, List.mem_filterMap.2 ⟨r, hr, hcell⟩⟩

namespace Table.Column

theorem eq_null_or (h : t.Column ordinal type) (hv : v ∈ t.cells ordinal) :
    v = .null ∨ v ≠ .null ∧ v.type = some type ∧
      ∃ x, v.key l t.m_bDataCaseSensitive = some x := by
  obtain rfl | ⟨htype, hnan⟩ := h.typed v hv
  · exact .inl rfl
  · refine .inr ⟨?_, htype, exists_key h.comparable htype hnan⟩
    rintro rfl
    cases htype

/-- Two cells of the column. -/
theorem compareTo_cells (h : t.Column ordinal type) (hv : v ∈ t.cells ordinal)
    (hw : w ∈ t.cells ordinal) :
    ∃ n, compareTo l t.m_bDataCaseSensitive v w = some n ∧
      (Tells n (place l t.m_bDataCaseSensitive v) (place l t.m_bDataCaseSensitive w) ↔
        Subtractable v w) := by
  obtain rfl | ⟨hnv, htv, x, hx⟩ := h.eq_null_or (l := l) hv
  · obtain rfl | ⟨hnw, -, y, hy⟩ := h.eq_null_or (l := l) hw
    · exact ⟨0, rfl, iff_of_true ⟨by simp, by simp⟩ trivial⟩
    · have hbelow := place_null_lt hy
      refine ⟨-1, ?_, iff_of_true ?_ trivial⟩
      · cases w <;> first | rfl | exact absurd rfl hnw
      · exact ⟨iff_of_true (by decide) hbelow, iff_of_false (by decide) hbelow.not_gt⟩
  · obtain rfl | ⟨-, htw, y, hy⟩ := h.eq_null_or (l := l) hw
    · have hbelow := place_null_lt hx
      refine ⟨1, ?_, iff_of_true ?_ ?_⟩
      · cases v <;> first | rfl | exact absurd rfl hnv
      · exact ⟨iff_of_false (by decide) hbelow.not_gt, iff_of_true (by decide) hbelow⟩
      · cases v <;> trivial
    · obtain ⟨n, hn, htells⟩ := compareTo_tells_iff (htv.trans htw.symm) hx hy
      refine ⟨n, hn, Iff.trans ?_ htells⟩
      rw [place_eq hx, place_eq hy]
      exact and_congr (iff_congr Iff.rfl WithBot.coe_lt_coe) (iff_congr Iff.rfl WithBot.coe_lt_coe)

/-- Two cells that are not null, as `gt` and `lt` compare them. -/
theorem gt_lt_cells (h : t.Column ordinal type) (hv : v ∈ t.cells ordinal)
    (hw : w ∈ t.cells ordinal) (hnv : v ≠ .null) (hnw : w ≠ .null) :
    gt l t.m_bDataCaseSensitive v w =
      some (if place l t.m_bDataCaseSensitive w < place l t.m_bDataCaseSensitive v then 1 else 0) ∧
    lt l t.m_bDataCaseSensitive v w = some
      (if place l t.m_bDataCaseSensitive v < place l t.m_bDataCaseSensitive w then 1 else 0) := by
  obtain ⟨-, htv, x, hx⟩ := (h.eq_null_or (l := l) hv).resolve_left hnv
  obtain ⟨-, htw, y, hy⟩ := (h.eq_null_or (l := l) hw).resolve_left hnw
  have htype := htv.trans htw.symm
  rw [gt, lt, compareWith_eq .great htype hx hy, compareWith_eq .less htype hx hy, place_eq hx,
    place_eq hy]
  simp only [Operator.holds, Comparison.of, decide_eq_true_eq, WithBot.coe_lt_coe, and_self]

/-- The comparator on the rows. -/
theorem compareRows_eq (h : t.Column ordinal type) {r r' : Row} (hr : r ∈ t.m_vRow)
    (hr' : r' ∈ t.m_vRow) : compareRows l t.m_bDataCaseSensitive ordinal r r' =
      compareTo l t.m_bDataCaseSensitive (cell ordinal r) (cell ordinal r') := by
  rw [compareRows, (cell_mem_cells hr (h.complete r hr)).1,
    (cell_mem_cells hr' (h.complete r' hr')).1]
  rfl

end Table.Column

/-- Rows that come one by one in the order of their places are in order. -/
theorem inOrder_of_pairwise (h : t.Column ordinal type) {desc : Bool} {rows : List Row}
    (hperm : rows.Perm t.m_vRow)
    (hpairwise : rows.Pairwise fun r r' ↦
      if desc = true then
        place l t.m_bDataCaseSensitive (cell ordinal r') ≤
          place l t.m_bDataCaseSensitive (cell ordinal r)
      else
        place l t.m_bDataCaseSensitive (cell ordinal r) ≤
          place l t.m_bDataCaseSensitive (cell ordinal r')) :
    InOrder l t.m_bDataCaseSensitive ordinal desc rows := by
  have hmem {r : Row} (hr : r ∈ rows) : cell ordinal r ∈ t.cells ordinal :=
    (cell_mem_cells (hperm.mem_iff.1 hr) (h.complete r (hperm.mem_iff.1 hr))).2
  -- What is not above null is null.
  have hnull {r : Row} (hr : r ∈ rows) (hle : place l t.m_bDataCaseSensitive (cell ordinal r) ≤
      place l t.m_bDataCaseSensitive .null) : cell ordinal r = .null := by
    obtain heq | ⟨-, -, x, hx⟩ := h.eq_null_or (l := l) (hmem hr)
    · exact heq
    · exact absurd hle (place_null_lt hx).not_ge
  cases desc with
  | true =>
    obtain ⟨others, nulls, rfl, hothers, hnulls⟩ :=
      exists_append_of_pairwise (p := fun r ↦ cell ordinal r ≠ .null)
        (hpairwise.imp_of_mem fun {r r'} hr hr' hle hne hnone ↦ by
          rw [if_pos rfl, hnone] at hle
          exact hne (hnull hr' hle))
    refine ⟨nulls, others, rfl, fun r hr ↦ not_not.1 (hnulls r hr), hothers, ?_⟩
    refine (List.pairwise_append.1 hpairwise).1.imp_of_mem fun {r r'} hr hr' hle ↦ ?_
    rw [if_pos rfl] at hle ⊢
    rw [(h.gt_lt_cells (hmem (List.mem_append_left _ hr)) (hmem (List.mem_append_left _ hr'))
      (hothers r hr) (hothers r' hr')).2, if_neg hle.not_gt]
  | false =>
    obtain ⟨nulls, others, rfl, hnulls, hothers⟩ :=
      exists_append_of_pairwise (p := fun r ↦ cell ordinal r = .null)
        (hpairwise.imp_of_mem fun {r r'} hr hr' hle hnone ↦ by
          rw [if_neg (by decide), hnone] at hle
          exact hnull hr hle)
    refine ⟨nulls, others, rfl, hnulls, hothers, ?_⟩
    refine (List.pairwise_append.1 hpairwise).2.1.imp_of_mem fun {r r'} hr hr' hle ↦ ?_
    rw [if_neg (by decide)] at hle ⊢
    rw [(h.gt_lt_cells (hmem (List.mem_append_right _ hr)) (hmem (List.mem_append_right _ hr'))
      (hothers r hr) (hothers r' hr')).1, if_neg hle.not_gt]

/-- Where the differences keep their signs, `Sort` is a sort. -/
theorem sorts_of_subtractable (h : t.Column ordinal type)
    (hsub : ∀ v ∈ t.cells ordinal, ∀ w ∈ t.cells ordinal, Subtractable v w) :
    t.Sorts l ordinal := by
  have htells : ∀ v ∈ t.cells ordinal, ∀ w ∈ t.cells ordinal,
      ∃ n, compareTo l t.m_bDataCaseSensitive v w = some n ∧
        Tells n (place l t.m_bDataCaseSensitive v) (place l t.m_bDataCaseSensitive w) := by
    intro v hv w hw
    obtain ⟨n, hn, hiff⟩ := h.compareTo_cells (l := l) hv hw
    exact ⟨n, hn, hiff.2 (hsub v hv w hw)⟩
  have hrows : ∀ r ∈ valuesOf t.m_vRow, ∀ r' ∈ valuesOf t.m_vRow,
      ∃ n, compareRows l t.m_bDataCaseSensitive ordinal r r' = some n ∧
        Tells n (place l t.m_bDataCaseSensitive (cell ordinal r))
          (place l t.m_bDataCaseSensitive (cell ordinal r')) := by
    intro r hr r' hr'
    rw [h.compareRows_eq hr hr']
    exact htells _ (cell_mem_cells hr (h.complete r hr)).2 _
      (cell_mem_cells hr' (h.complete r' hr')).2
  obtain ⟨hasc, hdesc⟩ := comparatorOn_of_key hrows
  refine ⟨(comparatorOn_of_key htells).1, ?_, ?_⟩
  · intro v hv w hw hnv hnw n hn
    obtain ⟨m, hm, hlt, hgt⟩ := htells v hv w hw
    obtain ⟨hgt_eq, hlt_eq⟩ := h.gt_lt_cells (l := l) hv hw hnv hnw
    rw [← Option.some.inj (hm.symm.trans hn), hlt, hgt, hgt_eq, hlt_eq]
    constructor <;> split_ifs with hplace <;> simp [hplace]
  · intro sort hsort desc
    have hinside : ¬ ((ordinal : ℤ) < 0 ∨ (t.m_meta.length : ℤ) ≤ ordinal) := by
      have := h.inside
      omega
    have hle {r r' : Row} {n : ℤ} (hr : r ∈ t.m_vRow) (hr' : r' ∈ t.m_vRow)
        (hn : n ∈ compareRows l t.m_bDataCaseSensitive ordinal r r') (hn0 : n ≤ 0) :
        place l t.m_bDataCaseSensitive (cell ordinal r) ≤
          place l t.m_bDataCaseSensitive (cell ordinal r') := by
      obtain ⟨m, hm, hkey⟩ := hrows r hr r' hr'
      rw [← Option.some.inj (hm.symm.trans hn)] at hn0
      exact hkey.le_zero.1 hn0
    cases desc with
    | true =>
      obtain ⟨rows, hrows_eq, hperm, hpairwise⟩ := hsort _ _ hdesc
      refine ⟨rows, ?_, hperm, inOrder_of_pairwise h hperm ?_⟩
      · simp only [Table.Sort, if_neg hinside, Int.toNat_natCast, if_true, hrows_eq]
        rfl
      · refine hpairwise.imp_of_mem fun {r r'} hr hr' ⟨n, hn, hn0⟩ ↦ ?_
        exact hle (hperm.mem_iff.1 hr') (hperm.mem_iff.1 hr) hn hn0
    | false =>
      obtain ⟨rows, hrows_eq, hperm, hpairwise⟩ := hsort _ _ hasc
      refine ⟨rows, ?_, hperm, inOrder_of_pairwise h hperm ?_⟩
      · simp only [Table.Sort, if_neg hinside, Int.toNat_natCast, Bool.false_eq_true, if_false,
          hrows_eq]
        rfl
      · refine hpairwise.imp_of_mem fun {r r'} hr hr' ⟨n, hn, hn0⟩ ↦ ?_
        exact hle (hperm.mem_iff.1 hr) (hperm.mem_iff.1 hr') hn hn0

/-- **When `Sort` is a sort.** -/
theorem sort_by_subtraction_iff (h : t.Column ordinal type) : t.Sorts l ordinal ↔
    ∀ v ∈ t.cells ordinal, ∀ w ∈ t.cells ordinal, Subtractable v w := by
  refine ⟨fun hsorts v hv w hw ↦ ?_, sorts_of_subtractable h⟩
  by_cases hnv : v = .null
  · subst hnv
    trivial
  by_cases hnw : w = .null
  · subst hnw
    cases v <;> trivial
  obtain ⟨n, hn, hiff⟩ := h.compareTo_cells (l := l) hv hw
  obtain ⟨hpos, hneg⟩ := hsorts.agrees v hv w hw hnv hnw n hn
  obtain ⟨hgt_eq, hlt_eq⟩ := h.gt_lt_cells (l := l) hv hw hnv hnw
  refine hiff.1 ⟨?_, ?_⟩
  · rw [hneg, hlt_eq]
    split_ifs with hplace <;> simp [hplace]
  · rw [hpos, hgt_eq]
    split_ifs with hplace <;> simp [hplace]

end Column

/-- Two columns and three rows, the cells of the first column at most `2 ^ 31 - 1` apart. -/
def fewNumbers : Table where
  m_meta := [⟨[], [], 0, sdVT_INT⟩, ⟨[], [], 0, sdVT_BSTR⟩]
  m_vRow := [[.int 7, .null], [.null, .string [97]], [.int (-2147483640), .null]]
  m_bFieldNameCaseSensitive := false
  m_bDataCaseSensitive := false

theorem fewNumbers_sorts :
    fewNumbers.Sorts plainLibrary 0 ↔
      ∀ v ∈ fewNumbers.cells 0, ∀ w ∈ fewNumbers.cells 0, Subtractable v w :=
  have hcolumn : fewNumbers.Column 0 .int := ⟨by decide, by decide, by decide, by decide⟩
  sort_by_subtraction_iff hcolumn

/-- A number more than `2 ^ 31 - 1` above another one. -/
def farNumbers : Table where
  m_meta := [⟨[], [], 0, sdVT_INT⟩]
  m_vRow := [[.int 2147483647], [.int (-1)]]
  m_bFieldNameCaseSensitive := false
  m_bDataCaseSensitive := false

/-- The larger one compares as the smaller one. -/
theorem farNumbers_not_sorted :
    farNumbers.Column 0 .int ∧ ¬ farNumbers.Sorts plainLibrary 0 := by
  refine ⟨⟨by decide, by decide, by decide, by decide⟩, fun hsorts ↦ ?_⟩
  have hagrees := hsorts.agrees (.int 2147483647) (by decide) (.int (-1)) (by decide) (by decide)
    (by decide) (-2147483648) (by decide)
  exact absurd (hagrees.1.2 (by decide)) (by decide)

end SocketPro.Java
