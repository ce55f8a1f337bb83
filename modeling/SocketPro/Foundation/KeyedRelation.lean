import Mathlib.Data.Multiset.Filter

/-!
# Relations and tables

A relation is a multiset of rows. A change adds rows, replaces the rows that a predicate selects, or
removes them. In a relation with a key, the key values of a row select exactly that row; `Addressed`
is this property of a change.

A table keeps its rows in a list. It looks for the first row that is selected, and replaces or
removes this one. **Correspondence.** `coe_applyFirst`: after an addressed change the rows of the
table are those of the relation.
-/

namespace Keyed

variable {ρ : Type*}

/-- A change of a relation. -/
inductive Change (ρ : Type*)
  | insert (rows : List ρ)
  | replace (selects : ρ → Bool) (row : ρ)
  | remove (selects : ρ → Bool)

/-- The list with the first selected row replaced. -/
def replaceFirst (selects : ρ → Bool) (row : ρ) : List ρ → List ρ
  | [] => []
  | r :: rows => if selects r then row :: rows else r :: replaceFirst selects row rows

namespace Change

/-- The relation after a change. -/
def apply (rel : Multiset ρ) : Change ρ → Multiset ρ
  | insert rows => rel + rows
  | replace selects row => rel.map fun r ↦ if selects r then row else r
  | remove selects => rel.filter fun r ↦ ¬ selects r

/-- The rows of a table after a change. -/
def applyFirst (rows : List ρ) : Change ρ → List ρ
  | insert new => rows ++ new
  | replace selects row => replaceFirst selects row rows
  | remove selects => rows.eraseP selects

/-- A change that looks for a row selects exactly one. -/
def Addressed (rel : Multiset ρ) : Change ρ → Prop
  | insert _ => True
  | replace selects _ => rel.countP (selects ·) = 1
  | remove selects => rel.countP (selects ·) = 1

instance (rel : Multiset ρ) (c : Change ρ) : Decidable (c.Addressed rel) := by
  cases c <;> unfold Addressed <;> infer_instance

end Change

variable {selects : ρ → Bool} {row : ρ} {rows : List ρ}

/-! ### The first row that is selected is the only one -/

theorem eq_map_of_none (h : rows.countP selects = 0) :
    (rows.map fun r ↦ if selects r then row else r) = rows := by
  have hnone := List.countP_eq_zero.1 h
  have hid : (rows.map fun r ↦ if selects r then row else r) = rows.map id :=
    List.map_congr_left fun r hr ↦ if_neg (hnone r hr)
  rw [hid, List.map_id]

theorem replaceFirst_eq_map (h : rows.countP selects = 1) :
    replaceFirst selects row rows = rows.map fun r ↦ if selects r then row else r := by
  induction rows with
  | nil => rfl
  | cons r rows ih =>
    rw [replaceFirst, List.map_cons]
    by_cases hr : selects r
    · rw [List.countP_cons_of_pos hr, Nat.add_eq_right] at h
      rw [if_pos hr, if_pos hr, eq_map_of_none h]
    · rw [List.countP_cons_of_neg hr] at h
      rw [if_neg hr, if_neg hr, ih h]

theorem eraseP_eq_filter (h : rows.countP selects = 1) :
    rows.eraseP selects = rows.filter fun r ↦ ¬ selects r := by
  induction rows with
  | nil => rfl
  | cons r rows ih =>
    by_cases hr : selects r
    · rw [List.countP_cons_of_pos hr, Nat.add_eq_right, List.countP_eq_zero] at h
      have hall : (rows.filter fun r ↦ ¬ selects r) = rows :=
        List.filter_eq_self.2 fun r hr ↦ decide_eq_true (h r hr)
      rw [List.eraseP_cons_of_pos hr, List.filter_cons_of_neg (by simpa using hr), hall]
    · rw [List.countP_cons_of_neg hr] at h
      rw [List.eraseP_cons_of_neg hr, List.filter_cons_of_pos (by simpa using hr), ih h]

/-- The only selected row, and those around it. -/
theorem exists_only_selected (h : rows.countP selects = 1) :
    ∃ before r after, rows = before ++ r :: after ∧ selects r = true ∧
      ∀ x ∈ before, selects x = false := by
  obtain ⟨r, hr, hselects⟩ := List.countP_pos_iff.1 (h ▸ Nat.zero_lt_one)
  obtain ⟨x, before, after, hbefore, hx, hrows, -⟩ := List.exists_of_eraseP hr hselects
  exact ⟨before, x, after, hrows, hx, fun y hy ↦ Bool.eq_false_iff.2 (hbefore y hy)⟩

/-- The first selected row is replaced. -/
theorem replaceFirst_append {before after : List ρ} {r : ρ} (hr : selects r = true)
    (hbefore : ∀ x ∈ before, selects x = false) :
    replaceFirst selects row (before ++ r :: after) = before ++ row :: after := by
  induction before with
  | nil => exact if_pos hr
  | cons x before ih =>
    have hx : selects x = false := hbefore x List.mem_cons_self
    rw [List.cons_append, replaceFirst, if_neg (Bool.eq_false_iff.1 hx),
      ih fun y hy ↦ hbefore y (List.mem_cons_of_mem _ hy)]
    rfl

theorem mem_of_mem_replaceFirst {r : ρ} (h : r ∈ replaceFirst selects row rows) :
    r ∈ rows ∨ r = row := by
  induction rows with
  | nil => cases h
  | cons x rows ih =>
    rw [replaceFirst] at h
    split at h
    · exact (List.mem_cons.1 h).symm.imp_left (List.mem_cons_of_mem _)
    · obtain rfl | h := List.mem_cons.1 h
      · exact .inl List.mem_cons_self
      · exact (ih h).imp_left (List.mem_cons_of_mem _)

/-- The first selected row is removed. -/
theorem eraseP_append {before after : List ρ} {r : ρ} (hr : selects r = true)
    (hbefore : ∀ x ∈ before, selects x = false) :
    (before ++ r :: after).eraseP selects = before ++ after := by
  rw [List.eraseP_append_right _ fun x hx ↦ Bool.eq_false_iff.1 (hbefore x hx),
    List.eraseP_cons_of_pos hr]

theorem coe_countP (selects : ρ → Bool) (rows : List ρ) :
    Multiset.countP (selects ·) (rows : Multiset ρ) = rows.countP selects := by
  rw [Multiset.coe_countP]
  exact List.countP_congr fun r _ ↦ by rw [decide_eq_true_iff]

/-- **After an addressed change** the rows of the table are those of the relation. -/
theorem coe_applyFirst {c : Change ρ} (h : c.Addressed rows) :
    (c.applyFirst rows : Multiset ρ) = c.apply rows := by
  cases c with
  | insert new => exact (Multiset.coe_add rows new).symm
  | replace selects row =>
    have hcount : rows.countP selects = 1 := by rwa [Change.Addressed, coe_countP] at h
    rw [Change.applyFirst, Change.apply, replaceFirst_eq_map hcount, Multiset.map_coe]
  | remove selects =>
    have hcount : rows.countP selects = 1 := by rwa [Change.Addressed, coe_countP] at h
    rw [Change.applyFirst, Change.apply, eraseP_eq_filter hcount, Multiset.filter_coe]

end Keyed
