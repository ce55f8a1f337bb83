import Mathlib.Data.List.Basic
import Mathlib.Order.Lattice

/-!
# Scans that keep a running best

A scan goes through a list and keeps one element; `prefers h x` says that it drops `h` for `x`.

When the preference follows a key, the element that is kept has the least key (`scan_le`), whatever
the order of the list. A preference that is not transitive gives no such rule. What holds of every
preference is that the element kept at some place either stays to the end, because none of those
behind it is preferred to it, or is lost to one of them for good (`scan_from`).
-/

namespace Scan

variable {α : Type*} (prefers : α → α → Bool)

/-- One round. -/
def keep : Option α → α → Option α
  | none, x => some x
  | some h, x => if prefers h x then some x else some h

/-- The scan, with what is kept at its start. -/
def scanFrom (h : Option α) (l : List α) : Option α := l.foldl (keep prefers) h

/-- The scan. -/
def scan (l : List α) : Option α := scanFrom prefers none l

variable {prefers} {l : List α} {h x r : α}

theorem scanFrom_append (o : Option α) (l₁ l₂ : List α) :
    scanFrom prefers o (l₁ ++ l₂) = scanFrom prefers (scanFrom prefers o l₁) l₂ :=
  List.foldl_append

theorem scanFrom_cons (o : Option α) (x : α) (l : List α) :
    scanFrom prefers o (x :: l) = scanFrom prefers (keep prefers o x) l := rfl

/-- From an element on, the scan has one. -/
theorem scan_from (h : α) (l : List α) :
    (scanFrom prefers (some h) l = some h ∧ ∀ x ∈ l, prefers h x = false) ∨
      ∃ r ∈ l, scanFrom prefers (some h) l = some r := by
  induction l generalizing h with
  | nil => exact .inl ⟨rfl, fun x hx ↦ absurd hx List.not_mem_nil⟩
  | cons x l ih =>
    rw [scanFrom_cons, keep]
    split
    · right
      rcases ih x with ⟨hstays, -⟩ | ⟨r, hr, hkept⟩
      · exact ⟨x, List.mem_cons_self, hstays⟩
      · exact ⟨r, List.mem_cons_of_mem _ hr, hkept⟩
    · next hnot =>
      rcases ih h with ⟨hstays, hnone⟩ | ⟨r, hr, hkept⟩
      · refine .inl ⟨hstays, fun y hy ↦ ?_⟩
        rcases List.mem_cons.1 hy with rfl | hy
        · exact Bool.eq_false_iff.2 hnot
        · exact hnone y hy
      · exact .inr ⟨r, List.mem_cons_of_mem _ hr, hkept⟩

/-- An element to which none of those behind it is preferred stays. -/
theorem scanFrom_of_forall (hnone : ∀ x ∈ l, prefers h x = false) :
    scanFrom prefers (some h) l = some h := by
  induction l with
  | nil => rfl
  | cons x l ih =>
    rw [scanFrom_cons, keep, hnone x List.mem_cons_self]
    exact ih fun y hy ↦ hnone y (List.mem_cons_of_mem _ hy)

theorem scan_cons (x : α) (l : List α) : scan prefers (x :: l) = scanFrom prefers (some x) l := rfl

/-- What is kept at the end is in the list. -/
theorem mem_of_scan (hr : scan prefers l = some r) : r ∈ l := by
  cases l with
  | nil => exact nomatch hr
  | cons x l =>
    rw [scan_cons] at hr
    rcases scan_from x l with ⟨hstays, -⟩ | ⟨y, hy, hkept⟩
    · rw [Option.some.inj (hr.symm.trans hstays)]
      exact List.mem_cons_self
    · rw [Option.some.inj (hr.symm.trans hkept)]
      exact List.mem_cons_of_mem _ hy

/-- Nothing is kept of an empty list only. -/
theorem scan_eq_none_iff : scan prefers l = none ↔ l = [] := by
  constructor
  · intro hnone
    cases l with
    | nil => rfl
    | cons x l =>
      rw [scan_cons] at hnone
      rcases scan_from x l with ⟨hstays, -⟩ | ⟨y, -, hkept⟩
      · exact nomatch hnone.symm.trans hstays
      · exact nomatch hnone.symm.trans hkept
  · rintro rfl
    rfl

/-- A preference that follows a key on the elements of the list. -/
def Follows {β : Type*} [LinearOrder β] (prefers : α → α → Bool) (key : α → β) (l : List α) : Prop :=
  ∀ h ∈ l, ∀ x ∈ l, if prefers h x then key x ≤ key h else key h ≤ key x

theorem scanFrom_le {β : Type*} [LinearOrder β] {key : α → β}
    (hfollows : Follows prefers key (h :: l)) (hr : scanFrom prefers (some h) l = some r) :
    ∀ y ∈ h :: l, key r ≤ key y := by
  induction l generalizing h with
  | nil =>
    intro y hy
    rw [List.mem_singleton.1 hy, ← Option.some.inj hr]
  | cons x l ih =>
    have hstep := hfollows h List.mem_cons_self x (List.mem_cons_of_mem _ List.mem_cons_self)
    rw [scanFrom_cons, keep] at hr
    intro y hy
    split at hr
    · next hpref =>
      rw [if_pos hpref] at hstep
      have hall := ih (fun a ha b hb ↦ hfollows a (List.mem_cons_of_mem _ ha) b
        (List.mem_cons_of_mem _ hb)) hr
      rcases List.mem_cons.1 hy with rfl | hy
      · exact le_trans (hall x List.mem_cons_self) hstep
      · exact hall y hy
    · next hpref =>
      rw [if_neg hpref] at hstep
      have hsub {a : α} (ha : a ∈ h :: l) : a ∈ h :: x :: l := by
        rcases List.mem_cons.1 ha with rfl | ha
        · exact List.mem_cons_self
        · exact List.mem_cons_of_mem _ (List.mem_cons_of_mem _ ha)
      have hall := ih (fun a ha b hb ↦ hfollows a (hsub ha) b (hsub hb)) hr
      rcases List.mem_cons.1 hy with rfl | hy
      · exact hall y List.mem_cons_self
      rcases List.mem_cons.1 hy with rfl | hy
      · exact le_trans (hall h List.mem_cons_self) hstep
      · exact hall y (List.mem_cons_of_mem _ hy)

/-- **The least key is kept** by a preference that follows it. -/
theorem scan_le {β : Type*} [LinearOrder β] {key : α → β} (hfollows : Follows prefers key l)
    (hr : scan prefers l = some r) : ∀ y ∈ l, key r ≤ key y := by
  cases l with
  | nil => exact fun y hy ↦ absurd hy List.not_mem_nil
  | cons x l => exact scanFrom_le hfollows hr

/-- The last element of a kind. -/
theorem exists_last {p : α → Prop} (hex : ∃ x ∈ l, p x) :
    ∃ front e back, l = front ++ e :: back ∧ p e ∧ ∀ x ∈ back, ¬ p x := by
  induction l with
  | nil =>
    obtain ⟨x, hx, -⟩ := hex
    exact absurd hx List.not_mem_nil
  | cons y l ih =>
    by_cases hlater : ∃ x ∈ l, p x
    · obtain ⟨front, e, back, rfl, he, hnone⟩ := ih hlater
      exact ⟨y :: front, e, back, rfl, he, hnone⟩
    · obtain ⟨x, hx, hp⟩ := hex
      rcases List.mem_cons.1 hx with rfl | hx
      · exact ⟨[], x, l, rfl, hp, fun z hz hpz ↦ hlater ⟨z, hz, hpz⟩⟩
      · exact absurd ⟨x, hx, hp⟩ hlater

end Scan
