import Mathlib.Data.List.Basic
import Mathlib.Tactic.TypeStar

/-!
# Runs of a partial step function

A machine here is nothing but a step function `σ → α → Option σ`: in a state it accepts an action
and yields the next state, or the action is not enabled and it yields `none`. Everything is
executable, so a run on concrete actions can be evaluated.

Two notions carry the developments built on top:

* `run step s as` performs the actions `as` one after the other;
* `Within step C s as` says that every action of that run is taken in a state where `C` holds. The
  condition `C` is about the state *before* the step and the action, never about what the step
  produces.

**The one induction.** `invariant_of_within` is the only place where an induction over runs is
carried out for an invariant: what one step preserves under `C`, a whole run within `C` preserves.
`exists_first_leave` is its counterpart for the other direction: a run that is not within `C` has a
first action that leaves it.
-/

namespace Machine

variable {σ α : Type*}

/-- Perform a list of actions, failing as soon as one of them is not enabled. -/
def run (step : σ → α → Option σ) : σ → List α → Option σ
  | s, [] => some s
  | s, a :: as =>
    match step s a with
    | some t => run step t as
    | none => none

/-- Every action of the run is taken in a state where `C` holds. -/
def Within (step : σ → α → Option σ) (C : σ → α → Prop) : σ → List α → Prop
  | _, [] => True
  | s, a :: as => C s a ∧ match step s a with
    | some t => Within step C t as
    | none => True

variable {step : σ → α → Option σ} {C : σ → α → Prop}

/-- Staying within a decidable condition is decidable: it is read off the run itself. -/
instance decidableWithin [∀ s a, Decidable (C s a)] :
    ∀ (s : σ) (as : List α), Decidable (Within step C s as)
  | _, [] => .isTrue trivial
  | s, a :: as =>
    match h : step s a with
    | some t =>
      haveI := decidableWithin t as
      decidable_of_iff (C s a ∧ Within step C t as) (by simp [Within, h])
    | none => decidable_of_iff (C s a) (by simp [Within, h])

@[simp] theorem run_nil (s : σ) : run step s [] = some s := rfl

theorem run_cons {s u : σ} {a : α} {as : List α} :
    run step s (a :: as) = some u ↔ ∃ t, step s a = some t ∧ run step t as = some u := by
  simp only [run]
  cases step s a <;> simp

theorem within_cons {s t : σ} {a : α} {as : List α} (h : step s a = some t) :
    Within step C s (a :: as) ↔ C s a ∧ Within step C t as := by
  simp [Within, h]

/-! ### The run lemmas -/

/-- **What one step preserves, a run preserves.** -/
theorem invariant_of_within {I : σ → Prop}
    (hstep : ∀ s a t, I s → C s a → step s a = some t → I t) :
    ∀ (as : List α) {s t : σ}, I s → Within step C s as → run step s as = some t → I t := by
  intro as
  induction as with
  | nil =>
    intro s t hs _ hrun
    obtain rfl : s = t := by simpa using hrun
    exact hs
  | cons a as ih =>
    intro s t hs hin hrun
    obtain ⟨u, hu, hrun⟩ := run_cons.1 hrun
    obtain ⟨hC, hin⟩ := (within_cons hu).1 hin
    exact ih (hstep s a u hs hC hu) hin hrun

/-- Two runs one after the other. -/
theorem run_append (as bs : List α) {s u : σ} :
    run step s (as ++ bs) = some u ↔ ∃ t, run step s as = some t ∧ run step t bs = some u := by
  induction as generalizing s with
  | nil => simp
  | cons a as ih =>
    rw [List.cons_append, run_cons]
    constructor
    · rintro ⟨t, ht, hrun⟩
      obtain ⟨v, hv, hu⟩ := ih.1 hrun
      exact ⟨v, run_cons.2 ⟨t, ht, hv⟩, hu⟩
    · rintro ⟨v, hv, hu⟩
      obtain ⟨t, ht, hrun⟩ := run_cons.1 hv
      exact ⟨t, ht, ih.2 ⟨v, hrun, hu⟩⟩

theorem within_append (as bs : List α) {s t : σ} (h : Within step C s (as ++ bs))
    (hrun : run step s as = some t) : Within step C t bs := by
  induction as generalizing s with
  | nil =>
    obtain rfl : s = t := by simpa using hrun
    exact h
  | cons a as ih =>
    obtain ⟨u, hu, hrun⟩ := run_cons.1 hrun
    exact ih ((within_cons hu).1 h).2 hrun

theorem within_left (as bs : List α) {s : σ} (h : Within step C s (as ++ bs)) :
    Within step C s as := by
  induction as generalizing s with
  | nil => trivial
  | cons a as ih =>
    refine ⟨h.1, ?_⟩
    have hrest := h.2
    cases hs : step s a with
    | none => trivial
    | some t =>
      rw [List.append_eq, hs] at hrest
      exact ih hrest

/-! ### Runs that come to an end

`Leads` is about runs that can be carried through as long as they are within the condition. -/

/-- Within `C`, the actions can be performed and lead to a state in `Q`. -/
def Leads (step : σ → α → Option σ) (C : σ → α → Prop) (s : σ) (as : List α) (Q : σ → Prop) : Prop :=
  Within step C s as → ∃ t, run step s as = some t ∧ Q t

section Leads

variable {s : σ} {as bs : List α} {Q R : σ → Prop}

theorem Leads.nil (h : Q s) : Leads step C s [] Q := fun _ ↦ ⟨s, rfl, h⟩

theorem Leads.single {a : α} (h : C s a → ∃ t, step s a = some t ∧ Q t) :
    Leads step C s [a] Q := fun hin ↦ by
  obtain ⟨t, ht, hQ⟩ := h hin.1
  exact ⟨t, run_cons.2 ⟨t, ht, rfl⟩, hQ⟩

theorem Leads.mono (h : Leads step C s as Q) (hQ : ∀ t, Q t → R t) : Leads step C s as R :=
  fun hin ↦ by
    obtain ⟨t, ht, hq⟩ := h hin
    exact ⟨t, ht, hQ t hq⟩

/-- **One after the other.** -/
theorem Leads.append (h : Leads step C s as Q) (h' : ∀ t, Q t → Leads step C t bs R) :
    Leads step C s (as ++ bs) R := fun hin ↦ by
  obtain ⟨t, ht, hQ⟩ := h (within_left as bs hin)
  obtain ⟨u, hu, hR⟩ := h' t hQ (within_append as bs hin ht)
  exact ⟨u, (run_append as bs).2 ⟨t, ht, hu⟩, hR⟩

theorem Leads.cons {a : α} (h : C s a → ∃ t, step s a = some t ∧ Q t)
    (h' : ∀ t, Q t → Leads step C t as R) : Leads step C s (a :: as) R :=
  (Leads.single h).append h'

end Leads

/-- **A run that leaves `C` leaves it for a first time.** Up to that action it is within `C`. -/
theorem exists_first_leave :
    ∀ (as : List α) {s t : σ}, run step s as = some t → ¬ Within step C s as →
      ∃ as₁ a as₂ u v, as = as₁ ++ a :: as₂ ∧ run step s as₁ = some u ∧ Within step C s as₁ ∧
        ¬ C u a ∧ step u a = some v ∧ run step v as₂ = some t := by
  intro as
  induction as with
  | nil =>
    intro s t _ hout
    exact absurd trivial hout
  | cons a as ih =>
    intro s t hrun hout
    obtain ⟨v, hv, hrun⟩ := run_cons.1 hrun
    by_cases hC : C s a
    · have hout' : ¬ Within step C v as := fun h ↦ hout ((within_cons hv).2 ⟨hC, h⟩)
      obtain ⟨as₁, b, as₂, u, w, rfl, hu, hin, hb, hw, hlast⟩ := ih hrun hout'
      exact ⟨a :: as₁, b, as₂, u, w, rfl, run_cons.2 ⟨v, hv, hu⟩,
        (within_cons hv).2 ⟨hC, hin⟩, hb, hw, hlast⟩
    · exact ⟨[], a, as, s, v, rfl, rfl, trivial, hC, hv, hrun⟩

/-- A condition that is about the actions alone. -/
theorem within_of_forall {P : α → Prop} (as : List α) (h : ∀ a ∈ as, P a) (s : σ) :
    Within step (fun _ a ↦ P a) s as := by
  induction as generalizing s with
  | nil => trivial
  | cons a as ih =>
    refine ⟨h a List.mem_cons_self, ?_⟩
    cases step s a with
    | some t => exact ih (fun b hb ↦ h b (List.mem_cons_of_mem _ hb)) t
    | none => trivial

/-- A run of the unconditional machine is within the trivial condition. -/
theorem within_true (as : List α) (s : σ) : Within step (fun _ _ ↦ True) s as :=
  within_of_forall as (fun _ _ ↦ trivial) s

/-- An invariant of every run, with no condition on the steps. -/
theorem invariant_of_run {I : σ → Prop} (hstep : ∀ s a t, I s → step s a = some t → I t)
    (as : List α) {s t : σ} (hs : I s) (hrun : run step s as = some t) : I t :=
  invariant_of_within (C := fun _ _ ↦ True) (fun s a t hs _ ht ↦ hstep s a t hs ht) as hs
    (within_true as s) hrun

/-! ### Simulation -/

/-- **Simulation**: where every step of an abstract machine within `D` can be followed, a run can. -/
theorem run_follows {τ : Type*} {apply : τ → α → τ} {D : τ → α → Prop} {R : σ → τ → Prop}
    (hstep : ∀ s t a, R s t → D t a → ∃ s', step s a = some s' ∧ R s' (apply t a)) :
    ∀ (as : List α) (s : σ) (t : τ), R s t → Within (fun t a ↦ some (apply t a)) D t as →
      ∃ s', run step s as = some s' ∧ R s' (as.foldl apply t) := by
  intro as
  induction as with
  | nil => exact fun s t h _ ↦ ⟨s, rfl, h⟩
  | cons a as ih =>
    intro s t h hin
    obtain ⟨u, hu, hfollows⟩ := hstep s t a h hin.1
    obtain ⟨s', hs', hlast⟩ := ih u (apply t a) hfollows hin.2
    exact ⟨s', run_cons.2 ⟨u, hu, hs'⟩, hlast⟩

end Machine
