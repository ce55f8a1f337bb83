import SocketPro.Foundation.Run

/-!
# Runs with results, and simulation

A component whose operations return something is a step function `σ → α → Option (β × σ)`: `none` is
a step that goes wrong. `trace` performs operations and collects what they return.

What the component is for is said by a relation `Spec t a b t'` on states of another kind: from `t`,
operation `a` may return `b` and leave `t'`; `Steps` is its closure over lists of operations.

**Simulation.** `trace_simulates`: where related states stay related, the traces of the component
that stay within a condition do not go wrong, and return what the specification allows.
-/

namespace Machine

variable {σ τ α β : Type*}

/-- Perform operations one after the other and collect what they return. -/
def trace (step : σ → α → Option (β × σ)) : σ → List α → Option (List β × σ)
  | s, [] => some ([], s)
  | s, a :: as =>
    match step s a with
    | none => none
    | some (b, s) =>
      match trace step s as with
      | none => none
      | some (bs, s) => some (b :: bs, s)

/-- The step function without its results. -/
def next (step : σ → α → Option (β × σ)) (s : σ) (a : α) : Option σ := (step s a).map Prod.snd

/-- A list of operations with their results, each allowed by `Spec`. -/
inductive Steps (Spec : τ → α → β → τ → Prop) : τ → List α → List β → τ → Prop
  | nil {t : τ} : Steps Spec t [] [] t
  | cons {t u v : τ} {a : α} {as : List α} {b : β} {bs : List β} :
      Spec t a b u → Steps Spec u as bs v → Steps Spec t (a :: as) (b :: bs) v

variable {step : σ → α → Option (β × σ)} {C : σ → α → Prop} {R : σ → τ → Prop}
  {Spec : τ → α → β → τ → Prop}

theorem trace_cons {s s' s'' : σ} {a : α} {as : List α} {b : β} {bs : List β}
    (h : step s a = some (b, s')) (hs : trace step s' as = some (bs, s'')) :
    trace step s (a :: as) = some (b :: bs, s'') := by
  rw [trace, h]
  show (match trace step s' as with
    | none => none
    | some (bs, s) => some (b :: bs, s)) = _
  rw [hs]

/-- **Simulation.** -/
theorem trace_simulates (hsim : ∀ s t a, R s t → C s a →
      ∃ b s' t', step s a = some (b, s') ∧ Spec t a b t' ∧ R s' t') :
    ∀ (as : List α) {s : σ} {t : τ}, R s t → Within (next step) C s as →
      ∃ bs s' t', trace step s as = some (bs, s') ∧ Steps Spec t as bs t' ∧ R s' t' := by
  intro as
  induction as with
  | nil =>
    intro s t hR _
    exact ⟨[], s, t, rfl, .nil, hR⟩
  | cons a as ih =>
    intro s t hR hin
    obtain ⟨b, s', t', hs', ht', hR'⟩ := hsim s t a hR hin.1
    have hnext : next step s a = some s' := by rw [next, hs', Option.map_some]
    obtain ⟨bs, s'', t'', hs'', ht'', hR''⟩ := ih hR' ((within_cons hnext).1 hin).2
    exact ⟨b :: bs, s'', t'', trace_cons hs' hs'', .cons ht' ht'', hR''⟩

/-- Steps of a component are a trace of it. -/
theorem trace_of_steps {s s' : σ} {as : List α} {bs : List β}
    (h : Steps (fun s a b s' ↦ step s a = some (b, s')) s as bs s') :
    trace step s as = some (bs, s') := by
  induction h with
  | nil => rfl
  | cons hstep _ ih => exact trace_cons hstep ih

/-- Every result of a trace is that of a step. -/
theorem exists_step_of_mem_trace {b : β} {bs : List β} {s s' : σ} {as : List α}
    (h : trace step s as = some (bs, s')) (hb : b ∈ bs) :
    ∃ t a t', step t a = some (b, t') := by
  induction as generalizing s bs with
  | nil =>
    cases h
    cases hb
  | cons a as ih =>
    rw [trace] at h
    cases hstep : step s a with
    | none =>
      rw [hstep] at h
      cases h
    | some r =>
      rw [hstep] at h
      cases hrest : trace step r.2 as with
      | none => simp only [hrest, reduceCtorEq] at h
      | some r' =>
        simp only [hrest, Option.some.injEq, Prod.mk.injEq] at h
        obtain ⟨rfl, rfl⟩ := h
        rcases List.mem_cons.1 hb with rfl | hb
        · exact ⟨s, a, r.2, hstep⟩
        · exact ih hrest hb

/-! ### Specifications that are functions -/

/-- The results of a total step function. -/
def collect (f : τ → α → β × τ) : τ → List α → List β × τ
  | t, [] => ([], t)
  | t, a :: as => ((f t a).1 :: (collect f (f t a).2 as).1, (collect f (f t a).2 as).2)

theorem collect_of_steps {f : τ → α → β × τ} {t t' : τ} {as : List α} {bs : List β}
    (h : Steps (fun t a b t' ↦ f t a = (b, t')) t as bs t') : collect f t as = (bs, t') := by
  induction h with
  | nil => rfl
  | cons hf _ ih => rw [collect, hf, ih]

/-- Simulation of a function, with no condition on the operations. -/
theorem trace_eq_collect {f : τ → α → β × τ}
    (hsim : ∀ s t a, R s t → ∃ s', step s a = some ((f t a).1, s') ∧ R s' (f t a).2)
    (as : List α) {s : σ} {t : τ} (hR : R s t) :
    ∃ s', trace step s as = some ((collect f t as).1, s') ∧ R s' (collect f t as).2 := by
  have hspec : ∀ s t a, R s t → True →
      ∃ b s' t', step s a = some (b, s') ∧ f t a = (b, t') ∧ R s' t' := fun s t a hR _ ↦ by
    obtain ⟨s', hs', hR'⟩ := hsim s t a hR
    exact ⟨_, s', _, hs', rfl, hR'⟩
  obtain ⟨bs, s', t', hs', ht', hR'⟩ := trace_simulates hspec as hR (within_true as s)
  rw [collect_of_steps ht']
  exact ⟨s', hs', hR'⟩

end Machine
