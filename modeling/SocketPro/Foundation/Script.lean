import SocketPro.Foundation.Effect

/-!
# Programs over an interface

A `Script` calls the commands of an interface, one after the other, and may go on with what a
command returned. What a command does to a state is said by a `Handler`; one script runs on every
state that the interface has a handler for.

**Simulation.** `perform_agrees`: where the commands of two handlers return the same and keep their
states related, so do all programs. The commands may need a condition on the state they are called
in; `Admits` says that it holds for all that a program calls.
-/

namespace Machine

variable {C : Type} {R : C → Type} {ε σ τ α β : Type}

/-- Code that calls the commands of an interface. -/
inductive Script (C : Type) (R : C → Type) (α : Type) : Type
  | done (a : α)
  | call (c : C) (k : R c → Script C R α)

/-- What each command does. -/
abbrev Handler (C : Type) (R : C → Type) (ε σ : Type) := ∀ c : C, Effect ε σ (R c)

namespace Script

/-- Go on with the result of a program. -/
def andThen : Script C R α → (α → Script C R β) → Script C R β
  | done a, f => f a
  | call c k, f => call c fun r ↦ (k r).andThen f

instance : Monad (Script C R) where
  pure := done
  bind := andThen

/-- Run a program. -/
def perform (H : Handler C R ε σ) : Script C R α → Effect ε σ α
  | done a => pure a
  | call c k => fun s ↦ (H c s).andThen fun r ↦ (k r).perform H

/-- Every command that the program calls is called where the condition holds. -/
def Admits (H : Handler C R ε σ) (Pre : C → σ → Prop) : Script C R α → σ → Prop
  | done _, _ => True
  | call c k, s => Pre c s ∧ match H c s with
    | .ok r s => (k r).Admits H Pre s
    | _ => True

/-- What a program calls is found by running it. -/
instance decidableAdmits {H : Handler C R ε σ} {Pre : C → σ → Prop} [∀ c s, Decidable (Pre c s)] :
    ∀ (p : Script C R α) (s : σ), Decidable (p.Admits H Pre s)
  | done _, _ => .isTrue trivial
  | call c k, s =>
    match h : H c s with
    | .ok r t =>
      haveI : Decidable ((k r).Admits H Pre t) := decidableAdmits (k r) t
      decidable_of_iff (Pre c s ∧ (k r).Admits H Pre t) (by rw [Admits, h])
    | .throw _ _ => decidable_of_iff (Pre c s) (by simp [Admits, h])
    | .fault => decidable_of_iff (Pre c s) (by simp [Admits, h])

/-- The program gets to a command where the condition holds. -/
def Reaches (H : Handler C R ε σ) (At : C → σ → Prop) : Script C R α → σ → Prop
  | done _, _ => False
  | call c k, s => At c s ∨ match H c s with
    | .ok r s => (k r).Reaches H At s
    | _ => False

end Script

/-! ### Simulation -/

/-- Two programs that return or throw the same, in related states. -/
def Outcome.Agree (S : σ → τ → Prop) : Outcome ε σ α → Outcome ε τ α → Prop
  | .ok a s, .ok b t => a = b ∧ S s t
  | .throw e s, .throw e' t => e = e' ∧ S s t
  | _, _ => False

variable {S : σ → τ → Prop} {x : Outcome ε σ α} {y : Outcome ε τ α} {a : α} {e : ε} {t : τ}

theorem Outcome.Agree.of_ok (h : x.Agree S y) (hy : y = .ok a t) : ∃ s, x = .ok a s ∧ S s t := by
  subst hy
  cases x with
  | ok b s =>
    obtain ⟨rfl, hs⟩ := h
    exact ⟨s, rfl, hs⟩
  | throw e s => exact h.elim
  | fault => exact h.elim

theorem Outcome.Agree.of_throw (h : x.Agree S y) (hy : y = .throw e t) :
    ∃ s, x = .throw e s ∧ S s t := by
  subst hy
  cases x with
  | ok b s => exact h.elim
  | throw e s =>
    obtain ⟨rfl, hs⟩ := h
    exact ⟨s, rfl, hs⟩
  | fault => exact h.elim

/-- **What the commands do alike, programs do alike.** -/
theorem Script.perform_agrees {H : Handler C R ε σ} {H' : Handler C R ε τ} {Pre : C → τ → Prop}
    (hcommand : ∀ c s t, S s t → Pre c t → (H c s).Agree S (H' c t)) (p : Script C R α) {s : σ}
    {t : τ} (hS : S s t) (hadmits : p.Admits H' Pre t) :
    (p.perform H s).Agree S (p.perform H' t) := by
  induction p generalizing s t with
  | done a => exact ⟨rfl, hS⟩
  | call c k ih =>
    rw [Admits] at hadmits
    obtain ⟨hpre, hrest⟩ := hadmits
    have hagree := hcommand c s t hS hpre
    show ((H c s).andThen _).Agree S ((H' c t).andThen _)
    cases hy : H' c t with
    | ok r t' =>
      rw [hy] at hrest
      obtain ⟨s', hs', hS'⟩ := hagree.of_ok hy
      rw [hs']
      exact ih r hS' hrest
    | throw e t' =>
      obtain ⟨s', hs', hS'⟩ := hagree.of_throw hy
      rw [hs']
      exact ⟨rfl, hS'⟩
    | fault =>
      rw [hy] at hagree
      cases hx : H c s <;> rw [hx] at hagree <;> exact hagree.elim

/-- What no command throws, no program throws. -/
theorem Script.perform_not_throw {H : Handler C R ε σ} {Bad : ε → Prop}
    (hcommand : ∀ c s e s', H c s = .throw e s' → ¬ Bad e) (p : Script C R α) {s s' : σ}
    (h : p.perform H s = .throw e s') : ¬ Bad e := by
  induction p generalizing s with
  | done a => cases h
  | call c k ih =>
    have hrun : (H c s).andThen (fun r ↦ (k r).perform H) = .throw e s' := h
    cases hc : H c s with
    | ok r t =>
      rw [hc] at hrun
      exact ih r hrun
    | throw e' t =>
      rw [hc] at hrun
      obtain ⟨rfl, rfl⟩ := Outcome.throw.inj hrun
      exact hcommand c s e' t hc
    | fault =>
      rw [hc] at hrun
      cases hrun

/-- A program that gets to a command which throws there does so as well. -/
theorem Script.perform_throw {H : Handler C R ε σ} {At : C → σ → Prop} {Left : σ → Prop}
    (hcommand : ∀ c s, At c s → ∃ s', H c s = .throw e s' ∧ Left s') (p : Script C R α) {s : σ}
    (h : p.Reaches H At s) : ∃ s', p.perform H s = .throw e s' ∧ Left s' := by
  induction p generalizing s with
  | done a => exact h.elim
  | call c k ih =>
    have hrun : (call c k : Script C R α).perform H s =
        (H c s).andThen fun r ↦ (k r).perform H := rfl
    rw [Reaches] at h
    rcases h with hat | hlater
    · obtain ⟨s', hs', hleft⟩ := hcommand c s hat
      rw [hrun, hs']
      exact ⟨s', rfl, hleft⟩
    · cases hc : H c s with
      | ok r t =>
        rw [hc] at hlater
        rw [hrun, hc]
        exact ih r hlater
      | throw e' t =>
        rw [hc] at hlater
        exact hlater.elim
      | fault =>
        rw [hc] at hlater
        exact hlater.elim

end Machine
