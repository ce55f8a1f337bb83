import Mathlib.Tactic.TypeStar

/-!
# Programs over a state that return, throw or go wrong

The C++ member functions modelled later change an object, may throw an exception, and may step
outside the memory they own. An `Effect ε σ α` is such a program: from a state it either returns a
value with a new state, or throws an exception and leaves a state behind, or it is at `fault`.

**Rules.** A caller is verified from what is known of its callees: `bind_ok`, `bind_throw` and
`bind_fault` run a sequence whose first part is known, and `Meets.bind` composes postconditions.
`Meets x s Q F` bounds what `x` can do from `s`: a return satisfies `Q`, a throw is always allowed,
and a fault happens only if `F` holds. `Reports x s Q F` is about programs that return whether they
succeed: those that are `onSuccess` of one another report what the last one does.
-/

namespace Machine

universe u v w

/-- What a program can do from a state. -/
inductive Outcome (ε : Type u) (σ : Type v) (α : Type w) : Type (max u v w)
  | ok (a : α) (s : σ)
  | throw (e : ε) (s : σ)
  | fault
deriving DecidableEq, Repr

/-- A program over states `σ` that returns values in `α` and throws exceptions in `ε`. -/
def Effect (ε : Type u) (σ : Type v) (α : Type w) : Type (max u v w) := σ → Outcome ε σ α

variable {ε : Type u} {σ : Type v} {α β : Type w}

namespace Outcome

/-- Go on with a returned value; an exception or a fault ends the program. -/
def andThen (o : Outcome ε σ α) (f : α → Effect ε σ β) : Outcome ε σ β :=
  match o with
  | ok a s => f a s
  | throw e s => throw e s
  | fault => fault

end Outcome

namespace Effect

instance : Monad (Effect ε σ) where
  pure a := fun s ↦ .ok a s
  bind x f := fun s ↦ (x s).andThen f

/-- The program that throws `e`. -/
def raise (e : ε) : Effect ε σ α := fun s ↦ .throw e s

/-- The program that goes wrong unless `b`. -/
def guard (b : Bool) : Effect ε σ PUnit := fun s ↦ bif b then .ok ⟨⟩ s else .fault

@[simp] theorem pure_apply (a : α) (s : σ) : (pure a : Effect ε σ α) s = .ok a s := rfl

@[simp] theorem raise_apply (e : ε) (s : σ) : (raise e : Effect ε σ α) s = .throw e s := rfl

@[simp] theorem guard_true (s : σ) : (guard true : Effect ε σ PUnit) s = .ok ⟨⟩ s := rfl

@[simp] theorem guard_false (s : σ) : (guard false : Effect ε σ PUnit) s = .fault := rfl

theorem bind_apply (x : Effect ε σ α) (f : α → Effect ε σ β) (s : σ) :
    (x >>= f) s = (x s).andThen f := rfl

section Bind

variable {x : Effect ε σ α} {f : α → Effect ε σ β} {s t : σ} {a : α} {e : ε}

theorem bind_ok (h : x s = .ok a t) : (x >>= f) s = f a t := by
  rw [bind_apply, h]
  rfl

theorem bind_throw (h : x s = .throw e t) : (x >>= f) s = .throw e t := by
  rw [bind_apply, h]
  rfl

theorem bind_fault (h : x s = .fault) : (x >>= f) s = .fault := by
  rw [bind_apply, h]
  rfl

/-- A sequence that returns: both parts do. -/
theorem bind_eq_ok {b : β} : (x >>= f) s = .ok b t ↔ ∃ a u, x s = .ok a u ∧ f a u = .ok b t := by
  constructor
  · intro h
    rw [bind_apply] at h
    cases hx : x s with
    | ok a u =>
      rw [hx] at h
      exact ⟨a, u, rfl, h⟩
    | throw e u =>
      rw [hx] at h
      cases h
    | fault =>
      rw [hx] at h
      cases h
  · rintro ⟨a, u, hx, hf⟩
    rw [bind_ok hx, hf]

end Bind

/-- From `s`, the program returns only what `Q` allows and is at fault only if `F`. -/
def Meets (x : Effect ε σ α) (s : σ) (Q : α → σ → Prop) (F : Prop) : Prop :=
  match x s with
  | .ok a t => Q a t
  | .throw _ _ => True
  | .fault => F

section Meets

variable {x : Effect ε σ α} {s t : σ} {a : α} {e : ε} {Q R : α → σ → Prop} {F G : Prop}

/-- What is known of a program can be evaluated. -/
instance decidableMeets [∀ a t, Decidable (Q a t)] [Decidable F] : Decidable (Meets x s Q F) :=
  match h : x s with
  | .ok a t => decidable_of_iff (Q a t) (by rw [Meets, h])
  | .throw _ _ => .isTrue (by rw [Meets, h]; trivial)
  | .fault => decidable_of_iff F (by rw [Meets, h])

theorem Meets.of_ok (h : x s = .ok a t) (hQ : Q a t) : Meets x s Q F := by
  unfold Meets
  rw [h]
  exact hQ

theorem Meets.of_throw (h : x s = .throw e t) : Meets x s Q F := by
  unfold Meets
  rw [h]
  trivial

theorem Meets.of_fault (h : x s = .fault) (hF : F) : Meets x s Q F := by
  unfold Meets
  rw [h]
  exact hF

theorem Meets.ok (h : Meets x s Q F) (hx : x s = .ok a t) : Q a t := by
  unfold Meets at h
  rw [hx] at h
  exact h

theorem Meets.fault (h : Meets x s Q F) (hx : x s = .fault) : F := by
  unfold Meets at h
  rw [hx] at h
  exact h

/-- Weaker demands are met as well. -/
theorem Meets.mono (h : Meets x s Q F) (hQ : ∀ a t, Q a t → R a t) (hF : F → G) :
    Meets x s R G := by
  cases hx : x s with
  | ok a t => exact .of_ok hx (hQ a t (h.ok hx))
  | throw e t => exact .of_throw hx
  | fault => exact .of_fault hx (hF (h.fault hx))

/-- **Sequencing.** What the second part does from each state the first part may return in. -/
theorem Meets.bind {f : α → Effect ε σ β} {P : β → σ → Prop} (h : Meets x s Q F)
    (hf : ∀ a t, Q a t → Meets (f a) t P F) : Meets (x >>= f) s P F := by
  cases hx : x s with
  | ok a t =>
    have hfa := hf a t (h.ok hx)
    unfold Meets at hfa ⊢
    rw [bind_ok hx]
    exact hfa
  | throw e t => exact .of_throw (bind_throw hx)
  | fault => exact .of_fault (bind_fault hx) (h.fault hx)

/-- A program whose outcome is known up to the returned value. -/
theorem Meets.pure (hQ : Q a s) : Meets (pure a : Effect ε σ α) s Q F := .of_ok rfl hQ

theorem Meets.raise : Meets (raise e : Effect ε σ α) s Q F := .of_throw rfl

end Meets

section Reports

/-- Go on if the first part reports success, and report its failure otherwise. -/
def onSuccess (x y : Effect ε σ Bool) : Effect ε σ Bool :=
  x >>= fun b ↦ if b = true then y else pure false

/-- From `s`, the program returns: with `true` in a state that satisfies `Q`, and with `false` only
if `F`. -/
def Reports (x : Effect ε σ Bool) (s : σ) (Q : σ → Prop) (F : Prop) : Prop :=
  ∃ b t, x s = .ok b t ∧ (b = true → Q t) ∧ (b = false → F)

variable {γ : Type} {x y : Effect ε σ Bool} {z : Effect ε σ γ} {f : γ → Effect ε σ Bool} {s t : σ}
  {c : γ} {Q R : σ → Prop} {F : Prop}

theorem Reports.of_true (h : x s = .ok true t) (hQ : Q t) : Reports x s Q F :=
  ⟨true, t, h, fun _ ↦ hQ, fun hfalse ↦ absurd hfalse (by decide)⟩

theorem Reports.of_false (h : x s = .ok false t) (hF : F) : Reports x s Q F :=
  ⟨false, t, h, fun htrue ↦ absurd htrue (by decide), fun _ ↦ hF⟩

theorem Reports.mono (h : Reports x s Q F) (hQ : ∀ t, Q t → R t) : Reports x s R F := by
  obtain ⟨b, t, hx, htrue, hfalse⟩ := h
  exact ⟨b, t, hx, fun hb ↦ hQ t (htrue hb), hfalse⟩

/-- A branch of the program. -/
theorem Reports.of_eq (heq : x s = y s) (h : Reports y s Q F) : Reports x s Q F := by
  rw [Reports, heq]
  exact h

/-- A first part of which is known that it returns. -/
theorem Reports.bind_ok (hz : z s = .ok c t) (hf : Reports (f c) t Q F) :
    Reports (z >>= f) s Q F := by
  obtain ⟨b, u, hx, hrest⟩ := hf
  refine ⟨b, u, ?_, hrest⟩
  rw [bind_apply, hz]
  exact hx

/-- **One after the other**, until one fails. -/
theorem Reports.onSuccess (hx : Reports x s Q F) (hy : ∀ t, Q t → Reports y t R F) :
    Reports (x.onSuccess y) s R F := by
  obtain ⟨b, t, hxs, htrue, hfalse⟩ := hx
  cases b with
  | true =>
    obtain ⟨c, u, hyt, hrest⟩ := hy t (htrue rfl)
    refine ⟨c, u, ?_, hrest⟩
    rw [Effect.onSuccess, Effect.bind_ok hxs, if_pos rfl, hyt]
  | false =>
    refine .of_false (t := t) ?_ (hfalse rfl)
    rw [Effect.onSuccess, Effect.bind_ok hxs, if_neg Bool.false_ne_true, pure_apply]

end Reports

end Effect

end Machine
