import Mathlib.Algebra.BigOperators.Group.List.Basic
import Mathlib.Algebra.GroupWithZero.Nat
import Mathlib.Algebra.Order.Monoid.Unbundled.Basic
import Mathlib.Tactic.TypeStar

/-!
# Computations that keep a log

A `Logged ε α` may fail, and in either case leaves the list of what happened on the way. What it
computes is an `Option` (`result_bind`), and the log of a sequence is the log of its parts.

**Paying for the log.** `Paid w size n m` says that the entries of the log weigh at most `n`
together, and that on success `size` of the result is left of the `n`. A reader of a text pays with
the units that it consumes: `Paid.bind` goes on with what is left.
-/

namespace Machine

universe u v

/-- A computation that may fail, and what happened on the way. -/
structure Logged (ε : Type u) (α : Type v) where
  log : List ε
  result : Option α

variable {ε : Type u} {α β : Type v}

namespace Logged

/-- Do `f` with the result. -/
def andThen (m : Logged ε α) (f : α → Logged ε β) : Logged ε β :=
  match m.result with
  | none => ⟨m.log, none⟩
  | some a => ⟨m.log ++ (f a).log, (f a).result⟩

instance : Monad (Logged ε) where
  pure a := ⟨[], some a⟩
  bind m f := m.andThen f

/-- Give up. -/
def fail : Logged ε α := ⟨[], none⟩

/-- Leave an entry. -/
def tell (e : ε) : Logged ε PUnit := ⟨[e], some ⟨⟩⟩

@[simp] theorem log_pure (a : α) : (pure a : Logged ε α).log = [] := rfl

/-- **The log does not matter to the result.** -/
@[simp] theorem result_bind (m : Logged ε α) (f : α → Logged ε β) :
    (m >>= f).result = m.result.bind fun a ↦ (f a).result := by
  show (m.andThen f).result = _
  rw [andThen]
  cases m.result <;> rfl

theorem tell_bind (e : ε) (f : PUnit → Logged ε β) :
    (tell e >>= f) = ⟨e :: (f ⟨⟩).log, (f ⟨⟩).result⟩ := rfl

/-! ### Paying -/

/-- The entries weigh at most `n`, and on success `size` of the result is left of the `n`. -/
def Paid (w : ε → ℕ) (size : α → ℕ) (n : ℕ) (m : Logged ε α) : Prop :=
  (m.log.map w).sum ≤ n ∧ ∀ a, m.result = some a → (m.log.map w).sum + size a ≤ n

variable {w : ε → ℕ} {size : α → ℕ} {size' : β → ℕ} {n n' : ℕ} {m : Logged ε α}

namespace Paid

theorem mono (h : Paid w size n m) (hn : n ≤ n') : Paid w size n' m :=
  ⟨h.1.trans hn, fun a ha ↦ (h.2 a ha).trans hn⟩

theorem pure {a : α} (ha : size a ≤ n) : Paid w size n (pure a : Logged ε α) :=
  ⟨Nat.zero_le _, fun b hb ↦ by
    obtain rfl := Option.some.inj hb
    simpa using ha⟩

theorem fail : Paid w size n (fail : Logged ε α) :=
  ⟨Nat.zero_le _, fun _ ha ↦ nomatch ha⟩

/-- **A sequence pays with what its first part leaves.** -/
theorem bind {f : α → Logged ε β} (hm : Paid w size n m)
    (hf : ∀ a, m.result = some a → Paid w size' (size a) (f a)) :
    Paid w size' n (m >>= f) := by
  show Paid w size' n (m.andThen f)
  rw [andThen]
  cases hresult : m.result with
  | none => exact ⟨hm.1, fun b hb ↦ nomatch hb⟩
  | some a =>
    obtain ⟨hlog, hleft⟩ := hf a hresult
    have hcost := hm.2 a hresult
    refine ⟨?_, fun b hb ↦ ?_⟩
    · rw [List.map_append, List.sum_append]
      omega
    · have := hleft b hb
      rw [List.map_append, List.sum_append]
      omega

/-- An entry is paid for first. -/
theorem tell {e : ε} {f : PUnit → Logged ε β} (hf : Paid w size' n (f ⟨⟩)) :
    Paid w size' (n + w e) (tell e >>= f) := by
  rw [tell_bind]
  refine ⟨?_, fun b hb ↦ ?_⟩
  · have := hf.1
    rw [List.map_cons, List.sum_cons]
    omega
  · have := hf.2 b hb
    rw [List.map_cons, List.sum_cons]
    omega

end Paid

end Logged

end Machine
