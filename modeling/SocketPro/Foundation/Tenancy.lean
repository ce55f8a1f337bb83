import Mathlib.Algebra.BigOperators.Group.Multiset.Basic
import Mathlib.Data.Multiset.Range
import Mathlib.Tactic.Abel

/-!
# Tokens handed out and returned

A pool makes tokens, numbered in the order they are made, and hands one to each tenure. A tenure
uses its token at most once and gives it back; the token is then handed to a later tenure.

A `Ledger` records which tenure each token was handed to last, which tenures have given their token
back and which uses were made. The tokens themselves are somewhere in the program: `waiting` tokens
are handed out and not yet used, `spent` ones are handed out and used, `free` ones are back in the
pool. These are multisets, so that a token that is moved from one place of the program to another
leaves them as they are.

**Accounts.** `Ledger.Sound` ties the record to the tokens: every token made is in one place, every
tenure holds one token or has given it back once, and no tenure made two uses. Each operation keeps
it (`Sound.handOut`, `Sound.make`, `Sound.spend`, `Sound.finish`).
-/

namespace Tenancy

/-! ### Tokens in lists

The tokens in a list of calls are those of one call and those of the others. -/

section Lists

variable {α : Type*}

theorem coe_concat (l : List α) (x : α) :
    ((l ++ [x] : List α) : Multiset α) = x ::ₘ (l : Multiset α) := by
  rw [← Multiset.coe_add, add_comm]
  rfl

theorem map_concat (l : List α) (x : α) (f : α → ℕ) :
    ((l ++ [x] : List α) : Multiset α).map f = {f x} + (l : Multiset α).map f := by
  rw [coe_concat, Multiset.map_cons, Multiset.singleton_add]

theorem coe_eq_cons_eraseIdx {l : List α} {i : ℕ} {x : α} (h : l[i]? = some x) :
    (l : Multiset α) = x ::ₘ (l.eraseIdx i : Multiset α) := by
  obtain ⟨hi, rfl⟩ := List.getElem?_eq_some_iff.1 h
  exact Multiset.coe_eq_coe.2 (List.getElem_cons_eraseIdx_perm hi).symm

theorem map_eq_add_eraseIdx {l : List α} {i : ℕ} {x : α} (h : l[i]? = some x)
    (f : α → ℕ) :
    (l : Multiset α).map f = {f x} + (l.eraseIdx i : Multiset α).map f := by
  rw [coe_eq_cons_eraseIdx h, Multiset.map_cons, Multiset.singleton_add]

theorem coe_set {l : List α} {i : ℕ} {x : α} (h : l[i]? = some x) (y : α) :
    (l.set i y : Multiset α) = y ::ₘ (l.eraseIdx i : Multiset α) := by
  obtain ⟨hi, -⟩ := List.getElem?_eq_some_iff.1 h
  exact Multiset.coe_eq_coe.2 (List.set_perm_cons_eraseIdx hi y)

theorem coe_append_singleton (l : List α) (x : α) :
    ((l ++ [x] : List α) : Multiset α) = (l : Multiset α) + {x} := by
  rw [← Multiset.coe_add]
  rfl

theorem coe_eraseIdx {l : List α} {i : ℕ} {x : α} (h : l[i]? = some x) :
    (l : Multiset α) = {x} + (l.eraseIdx i : Multiset α) := by
  rw [coe_eq_cons_eraseIdx h, Multiset.singleton_add]

end Lists

/-! ### Sums over lists

The sum of what several components have, when one or two of them change. -/

section Sums

variable {α M : Type*} [AddCancelCommMonoid M] {l : List α} {i j : ℕ} {x y x' y' : α}

/-- The sum over a list. -/
def sumOf (f : α → M) (l : List α) : M := ((l : Multiset α).map f).sum

theorem sumOf_concat (f : α → M) (l : List α) (x : α) : sumOf f (l ++ [x]) = f x + sumOf f l := by
  rw [sumOf, coe_concat, Multiset.map_cons, Multiset.sum_cons]
  rfl

/-- One element is replaced by another one. -/
theorem sumOf_set_add (f : α → M) (h : l[i]? = some x) (x' : α) :
    sumOf f (l.set i x') + f x = sumOf f l + f x' := by
  rw [sumOf, sumOf, coe_set h, coe_eq_cons_eraseIdx h, Multiset.map_cons, Multiset.sum_cons,
    Multiset.map_cons, Multiset.sum_cons]
  abel

/-- Two elements are replaced by two that have the same together. -/
theorem sumOf_set_set (f : α → M) (hi : l[i]? = some x) (hj : l[j]? = some y) (hne : i ≠ j)
    (heq : f x' + f y' = f x + f y) :
    sumOf f ((l.set j y').set i x') = sumOf f l := by
  have hget : (l.set j y')[i]? = some x := by rw [List.getElem?_set_ne hne.symm, hi]
  have hboth : sumOf f ((l.set j y').set i x') + f x + f y = sumOf f l + (f x' + f y') := by
    rw [sumOf_set_add f hget, add_right_comm, sumOf_set_add f hj]
    abel
  rw [heq, add_assoc] at hboth
  exact add_right_cancel hboth

/-- What one element has is a part of what all have. -/
theorem le_sumOf {β : Type*} {f : α → Multiset β} (hx : x ∈ l) : f x ≤ sumOf f l := by
  obtain ⟨i, hi⟩ := List.mem_iff_getElem?.1 hx
  rw [sumOf, coe_eq_cons_eraseIdx hi, Multiset.map_cons, Multiset.sum_cons]
  exact Multiset.le_add_right _ _

/-- What two elements have is a part of what all have. -/
theorem add_le_sumOf {β : Type*} {f : α → Multiset β} (hi : l[i]? = some x) (hj : l[j]? = some y)
    (hne : i ≠ j) : f x + f y ≤ sumOf f l := by
  have hother : y ∈ l.eraseIdx i := List.mem_eraseIdx_iff_getElem?.2 ⟨j, hne.symm, hj⟩
  rw [sumOf, coe_eq_cons_eraseIdx hi, Multiset.map_cons, Multiset.sum_cons]
  exact add_le_add_right (le_sumOf hother) _

end Sums

/-! ### The ledger -/

variable {ι : Type*}

/-- The record of a pool. `ι` is what a use is recorded as. -/
structure Ledger (ι : Type*) where
  /-- The tenure that a token was handed to last. -/
  tenant : ℕ → ℕ
  /-- The number of tenures so far. -/
  tenures : ℕ
  /-- The tenures that gave their token back, in that order. -/
  ended : List ℕ
  /-- The uses, in the order they were made. -/
  uses : List (ℕ × ι)

namespace Ledger

variable (L : Ledger ι)

/-- A new tenure gets the token. -/
def handOut (token : ℕ) : Ledger ι :=
  { L with tenant := Function.update L.tenant token L.tenures, tenures := L.tenures + 1 }

/-- The tenure holding the token makes a use; `none` when there is nothing to use it for. -/
def use (token : ℕ) (u : Option ι) : Ledger ι :=
  { L with uses := L.uses ++ u.toList.map fun u ↦ (L.tenant token, u) }

/-- The tokens are given back, one after the other. -/
def finish (tokens : List ℕ) : Ledger ι :=
  { L with ended := L.ended ++ tokens.map L.tenant }

/-- **The accounts are right.** `made` tokens were made, and they are where the three multisets say
they are. -/
structure Sound (made : ℕ) (waiting spent free : Multiset ℕ) : Prop where
  /-- Every token is in one place. -/
  tokens : waiting + spent + free = Multiset.range made
  /-- Every tenure holds one token or gave it back, once. -/
  tenures : (waiting + spent).map L.tenant + (L.ended : Multiset ℕ) = Multiset.range L.tenures
  /-- No tenure made two uses. -/
  uses_nodup : (L.uses.map Prod.fst).Nodup
  /-- A tenure that made a use holds a used token or gave it back. -/
  uses_mem : ∀ r ∈ L.uses.map Prod.fst,
    r ∈ spent.map L.tenant + (L.ended : Multiset ℕ)

variable {L} {made token : ℕ} {waiting spent free : Multiset ℕ}

/-! ### What the accounts say -/

theorem Sound.count_tokens (h : L.Sound made waiting spent free) (token : ℕ) :
    (waiting + spent + free).count token = if token < made then 1 else 0 := by
  rw [h.tokens, ← Multiset.coe_range, Multiset.coe_count, List.count_range]

theorem Sound.count_tenures (h : L.Sound made waiting spent free) (r : ℕ) :
    ((waiting + spent).map L.tenant).count r + L.ended.count r =
      if r < L.tenures then 1 else 0 := by
  rw [← Multiset.coe_count, ← Multiset.count_add, h.tenures, ← Multiset.coe_range,
    Multiset.coe_count, List.count_range]

theorem Sound.nodup_tokens (h : L.Sound made waiting spent free) :
    (waiting + spent + free).Nodup :=
  h.tokens ▸ Multiset.nodup_range made

theorem Sound.nodup_tenures (h : L.Sound made waiting spent free) :
    ((waiting + spent).map L.tenant + (L.ended : Multiset ℕ)).Nodup :=
  h.tenures ▸ Multiset.nodup_range L.tenures

/-! ### Handing out a token -/

/-- A token that nobody holds is handed to a new tenure. -/
theorem Sound.handOut_of {made' : ℕ} {free' : Multiset ℕ} (h : L.Sound made waiting spent free)
    (htokens : token ::ₘ (waiting + spent + free') = Multiset.range made')
    (hnew : token ∉ waiting + spent) :
    (L.handOut token).Sound made' (token ::ₘ waiting) spent free' := by
  have hne : ∀ x ∈ waiting + spent, (L.handOut token).tenant x = L.tenant x := by
    rintro x hx
    have hx' : x ≠ token := fun heq ↦ hnew (heq ▸ hx)
    exact Function.update_of_ne hx' _ _
  have hself : (L.handOut token).tenant token = L.tenures := Function.update_self _ _ _
  have hspent : spent.map (L.handOut token).tenant = spent.map L.tenant :=
    Multiset.map_congr rfl fun x hx ↦ hne x (Multiset.mem_add.2 (.inr hx))
  refine ⟨by simpa using htokens, ?_, h.uses_nodup, ?_⟩
  · have hall : (waiting + spent).map (L.handOut token).tenant = (waiting + spent).map L.tenant :=
      Multiset.map_congr rfl hne
    rw [Multiset.cons_add, Multiset.map_cons, hself, hall, Multiset.cons_add]
    exact (congrArg _ h.tenures).trans (Multiset.range_succ _).symm
  · rw [hspent]
    exact h.uses_mem

/-- A token of the pool is handed out. -/
theorem Sound.handOut (h : L.Sound made waiting spent (token ::ₘ free)) :
    (L.handOut token).Sound made (token ::ₘ waiting) spent free := by
  refine h.handOut_of ?_ ?_
  · rw [← h.tokens, Multiset.add_cons]
  · have hnodup := h.nodup_tokens
    rw [Multiset.add_cons, Multiset.nodup_cons] at hnodup
    exact fun hmem ↦ hnodup.1 (Multiset.mem_add.2 (.inl hmem))

/-- A new token is made and handed out. -/
theorem Sound.make (h : L.Sound made waiting spent free) :
    (L.handOut made).Sound (made + 1) (made ::ₘ waiting) spent free := by
  refine h.handOut_of ?_ ?_
  · rw [h.tokens, Multiset.range_succ]
  · intro hmem
    have hrange : made ∈ Multiset.range made := h.tokens ▸ Multiset.mem_add.2 (.inl hmem)
    exact Multiset.notMem_range_self hrange

/-! ### Using a token -/

/-- The use of a token that was not used before. -/
theorem Sound.spend (h : L.Sound made (token ::ₘ waiting) spent free) (u : Option ι) :
    (L.use token u).Sound made waiting (token ::ₘ spent) free := by
  have hnodup := h.nodup_tenures
  rw [Multiset.cons_add, Multiset.map_cons, Multiset.cons_add, Multiset.nodup_cons] at hnodup
  -- the tenure has made no use: it neither holds a used token nor gave its token back
  have hfresh : L.tenant token ∉ L.uses.map Prod.fst := by
    intro hmem
    refine hnodup.1 (Multiset.mem_of_le ?_ (h.uses_mem _ hmem))
    rw [Multiset.map_add, add_assoc]
    exact Multiset.le_add_left _ _
  have hmem : ∀ r ∈ L.uses.map Prod.fst,
      r ∈ (token ::ₘ spent).map L.tenant + (L.ended : Multiset ℕ) := by
    intro r hr
    rw [Multiset.map_cons, Multiset.cons_add]
    exact Multiset.mem_cons_of_mem (h.uses_mem r hr)
  refine ⟨?_, ?_, ?_, ?_⟩
  · rw [Multiset.add_cons, ← h.tokens]
    simp only [Multiset.cons_add]
  · have htenures := h.tenures
    rw [Multiset.cons_add] at htenures
    rwa [Multiset.add_cons]
  · cases u with
    | none => simpa [use] using h.uses_nodup
    | some u =>
      simp only [use, Option.toList_some, List.map_append, List.map_cons, List.map_nil]
      exact List.nodup_append.2 ⟨h.uses_nodup, List.nodup_singleton _, by
        intro a ha b hb
        obtain rfl := List.mem_singleton.1 hb
        exact fun heq ↦ hfresh (heq ▸ ha)⟩
  · intro r hr
    cases u with
    | none => exact hmem r (by simpa [use] using hr)
    | some u =>
      simp only [use, Option.toList_some, List.map_append, List.map_cons, List.map_nil,
        List.mem_append, List.mem_singleton] at hr
      rcases hr with hr | rfl
      · exact hmem r hr
      · exact Multiset.mem_add.2 (.inl (Multiset.mem_map_of_mem _ (Multiset.mem_cons_self _ _)))

/-- A list of tokens is put aside without a use. -/
theorem Sound.put_aside {tokens : List ℕ}
    (h : L.Sound made (waiting + (tokens : Multiset ℕ)) spent free) :
    L.Sound made waiting ((tokens : Multiset ℕ) + spent) free := by
  refine ⟨?_, ?_, h.uses_nodup, fun r hr ↦ ?_⟩
  · rw [← add_assoc, h.tokens]
  · rw [← add_assoc, h.tenures]
  · rw [Multiset.map_add, add_assoc]
    exact Multiset.mem_add.2 (.inr (h.uses_mem r hr))

/-! ### Giving tokens back -/

/-- Tokens are given back to the pool, used or not. -/
theorem Sound.finish (tokens : List ℕ)
    (h : L.Sound made waiting ((tokens : Multiset ℕ) + spent) free) :
    (L.finish tokens).Sound made waiting spent ((tokens : Multiset ℕ) + free) := by
  have hended : ((L.finish tokens).ended : Multiset ℕ) =
      (L.ended : Multiset ℕ) + (tokens : Multiset ℕ).map L.tenant := by
    rw [Ledger.finish, ← Multiset.coe_add, Multiset.map_coe]
  refine ⟨?_, ?_, h.uses_nodup, fun r hr ↦ ?_⟩
  · rw [← h.tokens]
    abel
  · rw [hended, ← show _ = Multiset.range (L.finish tokens).tenures from h.tenures,
      show (L.finish tokens).tenant = L.tenant from rfl]
    simp only [Multiset.map_add]
    abel
  · have hmem := h.uses_mem r hr
    rw [hended, show (L.finish tokens).tenant = L.tenant from rfl]
    simp only [Multiset.map_add, Multiset.mem_add] at hmem ⊢
    tauto

theorem Sound.finish_waiting (tokens : List ℕ)
    (h : L.Sound made (waiting + (tokens : Multiset ℕ)) spent free) :
    (L.finish tokens).Sound made waiting spent ((tokens : Multiset ℕ) + free) :=
  h.put_aside.finish tokens

end Ledger

end Tenancy
