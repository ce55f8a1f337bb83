import Mathlib.Data.Set.Basic
import Mathlib.Data.List.Basic

/-!
# Comparators of a sorting function

A sorting function wants a comparator that is a strict weak order on the values to be sorted, and
promises nothing otherwise (`IsSort`).

**Partial keys.** Where values are compared through keys and some values have none, the values
without a key are incomparable with all others. That is a strict weak order exactly if there are no
such values, or nothing to tell apart (`strictWeakOn_byKey_iff`).

**A class in front.** To put a class of values in front of the others changes nothing about this
(`strictWeakOn_first_iff`), and a sorting function then keeps the class together
(`exists_append_of_pairwise`).

**Comparators with three results** tell by the sign of a number which value comes first, and may
fail. One that compares as keys of a linear order are compared is a total preorder
(`comparatorOn_of_key`), which is what the sorting functions that take one want
(`IsComparatorSort`).
-/

namespace WeakOrder

variable {α κ : Type*}

/-- A relation that is a strict weak order on a set of values. -/
def StrictWeakOn (r : α → α → Prop) (s : Set α) : Prop :=
  IsStrictWeakOrder s (Order.Preimage Subtype.val r)

/-- Only the values of the set matter. -/
theorem StrictWeakOn.of_iff {r r' : α → α → Prop} {s : Set α} (h : StrictWeakOn r s)
    (hiff : ∀ a ∈ s, ∀ b ∈ s, (r' a b ↔ r a b)) : StrictWeakOn r' s := by
  have heq : (Order.Preimage Subtype.val r' : s → s → Prop) = Order.Preimage Subtype.val r := by
    funext a b
    exact propext (hiff a a.2 b b.2)
  rw [StrictWeakOn, heq]
  exact h

theorem strictWeakOn_congr {r r' : α → α → Prop} {s : Set α}
    (hiff : ∀ a ∈ s, ∀ b ∈ s, (r a b ↔ r' a b)) : StrictWeakOn r s ↔ StrictWeakOn r' s :=
  ⟨fun h ↦ h.of_iff fun a ha b hb ↦ (hiff a ha b hb).symm, fun h ↦ h.of_iff hiff⟩

theorem StrictWeakOn.mono {r : α → α → Prop} {s t : Set α} (h : StrictWeakOn r t)
    (hsub : ∀ a ∈ s, a ∈ t) : StrictWeakOn r s :=
  have : IsStrictWeakOrder t (Order.Preimage Subtype.val r) := h
  Order.Preimage.instIsStrictWeakOrder (r := Order.Preimage Subtype.val r)
    (f := fun a : s ↦ (⟨a, hsub a a.2⟩ : t))

/-- The other way round. -/
theorem StrictWeakOn.swap {r : α → α → Prop} {s : Set α} (h : StrictWeakOn r s) :
    StrictWeakOn (Function.swap r) s :=
  have : IsStrictWeakOrder s (Order.Preimage Subtype.val r) := h
  inferInstanceAs (IsStrictWeakOrder s (Function.swap (Order.Preimage Subtype.val r)))

theorem strictWeakOn_swap_iff {r : α → α → Prop} {s : Set α} :
    StrictWeakOn (Function.swap r) s ↔ StrictWeakOn r s :=
  ⟨StrictWeakOn.swap, StrictWeakOn.swap⟩

/-! ### Partial keys -/

/-- Values that have a key are compared by their keys. -/
def byKey [LT κ] (key : α → Option κ) (a b : α) : Prop := ∃ x ∈ key a, ∃ y ∈ key b, x < y

/-- Values with keys are ordered as the keys are. -/
theorem strictWeakOn_of_isSome [LinearOrder κ] {key : α → Option κ} {s : Set α}
    (h : ∀ a ∈ s, (key a).isSome) : StrictWeakOn (byKey key) s := by
  have hkey : (Order.Preimage Subtype.val (byKey key) : s → s → Prop) =
      Order.Preimage (fun a : s ↦ (key a).get (h a a.2)) (· < ·) := by
    funext a b
    refine propext ⟨?_, fun hlt ↦ ⟨_, Option.get_mem _, _, Option.get_mem _, hlt⟩⟩
    rintro ⟨x, hx, y, hy, hlt⟩
    show (key a).get _ < (key b).get _
    rwa [Option.get_of_mem _ hx, Option.get_of_mem _ hy]
  have : IsStrictWeakOrder κ (· < ·) := isStrictWeakOrder_of_isOrderConnected
  rw [StrictWeakOn, hkey]
  exact Order.Preimage.instIsStrictWeakOrder

/-- Where nothing is compared, everything is equivalent. -/
theorem strictWeakOn_of_not {r : α → α → Prop} {s : Set α} (h : ∀ a ∈ s, ∀ b ∈ s, ¬ r a b) :
    StrictWeakOn r s where
  irrefl a := h a a.2 a a.2
  trans a b _ hab := absurd hab (h a a.2 b b.2)
  incomp_trans a _ c _ _ := ⟨h a a.2 c c.2, h c c.2 a a.2⟩

/-- **When partial keys give a strict weak order.** A value without a key is equivalent to all
others, so these must be equivalent to each other. -/
theorem strictWeakOn_byKey_iff [LinearOrder κ] {key : α → Option κ} {s : Set α} :
    StrictWeakOn (byKey key) s ↔
      (∀ a ∈ s, (key a).isSome) ∨ ∀ a ∈ s, ∀ b ∈ s, ¬ byKey key a b := by
  refine ⟨fun hweak ↦ ?_, fun h ↦ h.elim strictWeakOn_of_isSome strictWeakOn_of_not⟩
  by_contra hneither
  push Not at hneither
  obtain ⟨⟨a, ha, hnone⟩, b, hb, c, hc, hbc⟩ := hneither
  have hleft (v : α) : ¬ byKey key a v := by
    rintro ⟨x, hx, -⟩
    rw [Option.mem_def] at hx
    rw [hx] at hnone
    exact absurd rfl hnone
  have hright (v : α) : ¬ byKey key v a := by
    rintro ⟨-, -, x, hx, -⟩
    rw [Option.mem_def] at hx
    rw [hx] at hnone
    exact absurd rfl hnone
  exact (hweak.incomp_trans ⟨b, hb⟩ ⟨a, ha⟩ ⟨c, hc⟩ ⟨hright b, hleft b⟩ ⟨hleft c, hright c⟩).1 hbc

/-! ### A class in front -/

/-- The values of a class come first, the others by a relation. -/
def first (p : α → Prop) (r : α → α → Prop) (a b : α) : Prop := ¬ p b ∧ (p a ∨ r a b)

/-- **A class in front** leaves the strict weak order to the others. -/
theorem strictWeakOn_first_iff {p : α → Prop} {r : α → α → Prop} {s : Set α} :
    StrictWeakOn (first p r) s ↔ StrictWeakOn r {a | a ∈ s ∧ ¬ p a} := by
  constructor
  · intro h
    refine (h.mono fun a ha ↦ ha.1).of_iff fun a ha b hb ↦ ?_
    exact ⟨fun hr ↦ ⟨hb.2, .inr hr⟩, fun hfirst ↦ hfirst.2.resolve_left ha.2⟩
  · intro h
    have hirrefl (a : α) (ha : a ∈ s) : ¬ first p r a a := by
      rintro ⟨hp, hpa | hr⟩
      · exact hp hpa
      · exact h.irrefl ⟨a, ha, hp⟩ hr
    refine { irrefl := fun a ↦ hirrefl a a.2, trans := ?_, incomp_trans := ?_ }
    · rintro a b c ⟨hb, hab⟩ ⟨hc, hbc⟩
      refine ⟨hc, or_iff_not_imp_left.2 fun ha ↦ ?_⟩
      exact h.trans ⟨a, a.2, ha⟩ ⟨b, b.2, hb⟩ ⟨c, c.2, hc⟩ (hab.resolve_left ha)
        (hbc.resolve_left hb)
    · rintro a b c ⟨hab, hba⟩ ⟨hbc, hcb⟩
      -- equivalent values are of one class
      have hclass {x y : α} (hxy : ¬ first p r x y) (hyx : ¬ first p r y x) : p x ↔ p y := by
        constructor
        · exact fun hx ↦ not_not.1 fun hy ↦ hxy ⟨hy, .inl hx⟩
        · exact fun hy ↦ not_not.1 fun hx ↦ hyx ⟨hx, .inl hy⟩
      have hpab := hclass hab hba
      have hpbc := hclass hbc hcb
      by_cases hb : p b
      · exact ⟨fun hac ↦ hac.1 (hpbc.1 hb), fun hca ↦ hca.1 (hpab.2 hb)⟩
      · have ha := mt hpab.1 hb
        have hc := mt hpbc.2 hb
        have hrest := h.incomp_trans ⟨a, a.2, ha⟩ ⟨b, b.2, hb⟩ ⟨c, c.2, hc⟩
          ⟨fun hr ↦ hab ⟨hb, .inr hr⟩, fun hr ↦ hba ⟨ha, .inr hr⟩⟩
          ⟨fun hr ↦ hbc ⟨hc, .inr hr⟩, fun hr ↦ hcb ⟨hb, .inr hr⟩⟩
        exact ⟨fun hac ↦ hrest.1 (hac.2.resolve_left ha), fun hca ↦ hrest.2 (hca.2.resolve_left hc)⟩

/-- A list in which nothing of a class comes after anything else has the class in front. -/
theorem exists_append_of_pairwise {p : α → Prop} {l : List α}
    (h : l.Pairwise fun a b ↦ p b → p a) :
    ∃ xs ys, l = xs ++ ys ∧ (∀ a ∈ xs, p a) ∧ ∀ a ∈ ys, ¬ p a := by
  induction l with
  | nil => exact ⟨[], [], rfl, List.forall_mem_nil _, List.forall_mem_nil _⟩
  | cons a l ih =>
    obtain ⟨hhead, htail⟩ := List.pairwise_cons.1 h
    by_cases ha : p a
    · obtain ⟨xs, ys, rfl, hxs, hys⟩ := ih htail
      exact ⟨a :: xs, ys, rfl, List.forall_mem_cons.2 ⟨ha, hxs⟩, hys⟩
    · refine ⟨[], a :: l, rfl, List.forall_mem_nil _, List.forall_mem_cons.2 ⟨ha, fun b hb ↦ ?_⟩⟩
      exact mt (hhead b hb) ha

/-! ### Sorting functions -/

/-- The values of a list. -/
def valuesOf (l : List α) : Set α := {a | a ∈ l}

/-- **What a sorting function promises** for a comparator that is a strict weak order on the values
of the list: the same values, none before one that compares before it. -/
def IsSort (sort : (α → α → Bool) → List α → List α) : Prop :=
  ∀ less l, StrictWeakOn (fun a b ↦ less a b = true) (valuesOf l) →
    (sort less l).Perm l ∧ (sort less l).Pairwise fun a b ↦ less b a = false

/-- The merge sort of the values, as such a function. -/
def mergeSort (less : α → α → Bool) (l : List α) : List α :=
  (l.attach.mergeSort fun a b ↦ !less b a).map Subtype.val

theorem isSort_mergeSort : IsSort (mergeSort (α := α)) := by
  intro less l h
  have hle (a b : {a // a ∈ l}) : (!less b a) = true ↔ ¬ less b a = true := by
    rw [Bool.not_eq_true', Bool.not_eq_true]
  constructor
  · have hperm := (List.mergeSort_perm l.attach fun a b ↦ !less b a).map Subtype.val
    rwa [List.attach_map_subtype_val] at hperm
  · refine List.pairwise_map.2 (List.Pairwise.imp (fun {a b} hab ↦ Bool.not_eq_true' _ ▸ hab)
      (List.pairwise_mergeSort ?_ ?_ l.attach))
    · intro a b c hab hbc
      rw [hle] at hab hbc ⊢
      have : IsStrictWeakOrder (valuesOf l)
        (Order.Preimage Subtype.val fun a b ↦ less a b = true) := h
      intro hca
      by_cases hba : less a b = true
      · exact hbc (h.trans c a b hca hba)
      · by_cases hcb : less b c = true
        · exact hab (h.trans b c a hcb hca)
        · exact (h.incomp_trans c b a ⟨hbc, hcb⟩ ⟨hab, hba⟩).1 hca
    · intro a b
      rw [Bool.or_eq_true, hle, hle, ← not_and_or]
      rintro ⟨hba, hab⟩
      exact h.irrefl a (h.trans a b a hab hba)

/-! ### Comparators with three results -/

/-- A comparator that does not fail on a set of values, and is a total preorder there. -/
structure ComparatorOn (cmp : α → α → Option ℤ) (s : Set α) : Prop where
  isSome : ∀ a ∈ s, ∀ b ∈ s, (cmp a b).isSome
  sign_swap : ∀ a ∈ s, ∀ b ∈ s, ∀ m ∈ cmp a b, ∀ n ∈ cmp b a, m.sign = -n.sign
  trans : ∀ a ∈ s, ∀ b ∈ s, ∀ c ∈ s, ∀ m ∈ cmp a b, ∀ n ∈ cmp b c, ∀ k ∈ cmp a c,
    m ≤ 0 → n ≤ 0 → k ≤ 0

/-- The number says which of two values of a linear order comes first. -/
def Tells [LT κ] (n : ℤ) (x y : κ) : Prop := (n < 0 ↔ x < y) ∧ (0 < n ↔ y < x)

theorem Tells.le_zero [LinearOrder κ] {n : ℤ} {x y : κ} (h : Tells n x y) : n ≤ 0 ↔ x ≤ y := by
  rw [← not_lt, h.2, not_lt]

/-- **A comparator of keys** is a total preorder, also in the other direction. -/
theorem comparatorOn_of_key [LinearOrder κ] {cmp : α → α → Option ℤ} {s : Set α} {key : α → κ}
    (h : ∀ a ∈ s, ∀ b ∈ s, ∃ n, cmp a b = some n ∧ Tells n (key a) (key b)) :
    ComparatorOn cmp s ∧ ComparatorOn (fun a b ↦ cmp b a) s := by
  have hsome : ∀ a ∈ s, ∀ b ∈ s, (cmp a b).isSome := fun a ha b hb ↦ by
    obtain ⟨n, hn, -⟩ := h a ha b hb
    exact hn ▸ rfl
  have htells : ∀ a ∈ s, ∀ b ∈ s, ∀ m ∈ cmp a b, Tells m (key a) (key b) := fun a ha b hb m hm ↦ by
    obtain ⟨n, hn, hkey⟩ := h a ha b hb
    exact Option.some.inj (hm.symm.trans hn) ▸ hkey
  have hswap : ∀ a ∈ s, ∀ b ∈ s, ∀ m ∈ cmp a b, ∀ n ∈ cmp b a, m.sign = -n.sign :=
    fun a ha b hb m hm n hn ↦ by
      have hab := htells a ha b hb m hm
      have hba := htells b hb a ha n hn
      obtain hlt | heq | hgt := lt_trichotomy (key a) (key b)
      · rw [Int.sign_eq_neg_one_of_neg (hab.1.2 hlt), Int.sign_eq_one_of_pos (hba.2.2 hlt)]
      · have hm0 : m = 0 := le_antisymm (hab.le_zero.2 heq.le)
          (not_lt.1 fun hneg ↦ heq.not_lt (hab.1.1 hneg))
        have hn0 : n = 0 := le_antisymm (hba.le_zero.2 heq.ge)
          (not_lt.1 fun hneg ↦ heq.not_gt (hba.1.1 hneg))
        rw [hm0, hn0]
        rfl
      · rw [Int.sign_eq_one_of_pos (hab.2.2 hgt), Int.sign_eq_neg_one_of_neg (hba.1.2 hgt),
          Int.neg_neg]
  refine ⟨⟨hsome, hswap, ?_⟩, ⟨fun a ha b hb ↦ hsome b hb a ha,
    fun a ha b hb m hm n hn ↦ hswap b hb a ha m hm n hn, ?_⟩⟩
  · intro a ha b hb c hc m hm n hn k hk hm0 hn0
    exact (htells a ha c hc k hk).le_zero.2 (((htells a ha b hb m hm).le_zero.1 hm0).trans
      ((htells b hb c hc n hn).le_zero.1 hn0))
  · intro a ha b hb c hc m hm n hn k hk hm0 hn0
    exact (htells c hc a ha k hk).le_zero.2 (((htells c hc b hb n hn).le_zero.1 hn0).trans
      ((htells b hb a ha m hm).le_zero.1 hm0))

/-- **What a sorting function promises** for a comparator that is a total preorder on the values of
the list: it ends, with the same values, none before one that compares before it. -/
def IsComparatorSort (sort : (α → α → Option ℤ) → List α → Option (List α)) : Prop :=
  ∀ cmp l, ComparatorOn cmp (valuesOf l) →
    ∃ l', sort cmp l = some l' ∧ l'.Perm l ∧ l'.Pairwise fun a b ↦ ∃ n ∈ cmp a b, n ≤ 0

end WeakOrder
