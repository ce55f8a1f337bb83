import SocketPro.Foundation.Decode
import Mathlib.Algebra.Order.BigOperators.Group.List

/-!
# Values that take their size

A reader may be given a text that was not written for it, as when the writer of a value in front has
written too little. What can be said then is how much the reader takes: `Takes x n a` says that it
returns `a` only where it takes `n` elements at least.

`Sized N x b n a P` is about a value `a` of size `n` for which `b` is written: never more is written
than the size, and the reader takes the size to return the value. Below the limit `N`, `P` is enough
for all of the size to be written, and where it is, the value comes back exactly if `P`.

**Counting.** The rules are closed under sequences of readers (`Sized.readEach`). A sequence that
returns all its values from a content as long as what was written has taken all the sizes, so that
none of the values was written too short: `Sized.length_eq`.
-/

namespace Machine

universe u v w

variable {ε : Type u} {α β γ : Type v} {N n k : ℕ} {x : Effect ε (List β) α} {a : α}

/-- The reader returns `a` only where it takes `n` elements at least. -/
def Takes (x : Effect ε (List β) α) (n : ℕ) (a : α) : Prop :=
  ∀ c rest : List β, x c = .ok a rest → n + rest.length ≤ c.length

theorem Takes.pure (a b : α) : Takes (Pure.pure a : Effect ε (List β) α) 0 b := by
  intro c rest h
  cases h
  exact Nat.le_of_eq (Nat.zero_add _)

/-- **Sequencing.** -/
theorem Takes.bind {f : α → Effect ε (List β) γ} {c : γ} (hx : ∀ a, Takes x n a)
    (hf : ∀ a, Takes (f a) k c) : Takes (x >>= f) (n + k) c := by
  intro s rest h
  obtain ⟨a, u, hxs, hfu⟩ := Effect.bind_eq_ok.1 h
  have hn := hx a s u hxs
  have hk := hf a u rest hfu
  omega

/-- A function of the result. -/
theorem Takes.map {f : α → γ} {c : γ} (h : ∀ a, f a = c → Takes x n a) :
    Takes (x >>= fun a ↦ (Pure.pure (f a) : Effect ε (List β) γ)) n c := by
  intro s rest hx
  obtain ⟨a, u, hxs, hu⟩ := Effect.bind_eq_ok.1 hx
  cases hu
  exact h a rfl s rest hxs

theorem length_of_repeatRead {n : ℕ} {c rest : List β} {as : List α}
    (h : repeatRead x n c = .ok as rest) : as.length = n := by
  induction n generalizing c as with
  | zero =>
    cases h
    rfl
  | succ n ih =>
    obtain ⟨a, u, -, hu⟩ := Effect.bind_eq_ok.1 h
    obtain ⟨as', t, ht, hpure⟩ := Effect.bind_eq_ok.1 hu
    cases hpure
    rw [List.length_cons, ih ht]

/-- A sequence of readers takes what each of them takes. -/
theorem Takes.readEach {ι : Type w} {x : ι → Effect ε (List β) α} {n : ι → ℕ} {a : ι → α}
    {l : List ι} (h : ∀ i ∈ l, Takes (x i) (n i) (a i)) :
    Takes (readEach x l) (l.map n).sum (l.map a) := by
  induction l with
  | nil => exact Takes.pure [] []
  | cons i l ih =>
    intro c rest hx
    obtain ⟨b, u, hb, hu⟩ := Effect.bind_eq_ok.1 hx
    obtain ⟨bs, t, hbs, hpure⟩ := Effect.bind_eq_ok.1 hu
    injection hpure with hlist hrest
    rw [List.map_cons, List.cons.injEq] at hlist
    obtain ⟨rfl, rfl⟩ := hlist
    have hhead := h i List.mem_cons_self c u hb
    have htail := ih (fun k hk ↦ h k (List.mem_cons_of_mem i hk)) u t hbs
    rw [List.map_cons, List.sum_cons, ← hrest]
    omega

/-- A counted loop takes what each of its elements takes. -/
theorem Takes.repeatRead {size : α → ℕ} {as : List α} (h : ∀ a ∈ as, Takes x (size a) a) (k : ℕ) :
    Takes (repeatRead x k) (as.map size).sum as := by
  intro c rest hx
  have hread := Takes.readEach h c rest
  rw [readEach_const, length_of_repeatRead hx, List.map_id'] at hread
  exact hread hx

/-! ### Sizes -/

/-- `b` is written for a value `a` of size `n`, and under `P` the reader gives it back. -/
structure Sized (N : ℕ) (x : Effect ε (List β) α) (b : List β) (n : ℕ) (a : α) (P : Prop) :
    Prop where
  length_le : b.length ≤ n
  takes : Takes x n a
  length_eq : n < N → P → b.length = n
  reads : n < N → b.length = n → DecodesWhen N x b a P

section Sized

variable {b : List β} {P Q : Prop}

/-- A text that is written in full and read as a certain value. -/
theorem Sized.of_decodes {c : α} (hle : b.length ≤ n) (ht : Takes x n a)
    (hb : n < N → b.length = n) (hx : n < N → Decodes N x b c) : Sized N x b n a (c = a) := by
  refine ⟨hle, ht, fun hn _ ↦ hb hn, fun hn _ rest u hrest ↦ ?_⟩
  rw [hx hn rest hrest, Outcome.ok.injEq]

theorem Sized.congr (h : Sized N x b n a P) (hPQ : n < N → (P ↔ Q)) : Sized N x b n a Q := by
  refine ⟨h.length_le, h.takes, fun hn hQ ↦ h.length_eq hn ((hPQ hn).2 hQ),
    fun hn hb rest u hrest ↦ ?_⟩
  rw [h.reads hn hb rest u hrest, hPQ hn]

/-- A function of the result that takes no other value to this one. -/
theorem Sized.map {f : α → γ} (h : Sized N x b n a P) (hf : ∀ a', f a' = f a → a' = a) :
    Sized N (x >>= fun a ↦ (Pure.pure (f a) : Effect ε (List β) γ)) b n (f a) P := by
  refine ⟨h.length_le, Takes.map fun a' ha' ↦ hf a' ha' ▸ h.takes, h.length_eq,
    fun hn hb rest u hrest ↦ ?_⟩
  rw [← h.reads hn hb rest u hrest, Effect.bind_eq_ok]
  constructor
  · rintro ⟨a', t, hx, hpure⟩
    injection hpure with heq ht
    rwa [hf a' heq, ht] at hx
  · exact fun hx ↦ ⟨a, u, hx, rfl⟩

theorem length_flatMap_le_sum {ι : Type w} {b : ι → List β} {n : ι → ℕ} {l : List ι}
    (h : ∀ i ∈ l, (b i).length ≤ n i) : (l.flatMap b).length ≤ (l.map n).sum := by
  rw [List.length_flatMap]
  exact List.sum_le_sum h

/-- Texts that take all of their sizes together take each of their sizes. -/
theorem length_flatMap_eq_sum_iff {ι : Type w} {b : ι → List β} {n : ι → ℕ} {l : List ι}
    (h : ∀ i ∈ l, (b i).length ≤ n i) :
    (l.flatMap b).length = (l.map n).sum ↔ ∀ i ∈ l, (b i).length = n i := by
  induction l with
  | nil => exact iff_of_true rfl nofun
  | cons i l ih =>
    have htail := fun k hk ↦ h k (List.mem_cons_of_mem i hk)
    have hhead := h i List.mem_cons_self
    have hle := length_flatMap_le_sum htail
    rw [List.flatMap_cons, List.length_append, List.map_cons, List.sum_cons, List.forall_mem_cons,
      ← ih htail]
    omega

theorem le_sum_of_mem {ι : Type w} {n : ι → ℕ} {l : List ι} {i : ι} (hi : i ∈ l) :
    n i ≤ (l.map n).sum :=
  List.single_le_sum (fun _ _ ↦ Nat.zero_le _) _ (List.mem_map_of_mem hi)

/-- **A sequence of readers.** -/
theorem Sized.readEach {ι : Type w} {x : ι → Effect ε (List β) α} {b : ι → List β} {n : ι → ℕ}
    {a : ι → α} {P : ι → Prop} {l : List ι}
    (h : ∀ i ∈ l, Sized N (x i) (b i) (n i) (a i) (P i)) :
    Sized N (readEach x l) (l.flatMap b) (l.map n).sum (l.map a) (∀ i ∈ l, P i) where
  length_le := length_flatMap_le_sum fun i hi ↦ (h i hi).length_le
  takes := Takes.readEach fun i hi ↦ (h i hi).takes
  length_eq hn hP := (length_flatMap_eq_sum_iff fun i hi ↦ (h i hi).length_le).2 fun i hi ↦
    (h i hi).length_eq (lt_of_le_of_lt (le_sum_of_mem hi) hn) (hP i hi)
  reads hn hb := by
    have heach := (length_flatMap_eq_sum_iff fun i hi ↦ (h i hi).length_le).1 hb
    exact DecodesWhen.readEach fun i hi ↦
      (h i hi).reads (lt_of_le_of_lt (le_sum_of_mem hi) hn) (heach i hi)

/-- A counted loop. -/
theorem Sized.repeatRead {b : α → List β} {size : α → ℕ} {P : α → Prop} {as : List α}
    (h : ∀ a ∈ as, Sized N x (b a) (size a) a (P a)) :
    Sized N (repeatRead x as.length) (as.flatMap b) (as.map size).sum as (∀ a ∈ as, P a) := by
  have hread := Sized.readEach h
  rwa [readEach_const, List.map_id'] at hread

/-- **What has come back was written in full.** -/
theorem Sized.length_eq_of_ok (h : Sized N x b n a P) {c rest : List β} (hx : x c = .ok a rest)
    (hc : c.length ≤ b.length) : b.length = n ∧ rest = [] := by
  have hle := h.length_le
  have htakes := h.takes c rest hx
  exact ⟨by omega, List.length_eq_zero_iff.1 (by omega)⟩

/-- **The condition decides** whether the value is read of what is written for it. -/
theorem Sized.iff (h : Sized N x b n a P) (hn : n < N) : x b = .ok a [] ↔ P := by
  have hb : (b ++ []).length < N := by
    rw [List.append_nil]
    exact lt_of_le_of_lt h.length_le hn
  constructor
  · intro hx
    have hfull := (h.length_eq_of_ok hx (Nat.le_refl _)).1
    rw [← List.append_nil b] at hx
    exact ((h.reads hn hfull [] [] hb).1 hx).1
  · intro hP
    have hx := (h.reads hn (h.length_eq hn hP) [] [] hb).2 ⟨hP, rfl⟩
    rwa [List.append_nil] at hx

end Sized

end Machine
