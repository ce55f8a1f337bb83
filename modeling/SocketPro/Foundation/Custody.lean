import Mathlib.Data.Multiset.Bind
import Mathlib.Data.Multiset.Range
import Mathlib.Tactic.Abel

/-!
# Entries in custody

Entries are made, numbered by `ticket` in the order they are made, and kept in places of a program.
Each leaves once: it is withdrawn by who made it, or it goes out for a reason, and then the notice
`due` for that reason, if there is one, is given.

`Sound` says that the accounts of such a program are right: the entries `held` in its places, those
`withdrawn` and those of the `exits` are all the entries made, and the `notices` given are those of
the exits. The places are multisets, so a step that moves entries from one place to another changes
nothing (`Sound.of_books`), and every other step is one of the operations `Sound.make`,
`Sound.leave` and `Sound.withdraw`.
-/

namespace Custody

variable {ε ρ ν : Type*}

/-- The notices of an exit, with the ticket of the entry. -/
def noticesOf (ticket : ε → ℕ) (due : ε → ρ → Option ν) (x : ε × ρ) : List (ℕ × ν) :=
  (due x.1 x.2).toList.map fun n ↦ (ticket x.1, n)

/-- The notices given for one entry. -/
def given (r : ℕ) (notices : List (ℕ × ν)) : List ν :=
  (notices.filter fun n ↦ n.1 = r).map Prod.snd

/-- All entries: in a place of the program, withdrawn or gone. -/
def books (held withdrawn : Multiset ε) (exits : List (ε × ρ)) : Multiset ε :=
  held + withdrawn + (exits : Multiset (ε × ρ)).map Prod.fst

/-- **The accounts are right.** -/
structure Sound (ticket : ε → ℕ) (due : ε → ρ → Option ν) (made : ℕ) (held withdrawn : Multiset ε)
    (exits : List (ε × ρ)) (notices : List (ℕ × ν)) : Prop where
  /-- Every ticket is on one entry. -/
  tickets : (books held withdrawn exits).map ticket = Multiset.range made
  notices_eq : notices = exits.flatMap (noticesOf ticket due)

variable {ticket : ε → ℕ} {due : ε → ρ → Option ν} {made : ℕ} {held held' withdrawn : Multiset ε}
  {exits : List (ε × ρ)} {notices : List (ℕ × ν)}

/-! ### Operations -/

theorem sound_start : Sound ticket due 0 0 0 [] [] := ⟨rfl, rfl⟩

/-- An entry is made. -/
theorem Sound.make (h : Sound ticket due made held withdrawn exits notices) {e : ε}
    (he : ticket e = made) : Sound ticket due (made + 1) (e ::ₘ held) withdrawn exits notices := by
  refine ⟨?_, h.notices_eq⟩
  have hbooks : books (e ::ₘ held) withdrawn exits = e ::ₘ books held withdrawn exits := by
    rw [books, books, Multiset.cons_add, Multiset.cons_add]
  rw [hbooks, Multiset.map_cons, h.tickets, he, Multiset.range_succ]

/-- Entries leave, withdrawn or for reasons, with the notices that are due. -/
theorem Sound.leave (h : Sound ticket due made held withdrawn exits notices) {back : Multiset ε}
    {out : List (ε × ρ)}
    (hheld : held = held' + back + (out : Multiset (ε × ρ)).map Prod.fst) :
    Sound ticket due made held' (withdrawn + back) (exits ++ out)
      (notices ++ out.flatMap (noticesOf ticket due)) := by
  refine ⟨?_, by rw [h.notices_eq, List.flatMap_append]⟩
  have hbooks : books held' (withdrawn + back) (exits ++ out) = books held withdrawn exits := by
    rw [books, books, hheld, ← Multiset.coe_add, Multiset.map_add]
    abel
  rw [hbooks, h.tickets]

/-! ### What the accounts say -/

theorem Sound.nodup (h : Sound ticket due made held withdrawn exits notices) :
    ((books held withdrawn exits).map ticket).Nodup := by
  rw [h.tickets]
  exact Multiset.nodup_range made

/-- **Every entry is somewhere, once.** -/
theorem Sound.count (h : Sound ticket due made held withdrawn exits notices) (r : ℕ) :
    (held.map ticket).count r + ((withdrawn.map ticket).count r +
      ((exits : Multiset (ε × ρ)).map fun x ↦ ticket x.1).count r) = if r < made then 1 else 0 := by
  have hcount := congrArg (Multiset.count r) h.tickets
  rw [books, Multiset.map_add, Multiset.map_add, Multiset.map_map, Multiset.count_add,
    Multiset.count_add, ← Multiset.coe_range, Multiset.coe_count (a := r) (l := List.range made),
    List.count_range] at hcount
  rw [← Nat.add_assoc]
  exact hcount

theorem given_append (r : ℕ) (l m : List (ℕ × ν)) :
    given r (l ++ m) = given r l ++ given r m := by
  rw [given, List.filter_append, List.map_append]
  rfl

/-- The notices of one exit, asked for its own ticket and for another one. -/
theorem given_noticesOf_self (x : ε × ρ) :
    given (ticket x.1) (noticesOf ticket due x) = (due x.1 x.2).toList := by
  rcases hdue : due x.1 x.2 with _ | n
  · rw [noticesOf, hdue]
    rfl
  · simp [given, noticesOf, hdue]

theorem given_noticesOf_of_ne {x : ε × ρ} {r : ℕ} (hr : ticket x.1 ≠ r) :
    given r (noticesOf ticket due x) = [] := by
  rcases hdue : due x.1 x.2 with _ | n
  · rw [noticesOf, hdue]
    rfl
  · simp [given, noticesOf, hdue, hr]

/-- No notice was given for a ticket that is on no exit. -/
theorem given_flatMap_of_notMem {r : ℕ} (hr : ∀ x ∈ exits, ticket x.1 ≠ r) :
    given r (exits.flatMap (noticesOf ticket due)) = [] := by
  induction exits with
  | nil => rfl
  | cons x exits ih =>
    rw [List.flatMap_cons, given_append, given_noticesOf_of_ne (hr x List.mem_cons_self),
      ih fun y hy ↦ hr y (List.mem_cons_of_mem x hy)]
    rfl

/-- For an exit whose ticket no other exit has, its own notice was given and no other. -/
theorem given_flatMap_of_nodup (hnodup : (exits.map fun x ↦ ticket x.1).Nodup) {x : ε × ρ}
    (hx : x ∈ exits) :
    given (ticket x.1) (exits.flatMap (noticesOf ticket due)) = (due x.1 x.2).toList := by
  induction exits with
  | nil => exact absurd hx List.not_mem_nil
  | cons y exits ih =>
    rw [List.map_cons, List.nodup_cons] at hnodup
    rw [List.flatMap_cons, given_append]
    rcases List.mem_cons.1 hx with rfl | hx
    · have hnone : given (ticket x.1) (exits.flatMap (noticesOf ticket due)) = [] :=
        given_flatMap_of_notMem fun y hy heq ↦ hnodup.1 (heq ▸ List.mem_map_of_mem hy)
      rw [given_noticesOf_self, hnone, List.append_nil]
    · have hne : ticket y.1 ≠ ticket x.1 := fun heq ↦
        hnodup.1 (heq ▸ List.mem_map_of_mem hx)
      rw [given_noticesOf_of_ne hne, List.nil_append]
      exact ih hnodup.2 hx

/-- **An entry that went out got the notice that was due**, and no other. -/
theorem Sound.given_exit (h : Sound ticket due made held withdrawn exits notices) {x : ε × ρ}
    (hx : x ∈ exits) : given (ticket x.1) notices = (due x.1 x.2).toList := by
  have hnodup := h.nodup
  rw [books, Multiset.map_add, Multiset.map_map] at hnodup
  have hexits : (exits.map fun x ↦ ticket x.1).Nodup :=
    Multiset.coe_nodup.1 (Multiset.nodup_of_le (Multiset.le_add_left _ _) hnodup)
  rw [h.notices_eq]
  exact given_flatMap_of_nodup hexits hx

/-- **An entry that has not gone out got no notice.** -/
theorem Sound.given_eq_nil (h : Sound ticket due made held withdrawn exits notices) {e : ε}
    (he : e ∈ held + withdrawn) : given (ticket e) notices = [] := by
  have hnodup := h.nodup
  rw [books, Multiset.map_add, Multiset.map_map, Multiset.nodup_add] at hnodup
  have hdisj := Multiset.disjoint_left.1 hnodup.2.2 (Multiset.mem_map_of_mem ticket he)
  rw [h.notices_eq]
  refine given_flatMap_of_notMem fun x hx heq ↦ hdisj ?_
  exact Multiset.mem_map.2 ⟨x, hx, heq⟩

end Custody
