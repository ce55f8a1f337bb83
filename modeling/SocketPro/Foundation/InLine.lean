import Mathlib.Data.List.Sublists

/-!
# Lists in line with another list

A list is in line with a list without repetitions if those of its elements that the other one has
stand in the other one's order. The other elements may stand anywhere.

**Rules.** Leaving out elements keeps lists in line, on the left (`InLine.of_sublist`) and on the
right (`InLine.to_sublist`). A new element may be added behind the last one that both lists have
(`InLine.insert`).

A queue is `Aligned` with an order if it is in line with it and its other elements are known strays.
Then the first element of the order is the first one of the queue, if it is in the queue and no
stray is in front (`Aligned.front`).
-/

namespace Machine

variable {α : Type*} [DecidableEq α]

/-- The common elements stand in the order of the second list. -/
def InLine (l order : List α) : Prop := (l.filter (· ∈ order)).Sublist order

variable {l l' order order' : List α}

theorem InLine.nil : InLine ([] : List α) order := List.nil_sublist _

theorem InLine.of_sublist (h : InLine l order) (hl : l'.Sublist l) : InLine l' order :=
  (hl.filter _).trans h

/-- Of a list without repetitions, the elements of a sublist are the sublist. -/
theorem filter_mem_sublist (hnodup : order.Nodup) (h : order'.Sublist order) :
    order.filter (· ∈ order') = order' := by
  have hkeep : order'.Sublist (order.filter (· ∈ order')) := by
    have hfilter := h.filter (· ∈ order')
    rwa [List.filter_eq_self.2 fun a ha ↦ decide_eq_true ha] at hfilter
  have hsubset : order.filter (· ∈ order') ⊆ order' := fun a ha ↦ by
    simpa using (List.mem_filter.1 ha).2
  have hlen := ((hnodup.filter _).subperm hsubset).length_le
  exact (hkeep.eq_of_length_le hlen).symm

theorem InLine.to_sublist (h : InLine l order) (hnodup : order.Nodup)
    (hsub : order'.Sublist order) : InLine l order' := by
  have hfilter : l.filter (· ∈ order') = (l.filter (· ∈ order)).filter (· ∈ order') := by
    rw [List.filter_filter]
    refine List.filter_congr fun a _ ↦ ?_
    have himp : a ∈ order' → a ∈ order := fun ha ↦ hsub.subset ha
    by_cases ha : a ∈ order'
    · simp [ha, himp ha]
    · simp [ha]
  rw [InLine, hfilter]
  have hsublist := List.Sublist.filter (· ∈ order') h
  rwa [filter_mem_sublist hnodup hsub] at hsublist

/-- A new last element of the order is added where only other elements follow. -/
theorem InLine.insert {a : α} (h : InLine (l ++ l') order) (ha : a ∉ l ++ l')
    (hl' : ∀ b ∈ l', b ∉ order) : InLine (l ++ a :: l') (order ++ [a]) := by
  have hold : ∀ b ∈ l ++ l', (b ∈ order ++ [a]) ↔ b ∈ order := by
    intro b hb
    have hne : b ≠ a := fun heq ↦ ha (heq ▸ hb)
    simp [hne]
  have hfront : l.filter (· ∈ order ++ [a]) = l.filter (· ∈ order) :=
    List.filter_congr fun b hb ↦ decide_eq_decide.2 (hold b (List.mem_append_left _ hb))
  have hback : l'.filter (· ∈ order ++ [a]) = [] := by
    refine List.filter_eq_nil_iff.2 fun b hb ↦ ?_
    simpa [hold b (List.mem_append_right _ hb)] using hl' b hb
  rw [InLine, List.filter_append, List.filter_cons_of_pos (by simp), hfront, hback]
  refine List.Sublist.append ?_ (List.Sublist.refl _)
  exact ((List.sublist_append_left l l').filter _).trans h

/-! ### Queues with strays -/

/-- The queue is in line with the order, and all its other elements are strays. -/
structure Aligned (queue order strays : List α) : Prop where
  inLine : InLine queue order
  known : ∀ a ∈ queue, a ∈ order ∨ a ∈ strays

variable {queue queue' strays strays' : List α} {a b : α}

theorem Aligned.nil : Aligned [] order strays := ⟨.nil, fun _ h ↦ absurd h List.not_mem_nil⟩

/-- A new element comes last in both. -/
theorem Aligned.push (h : Aligned queue order strays) (ha : a ∉ queue) :
    Aligned (queue ++ [a]) (order ++ [a]) strays := by
  refine ⟨?_, fun b hb ↦ ?_⟩
  · have hline : InLine (queue ++ []) order := (List.append_nil queue).symm ▸ h.inLine
    exact hline.insert (by rwa [List.append_nil]) fun _ hnil ↦ absurd hnil List.not_mem_nil
  · rcases List.mem_append.1 hb with hb | hb
    · exact (h.known b hb).imp_left (List.mem_append_left _)
    · exact .inl (List.mem_append_right _ hb)

/-- Elements leave the queue and the order; those that stay in the queue are still ordered or have
become strays. -/
theorem Aligned.shrink (h : Aligned queue order strays) (hnodup : order.Nodup)
    (hqueue : queue'.Sublist queue) (horder : order'.Sublist order)
    (hkept : ∀ a ∈ queue', a ∈ order → a ∉ order' → a ∈ strays')
    (hstrays : ∀ a ∈ queue', a ∈ strays → a ∈ strays') :
    Aligned queue' order' strays' := by
  refine ⟨(h.inLine.of_sublist hqueue).to_sublist hnodup horder, fun a ha ↦ ?_⟩
  by_cases hin : a ∈ order'
  · exact .inl hin
  · refine .inr ?_
    rcases h.known a (hqueue.subset ha) with ho | hs
    · exact hkept a ha ho hin
    · exact hstrays a ha hs

/-- **The first of the order is the first of the queue.** -/
theorem Aligned.front (h : Aligned (b :: queue) (a :: order) strays) (hnodup : (a :: order).Nodup)
    (ha : a ∈ b :: queue) (hb : b ∉ strays) : b = a := by
  by_contra hne
  have hordered : b ∈ a :: order := (h.known b List.mem_cons_self).resolve_right hb
  have hline := h.inLine
  rw [InLine, List.filter_cons_of_pos (p := fun c ↦ decide (c ∈ a :: order))
    (decide_eq_true hordered)] at hline
  -- the common elements from `b` on stand behind `a`
  have hbehind : (b :: queue.filter (· ∈ a :: order)).Sublist order := by
    rcases List.sublist_cons_iff.1 hline with hsub | ⟨r, hr, -⟩
    · exact hsub
    · exact absurd (List.cons.inj hr).1 hne
  have hin : a ∈ queue.filter (· ∈ a :: order) :=
    List.mem_filter.2 ⟨(List.mem_cons.1 ha).resolve_left fun heq ↦ hne heq.symm,
      decide_eq_true List.mem_cons_self⟩
  exact (List.nodup_cons.1 hnodup).1 (hbehind.subset (List.mem_cons_of_mem _ hin))

/-- Of an order in two parts, those elements of a list that are not in the second part. -/
theorem filter_append_left {wire rest : List α} (hrest : ∀ a ∈ l, a ∉ rest) :
    l.filter (· ∈ wire ++ rest) = l.filter (· ∈ wire) := by
  refine List.filter_congr fun a ha ↦ decide_eq_decide.2 ?_
  have hnot := hrest a ha
  simp only [List.mem_append]
  tauto

theorem filter_append_right {wire rest : List α} (hwire : ∀ a ∈ l, a ∉ wire) :
    l.filter (· ∈ wire ++ rest) = l.filter (· ∈ rest) := by
  refine List.filter_congr fun a ha ↦ decide_eq_decide.2 ?_
  have hnot := hwire a ha
  simp only [List.mem_append]
  tauto

theorem filter_append_middle {wire wire' rest : List α} (hwire' : ∀ a ∈ l, a ∉ wire') :
    l.filter (· ∈ wire ++ wire' ++ rest) = l.filter (· ∈ wire ++ rest) := by
  refine List.filter_congr fun a ha ↦ decide_eq_decide.2 ?_
  have hnot := hwire' a ha
  simp only [List.mem_append]
  tauto

/-- **A queue goes between the two parts of another one**, and the first part of its order between
the two parts of that one's. -/
theorem Aligned.merge {behind wire rest wire' rest' : List α}
    (h : Aligned (queue ++ behind) (wire ++ rest) strays) (h' : InLine queue' (wire' ++ rest'))
    (hnodup : (wire ++ rest).Nodup) (hnodup' : (wire' ++ rest').Nodup)
    (hdisjoint : ∀ a ∈ queue ++ behind, a ∉ wire')
    (hcase : queue' = [] ∨ (∀ a ∈ queue, a ∉ rest) ∧ (∀ a ∈ behind, a ∉ wire) ∧
      ∀ a ∈ queue', a ∈ wire') :
    Aligned (queue ++ queue' ++ behind) (wire ++ wire' ++ rest) strays := by
  have hwhole : (wire ++ rest).Sublist (wire ++ wire' ++ rest) :=
    (List.sublist_append_left wire wire').append_right rest
  have hfront : ∀ a ∈ queue, a ∉ wire' := fun a ha ↦ hdisjoint a (List.mem_append_left _ ha)
  have hback : ∀ a ∈ behind, a ∉ wire' := fun a ha ↦ hdisjoint a (List.mem_append_right _ ha)
  refine ⟨?_, fun a ha ↦ ?_⟩
  · rcases hcase with rfl | ⟨hqueue, hbehind, hqueue'⟩
    · rw [InLine, List.append_nil, filter_append_middle hdisjoint]
      exact h.inLine.trans hwhole
    · have hline : InLine queue wire :=
        (h.inLine.of_sublist (List.sublist_append_left _ _)).to_sublist hnodup
          (List.sublist_append_left _ _)
      have hline' : InLine queue' wire' := h'.to_sublist hnodup' (List.sublist_append_left _ _)
      have hline'' : InLine behind rest :=
        (h.inLine.of_sublist (List.sublist_append_right _ _)).to_sublist hnodup
          (List.sublist_append_right _ _)
      have hmiddle : queue'.filter (· ∈ wire ++ wire' ++ rest) = queue'.filter (· ∈ wire') := by
        refine List.filter_congr fun a ha ↦ decide_eq_decide.2 ?_
        have hin := hqueue' a ha
        simp only [List.mem_append]
        tauto
      rw [InLine, List.filter_append, List.filter_append, filter_append_middle hfront, hmiddle,
        filter_append_middle hback, filter_append_left hqueue, filter_append_right hbehind]
      exact (List.Sublist.append hline hline').append hline''
  · rcases List.mem_append.1 ha with ha | ha
    · rcases List.mem_append.1 ha with ha | ha
      · exact (h.known a (List.mem_append_left _ ha)).imp_left fun hin ↦ hwhole.subset hin
      · have hin := (hcase.resolve_left (List.ne_nil_of_mem ha)).2.2 a ha
        exact .inl (List.mem_append_left _ (List.mem_append_right _ hin))
    · exact (h.known a (List.mem_append_right _ ha)).imp_left fun hin ↦ hwhole.subset hin

end Machine
