import SocketPro.Foundation.Decode

/-!
# What comes back

`ReturnsIff P x b Q` is about the bytes `b` of a value and a reader `x`: if `P`, then wherever the
content begins with `b`, the reader returns something of `Q` and leaves what follows; and if not,
it never returns anything of `Q` there. So `P` says exactly when the value comes back.

**Rules.** What is read exactly in front changes nothing (`ReturnsIff.bind`), nor does a function of
the result (`ReturnsIff.map`). A counted loop brings all elements back if and only if each of them
comes back (`ReturnsIff.repeatRead`): up to the first that does not, the others are read where they
were written.
-/

namespace Machine

universe u v

variable {ε : Type u} {α β γ δ : Type v}

/-- From every content that begins with `b`, the reader returns `a` and leaves what follows. -/
def Reads (x : Effect ε (List β) α) (b : List β) (a : α) : Prop :=
  ∀ rest : List β, x (b ++ rest) = .ok a rest

/-- From every content that begins with `b`, the reader returns something of `Q` and leaves what
follows. -/
def Returns (x : Effect ε (List β) α) (b : List β) (Q : α → Prop) : Prop :=
  ∀ rest : List β, ∃ a, x (b ++ rest) = .ok a rest ∧ Q a

/-- From no content that begins with `b` the reader returns something of `Q`. -/
def Misses (x : Effect ε (List β) α) (b : List β) (Q : α → Prop) : Prop :=
  ∀ (rest : List β) (a : α) (u : List β), x (b ++ rest) = .ok a u → ¬ Q a

/-- The condition under which something of `Q` comes back. -/
structure ReturnsIff (P : Prop) (x : Effect ε (List β) α) (b : List β) (Q : α → Prop) : Prop where
  returns : P → Returns x b Q
  misses : ¬ P → Misses x b Q

section Rules

variable {x y : Effect ε (List β) α} {b b' : List β} {a : α} {P P' : Prop} {Q : α → Prop}

/-- A value that is read exactly comes back if it is one of those. -/
theorem Reads.returnsIff (h : Reads x b a) : ReturnsIff (Q a) x b Q := by
  refine ⟨fun hQ rest ↦ ⟨a, h rest, hQ⟩, fun hQ rest c u hx ↦ ?_⟩
  rw [h rest] at hx
  cases hx
  exact hQ

/-- A reader that returns nothing of the kind. -/
theorem Misses.returnsIff (h : Misses x b Q) : ReturnsIff False x b Q :=
  ⟨fun hfalse ↦ hfalse.elim, fun _ ↦ h⟩

theorem ReturnsIff.congr (h : ReturnsIff P x b Q) (hP : P' ↔ P) : ReturnsIff P' x b Q :=
  ⟨fun hP' ↦ h.returns (hP.1 hP'), fun hP' ↦ h.misses (mt hP.2 hP')⟩

theorem ReturnsIff.of_iff {Q' : α → Prop} (h : ReturnsIff P x b Q) (hQ : ∀ a, Q' a ↔ Q a) :
    ReturnsIff P x b Q' := by
  have hsame : Q' = Q := funext fun a ↦ propext (hQ a)
  rw [hsame]
  exact h

/-- The condition decides, because there are contents that begin with `b`. -/
theorem ReturnsIff.iff (h : ReturnsIff P x b Q) : Returns x b Q ↔ P := by
  refine ⟨fun hx ↦ by_contra fun hP ↦ ?_, h.returns⟩
  obtain ⟨a, hxa, hQ⟩ := hx []
  exact h.misses hP [] a [] hxa hQ

/-- **A part in front** that is read exactly. -/
theorem ReturnsIff.bind {z : Effect ε (List β) δ} {d : δ} {f : δ → Effect ε (List β) α}
    (hz : Reads z b d) (h : ReturnsIff P (f d) b' Q) : ReturnsIff P (z >>= f) (b ++ b') Q :=
  have hrun (rest : List β) : (z >>= f) (b ++ b' ++ rest) = f d (b' ++ rest) := by
    rw [List.append_assoc, Effect.bind_ok (hz _)]
  ⟨fun hP rest ↦ hrun rest ▸ h.returns hP rest,
    fun hP rest a u hx ↦ h.misses hP rest a u (hrun rest ▸ hx)⟩

/-- A function of the result. -/
theorem ReturnsIff.map {Q : γ → Prop} {g : α → γ} (h : ReturnsIff P x b fun a ↦ Q (g a)) :
    ReturnsIff P (x >>= fun a ↦ (pure (g a) : Effect ε (List β) γ)) b Q := by
  refine ⟨fun hP rest ↦ ?_, fun hP rest c u hx ↦ ?_⟩
  · obtain ⟨a, hxa, hQ⟩ := h.returns hP rest
    exact ⟨g a, Effect.bind_ok hxa, hQ⟩
  · obtain ⟨a, v, hxa, hpure⟩ := Effect.bind_eq_ok.1 hx
    cases hpure
    exact h.misses hP rest a u hxa

theorem Reads.map {g : α → γ} (h : Reads x b a) :
    Reads (x >>= fun a ↦ (pure (g a) : Effect ε (List β) γ)) b (g a) := fun rest ↦
  Effect.bind_ok (h rest)

end Rules

/-! ### Loops -/

/-- A function that may be missing a result is applied to a list. -/
theorem mapM_eq_some {f : γ → Option δ} {cs : List γ} {ds : List δ} :
    cs.mapM f = some ds ↔ cs.map f = ds.map some := by
  induction cs generalizing ds with
  | nil =>
    rw [List.mapM_nil, List.map_nil, eq_comm, eq_comm (a := []), List.map_eq_nil_iff]
    exact Option.some_inj
  | cons c cs ih =>
    rw [List.mapM_cons, List.map_cons]
    constructor
    · intro h
      obtain ⟨d, hd, h⟩ := Option.bind_eq_some_iff.1 h
      obtain ⟨ds', hds, h⟩ := Option.bind_eq_some_iff.1 h
      rw [← Option.some.inj h, hd, ih.1 hds]
      rfl
    · intro h
      cases ds with
      | nil => cases h
      | cons d ds =>
        rw [List.map_cons, List.cons.injEq] at h
        rw [h.1, ih.2 h.2]
        rfl

theorem mem_of_mapM {f : γ → Option δ} {cs : List γ} {ds : List δ} (h : cs.mapM f = some ds)
    {c : γ} {d : δ} (hc : c ∈ cs) (hd : f c = some d) : d ∈ ds := by
  have hmem : f c ∈ ds.map some := mapM_eq_some.1 h ▸ List.mem_map_of_mem hc
  obtain ⟨d', hd', heq⟩ := List.mem_map.1 hmem
  rw [hd, Option.some.injEq] at heq
  exact heq ▸ hd'

theorem exists_mapM {f : γ → Option δ} {cs : List γ} (h : ∀ c ∈ cs, ∃ d, f c = some d) :
    ∃ ds, cs.mapM f = some ds := by
  induction cs with
  | nil => exact ⟨[], rfl⟩
  | cons c cs ih =>
    obtain ⟨d, hd⟩ := h c List.mem_cons_self
    obtain ⟨ds, hds⟩ := ih fun e he ↦ h e (List.mem_cons_of_mem c he)
    exact ⟨d :: ds, by rw [List.mapM_cons, hd, hds]; rfl⟩

section Loop

variable {x : Effect ε (List β) α} {enc : γ → List β} {P : γ → Prop} {Q : γ → α → Prop}

/-- **A counted loop**: all elements come back if and only if each of them does. -/
theorem ReturnsIff.repeatRead {cs : List γ}
    (h : ∀ c ∈ cs, ReturnsIff (P c) x (enc c) (Q c)) :
    ReturnsIff (∀ c ∈ cs, P c) (repeatRead x cs.length) (cs.flatMap enc)
      fun as ↦ List.Forall₂ Q cs as := by
  induction cs with
  | nil => exact ⟨fun _ rest ↦ ⟨[], rfl, .nil⟩, fun hP ↦ (hP (List.forall_mem_nil P)).elim⟩
  | cons c cs ih =>
    have hhead := h c List.mem_cons_self
    have htail := ih fun d hd ↦ h d (List.mem_cons_of_mem c hd)
    refine ⟨fun hP rest ↦ ?_, fun hP rest as u hx hQ ↦ ?_⟩
    · obtain ⟨hPc, hPcs⟩ := List.forall_mem_cons.1 hP
      rw [List.flatMap_cons, List.append_assoc]
      obtain ⟨a, hxa, hQa⟩ := hhead.returns hPc (cs.flatMap enc ++ rest)
      obtain ⟨as, hxas, hQas⟩ := htail.returns hPcs rest
      refine ⟨a :: as, ?_, .cons hQa hQas⟩
      rw [List.length_cons, Machine.repeatRead, Effect.bind_ok hxa, Effect.bind_ok hxas]
      rfl
    · rw [List.flatMap_cons, List.append_assoc, List.length_cons, Machine.repeatRead] at hx
      obtain ⟨a, v, hxa, hx⟩ := Effect.bind_eq_ok.1 hx
      obtain ⟨as', w, hxas, hpure⟩ := Effect.bind_eq_ok.1 hx
      cases hpure
      cases hQ with
      | cons hQa hQas =>
        -- The first element came back, so it was read exactly, and the others were read in place.
        have hPc : P c := by_contra fun hPc ↦ hhead.misses hPc _ _ _ hxa hQa
        obtain ⟨a', hxa', -⟩ := hhead.returns hPc (cs.flatMap enc ++ rest)
        rw [hxa] at hxa'
        cases hxa'
        exact htail.misses (fun hPcs ↦ hP (List.forall_mem_cons.2 ⟨hPc, hPcs⟩)) _ _ _ hxas hQas

end Loop

end Machine
