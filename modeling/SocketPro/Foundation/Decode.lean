import SocketPro.Foundation.Bytes
import SocketPro.Foundation.Effect

/-!
# Readers of the front of a content

A reader is a program on a list that takes what it reads off the front. `Decodes N x b a` is the
contract of a reader and the writer it belongs to: wherever the content begins with `b`, reading
gives `a` and leaves what follows. `N` bounds the length of the contents this is promised for,
because readers with machine-word counters are right only below a limit.

**Rules.** The contract composes along the program: `Decodes.bind` for one part after the other,
`Decodes.repeatRead` for a counted loop. What is read one after the other is written one behind the
other. `DecodesWhen` is the same contract for a value that comes back only under a condition.

`Recognizes N x G` is about contents that nobody vouches for: the reader returns exactly where the
content begins with a text of the grammar `G`, with the value that the grammar gives it. It composes
in the same way, and grammars of readers that are sequenced are concatenated.
-/

namespace Machine

universe u v w

variable {ε : Type u} {β : Type v} {α γ : Type v} {N : ℕ}

/-- From every content below the limit that begins with `b`, the reader returns `a` and leaves
what follows `b`. -/
def Decodes (N : ℕ) (x : Effect ε (List β) α) (b : List β) (a : α) : Prop :=
  ∀ rest : List β, (b ++ rest).length < N → x (b ++ rest) = .ok a rest

theorem Decodes.pure (a : α) : Decodes N (pure a : Effect ε (List β) α) [] a := fun _ _ ↦ rfl

/-- **Sequencing.** -/
theorem Decodes.bind {x : Effect ε (List β) α} {f : α → Effect ε (List β) γ} {b b' : List β} {a : α}
    {c : γ} (hx : Decodes N x b a) (hf : Decodes N (f a) b' c) :
    Decodes N (x >>= f) (b ++ b') c := by
  intro rest hrest
  rw [List.append_assoc] at hrest ⊢
  have hrest' : (b' ++ rest).length < N := by
    rw [List.length_append] at hrest
    omega
  rw [Effect.bind_ok (hx _ hrest), hf _ hrest']

/-- A last part that reads nothing. -/
theorem Decodes.map {x : Effect ε (List β) α} {b : List β} {a : α} (hx : Decodes N x b a)
    (g : α → γ) : Decodes N (x >>= fun a ↦ (Pure.pure (g a) : Effect ε (List β) γ)) b (g a) := by
  intro rest hrest
  rw [Effect.bind_ok (hx _ hrest)]
  rfl

/-- A part that reads nothing may be looked at from any content that begins with `b`. -/
theorem Decodes.of_eq {x y : Effect ε (List β) α} {b : List β} {a : α} (hx : Decodes N x b a)
    (h : ∀ rest : List β, y (b ++ rest) = x (b ++ rest)) : Decodes N y b a := fun rest hrest ↦ by
  rw [h, hx rest hrest]

/-! ### Loops -/

/-- Read `n` times. -/
def repeatRead (x : Effect ε (List β) α) : ℕ → Effect ε (List β) (List α)
  | 0 => Pure.pure []
  | n + 1 => do
    let a ← x
    let as ← repeatRead x n
    Pure.pure (a :: as)

/-- Read with one reader after the other. -/
def readEach {ι : Type w} (x : ι → Effect ε (List β) α) : List ι → Effect ε (List β) (List α)
  | [] => Pure.pure []
  | i :: l => do
    let a ← x i
    let as ← readEach x l
    Pure.pure (a :: as)

theorem readEach_const {ι : Type w} (x : Effect ε (List β) α) (l : List ι) :
    readEach (fun _ ↦ x) l = repeatRead x l.length := by
  induction l with
  | nil => rfl
  | cons i l ih => rw [readEach, ih, List.length_cons, repeatRead]

/-- A counted loop reads one element after the other. -/
theorem Decodes.repeatRead {x : Effect ε (List β) α} {enc : α → List β} {as : List α}
    (hx : ∀ a ∈ as, Decodes N x (enc a) a) :
    Decodes N (repeatRead x as.length) (as.flatMap enc) as := by
  induction as with
  | nil => exact Decodes.pure []
  | cons a as ih =>
    rw [List.flatMap_cons]
    refine (hx a List.mem_cons_self).bind ?_
    exact (ih fun c hc ↦ hx c (List.mem_cons_of_mem a hc)).map fun cs ↦ a :: cs

/-! ### Readers that give a value back under a condition -/

/-- From every content below the limit that begins with `b`, the reader returns `a` exactly if `P`
holds, and then it leaves what follows `b`. -/
def DecodesWhen (N : ℕ) (x : Effect ε (List β) α) (b : List β) (a : α) (P : Prop) : Prop :=
  ∀ rest u : List β, (b ++ rest).length < N → (x (b ++ rest) = .ok a u ↔ P ∧ rest = u)

theorem Decodes.always {x : Effect ε (List β) α} {b : List β} {a : α} (hx : Decodes N x b a) :
    DecodesWhen N x b a True := by
  intro rest u hrest
  rw [hx rest hrest]
  simp

/-- What is read under a condition is read exactly if it holds. -/
theorem DecodesWhen.decodes_iff {x : Effect ε (List β) α} {b : List β} {a : α} {P : Prop}
    (hx : DecodesWhen N x b a P) (hb : b.length < N) : Decodes N x b a ↔ P := by
  constructor
  · intro h
    have hnil : (b ++ []).length < N := by rwa [List.append_nil]
    exact ((hx [] [] hnil).1 (h [] hnil)).1
  · exact fun hP rest hrest ↦ (hx rest rest hrest).2 ⟨hP, rfl⟩

/-- **Sequencing** behind a part that is always read. -/
theorem Decodes.bind_when {x : Effect ε (List β) α} {f : α → Effect ε (List β) γ} {b b' : List β}
    {a : α} {c : γ} {P : Prop} (hx : Decodes N x b a) (hf : DecodesWhen N (f a) b' c P) :
    DecodesWhen N (x >>= f) (b ++ b') c P := by
  intro rest u hrest
  rw [List.append_assoc] at hrest ⊢
  have hrest' : (b' ++ rest).length < N := (List.suffix_append b _).length_le.trans_lt hrest
  rw [Effect.bind_ok (hx _ hrest)]
  exact hf rest u hrest'

/-- A sequence of readers gives all elements back exactly if the condition of each holds. -/
theorem DecodesWhen.readEach {ι : Type w} {x : ι → Effect ε (List β) α} {b : ι → List β} {a : ι → α}
    {P : ι → Prop} {l : List ι} (hx : ∀ i ∈ l, DecodesWhen N (x i) (b i) (a i) (P i)) :
    DecodesWhen N (readEach x l) (l.flatMap b) (l.map a) (∀ i ∈ l, P i) := by
  induction l with
  | nil =>
    intro rest u _
    constructor
    · intro h
      cases h
      exact ⟨nofun, rfl⟩
    · rintro ⟨-, rfl⟩
      rfl
  | cons i l ih =>
    intro rest u hrest
    rw [List.flatMap_cons, List.append_assoc] at hrest ⊢
    have hrest' : (l.flatMap b ++ rest).length < N :=
      (List.suffix_append (b i) _).length_le.trans_lt hrest
    have hhead {t : List β} := hx i List.mem_cons_self _ t hrest
    have htail := ih (fun k hk ↦ hx k (List.mem_cons_of_mem i hk)) rest u hrest'
    rw [Machine.readEach, Effect.bind_eq_ok, List.map_cons, List.forall_mem_cons, and_assoc,
      ← htail]
    constructor
    · rintro ⟨c, t, hc, h⟩
      obtain ⟨cs, t', hcs, h⟩ := Effect.bind_eq_ok.1 h
      cases h
      obtain ⟨hP, rfl⟩ := hhead.1 hc
      exact ⟨hP, hcs⟩
    · rintro ⟨hP, hcs⟩
      refine ⟨a i, _, hhead.2 ⟨hP, rfl⟩, ?_⟩
      rw [Effect.bind_ok hcs]
      rfl

/-- A counted loop gives all elements back exactly if the condition holds of each. -/
theorem DecodesWhen.repeatRead {x : Effect ε (List β) α} {enc : α → List β} {P : α → Prop}
    {as : List α} (hx : ∀ a ∈ as, DecodesWhen N x (enc a) a (P a)) :
    DecodesWhen N (repeatRead x as.length) (as.flatMap enc) as (∀ a ∈ as, P a) := by
  have h := DecodesWhen.readEach hx
  rwa [readEach_const, List.map_id'] at h

/-! ### Grammars -/

/-- **Sound and complete**: below the limit the reader returns exactly where the content begins with
a text of the grammar, and then it has taken just that text. -/
def Recognizes (N : ℕ) (x : Effect ε (List β) α) (G : α → List β → Prop) : Prop :=
  ∀ (c : List β) (a : α) (rest : List β), c.length < N →
    (x c = .ok a rest ↔ ∃ b, c = b ++ rest ∧ G a b)

/-- A text of the first grammar with one of the second behind it. -/
def Sequence (G : α → List β → Prop) (H : α → γ → List β → Prop) (d : γ) (b : List β) : Prop :=
  ∃ (a : α) (b₁ b₂ : List β), b = b₁ ++ b₂ ∧ G a b₁ ∧ H a d b₂

section Recognizes

variable {x : Effect ε (List β) α} {G : α → List β → Prop} {c : List β}

theorem Recognizes.pure (a : α) :
    Recognizes N (pure a : Effect ε (List β) α) fun d b ↦ d = a ∧ b = [] := by
  intro c d rest _
  constructor
  · intro h
    cases h
    exact ⟨[], rfl, rfl, rfl⟩
  · rintro ⟨b, rfl, rfl, rfl⟩
    rfl

theorem Recognizes.congr {H : α → List β → Prop} (hx : Recognizes N x G)
    (h : ∀ a b, G a b ↔ H a b) : Recognizes N x H := fun c a rest hc ↦
  (hx c a rest hc).trans (exists_congr fun b ↦ and_congr_right fun _ ↦ h a b)

/-- **Sequencing.** -/
theorem Recognizes.bind {f : α → Effect ε (List β) γ} {H : α → γ → List β → Prop}
    (hx : Recognizes N x G) (hf : ∀ a, Recognizes N (f a) (H a)) :
    Recognizes N (x >>= f) (Sequence G H) := by
  intro c d rest hc
  rw [Effect.bind_eq_ok]
  constructor
  · rintro ⟨a, u, hxc, hfu⟩
    obtain ⟨b₁, rfl, hb₁⟩ := (hx c a u hc).1 hxc
    have hu : u.length < N := (List.suffix_append b₁ u).length_le.trans_lt hc
    obtain ⟨b₂, rfl, hb₂⟩ := (hf a u d rest hu).1 hfu
    exact ⟨b₁ ++ b₂, (List.append_assoc ..).symm, a, b₁, b₂, rfl, hb₁, hb₂⟩
  · rintro ⟨_, rfl, a, b₁, b₂, rfl, hb₁, hb₂⟩
    rw [List.append_assoc] at hc ⊢
    have hu : (b₂ ++ rest).length < N := (List.suffix_append b₁ _).length_le.trans_lt hc
    exact ⟨a, b₂ ++ rest, (hx _ a _ hc).2 ⟨b₁, rfl, hb₁⟩, (hf a _ d rest hu).2 ⟨b₂, rfl, hb₂⟩⟩

/-- A part that is recognized in front of any other program. -/
theorem Recognizes.bind_eq_ok {f : α → Effect ε (List β) γ} {d : γ} {rest : List β}
    (hx : Recognizes N x G) (hc : c.length < N) :
    (x >>= f) c = .ok d rest ↔ ∃ a b u, c = b ++ u ∧ G a b ∧ f a u = .ok d rest := by
  rw [Effect.bind_eq_ok]
  constructor
  · rintro ⟨a, u, hxc, hfu⟩
    obtain ⟨b, hb, hG⟩ := (hx c a u hc).1 hxc
    exact ⟨a, b, u, hb, hG, hfu⟩
  · rintro ⟨a, b, u, hb, hG, hfu⟩
    exact ⟨a, u, (hx c a u hc).2 ⟨b, hb, hG⟩, hfu⟩

/-- A last part that reads nothing. -/
theorem Recognizes.map (hx : Recognizes N x G) (g : α → γ) :
    Recognizes N (x >>= fun a ↦ (Pure.pure (g a) : Effect ε (List β) γ))
      fun d b ↦ ∃ a, d = g a ∧ G a b := by
  refine (hx.bind fun a ↦ Recognizes.pure (g a)).congr fun d b ↦ ?_
  constructor
  · rintro ⟨a, b₁, _, rfl, hb₁, rfl, rfl⟩
    exact ⟨a, rfl, (List.append_nil b₁).symm ▸ hb₁⟩
  · rintro ⟨a, rfl, hb⟩
    exact ⟨a, b, [], (List.append_nil b).symm, hb, rfl, rfl⟩

/-- A counted loop recognizes as many texts one behind the other. -/
theorem Recognizes.repeatRead (hx : Recognizes N x G) (n : ℕ) :
    Recognizes N (repeatRead x n) fun as b ↦ as.length = n ∧ Bytes.Chunked G as b := by
  induction n with
  | zero =>
    refine (Recognizes.pure []).congr fun as b ↦ ?_
    constructor
    · rintro ⟨rfl, rfl⟩
      exact ⟨rfl, .nil⟩
    · rintro ⟨hlength, hchunked⟩
      obtain rfl := List.length_eq_zero_iff.1 hlength
      cases hchunked
      exact ⟨rfl, rfl⟩
  | succ n ih =>
    refine (hx.bind fun a ↦ ih.map fun as ↦ a :: as).congr fun as b ↦ ?_
    constructor
    · rintro ⟨a, b₁, b₂, rfl, hb₁, as', rfl, rfl, hchunked⟩
      exact ⟨rfl, .cons hb₁ hchunked⟩
    · rintro ⟨hlength, hchunked⟩
      cases hchunked with
      | nil => cases hlength
      | cons hhead htail =>
        exact ⟨_, _, _, rfl, hhead, _, rfl, Nat.succ.inj hlength, htail⟩

/-- The reader returns from a content that begins with a text of the grammar, and from no other. -/
theorem Recognizes.returns (hx : Recognizes N x G) (hc : c.length < N) :
    (∃ a rest, x c = .ok a rest) ↔ ∃ a b rest, c = b ++ rest ∧ G a b := by
  constructor
  · rintro ⟨a, rest, h⟩
    obtain ⟨b, hb⟩ := (hx c a rest hc).1 h
    exact ⟨a, b, rest, hb⟩
  · rintro ⟨a, b, rest, hb⟩
    exact ⟨a, rest, (hx c a rest hc).2 ⟨b, hb⟩⟩

end Recognizes

end Machine
