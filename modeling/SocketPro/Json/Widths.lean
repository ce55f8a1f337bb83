import SocketPro.Foundation.Unicode
import SocketPro.Json.Parser

/-!
# One reader for two widths

`Parse` is a template over the type of the units. Here one text is read twice, as the units of UTF-16
and as the bytes of UTF-8, and the two readings are compared.

**Units that look like others.** Every function looks at whole units but `ExtractString`, which
looks at them through a `char`. A wide unit whose low byte is a quote ends the string, one whose low
byte is a backslash takes the next unit with it, and one whose low byte is a control character makes
the reader fail. A unit is `Plain` if it does none of this; no byte of UTF-8 above the ASCII range
does.

**Texts of plain units are read alike** (`parse_corresponds`). The two readings move over the two
texts side by side: what is left is at any time the same characters in both encodings (`Twin`). The
values they build have the same strings and keys, so two objects are the same map, though not always
in the same order.
-/

namespace SocketPro.Json

open Unicode

/-! ### The two encodings -/

/-- The units of a text in UTF-16. -/
def wide (cs : List Char) : JString := (encodeUTF16 cs).map UInt16.toNat

/-- The bytes of a text in UTF-8. -/
def narrowBytes (cs : List Char) : JString := (encodeUTF8 cs).map UInt8.toNat

/-- `s` and `t` are one text in UTF-16 and in UTF-8. -/
def Encodes (s t : JString) : Prop := ∃ cs, s = wide cs ∧ t = narrowBytes cs

/-- **The two values are the same** but for the encoding of their strings and keys. -/
inductive Corresponds : JValue → JValue → Prop where
  | null : Corresponds .null .null
  | string {s t : JString} (h : Encodes s t) : Corresponds (.string s) (.string t)
  | bool (b : Bool) : Corresponds (.bool b) (.bool b)
  | number (text : JString) : Corresponds (.number text) (.number text)
  | array {vs ws : List JValue} (h : List.Forall₂ Corresponds vs ws) :
    Corresponds (.array vs) (.array ws)
  | object {ms ns : JObject} (hms : ∀ m ∈ ms, ∃ k, Encodes m.1 k) (hns : ∀ m ∈ ns, ∃ k, Encodes k m.1)
    (h : ∀ k k', Encodes k k' → Option.Rel Corresponds (ms.lookup k) (ns.lookup k')) :
    Corresponds (.object ms) (.object ns)
  | int64 (x : ℤ) : Corresponds (.int64 x) (.int64 x)
  | uint64 (n : ℕ) : Corresponds (.uint64 n) (.uint64 n)

/-- The scanner passes over the unit as it is. -/
def Plain (u : ℕ) : Prop :=
  narrow u ≠ code '\\' ∧ narrow u ≠ code '"' ∧ isControl u = false

/-- The units of one character above the ASCII range. -/
structure Pair (us vs : JString) : Prop where
  encodes : Encodes us vs
  nonempty : us ≠ [] ∧ vs ≠ []
  wide : ∀ u ∈ us, 0x80 ≤ u ∧ Plain u
  narrow : ∀ v ∈ vs, 0x80 ≤ v ∧ Plain v

/-- **The same characters in both encodings.** -/
inductive Twin : JString → JString → Prop where
  | nil : Twin [] []
  | ascii {c : ℕ} {s t : JString} (hc : c < 0x80) (h : Twin s t) : Twin (c :: s) (c :: t)
  | other {us vs s t : JString} (hpair : Pair us vs) (h : Twin s t) : Twin (us ++ s) (vs ++ t)

/-! ### Moving side by side -/

variable {s t s' t' : JString}

/-- ASCII characters are the same in both encodings. -/
theorem Twin.self {w : JString} (hw : ∀ c ∈ w, c < 0x80) : Twin w w := by
  induction w with
  | nil => exact .nil
  | cons c w ih =>
    exact .ascii (hw c List.mem_cons_self) (ih fun d hd ↦ hw d (List.mem_cons_of_mem _ hd))

theorem Twin.append {a b : JString} (hab : Twin a b) (h : Twin s t) : Twin (a ++ s) (b ++ t) := by
  induction hab with
  | nil => exact h
  | ascii hc _ ih => exact .ascii hc ih
  | other hpair _ ih =>
    rw [List.append_assoc, List.append_assoc]
    exact .other hpair ih

/-- Both texts end, or both start with one ASCII character, or both with another one. -/
theorem Twin.cases_head (h : Twin s t) :
    (s = [] ∧ t = []) ∨ (∃ c s' t', c < 0x80 ∧ s = c :: s' ∧ t = c :: t' ∧ Twin s' t') ∨
      (s ≠ [] ∧ t ≠ [] ∧ 0x80 ≤ cur s ∧ 0x80 ≤ cur t) := by
  cases h with
  | nil => exact .inl ⟨rfl, rfl⟩
  | @ascii c s t hc h => exact .inr (.inl ⟨c, s, t, hc, rfl, rfl, h⟩)
  | @other us vs s t hpair h =>
    obtain ⟨u, us, rfl⟩ := List.exists_cons_of_ne_nil hpair.nonempty.1
    obtain ⟨v, vs, rfl⟩ := List.exists_cons_of_ne_nil hpair.nonempty.2
    exact .inr (.inr ⟨List.cons_ne_nil _ _, List.cons_ne_nil _ _,
      (hpair.wide u List.mem_cons_self).1, (hpair.narrow v List.mem_cons_self).1⟩)

theorem Twin.cur_eq_iff (h : Twin s t) {c : ℕ} (hc : c < 0x80) : cur s = c ↔ cur t = c := by
  rcases h.cases_head with ⟨rfl, rfl⟩ | ⟨d, s', t', hd, rfl, rfl, h⟩ | ⟨-, -, hs, ht⟩
  · rfl
  · rfl
  · omega

theorem isDigit_lt {c : ℕ} (hc : isDigit c = true) : c < 0x80 := by
  simp only [isDigit, Bool.and_eq_true, decide_eq_true_eq] at hc
  have : code '9' = 57 := rfl
  omega

theorem Twin.isDigit_cur (h : Twin s t) : isDigit (cur s) = isDigit (cur t) := by
  rw [Bool.eq_iff_iff]
  constructor
  · intro hs
    rwa [(h.cur_eq_iff (isDigit_lt hs)).1 rfl]
  · intro ht
    rwa [(h.cur_eq_iff (isDigit_lt ht)).2 rfl]

/-- The same units are passed over on both sides. -/
def Moves (s t s' t' : JString) : Prop := ∃ w, s = w ++ s' ∧ t = w ++ t' ∧ Twin s' t'

theorem Moves.refl (h : Twin s t) : Moves s t s t := ⟨[], rfl, rfl, h⟩

theorem Moves.twin (h : Moves s t s' t') : Twin s' t' := h.choose_spec.2.2

theorem Moves.trans {s'' t'' : JString} (h : Moves s t s' t') (h' : Moves s' t' s'' t'') :
    Moves s t s'' t'' := by
  obtain ⟨w, rfl, rfl, -⟩ := h
  obtain ⟨w', rfl, rfl, h'⟩ := h'
  exact ⟨w ++ w', by simp, by simp, h'⟩

/-- Behind an ASCII character. -/
theorem Moves.tail (h : Twin s t) {c : ℕ} (hcur : cur s = c) (hc : c < 0x80) (h0 : c ≠ 0) :
    Moves s t s.tail t.tail := by
  rcases h.cases_head with ⟨rfl, -⟩ | ⟨d, s', t', hd, rfl, rfl, hrest⟩ | ⟨-, -, hs, -⟩
  · exact absurd hcur.symm h0
  · exact ⟨[d], rfl, rfl, hrest⟩
  · omega

theorem Moves.cons (h : Moves s t s' t') (c : ℕ) : Moves (c :: s) (c :: t) s' t' := by
  obtain ⟨w, rfl, rfl, h⟩ := h
  exact ⟨c :: w, rfl, rfl, h⟩

/-- A loop over ASCII characters of one kind. -/
theorem Moves.dropWhile {p : ℕ → Bool} (hp : ∀ c, p c = true → c < 0x80) (h : Twin s t) :
    Moves s t (s.dropWhile p) (t.dropWhile p) := by
  induction h with
  | nil => exact .refl .nil
  | @ascii c s t hc h ih =>
    rw [List.dropWhile_cons, List.dropWhile_cons]
    split
    · exact ih.cons c
    · exact .refl (.ascii hc h)
  | @other us vs s t hpair h ih =>
    have htwin := Twin.other hpair h
    obtain ⟨u, us, rfl⟩ := List.exists_cons_of_ne_nil hpair.nonempty.1
    obtain ⟨v, vs, rfl⟩ := List.exists_cons_of_ne_nil hpair.nonempty.2
    have hu : ¬ p u = true := fun hu ↦ by
      have := hp u hu
      have := (hpair.wide u List.mem_cons_self).1
      omega
    have hv : ¬ p v = true := fun hv ↦ by
      have := hp v hv
      have := (hpair.narrow v List.mem_cons_self).1
      omega
    rw [List.cons_append, List.cons_append, List.dropWhile_cons_of_neg hu,
      List.dropWhile_cons_of_neg hv]
    exact .refl htwin

/-- A word of ASCII characters is found on both sides or on neither. -/
theorem Twin.prefix_iff {w : JString} (hw : ∀ c ∈ w, c < 0x80) (h : Twin s t) :
    w <+: s ↔ w <+: t := by
  induction w generalizing s t with
  | nil => simp
  | cons c w ih =>
    have hc := hw c List.mem_cons_self
    rcases h.cases_head with ⟨rfl, rfl⟩ | ⟨d, s', t', hd, rfl, rfl, hrest⟩ | ⟨hs, ht, hs', ht'⟩
    · simp
    · rw [List.cons_prefix_cons, List.cons_prefix_cons,
        ih (fun d hd ↦ hw d (List.mem_cons_of_mem _ hd)) hrest]
    · obtain ⟨u, s', rfl⟩ := List.exists_cons_of_ne_nil hs
      obtain ⟨v, t', rfl⟩ := List.exists_cons_of_ne_nil ht
      simp only [cur, List.headD_cons] at hs' ht'
      rw [List.cons_prefix_cons, List.cons_prefix_cons]
      exact iff_of_false (fun h ↦ by omega) fun h ↦ by omega

theorem Twin.drop_prefix {w : JString} (hw : ∀ c ∈ w, c < 0x80) (h : Twin s t) (hs : w <+: s) :
    Twin (s.drop w.length) (t.drop w.length) := by
  induction w generalizing s t with
  | nil => exact h
  | cons c w ih =>
    have hc := hw c List.mem_cons_self
    obtain ⟨r, rfl⟩ := hs
    rcases h.cases_head with ⟨hnil, -⟩ | ⟨d, s', t', hd, hs, rfl, hrest⟩ | ⟨-, -, hs', -⟩
    · exact nomatch hnil
    · obtain ⟨rfl, rfl⟩ := List.cons.inj hs
      exact ih (fun d hd ↦ hw d (List.mem_cons_of_mem _ hd)) hrest (List.prefix_append w r)
    · simp only [cur, List.cons_append, List.headD_cons] at hs'
      omega

/-! ### Two partial functions -/

theorem rel_bind {α β γ δ : Type} {R : α → β → Prop} {S : γ → δ → Prop} {o : Option α}
    {o' : Option β} {f : α → Option γ} {g : β → Option δ} (h : Option.Rel R o o')
    (hfg : ∀ a b, R a b → Option.Rel S (f a) (g b)) : Option.Rel S (o.bind f) (o'.bind g) := by
  cases h with
  | some h => exact hfg _ _ h
  | none => exact .none

theorem rel_ite {α β : Type} {R : α → β → Prop} {p q : Prop} [Decidable p] [Decidable q]
    {a b : Option α} {a' b' : Option β} (hpq : p ↔ q) (hthen : p → Option.Rel R a a')
    (helse : ¬ p → Option.Rel R b b') :
    Option.Rel R (if p then a else b) (if q then a' else b') := by
  by_cases hp : p
  · rw [if_pos hp, if_pos (hpq.1 hp)]
    exact hthen hp
  · rw [if_neg hp, if_neg fun hq ↦ hp (hpq.2 hq)]
    exact helse hp

/-! ### Scanning -/

theorem isSpace_lt {c : ℕ} (hc : isSpace c = true) : c < 0x80 := by
  simp only [isSpace, Bool.or_eq_true, decide_eq_true_eq] at hc
  rcases hc with ((rfl | rfl) | rfl) | rfl <;> decide

theorem skipWhitespace_twin (h : Twin s t) :
    Option.Rel Twin (skipWhitespace s) (skipWhitespace t) := by
  have hrest := (Moves.dropWhile (p := isSpace) (fun c hc ↦ isSpace_lt hc) h).twin
  rw [skipWhitespace, skipWhitespace]
  rcases hrest.cases_head with ⟨hs, ht⟩ | ⟨c, s', t', -, hs, ht, -⟩ | ⟨hs, ht, -, -⟩
  · rw [hs, ht]
    exact .none
  · rw [hs, ht] at hrest ⊢
    exact .some hrest
  · obtain ⟨u, s', hs⟩ := List.exists_cons_of_ne_nil hs
    obtain ⟨v, t', ht⟩ := List.exists_cons_of_ne_nil ht
    rw [hs, ht] at hrest ⊢
    exact .some hrest

/-- Plain units are passed over. -/
theorem extractString_plain_append {us : JString} (hus : ∀ u ∈ us, Plain u) (data : JString) :
    extractString (us ++ data) = prepend us (extractString data) := by
  induction us with
  | nil =>
    rw [List.nil_append, prepend]
    cases extractString data <;> rfl
  | cons u us ih =>
    obtain ⟨hbackslash, hquote, hcontrol⟩ := hus u List.mem_cons_self
    rw [List.cons_append, extractString_plain hbackslash hquote hcontrol,
      ih fun v hv ↦ hus v (List.mem_cons_of_mem _ hv)]
    cases extractString data <;> rfl

/-- The two readings of a string and of what stands behind it. -/
def TwinRest (r r' : JString × JString) : Prop := Twin r.1 r'.1 ∧ Twin r.2 r'.2

theorem prepend_twin {a b : JString} (hab : Twin a b) {o o' : Option (JString × JString)}
    (h : Option.Rel TwinRest o o') : Option.Rel TwinRest (prepend a o) (prepend b o') := by
  cases h with
  | some h => exact .some ⟨hab.append h.1, h.2⟩
  | none => exact .none

theorem narrow_of_ascii {c : ℕ} (hc : c < 0x80) : narrow c = c :=
  Nat.mod_eq_of_lt (by omega)

theorem isSimpleEscape_lt {c : ℕ} (hc : isSimpleEscape c = true) : c < 0x80 := by
  simp only [isSimpleEscape, Bool.or_eq_true, decide_eq_true_eq] at hc
  rcases hc with ((((((rfl | rfl) | rfl) | rfl) | rfl) | rfl) | rfl) | rfl <;> decide

theorem isHex_lt {c : ℕ} (hc : isHex c = true) : c < 0x80 := by
  have h9 : code '9' = 57 := rfl
  have hF : code 'F' = 70 := rfl
  have hf : code 'f' = 102 := rfl
  simp only [isHex, isDigit, Bool.or_eq_true, Bool.and_eq_true, decide_eq_true_eq] at hc
  omega

/-- Four hexadecimal digits. -/
def Hex4 (w : JString) : Prop := w.length = 4 ∧ ∀ c ∈ w, isHex c = true

theorem exists_hex4 {w : JString} (hw : Hex4 w) :
    ∃ h₁ h₂ h₃ h₄, w = [h₁, h₂, h₃, h₄] ∧
      (isHex h₁ && isHex h₂ && isHex h₃ && isHex h₄) = true := by
  obtain ⟨hlength, hhex⟩ := hw
  match w, hlength with
  | [h₁, h₂, h₃, h₄], _ =>
    refine ⟨h₁, h₂, h₃, h₄, rfl, ?_⟩
    simp [hhex h₁, hhex h₂, hhex h₃, hhex h₄]

/-- A backslash and a `u` without four hexadecimal digits. -/
theorem extractString_not_hex {c : ℕ} (hc : narrow c = code '\\') {data : JString}
    (hdata : ¬ ∃ w, Hex4 w ∧ w <+: data) : extractString (c :: code 'u' :: data) = none := by
  have hu : isSimpleEscape (code 'u') = false := by decide
  rw [extractString.eq_def]
  simp only [hc, hu, if_true, if_false, Bool.false_eq_true]
  split
  · rename_i h₁ h₂ h₃ h₄ rest
    split
    · rename_i hhex
      refine absurd ⟨[h₁, h₂, h₃, h₄], ⟨rfl, ?_⟩, rest, rfl⟩ hdata
      simpa [and_assoc] using hhex
    · rfl
  · rfl

theorem extractString_no_escape {c e : ℕ} (hc : narrow c = code '\\')
    (he : isSimpleEscape e = false) (hu : e ≠ code 'u') (data : JString) :
    extractString (c :: e :: data) = none := by
  rw [extractString.eq_def]
  simp [hc, he, hu]

/-- Behind a backslash. -/
theorem extractString_backslash_twin (h : Twin s t)
    (ih : ∀ {s' t' : JString}, s'.length ≤ s.length → Twin s' t' →
      Option.Rel TwinRest (extractString s') (extractString t')) :
    Option.Rel TwinRest (extractString (code '\\' :: s)) (extractString (code '\\' :: t)) := by
  have hc : narrow (code '\\') = code '\\' := rfl
  rcases h.cases_head with ⟨rfl, rfl⟩ | ⟨e, s', t', he, rfl, rfl, hrest⟩ | ⟨hs, ht, hs', ht'⟩
  · exact .none
  · by_cases hsimple : isSimpleEscape e = true
    · rw [extractString_simple hc hsimple, extractString_simple hc hsimple]
      refine prepend_twin (.self ?_) (ih (by simp) hrest)
      intro d hd
      rcases List.mem_cons.1 hd with rfl | hd
      · decide
      · rcases List.mem_singleton.1 hd
        exact he
    · by_cases hu : e = code 'u'
      · subst hu
        by_cases hhex : ∃ w, Hex4 w ∧ w <+: s'
        · obtain ⟨w, hw, hprefix⟩ := hhex
          have hw' : ∀ c ∈ w, c < 0x80 := fun c hc ↦ isHex_lt (hw.2 c hc)
          have hdrop := hrest.drop_prefix hw' hprefix
          have hprefix' := (hrest.prefix_iff hw').1 hprefix
          obtain ⟨h₁, h₂, h₃, h₄, rfl, hall⟩ := exists_hex4 hw
          obtain ⟨r, rfl⟩ := hprefix
          obtain ⟨r', rfl⟩ := hprefix'
          have hr : Twin r r' := hdrop
          have hunicode (data : JString) := extractString_unicode hc hall data
          simp only [List.cons_append, List.nil_append]
          rw [hunicode, hunicode]
          have hlength : List.length r ≤ (code 'u' :: ([h₁, h₂, h₃, h₄] ++ r)).length := by
            simp only [List.length_cons, List.length_append, List.length_nil]
            omega
          refine prepend_twin (.self ?_) (ih hlength hr)
          intro d hd
          rcases List.mem_cons.1 hd with rfl | hd
          · decide
          · rcases List.mem_cons.1 hd with rfl | hd
            · decide
            · exact hw' d hd
        · have hhex' : ¬ ∃ w, Hex4 w ∧ w <+: t' := by
            rintro ⟨w, hw, hprefix⟩
            exact hhex ⟨w, hw,
              (hrest.prefix_iff fun c hc ↦ isHex_lt (hw.2 c hc)).2 hprefix⟩
          rw [extractString_not_hex hc hhex, extractString_not_hex hc hhex']
          exact .none
      · rw [extractString_no_escape hc (by simpa using hsimple) hu,
          extractString_no_escape hc (by simpa using hsimple) hu]
        exact .none
  · have hnone {data : JString} (hne : data ≠ []) (hdata : 0x80 ≤ cur data) :
        extractString (code '\\' :: data) = none := by
      obtain ⟨e, data, rfl⟩ := List.exists_cons_of_ne_nil hne
      have he : 0x80 ≤ e := hdata
      refine extractString_no_escape hc ?_ ?_ data
      · rw [Bool.eq_false_iff]
        intro hsimple
        have := isSimpleEscape_lt hsimple
        omega
      · rintro rfl
        exact absurd he (by decide)
    rw [hnone hs hs', hnone ht ht']
    exact .none

/-- **The string and what is behind it** are the same in both encodings. -/
theorem extractString_twin (h : Twin s t) :
    Option.Rel TwinRest (extractString s) (extractString t) := by
  induction hn : s.length using Nat.strong_induction_on generalizing s t with
  | _ n ih =>
    cases h with
    | nil => exact .none
    | @ascii c s t hc h =>
      have ih {s' t' : JString} (hle : s'.length ≤ s.length) (h' : Twin s' t') :
          Option.Rel TwinRest (extractString s') (extractString t') :=
        ih s'.length (by rw [← hn, List.length_cons]; omega) h' rfl
      have hnarrow := narrow_of_ascii hc
      by_cases hbackslash : c = code '\\'
      · subst hbackslash
        exact extractString_backslash_twin h ih
      · by_cases hquote : c = code '"'
        · have hquote' : narrow c = code '"' := hnarrow.trans hquote
          rw [extractString_quote hquote', extractString_quote hquote']
          exact .some ⟨.nil, h⟩
        · by_cases hcontrol : isControl c = true
          · have hnone (data : JString) : extractString (c :: data) = none := by
              rw [extractString.eq_def]
              simp [hnarrow, hbackslash, hquote, hcontrol]
            rw [hnone, hnone]
            exact .none
          · have hplain (data : JString) := extractString_plain (by rw [hnarrow]; exact hbackslash)
              (by rw [hnarrow]; exact hquote) (by simpa using hcontrol) data
            rw [hplain, hplain]
            exact prepend_twin (.ascii hc .nil) (ih le_rfl h)
    | @other us vs s t hpair h =>
      rw [extractString_plain_append fun u hu ↦ (hpair.wide u hu).2,
        extractString_plain_append fun v hv ↦ (hpair.narrow v hv).2]
      have hus := List.length_pos_iff.2 hpair.nonempty.1
      have hab : Twin us vs := by simpa using Twin.other hpair .nil
      exact prepend_twin hab (ih s.length (by rw [← hn, List.length_append]; omega) h rfl)

/-! ### Numbers -/

/-- The same was read on both sides, from the same units. -/
def SameRest {α : Type} (s t : JString) (r r' : α × JString) : Prop :=
  r.1 = r'.1 ∧ Moves s t r.2 r'.2

theorem Moves.trans_rel {o o' : Option JString} (h : Moves s t s' t')
    (ho : Option.Rel (Moves s' t') o o') : Option.Rel (Moves s t) o o' := by
  cases ho with
  | some h' => exact .some (h.trans h')
  | none => exact .none

theorem readDigits_twin {α : Type} (accumulate : α → ℕ → α) (x : α) (h : Twin s t) :
    SameRest s t (readDigits accumulate x s) (readDigits accumulate x t) := by
  induction h generalizing x with
  | nil => exact ⟨rfl, .refl .nil⟩
  | @ascii c s t hc h ih =>
    rw [readDigits, readDigits]
    split
    · exact ⟨(ih _).1, (ih _).2.cons c⟩
    · exact ⟨rfl, .refl (.ascii hc h)⟩
  | @other us vs s t hpair h ih =>
    have htwin := Twin.other hpair h
    have hstop {w : JString} (hne : w ≠ []) (hw : ∀ u ∈ w, 0x80 ≤ u ∧ Plain u) (data : JString) :
        readDigits accumulate x (w ++ data) = (x, w ++ data) := by
      obtain ⟨u, w, rfl⟩ := List.exists_cons_of_ne_nil hne
      have hu : ¬ isDigit u = true := fun hu ↦ by
        have := isDigit_lt hu
        have := (hw u List.mem_cons_self).1
        omega
      rw [List.cons_append, readDigits, if_neg hu]
    rw [hstop hpair.nonempty.1 hpair.wide, hstop hpair.nonempty.2 hpair.narrow]
    exact ⟨rfl, .refl htwin⟩

theorem skipDigits_twin (h : Twin s t) : Option.Rel (Moves s t) (skipDigits s) (skipDigits t) := by
  rw [skipDigits, skipDigits]
  refine rel_ite (by rw [h.isDigit_cur]) (fun _ ↦ .some ?_) fun _ ↦ .none
  exact .dropWhile (fun c hc ↦ isDigit_lt hc) h

theorem skipFraction_twin (h : Twin s t) :
    Option.Rel (Moves s t) (skipFraction s) (skipFraction t) := by
  rw [skipFraction, skipFraction]
  refine rel_ite (h.cur_eq_iff (by decide)) (fun hpoint ↦ ?_) fun _ ↦ .some (.refl h)
  have htail := Moves.tail h hpoint (by decide) (by decide)
  exact htail.trans_rel (skipDigits_twin htail.twin)

/-- One of the two characters that may stand here. -/
theorem Twin.cur_or_iff (h : Twin s t) {c d : ℕ} (hc : c < 0x80) (hd : d < 0x80) :
    (cur s = c ∨ cur s = d) ↔ cur t = c ∨ cur t = d :=
  or_congr (h.cur_eq_iff hc) (h.cur_eq_iff hd)

theorem Moves.tail_or (h : Twin s t) {c d : ℕ} (hcur : cur s = c ∨ cur s = d) (hc : c < 0x80)
    (hd : d < 0x80) (hc0 : c ≠ 0) (hd0 : d ≠ 0) : Moves s t s.tail t.tail := by
  rcases hcur with hcur | hcur
  · exact Moves.tail h hcur hc hc0
  · exact Moves.tail h hcur hd hd0

theorem skipExponent_twin (h : Twin s t) :
    Option.Rel (Moves s t) (skipExponent s) (skipExponent t) := by
  rw [skipExponent, skipExponent]
  refine rel_ite (h.cur_or_iff (by decide) (by decide)) (fun hexp ↦ ?_) fun _ ↦ .some (.refl h)
  have htail := Moves.tail_or h hexp (by decide) (by decide) (by decide) (by decide)
  refine rel_ite (htail.twin.cur_or_iff (by decide) (by decide)) (fun hsign ↦ ?_) fun _ ↦ ?_
  · have htail' := Moves.tail_or htail.twin hsign (by decide) (by decide) (by decide) (by decide)
    exact (htail.trans htail').trans_rel (skipDigits_twin htail'.twin)
  · exact htail.trans_rel (skipDigits_twin htail.twin)

theorem parseInteger_twin (neg : Bool) (h : Twin s t) :
    Option.Rel (SameRest s t) (parseInteger neg s) (parseInteger neg t) := by
  rw [parseInteger, parseInteger]
  refine rel_ite (h.cur_eq_iff (by decide)) (fun hzero ↦ ?_) fun _ ↦ ?_
  · exact .some ⟨rfl, .tail h hzero (by decide) (by decide)⟩
  · refine rel_ite (by rw [h.isDigit_cur]) (fun _ ↦ ?_) fun _ ↦ .none
    cases neg with
    | true =>
      have hread := readDigits_twin (fun x d ↦ wrap64 (x * 10 + d)) 0 h
      refine .some ⟨?_, hread.2⟩
      exact congrArg (fun x ↦ ofInt64 (wrap64 (-x))) hread.1
    | false =>
      have hread := readDigits_twin (fun x d ↦ (x * 10 + d) % 2 ^ 64) 0 h
      exact .some ⟨congrArg JValue.uint64 hread.1, hread.2⟩

/-- What was passed over. -/
theorem Moves.take_eq (h : Moves s t s' t') :
    s.take (s.length - s'.length) = t.take (t.length - t'.length) := by
  obtain ⟨w, rfl, rfl, -⟩ := h
  simp

/-- A number is read alike, down to its text. -/
theorem parseNumber_twin (h : Twin s t) :
    Option.Rel (SameRest s t) (parseNumber s) (parseNumber t) := by
  have hneg : decide (cur s = code '-') = decide (cur t = code '-') :=
    decide_eq_decide.2 (h.cur_eq_iff (by decide))
  have hstart : Moves s t (if decide (cur s = code '-') then s.tail else s)
      (if decide (cur t = code '-') then t.tail else t) := by
    rw [← hneg]
    by_cases hminus : cur s = code '-'
    · rw [decide_eq_true hminus, if_pos rfl, if_pos rfl]
      exact .tail h hminus (by decide) (by decide)
    · rw [decide_eq_false hminus, if_neg (by decide), if_neg (by decide)]
      exact .refl h
  have hinteger := parseInteger_twin (decide (cur s = code '-')) hstart.twin
  rw [parseNumber, parseNumber]
  simp only [Option.bind_eq_bind, ← hneg]
  rw [← hneg] at hinteger hstart
  refine rel_bind hinteger ?_
  rintro ⟨value, rest⟩ ⟨value', rest'⟩ ⟨rfl, hrest⟩
  refine rel_ite (or_congr (hrest.twin.cur_eq_iff (by decide))
    (hrest.twin.cur_or_iff (by decide) (by decide))) (fun _ ↦ ?_) fun _ ↦ ?_
  · refine rel_bind (skipFraction_twin hrest.twin) fun r r' hr ↦ ?_
    refine rel_bind (skipExponent_twin hr.twin) fun q q' hq ↦ ?_
    have hall := ((hstart.trans hrest).trans hr).trans hq
    exact .some ⟨congrArg JValue.number hall.take_eq, hall⟩
  · exact .some ⟨rfl, hstart.trans hrest⟩

/-! ### Encoded texts -/

theorem encodeUTF16_append (cs ds : List Char) :
    encodeUTF16 (cs ++ ds) = encodeUTF16 cs ++ encodeUTF16 ds := List.flatMap_append

theorem encodeUTF8_append (cs ds : List Char) :
    encodeUTF8 (cs ++ ds) = encodeUTF8 cs ++ encodeUTF8 ds := List.flatMap_append

theorem wide_append (cs ds : List Char) : wide (cs ++ ds) = wide cs ++ wide ds := by
  rw [wide, wide, wide, encodeUTF16_append, List.map_append]

theorem narrowBytes_append (cs ds : List Char) :
    narrowBytes (cs ++ ds) = narrowBytes cs ++ narrowBytes ds := by
  rw [narrowBytes, narrowBytes, narrowBytes, encodeUTF8_append, List.map_append]

/-- A text has one encoding. -/
theorem Encodes.eq_iff {k k' j j' : JString} (hk : Encodes k k') (hj : Encodes j j') :
    k = j ↔ k' = j' := by
  obtain ⟨cs, rfl, rfl⟩ := hk
  obtain ⟨ds, rfl, rfl⟩ := hj
  constructor
  · intro h
    have h := List.map_injective_iff.2 (fun _ _ ↦ UInt16.toNat.inj) h
    rw [← decodeUTF16_encodeUTF16 cs, h, decodeUTF16_encodeUTF16]
  · intro h
    have h := List.map_injective_iff.2 (fun _ _ ↦ UInt8.toNat.inj) h
    rw [← decodeUTF8_encodeUTF8 cs, h, decodeUTF8_encodeUTF8]

theorem toNat_of_ascii {c : ℕ} (hc : c < 0x80) : (Char.ofNat c).toNat = c :=
  toNat_ofNat_of_valid (.inl (by omega))

theorem wide_ascii {c : Char} (hc : c.toNat < 0x80) : wide [c] = [c.toNat] := by
  rw [wide, encodeUTF16, List.flatMap_singleton, encodeUTF16Char, if_pos (by omega)]
  simp only [List.map_cons, List.map_nil, UInt16.toNat_ofNat', List.cons.injEq, and_true]
  exact Nat.mod_eq_of_lt (by omega)

theorem narrowBytes_ascii {c : Char} (hc : c.toNat < 0x80) : narrowBytes [c] = [c.toNat] := by
  have hle : c.val.toNat ≤ 0x7f := by
    have : c.toNat = c.val.toNat := rfl
    omega
  rw [narrowBytes, encodeUTF8, List.flatMap_singleton, String.utf8EncodeChar, if_pos hle]
  simp only [List.map_cons, List.map_nil, UInt8.toNat_ofNat', List.cons.injEq, and_true]
  exact Nat.mod_eq_of_lt (by omega)

theorem Twin.encodes (h : Twin s t) : Encodes s t := by
  induction h with
  | nil => exact ⟨[], rfl, rfl⟩
  | @ascii c s t hc h ih =>
    obtain ⟨cs, rfl, rfl⟩ := ih
    have hnat := toNat_of_ascii hc
    refine ⟨[Char.ofNat c] ++ cs, ?_, ?_⟩
    · rw [wide_append, wide_ascii (by omega), hnat]
      rfl
    · rw [narrowBytes_append, narrowBytes_ascii (by omega), hnat]
      rfl
  | @other us vs s t hpair h ih =>
    obtain ⟨cs, rfl, rfl⟩ := hpair.encodes
    obtain ⟨ds, rfl, rfl⟩ := ih
    exact ⟨cs ++ ds, (wide_append cs ds).symm, (narrowBytes_append cs ds).symm⟩

/-! ### Values -/

theorem lookup_cons_eq (m : JString × JValue) (ms : JObject) (k : JString) :
    List.lookup k (m :: ms) = if k = m.1 then some m.2 else ms.lookup k := by
  rw [List.lookup_cons]
  by_cases hk : k = m.1
  · rw [if_pos hk, beq_iff_eq.2 hk]
  · rw [if_neg hk, beq_false_of_ne hk]

theorem lookup_set (ms : JObject) (key k : JString) (v : JValue) :
    (ms.set key v).lookup k = if k = key then some v else ms.lookup k := by
  induction ms with
  | nil => exact lookup_cons_eq (key, v) [] k
  | cons m ms ih =>
    rw [JObject.set]
    split
    · exact lookup_cons_eq (key, v) (m :: ms) k
    · split
      · rename_i hkey
        rw [lookup_cons_eq, lookup_cons_eq, ← hkey]
        by_cases hk : k = key
        · rw [if_pos hk, if_pos hk]
        · rw [if_neg hk, if_neg hk, if_neg hk]
      · rename_i hkey
        rw [lookup_cons_eq, lookup_cons_eq, ih]
        by_cases hk : k = m.1
        · rw [if_pos hk, if_pos hk, if_neg fun h ↦ hkey (h.symm.trans hk)]
        · rw [if_neg hk, if_neg hk]

theorem mem_set {ms : JObject} {key : JString} {v : JValue} {m : JString × JValue}
    (hm : m ∈ ms.set key v) : m = (key, v) ∨ m ∈ ms := by
  induction ms with
  | nil => exact .inl (List.mem_singleton.1 hm)
  | cons m' ms ih =>
    rw [JObject.set] at hm
    split at hm
    · exact List.mem_cons.1 hm
    · split at hm
      · exact (List.mem_cons.1 hm).imp_right (List.mem_cons_of_mem _)
      · rcases List.mem_cons.1 hm with rfl | hm
        · exact .inr List.mem_cons_self
        · exact (ih hm).imp_right (List.mem_cons_of_mem _)

/-- **The two maps are the same** but for the encoding. -/
structure SameMap (ms ns : JObject) : Prop where
  wide : ∀ m ∈ ms, ∃ k, Encodes m.1 k
  narrow : ∀ m ∈ ns, ∃ k, Encodes k m.1
  lookup : ∀ k k', Encodes k k' → Option.Rel Corresponds (ms.lookup k) (ns.lookup k')

variable {ms ns : JObject}

theorem SameMap.corresponds (h : SameMap ms ns) : Corresponds (.object ms) (.object ns) :=
  .object h.wide h.narrow h.lookup

theorem SameMap.nil : SameMap [] [] where
  wide := by simp
  narrow := by simp
  lookup _ _ _ := .none

theorem SameMap.set (h : SameMap ms ns) {k k' : JString} (hk : Encodes k k') {v w : JValue}
    (hv : Corresponds v w) : SameMap (ms.set k v) (ns.set k' w) where
  wide m hm := by
    rcases mem_set hm with rfl | hm
    · exact ⟨k', hk⟩
    · exact h.wide m hm
  narrow m hm := by
    rcases mem_set hm with rfl | hm
    · exact ⟨k, hk⟩
    · exact h.narrow m hm
  lookup j j' hj := by
    rw [lookup_set, lookup_set]
    refine rel_ite (hj.eq_iff hk) (fun _ ↦ .some hv) fun _ ↦ h.lookup j j' hj

/-- One is empty if the other is. -/
theorem SameMap.isEmpty_eq (h : SameMap ms ns) : ms.isEmpty = ns.isEmpty := by
  cases ms with
  | nil =>
    cases ns with
    | nil => rfl
    | cons n ns =>
      obtain ⟨k, hk⟩ := h.narrow n List.mem_cons_self
      have hlookup := h.lookup k n.1 hk
      rw [List.lookup_nil, List.lookup_cons_self] at hlookup
      exact nomatch hlookup
  | cons m ms =>
    cases ns with
    | nil =>
      obtain ⟨k, hk⟩ := h.wide m List.mem_cons_self
      have hlookup := h.lookup m.1 k hk
      rw [List.lookup_nil, List.lookup_cons_self] at hlookup
      exact nomatch hlookup
    | cons n ns => rfl

theorem isEmpty_eq_of_forall₂ {α β : Type} {R : α → β → Prop} {vs : List α} {ws : List β}
    (h : List.Forall₂ R vs ws) : vs.isEmpty = ws.isEmpty := by
  cases h <;> rfl

/-- The two values that were read, and what stands behind them. -/
def ValueRest (r r' : JValue × JString) : Prop := Corresponds r.1 r'.1 ∧ Twin r.2 r'.2

theorem parseNumber_corresponds (h : Twin s t) :
    Option.Rel ValueRest (parseNumber s) (parseNumber t) := by
  have hrel := parseNumber_twin h
  have hkind (r : JValue × JString) (hs : parseNumber s = some r) := (parseNumber_some hs).2
  revert hkind
  generalize parseNumber s = o at hrel
  generalize parseNumber t = o' at hrel
  intro hkind
  cases hrel with
  | none => exact .none
  | @some r r' hr =>
    refine .some ⟨?_, hr.2.twin⟩
    rw [← hr.1]
    rcases hkind r rfl with ⟨n, hn⟩ | ⟨x, hx⟩ | ⟨text, htext⟩
    · exact hn ▸ .uint64 n
    · exact hx ▸ .int64 x
    · exact htext ▸ .number text

/-- A word and the value it stands for. -/
theorem word_twin {w : JString} (hw : ∀ c ∈ w, c < 0x80) (h : Twin s t) {v : JValue}
    (hv : Corresponds v v) {o o' : Option (JValue × JString)}
    (ho : ¬ w <+: s → Option.Rel ValueRest o o') :
    Option.Rel ValueRest (if w <+: s then some (v, s.drop w.length) else o)
      (if w <+: t then some (v, t.drop w.length) else o') :=
  rel_ite (h.prefix_iff hw) (fun hs ↦ .some ⟨hv, h.drop_prefix hw hs⟩) ho

/-- What the loops do behind a value, given what they do at the next turn. -/
theorem close_or_next {close : ℕ} (hclose : close < 0x80) (hclose0 : close ≠ 0) {v w : JValue}
    (hv : Corresponds v w) {next next' : JString → Option (JValue × JString)} (h : Twin s t)
    (hnext : ∀ {s t}, Twin s t → Option.Rel ValueRest (next s) (next' t)) :
    Option.Rel ValueRest
      ((skipWhitespace s).bind fun d ↦ if cur d = close then some (v, d.tail)
        else if cur d = code ',' then next d.tail else none)
      ((skipWhitespace t).bind fun d ↦ if cur d = close then some (w, d.tail)
        else if cur d = code ',' then next' d.tail else none) := by
  refine rel_bind (skipWhitespace_twin h) fun d d' hd ↦ ?_
  refine rel_ite (hd.cur_eq_iff hclose) (fun hcur ↦ ?_) fun _ ↦ ?_
  · exact .some ⟨hv, (Moves.tail hd hcur hclose hclose0).twin⟩
  · refine rel_ite (hd.cur_eq_iff (by decide)) (fun hcomma ↦ ?_) fun _ ↦ .none
    exact hnext (Moves.tail hd hcomma (by decide) (by decide)).twin

/-- **Both readings take the same way** through the reader. -/
theorem parse_twin (n : ℕ) :
    (∀ {s t}, Twin s t → Option.Rel ValueRest (parseStr n s) (parseStr n t)) ∧
    (∀ {ms ns s t}, SameMap ms ns → Twin s t →
      Option.Rel ValueRest (parseMembers n ms s) (parseMembers n ns t)) ∧
    (∀ {vs ws s t}, List.Forall₂ Corresponds vs ws → Twin s t →
      Option.Rel ValueRest (parseElems n vs s) (parseElems n ws t)) := by
  induction n with
  | zero =>
    refine ⟨fun _ ↦ ?_, fun _ _ ↦ ?_, fun _ _ ↦ ?_⟩
    · rw [parseStr, parseStr]
      exact .none
    · rw [parseMembers, parseMembers]
      exact .none
    · rw [parseElems, parseElems]
      exact .none
  | succ n ih =>
    obtain ⟨ihStr, ihMembers, ihElems⟩ := ih
    refine ⟨fun h ↦ ?_, fun hms h ↦ ?_, fun hvs h ↦ ?_⟩
    · rw [parseStr, parseStr]
      refine rel_ite (h.cur_eq_iff (by decide)) (fun hquote ↦ ?_) fun _ ↦ ?_
      · have hbody := extractString_twin (Moves.tail h hquote (by decide) (by decide)).twin
        simp only [Option.map_eq_bind]
        exact rel_bind hbody fun r r' hr ↦ .some ⟨.string hr.1.encodes, hr.2⟩
      · refine word_twin (w := jFalse) (by decide) h (.bool false) fun _ ↦ ?_
        refine word_twin (w := jTrue) (by decide) h (.bool true) fun _ ↦ ?_
        refine word_twin (w := jNull) (by decide) h .null fun _ ↦ ?_
        refine rel_ite (or_congr (h.cur_eq_iff (by decide)) (by rw [h.isDigit_cur]))
          (fun _ ↦ parseNumber_corresponds h) fun _ ↦ ?_
        refine rel_ite (h.cur_eq_iff (by decide)) (fun hbrace ↦ ?_) fun _ ↦ ?_
        · exact ihMembers .nil (Moves.tail h hbrace (by decide) (by decide)).twin
        · refine rel_ite (h.cur_eq_iff (by decide)) (fun hbracket ↦ ?_) fun _ ↦ .none
          exact ihElems .nil (Moves.tail h hbracket (by decide) (by decide)).twin
    · rw [parseMembers_eq, parseMembers_eq]
      refine rel_bind (skipWhitespace_twin h) fun d d' hd ↦ ?_
      refine rel_ite (and_congr (by rw [hms.isEmpty_eq]) (hd.cur_eq_iff (by decide)))
        (fun hclose ↦ ?_) fun _ ↦ ?_
      · exact .some ⟨hms.corresponds, (Moves.tail hd hclose.2 (by decide) (by decide)).twin⟩
      · refine rel_ite (not_congr (hd.cur_eq_iff (by decide))) (fun _ ↦ .none) fun hquote ↦ ?_
        have htail := (Moves.tail hd (not_not.1 hquote) (by decide) (by decide)).twin
        refine rel_bind (extractString_twin htail) fun name name' hname ↦ ?_
        refine rel_bind (skipWhitespace_twin hname.2) fun d₂ d₂' hd₂ ↦ ?_
        refine rel_ite (not_congr (hd₂.cur_eq_iff (by decide))) (fun _ ↦ .none) fun hcolon ↦ ?_
        have htail₂ := (Moves.tail hd₂ (not_not.1 hcolon) (by decide) (by decide)).twin
        refine rel_bind (skipWhitespace_twin htail₂) fun d₃ d₃' hd₃ ↦ ?_
        refine rel_bind (ihStr hd₃) fun r r' hr ↦ ?_
        have hset := hms.set hname.1.encodes hr.1
        exact close_or_next (by decide) (by decide) hset.corresponds hr.2 (ihMembers hset)
    · rw [parseElems_eq, parseElems_eq]
      refine rel_bind (skipWhitespace_twin h) fun d d' hd ↦ ?_
      refine rel_ite (and_congr (by rw [isEmpty_eq_of_forall₂ hvs]) (hd.cur_eq_iff (by decide)))
        (fun hclose ↦ ?_) fun _ ↦ ?_
      · exact .some ⟨.array hvs, (Moves.tail hd hclose.2 (by decide) (by decide)).twin⟩
      · refine rel_bind (ihStr hd) fun r r' hr ↦ ?_
        have happend := List.rel_append hvs (.cons hr.1 .nil)
        exact close_or_next (by decide) (by decide) (.array happend) hr.2 (ihElems happend)

theorem Twin.cString (h : Twin s t) : Twin (cString s) (cString t) := by
  induction h with
  | nil => exact .nil
  | @ascii c s t hc h ih =>
    rw [Json.cString, Json.cString, List.takeWhile_cons, List.takeWhile_cons]
    split
    · exact .ascii hc ih
    · exact .nil
  | @other us vs s t hpair h ih =>
    have hpass {w : JString} (hw : ∀ u ∈ w, 0x80 ≤ u ∧ Plain u) (data : JString) :
        Json.cString (w ++ data) = w ++ Json.cString data := by
      refine List.takeWhile_append_of_pos fun u hu ↦ ?_
      have := (hw u hu).1
      exact decide_eq_true (by omega)
    rw [hpass hpair.wide, hpass hpair.narrow]
    exact .other hpair ih

/-- **Texts of plain units are read alike.** -/
theorem parse_corresponds (h : Twin s t) : Option.Rel Corresponds (parse s) (parse t) := by
  refine rel_bind (skipWhitespace_twin h.cString) fun d d' hd ↦ ?_
  have hfuel : ∀ n, 2 * d.length + 2 * d'.length + 1 = n →
      parseStr (2 * d.length + 1) d = parseStr n d ∧
        parseStr (2 * d'.length + 1) d' = parseStr n d' := fun n hn ↦
    ⟨(parse_fuel _).1 n d (by omega) (by omega), (parse_fuel _).1 n d' (by omega) (by omega)⟩
  obtain ⟨hfuel, hfuel'⟩ := hfuel _ rfl
  rw [hfuel, hfuel']
  refine rel_bind ((parse_twin _).1 hd) ?_
  rintro ⟨v, rest⟩ ⟨w, rest'⟩ ⟨hvalue, hrest⟩
  have hskip := skipWhitespace_twin hrest
  dsimp only
  generalize skipWhitespace rest = o at hskip ⊢
  generalize skipWhitespace rest' = o' at hskip ⊢
  cases hskip with
  | some _ => exact .none
  | none => exact .some hvalue

/-! ### The bytes of a character -/

theorem plain_byte {v : ℕ} (hlow : 0x80 ≤ v) (hhigh : v < 0x100) : Plain v := by
  have hv : narrow v = v := Nat.mod_eq_of_lt hhigh
  have h₁ : code '\\' = 92 := rfl
  have h₂ : code '"' = 34 := rfl
  have h₃ : code ' ' = 32 := rfl
  refine ⟨by omega, by omega, ?_⟩
  simp only [isControl, hv, h₃, Bool.and_eq_false_iff, decide_eq_false_iff_not]
  omega

/-- Above the ASCII range UTF-8 uses no byte of the ASCII range. -/
theorem le_utf8Byte {c : Char} (hc : 0x80 ≤ c.toNat) {b : UInt8} (hb : b ∈ String.utf8EncodeChar c) :
    0x80 ≤ b.toNat := by
  have hval : c.toNat = c.val.toNat := rfl
  rw [String.utf8EncodeChar] at hb
  split at hb
  · omega
  · split at hb
    · simp only [List.mem_cons, List.not_mem_nil, or_false] at hb
      rcases hb with rfl | rfl
      all_goals
        rw [UInt8.toNat_ofNat']
        omega
    · split at hb
      · simp only [List.mem_cons, List.not_mem_nil, or_false] at hb
        rcases hb with rfl | rfl | rfl
        all_goals
          rw [UInt8.toNat_ofNat']
          omega
      · simp only [List.mem_cons, List.not_mem_nil, or_false] at hb
        rcases hb with rfl | rfl | rfl | rfl
        all_goals
          rw [UInt8.toNat_ofNat']
          omega

theorem le_utf16Unit {c : Char} (hc : 0x80 ≤ c.toNat) {u : UInt16} (hu : u ∈ encodeUTF16Char c) :
    0x80 ≤ u.toNat := by
  have hvalid := not_surrogate c
  rw [encodeUTF16Char] at hu
  split at hu
  · obtain rfl := List.mem_singleton.1 hu
    rw [UInt16.toNat_ofNat']
    omega
  · simp only [List.mem_cons, List.not_mem_nil, or_false] at hu
    rcases hu with rfl | rfl
    all_goals
      rw [UInt16.toNat_ofNat']
      omega

/-- One character above the ASCII range, if its units are plain. -/
theorem pair_char {c : Char} (hc : 0x80 ≤ c.toNat) (hplain : ∀ u ∈ wide [c], 0x80 ≤ u → Plain u) :
    Pair (wide [c]) (narrowBytes [c]) where
  encodes := ⟨[c], rfl, rfl⟩
  nonempty := by
    constructor
    · intro h
      rw [wide, List.map_eq_nil_iff, encodeUTF16, List.flatMap_singleton, encodeUTF16Char] at h
      split at h <;> cases h
    · intro h
      rw [narrowBytes, List.map_eq_nil_iff, encodeUTF8, List.flatMap_singleton] at h
      exact String.utf8EncodeChar_ne_nil h
  wide u hu := by
    obtain ⟨u', hu', rfl⟩ := List.mem_map.1 hu
    rw [encodeUTF16, List.flatMap_singleton] at hu'
    have hle := le_utf16Unit hc hu'
    exact ⟨hle, hplain _ hu hle⟩
  narrow v hv := by
    obtain ⟨v', hv', rfl⟩ := List.mem_map.1 hv
    rw [encodeUTF8, List.flatMap_singleton] at hv'
    have hle := le_utf8Byte hc hv'
    exact ⟨hle, plain_byte hle v'.toNat_lt⟩

theorem twin_of_plain (cs : List Char) (hplain : ∀ u ∈ wide cs, 0x80 ≤ u → Plain u) :
    Twin (wide cs) (narrowBytes cs) := by
  induction cs with
  | nil => exact .nil
  | cons c cs ih =>
    rw [← List.singleton_append, wide_append] at hplain ⊢
    rw [narrowBytes_append]
    have hrest := ih fun u hu ↦ hplain u (List.mem_append_right _ hu)
    by_cases hc : c.toNat < 0x80
    · rw [wide_ascii hc, narrowBytes_ascii hc]
      exact .ascii hc hrest
    · have hpair := pair_char (by omega) fun u hu ↦ hplain u (List.mem_append_left _ hu)
      exact .other hpair hrest

/-! ### Where the two widths agree -/

/-- What `ExtractString` is for: the text up to the first quote without a backslash, and what
follows. It looks at whole units. -/
def untilQuote : JString → Option (JString × JString)
  | [] => none
  | next :: data =>
    if next = code '\\' then
      match data with
      | [] => none
      | e :: data =>
        if isSimpleEscape e then prepend [next, e] (untilQuote data)
        else if e = code 'u' then
          match data with
          | h₁ :: h₂ :: h₃ :: h₄ :: data =>
            if isHex h₁ && isHex h₂ && isHex h₃ && isHex h₄ then
              prepend [next, e, h₁, h₂, h₃, h₄] (untilQuote data)
            else none
          | _ => none
        else none
    else if next = code '"' then some ([], data)
    else if 0 < next ∧ next < code ' ' ∧ next ≠ code '\t' then none
    else prepend [next] (untilQuote data)

/-- **The wide reader agrees with the narrow one** on a text of UTF-16 units. -/
structure WidthsAgree (text : List UInt16) : Prop where
  /-- A string with units of this text ends at its quote. -/
  ends : ∀ data : List UInt16, (∀ u ∈ data, 0x80 ≤ u.toNat → u ∈ text) →
    extractString (data.map UInt16.toNat) = untilQuote (data.map UInt16.toNat)
  /-- Units above the ASCII range are ordinary characters. -/
  ordinary : ∀ u ∈ text, 0x80 ≤ u.toNat →
    ∀ data, extractString (u.toNat :: data) = prepend [u.toNat] (extractString data)
  /-- The text and its bytes are both rejected or stand for the same value. -/
  reads : ∀ cs, text = encodeUTF16 cs →
    Option.Rel Corresponds (parse (text.map UInt16.toNat)) (parse (narrowBytes cs))

/-- The whole unit decides. -/
theorem narrow_class {u : ℕ} (hu : 0x80 ≤ u → Plain u) :
    (narrow u = code '\\' ↔ u = code '\\') ∧ (narrow u = code '"' ↔ u = code '"') ∧
      (isControl u = true ↔ 0 < u ∧ u < code ' ' ∧ u ≠ code '\t') := by
  by_cases hlow : u < 0x80
  · rw [isControl, narrow_of_ascii hlow]
    simp [and_assoc]
  · obtain ⟨hbackslash, hquote, hcontrol⟩ := hu (by omega)
    have h₁ : code '\\' = 92 := rfl
    have h₂ : code '"' = 34 := rfl
    have h₃ : code ' ' = 32 := rfl
    refine ⟨iff_of_false hbackslash (by omega), iff_of_false hquote (by omega),
      iff_of_false (by simp [hcontrol]) (by omega)⟩

/-- Over plain units the string ends at its quote. -/
theorem extractString_eq_untilQuote (data : JString) (hdata : ∀ u ∈ data, 0x80 ≤ u → Plain u) :
    extractString data = untilQuote data := by
  have htail {u : ℕ} {l : JString} (h : ∀ v ∈ u :: l, 0x80 ≤ v → Plain v) :
      ∀ v ∈ l, 0x80 ≤ v → Plain v := fun v hv ↦ h v (List.mem_cons_of_mem _ hv)
  fun_induction extractString data with
  | case1 => rfl
  | case2 next hnext =>
    rw [untilQuote, if_pos ((narrow_class (hdata next List.mem_cons_self)).1.1 hnext)]
  | case3 next hnext e data he ih =>
    rw [untilQuote.eq_def, ih (htail (htail hdata))]
    simp [(narrow_class (hdata next List.mem_cons_self)).1.1 hnext, he]
  | case4 next hnext h₁ h₂ h₃ h₄ data hhex he ih =>
    rw [untilQuote.eq_def, ih (htail (htail (htail (htail (htail (htail hdata))))))]
    simp [(narrow_class (hdata next List.mem_cons_self)).1.1 hnext, he, hhex]
  | case5 next hnext h₁ h₂ h₃ h₄ data hhex he =>
    rw [untilQuote.eq_def]
    simp [(narrow_class (hdata next List.mem_cons_self)).1.1 hnext, he, hhex]
  | case6 next hnext data hdata' he =>
    rw [untilQuote.eq_def]
    simp [(narrow_class (hdata next List.mem_cons_self)).1.1 hnext, he]
  | case7 next hnext e data he hu =>
    rw [untilQuote.eq_def]
    simp [(narrow_class (hdata next List.mem_cons_self)).1.1 hnext, he, hu]
  | case8 next data hnext hquote =>
    have hclass := narrow_class (hdata next List.mem_cons_self)
    rw [untilQuote.eq_def]
    simp only [if_neg fun h ↦ hnext (hclass.1.2 h), if_pos (hclass.2.1.1 hquote)]
  | case9 next data hnext hquote hcontrol =>
    have hclass := narrow_class (hdata next List.mem_cons_self)
    rw [untilQuote.eq_def]
    simp only [if_neg fun h ↦ hnext (hclass.1.2 h), if_neg fun h ↦ hquote (hclass.2.1.2 h),
      if_pos (hclass.2.2.1 hcontrol)]
  | case10 next data hnext hquote hcontrol ih =>
    have hclass := narrow_class (hdata next List.mem_cons_self)
    rw [untilQuote.eq_def, ih (htail hdata)]
    simp only [if_neg fun h ↦ hnext (hclass.1.2 h), if_neg fun h ↦ hquote (hclass.2.1.2 h),
      if_neg fun h ↦ hcontrol (hclass.2.2.2 h)]

/-- A unit that is passed over as it is. -/
theorem plain_of_ordinary {u : ℕ}
    (h : ∀ data, extractString (u :: data) = prepend [u] (extractString data)) : Plain u := by
  have hq : extractString [code '"'] = some ([], []) := extractString_quote rfl []
  have hu := h [code '"']
  rw [hq] at hu
  have hbackslash : narrow u ≠ code '\\' := fun hbackslash ↦ by
    rw [extractString_simple hbackslash (by decide)] at hu
    exact nomatch hu
  have hquote : narrow u ≠ code '"' := fun hquote ↦ by
    rw [extractString_quote hquote] at hu
    exact nomatch hu
  refine ⟨hbackslash, hquote, Bool.eq_false_iff.2 fun hcontrol ↦ ?_⟩
  rw [extractString.eq_def] at hu
  simp [hbackslash, hquote, hcontrol, prepend] at hu

/-- **The widths agree on the texts of plain units**, and on no others. -/
theorem widthsAgree_iff (text : List UInt16) :
    WidthsAgree text ↔ ∀ u ∈ text, 0x80 ≤ u.toNat → Plain u.toNat := by
  constructor
  · exact fun h u hu hle ↦ plain_of_ordinary (h.ordinary u hu hle)
  · intro h
    refine ⟨fun data hdata ↦ ?_, fun u hu hle data ↦ ?_, fun cs hcs ↦ ?_⟩
    · refine extractString_eq_untilQuote _ fun u hu hle ↦ ?_
      obtain ⟨u, hmem, rfl⟩ := List.mem_map.1 hu
      exact h u (hdata u hmem hle) hle
    · obtain ⟨hbackslash, hquote, hcontrol⟩ := h u hu hle
      exact extractString_plain hbackslash hquote hcontrol data
    · subst hcs
      refine parse_corresponds (twin_of_plain cs fun u hu hle ↦ ?_)
      obtain ⟨u, hmem, rfl⟩ := List.mem_map.1 hu
      exact h u hmem hle

/-- U+0122 looks like a quote. -/
theorem widths_quote_letter :
    encodeUTF16 ['"', 'Ģ', '"'] = [0x22, 0x122, 0x22] ∧
      parse [0x22, 0x122, 0x22] = none ∧
      parse (narrowBytes ['"', 'Ģ', '"']) = some (.string [0xC4, 0xA2]) ∧
      extractString [0x122, 0x22] = some ([], [0x22]) ∧
      ¬ WidthsAgree [0x22, 0x122, 0x22] := by
  have hquote : extractString [0x122, 0x22] = some ([], [0x22]) := extractString_quote rfl _
  refine ⟨rfl, rfl, rfl, hquote, fun h ↦ ?_⟩
  have hu := h.ordinary 0x122 (by decide) (by decide) [0x22]
  exact absurd (hquote.symm.trans hu) (by decide)

end SocketPro.Json
