import SocketPro.Json.PointerReader
import SocketPro.Json.Soundness

/-!
# The reader over memory does what the reader of lists does

`Agrees o r H` relates the outcome `o` of a function over memory to the result `r` of the one on
lists: the same value with `data` behind it, or `nullptr` where the other fails. It is never a
fault, and it is endless only if `H`. Agreement composes (`Agrees.bind`), so that each function is
compared with its counterpart from what is known of its callees.

**Where a loop may hang.** Only the loop that scales a number by its exponent can be endless; the
number is named by `EndlessAt`.
-/

namespace SocketPro.Json.Pointer

open Machine

variable {α β : Type} {H G : Prop}

/-- The outcome `o` of a function over memory is the result `r`, or endless if `H`. -/
def Agrees (o : Outcome Stop Ptr α) (r : Option (α × JString)) (H : Prop) : Prop :=
  match o with
  | .ok a p => ∃ rest, p = some rest ∧ r = some (a, rest)
  | .throw .null _ => r = none
  | .throw .endless _ => H
  | .fault => False

theorem Agrees.ok {a : α} {rest : JString} :
    Agrees (.ok a (some rest)) (some (a, rest)) H := ⟨rest, rfl, rfl⟩

theorem Agrees.null {p : Ptr} : Agrees (.throw .null p) (none : Option (α × JString)) H := rfl

theorem Agrees.mono {o : Outcome Stop Ptr α} {r : Option (α × JString)} (h : Agrees o r H)
    (hHG : H → G) : Agrees o r G := by
  rcases o with _ | ⟨_ | _, _⟩ | _
  · exact h
  · exact h
  · exact hHG h
  · exact h

/-- A value that is read, when nothing can hang. -/
theorem Agrees.eq_ok {o : Outcome Stop Ptr α} {a : α} {rest : JString}
    (h : Agrees o (some (a, rest)) False) : o = .ok a (some rest) := by
  rcases o with _ | ⟨_ | _, _⟩ | _
  · obtain ⟨rest', rfl, heq⟩ := h
    obtain ⟨rfl, rfl⟩ := Prod.mk.inj (Option.some.inj heq)
    rfl
  · exact nomatch (show some (a, rest) = none from h)
  · exact h.elim
  · exact h.elim

/-- **Sequencing.** -/
theorem Agrees.bind {x : Reader α} {f : α → Reader β} {p : Ptr} {r : Option (α × JString)}
    {g : α × JString → Option (β × JString)} (hx : Agrees (x p) r H)
    (hf : ∀ a rest, r = some (a, rest) → Agrees (f a (some rest)) (g (a, rest)) H) :
    Agrees ((x >>= f) p) (r.bind g) H := by
  rw [Effect.bind_apply]
  rcases hxp : x p with ⟨a, q⟩ | ⟨_ | _, q⟩ | _ <;> rw [hxp] at hx
  · obtain ⟨rest, rfl, rfl⟩ := hx
    exact hf a rest rfl
  · obtain rfl : r = none := hx
    exact .null
  · exact hx
  · exact hx

/-- Sequencing behind a function that only moves `data`. -/
theorem Agrees.bind_unit {x : Reader Unit} {f : Unit → Reader β} {p : Ptr} {r : Option JString}
    {g : JString → Option (β × JString)} (hx : Agrees (x p) (r.map fun d ↦ ((), d)) H)
    (hf : ∀ rest, r = some rest → Agrees (f () (some rest)) (g rest) H) :
    Agrees ((x >>= f) p) (r.bind g) H := by
  have hbind := hx.bind (f := f) (g := fun q ↦ g q.2) fun a rest hr ↦ by
    obtain ⟨d, rfl, heq⟩ := Option.map_eq_some_iff.1 hr
    obtain ⟨rfl, rfl⟩ := Prod.mk.inj heq
    exact hf d rfl
  rcases r with - | d
  · exact hbind
  · exact hbind

/-! ### The pointer -/

@[simp] theorem deref_some (s : JString) : deref (some s) = .ok (cur s) (some s) := by
  rcases s with - | ⟨c, s⟩ <;> rfl

@[simp] theorem deref_bind (f : ℕ → Reader β) (s : JString) :
    (deref >>= f) (some s) = f (cur s) (some s) := Effect.bind_ok (deref_some s)

@[simp] theorem advance_bind (f : Unit → Reader β) (c : ℕ) (s : JString) :
    (advance >>= f) (some (c :: s)) = f () (some s) := rfl

theorem advance_bind_tail (f : Unit → Reader β) {s : JString} (hs : s ≠ []) :
    (advance >>= f) (some s) = f () (some s.tail) := by
  obtain ⟨c, s, rfl⟩ := List.exists_cons_of_ne_nil hs
  rfl

theorem advanceIf_bind {b : Bool} (f : Unit → Reader β) {s : JString} (hs : b = true → s ≠ []) :
    (advanceIf b >>= f) (some s) = f () (some (if b then s.tail else s)) := by
  cases b with
  | true => exact advance_bind_tail f (hs rfl)
  | false => rfl

@[simp] theorem position_bind (f : Ptr → Reader β) (p : Ptr) : (position >>= f) p = f p p := rfl

theorem ne_nil_of_cur {s : JString} {c : ℕ} (h : cur s = c) (hc : c ≠ 0) : s ≠ [] := by
  rintro rfl
  exact hc h.symm

/-! ### Scanning -/

theorem skipWhile_eq {p : ℕ → Bool} (hp : p 0 = false) {s : JString} {n : ℕ} (hn : s.length < n) :
    skipWhile p n (some s) = .ok () (some (s.dropWhile p)) := by
  induction n generalizing s with
  | zero => omega
  | succ n ih =>
    rw [skipWhile, deref_bind]
    rcases s with - | ⟨c, s⟩
    · rw [show cur [] = 0 from rfl, hp]
      rfl
    · rw [show cur (c :: s) = c from rfl, List.dropWhile_cons]
      split
      · rw [advance_bind]
        exact ih (by simpa using hn)
      · rfl

/-- The end of the text is where `*data` is zero. -/
theorem cur_eq_zero_iff {s : JString} (hs : IsText s) : cur s = 0 ↔ s = [] := by
  rcases s with - | ⟨c, s⟩
  · exact ⟨fun _ ↦ rfl, fun _ ↦ rfl⟩
  · exact ⟨fun h ↦ absurd h (hs c (by simp)).1, by simp⟩

theorem skipWhitespace_eq {s : JString} {size : ℕ} (hn : s.length < size) :
    skipWhitespace size (some s) =
      .ok (decide (cur (s.dropWhile isSpace) ≠ 0)) (some (s.dropWhile isSpace)) := by
  rw [skipWhitespace, Effect.bind_ok (skipWhile_eq (by decide) hn), deref_bind]
  rfl

theorem toSign_agrees {s : JString} (hs : IsText s) {size : ℕ} (hn : s.length < size) :
    Agrees (toSign size (some s)) ((Json.skipWhitespace s).map fun d ↦ ((), d)) H := by
  rw [toSign, Effect.bind_ok (skipWhitespace_eq hn), Json.skipWhitespace]
  have hzero := cur_eq_zero_iff (hs.of_suffix (List.dropWhile_suffix isSpace))
  rcases hd : s.dropWhile isSpace with - | ⟨c, d⟩
  · exact .null
  · rw [hd] at hzero
    have hne : cur (c :: d) ≠ 0 := mt hzero.1 (List.cons_ne_nil c d)
    simp only [hne, ne_eq, not_false_eq_true, decide_true, if_true]
    exact .ok

theorem toSign_bind {s d : JString} (hs : IsText s) {size : ℕ} (hn : s.length < size)
    (hd : Json.skipWhitespace s = some d) (f : Unit → Reader β) :
    (toSign size >>= f) (some s) = f () (some d) := by
  have hagrees := toSign_agrees (H := False) hs hn
  rw [hd] at hagrees
  exact Effect.bind_ok hagrees.eq_ok

theorem hexDigits_agrees (k e : ℕ) (s : JString) :
    Agrees (hexDigits k (some (e :: s)))
      (if k ≤ s.length ∧ ∀ h ∈ s.take k, isHex h = true then some ((), (e :: s).drop k) else none)
      H := by
  induction k generalizing e s with
  | zero =>
    rw [if_pos (by simp)]
    exact .ok
  | succ k ih =>
    rw [hexDigits, advance_bind, deref_bind]
    rcases s with - | ⟨h, s⟩
    · exact .null
    · rw [show cur (h :: s) = h from rfl]
      split
      · rename_i hhex
        have ih := ih h s
        simpa [hhex] using ih
      · rename_i hhex
        rw [if_neg (by simp [hhex])]
        exact .null

/-! ### Strings -/

theorem between_append (t s : JString) : between (some (t ++ s)) (some s) = t :=
  take_length_sub t s

theorem prepend_prepend (cs ds : JString) (o : Option (JString × JString)) :
    prepend cs (prepend ds o) = prepend (cs ++ ds) o := by
  rcases o with - | ⟨s, rest⟩
  · rfl
  · simp [prepend]

/-- By recursion on the text; `t` was passed over and ends up in the string. -/
theorem extractLoop_agrees {start t s : JString} (hstart : start = t ++ s) (hs : IsText s) {n : ℕ}
    (hn : s.length < n) :
    Agrees (extractLoop (some start) n (some s)) (prepend t (Json.extractString s)) H := by
  have hcons : ∀ {c : ℕ} {d : JString}, cur (c :: d) = c := rfl
  fun_induction Json.extractString s generalizing t n with
  | case1 =>
    obtain ⟨n, rfl⟩ : ∃ m, n = m + 1 := ⟨n - 1, by omega⟩
    exact .null
  | case2 next hnext =>
    obtain ⟨n, rfl⟩ : ∃ m, n = m + 1 := ⟨n - 1, by omega⟩
    rw [extractLoop, deref_bind, hcons, if_neg (hs next (by simp)).1, if_pos hnext, advance_bind,
      deref_bind]
    exact .null
  | case3 next hnext e data he ih =>
    simp only [List.length_cons] at hn
    obtain ⟨n, rfl⟩ : ∃ m, n = m + 1 := ⟨n - 1, by omega⟩
    have ih := ih (t := t ++ [next, e]) (by simp [hstart]) (hs.of_suffix ⟨[next, e], rfl⟩)
      (n := n) (by omega)
    rw [extractLoop, deref_bind, hcons, if_neg (hs next (by simp)).1, if_pos hnext, advance_bind,
      deref_bind, hcons, if_pos he,
      advance_bind, prepend_prepend]
    exact ih
  | case4 next hnext h₁ h₂ h₃ h₄ data hhex he ih =>
    simp only [List.length_cons] at hn
    obtain ⟨n, rfl⟩ : ∃ m, n = m + 1 := ⟨n - 1, by omega⟩
    have ih := ih (t := t ++ [next, code 'u', h₁, h₂, h₃, h₄]) (by simp [hstart])
      (hs.of_suffix ⟨[next, code 'u', h₁, h₂, h₃, h₄], rfl⟩) (n := n) (by omega)
    have hhexDigits : hexDigits 4 (some (code 'u' :: h₁ :: h₂ :: h₃ :: h₄ :: data)) =
        .ok () (some (h₄ :: data)) := by
      have hagrees := hexDigits_agrees (H := False) 4 (code 'u') (h₁ :: h₂ :: h₃ :: h₄ :: data)
      rw [if_pos (by simpa [and_assoc] using hhex)] at hagrees
      exact hagrees.eq_ok
    rw [extractLoop, deref_bind, hcons, if_neg (hs next (by simp)).1, if_pos hnext, advance_bind,
      deref_bind, hcons, if_neg he,
      if_pos rfl, Effect.bind_ok hhexDigits, advance_bind, prepend_prepend]
    exact ih
  | case5 next hnext h₁ h₂ h₃ h₄ data hhex he =>
    obtain ⟨n, rfl⟩ : ∃ m, n = m + 1 := ⟨n - 1, by omega⟩
    have hagrees := hexDigits_agrees (H := H) 4 (code 'u') (h₁ :: h₂ :: h₃ :: h₄ :: data)
    rw [if_neg (by simpa [and_assoc] using hhex)] at hagrees
    rw [extractLoop, deref_bind, hcons, if_neg (hs next (by simp)).1, if_pos hnext, advance_bind,
      deref_bind, hcons, if_neg he,
      if_pos rfl]
    exact hagrees.bind (g := fun _ ↦ none) (by simp)
  | case6 next hnext data hshort he =>
    obtain ⟨n, rfl⟩ : ∃ m, n = m + 1 := ⟨n - 1, by omega⟩
    have hagrees := hexDigits_agrees (H := H) 4 (code 'u') data
    have hlen : data.length < 4 := by
      rcases data with - | ⟨h₁, - | ⟨h₂, - | ⟨h₃, - | ⟨h₄, data⟩⟩⟩⟩
      · simp
      · simp
      · simp
      · simp
      · exact (hshort h₁ h₂ h₃ h₄ data rfl).elim
    rw [if_neg (by omega)] at hagrees
    rw [extractLoop, deref_bind, hcons, if_neg (hs next (by simp)).1, if_pos hnext, advance_bind,
      deref_bind, hcons, if_neg he,
      if_pos rfl]
    exact hagrees.bind (g := fun _ ↦ none) (by simp)
  | case7 next hnext e data he hu =>
    obtain ⟨n, rfl⟩ : ∃ m, n = m + 1 := ⟨n - 1, by omega⟩
    rw [extractLoop, deref_bind, hcons, if_neg (hs next (by simp)).1, if_pos hnext, advance_bind,
      deref_bind, hcons, if_neg he,
      if_neg hu]
    exact .null
  | case8 next data hnext hquote =>
    obtain ⟨n, rfl⟩ : ∃ m, n = m + 1 := ⟨n - 1, by omega⟩
    rw [extractLoop, deref_bind, hcons, if_neg (hs next (by simp)).1, if_neg hnext, if_pos hquote,
      position_bind, advance_bind, hstart, between_append]
    simp only [prepend, Option.map_some, List.append_nil]
    exact .ok
  | case9 next data hnext hquote hcontrol =>
    obtain ⟨n, rfl⟩ : ∃ m, n = m + 1 := ⟨n - 1, by omega⟩
    rw [extractLoop, deref_bind, hcons, if_neg (hs next (by simp)).1, if_neg hnext, if_neg hquote,
      if_pos hcontrol]
    exact .null
  | case10 next data hnext hquote hcontrol ih =>
    simp only [List.length_cons] at hn
    obtain ⟨n, rfl⟩ : ∃ m, n = m + 1 := ⟨n - 1, by omega⟩
    have ih := ih (t := t ++ [next]) (by simp [hstart]) (hs.of_suffix ⟨[next], rfl⟩) (n := n)
      (by omega)
    rw [extractLoop, deref_bind, hcons, if_neg (hs next (by simp)).1, if_neg hnext, if_neg hquote,
      if_neg hcontrol, advance_bind, prepend_prepend]
    exact ih

theorem extractString_agrees {s : JString} (hs : IsText s) {size : ℕ} (hn : s.length < size) :
    Agrees (extractString size (some s)) (Json.extractString s) H := by
  have hagrees := extractLoop_agrees (H := H) (t := []) rfl hs hn
  have hnil : ∀ o, prepend [] o = o := by
    rintro (- | ⟨s, rest⟩) <;> rfl
  rw [hnil] at hagrees
  exact hagrees

theorem extractString_bind {s str rest : JString} (hs : IsText s) {size : ℕ}
    (hn : s.length < size) (h : Json.extractString s = some (str, rest)) (f : JString → Reader β) :
    (extractString size >>= f) (some s) = f str (some rest) := by
  have hagrees := extractString_agrees (H := False) hs hn
  rw [h] at hagrees
  exact Effect.bind_ok hagrees.eq_ok

/-! ### Digits -/

theorem readDigits_eq (accumulate : α → ℕ → α) (x : α) {s : JString} {n : ℕ} (hn : s.length < n) :
    readDigits accumulate x n (some s) =
      .ok (Json.readDigits accumulate x s).1 (some (Json.readDigits accumulate x s).2) := by
  induction n generalizing x s with
  | zero => omega
  | succ n ih =>
    rw [readDigits, deref_bind]
    rcases s with - | ⟨c, s⟩
    · rfl
    · rw [show cur (c :: s) = c from rfl, Json.readDigits]
      split
      · rw [advance_bind]
        exact ih _ (by simpa using hn)
      · rfl

theorem atoll_eq {s : JString} (hdigit : isDigit (cur s) = true) {size : ℕ} (hn : s.length < size) :
    atoll size (some s) = .ok (Json.atoll s).1 (some (Json.atoll s).2) := by
  have hminus : decide (cur s = code '-') = false := by
    rw [decide_eq_false_iff_not]
    intro h
    rw [h] at hdigit
    exact absurd hdigit (by decide)
  have hdigits := readDigits_eq (fun (x : ℤ) d ↦ wrap64 (x * 10 + d)) 0 hn
  rw [atoll, deref_bind, hminus]
  exact Effect.bind_ok hdigits

theorem atoull_eq {s : JString} {size : ℕ} (hn : s.length < size) :
    atoull size (some s) = .ok (Json.atoull s).1 (some (Json.atoull s).2) :=
  readDigits_eq _ _ hn

theorem skipDigits_agrees {s : JString} {size : ℕ} (hn : s.length < size) :
    Agrees (skipDigits size (some s)) ((Json.skipDigits s).map fun d ↦ ((), d)) H := by
  rw [skipDigits, deref_bind, Json.skipDigits]
  split
  · rw [skipWhile_eq (by decide) hn]
    exact .ok
  · exact .null

theorem skipFraction_agrees {s : JString} {size : ℕ} (hn : s.length < size) :
    Agrees (skipFraction size (some s)) ((Json.skipFraction s).map fun d ↦ ((), d)) H := by
  rw [skipFraction, deref_bind, Json.skipFraction]
  split
  · rename_i hpoint
    rw [advance_bind_tail _ (ne_nil_of_cur hpoint (by decide))]
    exact skipDigits_agrees ((List.tail_suffix s).length_le.trans_lt hn)
  · exact .ok

/-! ### Exponents -/

/-- At the front of `s` stand the digits of an exponent that the loop never gets through. -/
def EndlessDigits (s : JString) : Prop :=
  ∃ ds rest, s = ds ++ rest ∧ Digits ds ∧ Json.skipDigits s = some rest ∧
    scaleEnds (wrap64 (digitsValue ds)) = false

/-- At the front of `s` stands such an exponent. -/
def EndlessExponent (s : JString) : Prop :=
  ∃ e sign digits rest, s = e :: (sign ++ digits) ∧ e ∈ [code 'e', code 'E'] ∧
    sign ∈ [[], [code '+'], [code '-']] ∧ EndlessDigits digits ∧
    Json.skipDigits digits = some rest ∧ Json.skipExponent s = some rest

theorem scale_agrees {s : JString} {size : ℕ} (hn : s.length < size) :
    Agrees (scale size (some s)) ((Json.skipDigits s).map fun d ↦ ((), d)) (EndlessDigits s) := by
  rw [scale, deref_bind]
  split
  · rename_i hdigit
    obtain ⟨ds, rest, rfl, hds, -, hrest⟩ := exists_digits hdigit
    have hskip := skipDigits_of_digits hds hrest
    have hatoll := atoll_fst ds rest (fun c hc ↦ (isDigit_iff c).2 (hds.2 c hc)) hrest
    have hexpo : atoll size (some (ds ++ rest)) = .ok (wrap64 (digitsValue ds)) (some rest) := by
      rw [atoll_eq hdigit hn, hatoll]
    rw [Effect.bind_ok hexpo, hskip]
    cases hends : scaleEnds (wrap64 (digitsValue ds)) with
    | true =>
      rw [if_pos rfl]
      exact .ok
    | false =>
      rw [if_neg (by simp)]
      exact ⟨ds, rest, rfl, hds, hskip, hends⟩
  · rename_i hdigit
    rw [Json.skipDigits, if_neg hdigit]
    exact .null

theorem skipExponent_agrees {s : JString} {size : ℕ} (hn : s.length < size) :
    Agrees (skipExponent size (some s)) ((Json.skipExponent s).map fun d ↦ ((), d))
      (EndlessExponent s) := by
  rw [skipExponent, deref_bind]
  split
  · rename_i hmark
    obtain ⟨e, s, rfl⟩ : ∃ e s', s = e :: s' := by
      rcases s with - | ⟨e, s⟩
      · exact absurd hmark (by decide)
      · exact ⟨e, s, rfl⟩
    have he : e ∈ [code 'e', code 'E'] := by simpa [cur, or_comm] using hmark
    rw [List.length_cons] at hn
    rw [advance_bind, deref_bind]
    by_cases hsign : cur s = code '-' ∨ cur s = code '+'
    · obtain ⟨c, s, rfl⟩ : ∃ c s', s = c :: s' := by
        rcases s with - | ⟨c, s⟩
        · exact absurd hsign (by decide)
        · exact ⟨c, s, rfl⟩
      have hc : [c] ∈ [[], [code '+'], [code '-']] := by simpa [cur, or_comm] using hsign
      have hskip : Json.skipExponent (e :: c :: s) = Json.skipDigits s := by
        rw [Json.skipExponent, if_pos hmark]
        exact if_pos hsign
      rw [hskip, decide_eq_true hsign]
      refine (scale_agrees (s := s) (by simp at hn; omega)).mono ?_
      rintro ⟨ds, rest, rfl, hds, hrest, hends⟩
      exact ⟨e, [c], ds ++ rest, rest, rfl, he, hc, ⟨ds, rest, rfl, hds, hrest, hends⟩, hrest,
        hskip.trans hrest⟩
    · have hskip : Json.skipExponent (e :: s) = Json.skipDigits s := by
        rw [Json.skipExponent, if_pos hmark]
        exact if_neg hsign
      rw [hskip, decide_eq_false hsign]
      refine (scale_agrees (s := s) (by omega)).mono ?_
      rintro ⟨ds, rest, rfl, hds, hrest, hends⟩
      exact ⟨e, [], ds ++ rest, rest, rfl, he, by simp, ⟨ds, rest, rfl, hds, hrest, hends⟩, hrest,
        hskip.trans hrest⟩
  · rename_i hmark
    rw [Json.skipExponent, if_neg hmark]
    exact .ok

/-! ### Numbers -/

theorem parseInteger_agrees (neg : Bool) {s : JString} {size : ℕ} (hn : s.length < size) :
    Agrees (parseInteger size neg (some s)) (Json.parseInteger neg s) H := by
  rw [parseInteger, deref_bind, Json.parseInteger]
  split
  · rename_i hzero
    rw [advance_bind_tail _ (ne_nil_of_cur hzero (by decide))]
    exact .ok
  · split
    · rename_i hdigit
      split
      · rw [Effect.bind_ok (atoll_eq hdigit hn)]
        exact .ok
      · rw [Effect.bind_ok (atoull_eq hn)]
        exact .ok
    · exact .null

/-- The loop gets through the exponent of the number `t`, if it has one. -/
def Ends (t : JString) : Prop :=
  ∀ pre e sign ds, t = pre ++ e :: (sign ++ ds) → e ∈ [code 'e', code 'E'] →
    sign ∈ [[], [code '+'], [code '-']] → Digits ds → scaleEnds (wrap64 (digitsValue ds)) = true

/-- At the front of `data` stands a number whose exponent the loop never gets through. -/
def EndlessAt (data : JString) : Prop :=
  ∃ t v rest, Json.parseNumber data = some (v, rest) ∧ data = t ++ rest ∧ ¬ Ends t

/-- The exponent ends the number it stands in. -/
theorem EndlessExponent.endlessAt {pre s : JString} (h : EndlessExponent s)
    (hparse : ∀ rest, Json.skipExponent s = some rest →
      ∃ v, Json.parseNumber (pre ++ s) = some (v, rest)) : EndlessAt (pre ++ s) := by
  obtain ⟨e, sign, digits, rest, rfl, he, hsign, ⟨ds, rest', rfl, hds, hskip, hends⟩, hrest, hexp⟩ :=
    h
  obtain rfl : rest' = rest := Option.some.inj (hskip.symm.trans hrest)
  obtain ⟨v, hv⟩ := hparse rest' hexp
  refine ⟨pre ++ e :: (sign ++ ds), v, rest', hv, by simp, fun hall ↦ ?_⟩
  rw [hall pre e sign ds rfl he hsign hds] at hends
  exact nomatch hends

theorem parseNumber_agrees {data : JString} {size : ℕ} (hn : data.length < size) :
    Agrees (parseNumber size (some data)) (Json.parseNumber data) (EndlessAt data) := by
  obtain ⟨neg, hneg⟩ : ∃ neg : Bool, decide (cur data = code '-') = neg := ⟨_, rfl⟩
  have hminus : neg = true → data ≠ [] := by
    rintro rfl
    exact ne_nil_of_cur (of_decide_eq_true hneg) (by decide)
  obtain ⟨start, hstart⟩ : ∃ start, (if neg then data.tail else data) = start := ⟨_, rfl⟩
  have hsuffix : start <:+ data := by
    rw [← hstart]
    split
    · exact List.tail_suffix data
    · exact List.suffix_rfl
  rw [parseNumber, position_bind, deref_bind, hneg, Json.parseNumber, hneg]
  simp only [Option.bind_eq_bind]
  rw [advanceIf_bind _ hminus, hstart]
  refine (parseInteger_agrees neg (hsuffix.length_le.trans_lt hn)).bind fun value rest hinteger ↦ ?_
  obtain ⟨int, -, hint, -⟩ := parseInteger_sound hinteger
  have hrest : rest <:+ data := (hint ▸ List.suffix_append int rest).trans hsuffix
  rw [deref_bind]
  dsimp only
  by_cases hmark : cur rest = code '.' ∨ cur rest = code 'e' ∨ cur rest = code 'E'
  · rw [if_pos hmark, if_pos hmark]
    refine (skipFraction_agrees (hrest.length_le.trans_lt hn)).bind_unit fun rest₁ hfraction ↦ ?_
    obtain ⟨frac, -, hfrac, -⟩ := skipFraction_sound hfraction
    have hrest₁ : rest₁ <:+ data := (hfrac ▸ List.suffix_append frac rest₁).trans hrest
    have hexponent := skipExponent_agrees (s := rest₁) (hrest₁.length_le.trans_lt hn)
    refine (hexponent.mono fun hendless ↦ ?_).bind_unit fun rest₂ _ ↦ ?_
    · -- the number is read up to the end of the exponent
      obtain ⟨pre, rfl⟩ := hrest₁
      refine hendless.endlessAt fun rest₂ hrest₂ ↦
        ⟨.number ((pre ++ rest₁).take ((pre ++ rest₁).length - rest₂.length)), ?_⟩
      rw [Json.parseNumber, hneg]
      simp [hstart, hinteger, hmark, hfraction, hrest₂]
    · rw [position_bind]
      exact .ok
  · rw [if_neg hmark, if_neg hmark]
    exact .ok

/-! ### Words -/

theorem startsWith_eq {word : JString} (hword : ∀ w ∈ word, w ≠ 0) {k : ℕ} {s : JString}
    (hk : k ≤ s.length) :
    startsWith k word (some s) = .ok (decide (word <+: s.drop k)) (some s) := by
  induction word generalizing k with
  | nil =>
    rw [decide_eq_true List.nil_prefix]
    rfl
  | cons w word ih =>
    have hpeek : peek k (some s) = .ok (s.getD k 0) (some s) := if_pos hk
    rw [startsWith, Effect.bind_ok hpeek]
    rcases hk.lt_or_eq with hlt | rfl
    · have hdrop : s.drop k = s[k] :: s.drop (k + 1) := List.drop_eq_getElem_cons hlt
      have hget : s.getD k 0 = s[k] := by simp [hlt]
      rw [hdrop, hget]
      split
      · rename_i hw
        rw [ih (fun c hc ↦ hword c (List.mem_cons_of_mem _ hc)) hlt]
        simp [List.cons_prefix_cons, hw]
      · rename_i hw
        have hno : ¬ w :: word <+: s[k] :: s.drop (k + 1) :=
          fun h ↦ hw (List.cons_prefix_cons.1 h).1.symm
        rw [decide_eq_false hno]
        rfl
    · -- the terminating zero is no unit of the word
      have hget : s.getD s.length 0 = 0 := by simp
      have hno : ¬ w :: word <+: s.drop s.length := by simp
      rw [hget, if_neg (hword w (by simp)).symm, decide_eq_false hno]
      rfl

theorem advanceBy_eq {k : ℕ} {s : JString} (hk : k ≤ s.length) :
    advanceBy k (some s) = .ok () (some (s.drop k)) := by
  induction k generalizing s with
  | zero => rfl
  | succ k ih =>
    obtain ⟨c, s, rfl⟩ : ∃ c s', s = c :: s' :=
      List.exists_cons_of_ne_nil (List.ne_nil_of_length_pos (by omega))
    rw [advanceBy, advance_bind]
    exact ih (by simpa using hk)

theorem wordOr_agrees {word s : JString} (hword : ∀ w ∈ word, w ≠ 0) (v : JValue)
    {other : Reader JValue} {r : Option (JValue × JString)} (hother : Agrees (other (some s)) r H) :
    Agrees (wordOr word v other (some s))
      (if word <+: s then some (v, s.drop word.length) else r) H := by
  rw [wordOr, Effect.bind_ok (startsWith_eq hword (Nat.zero_le _)), List.drop_zero]
  by_cases h : word <+: s
  · rw [decide_eq_true h, if_pos rfl, if_pos h, Effect.bind_ok (advanceBy_eq h.length_le)]
    exact .ok
  · rw [decide_eq_false h, if_neg (by simp), if_neg h]
    exact hother

/-! ### Values -/

theorem next_agrees {size close : ℕ} {value : JValue} {loop : Reader JValue} {s : JString}
    {more : JString → Option (JValue × JString)} (hs : IsText s) (hn : s.length < size)
    (hloop : ∀ d, Json.skipWhitespace s = some d → Agrees (loop (some d.tail)) (more d.tail) H) :
    Agrees (next size close value loop (some s))
      ((Json.skipWhitespace s).bind fun d ↦
        if cur d = close then some (value, d.tail)
        else if cur d = code ',' then more d.tail else none) H := by
  refine (toSign_agrees hs hn).bind_unit fun d hd ↦ ?_
  have hne := (skipWhitespace_length hd).2
  rw [deref_bind]
  split
  · rw [advance_bind_tail _ hne]
    exact .ok
  · split
    · rename_i hcomma
      exact .null
    · rename_i hcomma
      rw [if_pos (not_not.1 hcomma), advance_bind_tail _ hne]
      exact hloop d hd

/-- **The two readers agree** when neither runs out of turns; only an exponent can hang. -/
theorem parseStr_agrees (size n : ℕ) :
    (∀ data, IsText data → data.length < size → 2 * data.length < n →
      Agrees (parseStr size n (some data)) (Json.parseStr n data) True) ∧
    (∀ object data, IsText data → data.length < size → 2 * data.length + 1 < n →
      Agrees (parseMembers size n object (some data)) (Json.parseMembers n object data) True) ∧
    (∀ array data, IsText data → data.length < size → 2 * data.length + 1 < n →
      Agrees (parseElems size n array (some data)) (Json.parseElems n array data) True) := by
  induction n with
  | zero => exact ⟨fun _ _ _ h ↦ by omega, fun _ _ _ _ h ↦ by omega, fun _ _ _ _ h ↦ by omega⟩
  | succ n ih =>
    obtain ⟨ihStr, ihMembers, ihElems⟩ := ih
    refine ⟨fun data hdata hsize hn ↦ ?_, fun object data hdata hsize hn ↦ ?_,
      fun array data hdata hsize hn ↦ ?_⟩
    · have htail : IsText data.tail := hdata.of_suffix (List.tail_suffix data)
      have hlen := (List.tail_suffix data).length_le
      rw [parseStr, deref_bind, Json.parseStr]
      split
      · rename_i hquote
        rw [advance_bind_tail _ (ne_nil_of_cur hquote (by decide)), Option.map_eq_bind]
        exact (extractString_agrees htail (hlen.trans_lt hsize)).bind fun str rest _ ↦ .ok
      · refine wordOr_agrees (by decide) _ (wordOr_agrees (by decide) _
          (wordOr_agrees (by decide) _ ?_))
        split
        · exact (parseNumber_agrees hsize).mono fun _ ↦ trivial
        · split
          · rename_i hbrace
            have hlt := tail_length_lt hbrace (by decide)
            rw [advance_bind_tail _ (ne_nil_of_cur hbrace (by decide))]
            exact ihMembers [] _ htail (by omega) (by omega)
          · split
            · rename_i hbracket
              have hlt := tail_length_lt hbracket (by decide)
              rw [advance_bind_tail _ (ne_nil_of_cur hbracket (by decide))]
              exact ihElems [] _ htail (by omega) (by omega)
            · exact .null
    · rw [parseMembers, deref_bind, parseMembers_eq]
      split
      · rename_i hzero
        obtain rfl := (cur_eq_zero_iff hdata).1 hzero
        exact .null
      · refine (toSign_agrees hdata hsize).bind_unit fun d hd ↦ ?_
        obtain ⟨hlen, hne⟩ := skipWhitespace_length hd
        have hpos := List.length_pos_iff.2 hne
        have htail : IsText d.tail :=
          hdata.of_suffix ((List.tail_suffix d).trans (white_of_skipWhitespace hd).suffix)
        have htailLen : d.tail.length = d.length - 1 := List.length_tail
        rw [deref_bind]
        split
        · rw [advance_bind_tail _ hne]
          exact .ok
        · split
          · exact .null
          · rw [advance_bind_tail _ hne]
            refine (extractString_agrees htail (by omega)).bind fun name d₁ hname ↦ ?_
            obtain ⟨-, hrest⟩ := chars_of_extractString htail hname
            have htext₁ : IsText d₁ :=
              htail.of_suffix (hrest ▸ (List.suffix_cons _ _).trans (List.suffix_append name _))
            have hlen₁ := (stringBody_of_extractString hname).2
            refine (toSign_agrees htext₁ (by omega)).bind_unit fun d₂ hd₂ ↦ ?_
            obtain ⟨hlen₂, hne₂⟩ := skipWhitespace_length hd₂
            have hpos₂ := List.length_pos_iff.2 hne₂
            have htext₂ : IsText d₂.tail :=
              htext₁.of_suffix ((List.tail_suffix d₂).trans (white_of_skipWhitespace hd₂).suffix)
            have htailLen₂ : d₂.tail.length = d₂.length - 1 := List.length_tail
            rw [deref_bind, advance_bind_tail _ hne₂]
            split
            · exact .null
            · refine (toSign_agrees htext₂ (by omega)).bind_unit fun d₃ hd₃ ↦ ?_
              have hlen₃ := (skipWhitespace_length hd₃).1
              have htext₃ : IsText d₃ := htext₂.of_suffix (white_of_skipWhitespace hd₃).suffix
              refine (ihStr d₃ htext₃ (by omega) (by omega)).bind fun value d₄ hvalue ↦ ?_
              have htext₄ : IsText d₄ :=
                htext₃.of_suffix ((parse_sound n).1 _ _ _ htext₃ hvalue).suffix
              have hlen₄ := (parse_length n).1 _ _ _ hvalue
              refine next_agrees htext₄ (by omega) fun d₅ hd₅ ↦ ?_
              have hlen₅ := (skipWhitespace_length hd₅).1
              exact ihMembers _ _ (htext₄.of_suffix ((List.tail_suffix d₅).trans
                (white_of_skipWhitespace hd₅).suffix)) (by rw [List.length_tail]; omega)
                (by rw [List.length_tail]; omega)
    · rw [parseElems, deref_bind, parseElems_eq]
      split
      · rename_i hzero
        obtain rfl := (cur_eq_zero_iff hdata).1 hzero
        exact .null
      · refine (toSign_agrees hdata hsize).bind_unit fun d hd ↦ ?_
        obtain ⟨hlen, hne⟩ := skipWhitespace_length hd
        have htext : IsText d := hdata.of_suffix (white_of_skipWhitespace hd).suffix
        rw [deref_bind]
        split
        · rw [advance_bind_tail _ hne]
          exact .ok
        · refine (ihStr d htext (by omega) (by omega)).bind fun value d₁ hvalue ↦ ?_
          have htext₁ : IsText d₁ :=
            htext.of_suffix ((parse_sound n).1 _ _ _ htext hvalue).suffix
          have hlen₁ := (parse_length n).1 _ _ _ hvalue
          refine next_agrees htext₁ (by omega) fun d₂ hd₂ ↦ ?_
          have hlen₂ := (skipWhitespace_length hd₂).1
          exact ihElems _ _ (htext₁.of_suffix ((List.tail_suffix d₂).trans
            (white_of_skipWhitespace hd₂).suffix)) (by rw [List.length_tail]; omega)
            (by rw [List.length_tail]; omega)

end SocketPro.Json.Pointer
