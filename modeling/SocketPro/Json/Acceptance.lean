import SocketPro.Json.PointerRefinement

/-!
# What the grammar derives, the reader accepts

By recursion on the derivation, for every bound that is large enough. What decides it is that
nothing behind a value can continue it, so that the scanners, which take all they can, stop where
the derivation says.

**The exponents.** The reader comes to its end on a text whose exponents its loop gets through. On
the others it returns the value, or it hangs; both cases are one derivation, with a condition `H`
under which it may hang.
-/

namespace SocketPro.Json.Pointer

open Machine

variable {read : JString → JString} {num : JString → JValue → Prop} {H : Prop} {size : ℕ}

/-! ### One turn -/

/-- A value starts with a sign of its own. -/
theorem head_of_value (hnum : ∀ t v, num t v → Number t v) {t r : JString} {v : JValue}
    (h : Value read num t v r) :
    ∃ c s, t = c :: s ∧ isSpace c = false ∧ c ≠ code ']' := by
  cases h with
  | null => exact ⟨_, _, rfl, by decide, by decide⟩
  | true => exact ⟨_, _, rfl, by decide, by decide⟩
  | false => exact ⟨_, _, rfl, by decide, by decide⟩
  | string => exact ⟨_, _, rfl, by decide, by decide⟩
  | emptyArray => exact ⟨_, _, rfl, by decide, by decide⟩
  | array => exact ⟨_, _, rfl, by decide, by decide⟩
  | emptyObject => exact ⟨_, _, rfl, by decide, by decide⟩
  | object => exact ⟨_, _, rfl, by decide, by decide⟩
  | @number n _ _ hv =>
    have hcur := (hnum _ _ hv).head r
    generalize n ++ r = t at hcur ⊢
    rcases t with - | ⟨c, s⟩
    · exact absurd hcur (by decide)
    · have hno : ∀ d ∈ [code ' ', code '\n', code '\r', code '\t', code ']'],
          ¬ (d = code '-' ∨ isDigit d = true) := by decide
      have hother : ∀ d ∈ [code ' ', code '\n', code '\r', code '\t', code ']'], c ≠ d := by
        rintro d hd rfl
        exact hno c hd hcur
      exact ⟨c, s, rfl, by simp [isSpace, hother], hother _ (by simp)⟩

theorem delimited_of_white {t r : JString} {c : ℕ} (h : White t (c :: r)) (hc : Delimited [c]) :
    Delimited t := by
  obtain ⟨ws, hws, rfl⟩ := white_iff.1 h
  exact delimited_append hws hc r

theorem cur_ne_zero_of_white {t s : JString} {c : ℕ} (ht : IsText t) (h : White t (c :: s)) :
    cur t ≠ 0 := by
  intro hzero
  obtain rfl := (cur_eq_zero_iff ht).1 hzero
  exact absurd h.suffix.length_le (by simp)

theorem next_of_close {close : ℕ} {value : JValue} {loop : Reader JValue} {t r : JString}
    (ht : IsText t) (hsize : t.length < size) (h : White t (close :: r))
    (hclose : isSpace close = false) : next size close value loop (some t) = .ok value (some r) := by
  rw [next, toSign_bind ht hsize (skipWhitespace_of_white h hclose), deref_bind]
  exact congrFun (if_pos rfl) _

theorem next_of_comma {close : ℕ} {value : JValue} {loop : Reader JValue} {t r : JString}
    (ht : IsText t) (hsize : t.length < size) (h : White t (code ',' :: r))
    (hclose : code ',' ≠ close) : next size close value loop (some t) = loop (some r) := by
  have hcur : cur (code ',' :: r) = code ',' := rfl
  rw [next, toSign_bind ht hsize (skipWhitespace_of_white h (by decide)), deref_bind, hcur,
    if_neg hclose, if_neg (not_not.2 rfl), advance_bind]

/-- One turn of the loop over the elements. -/
theorem parseElems_turn {n : ℕ} {array : List JValue} {t t₁ t₂ r₁ : JString} {v v' : JValue}
    {result : Option (JValue × JString)} (hnum : ∀ t v, num t v → Number t v) (ht : IsText t)
    (hsize : t.length < size) (h₁ : White t t₁) (hv : Value read num t₁ v r₁)
    (hread : Agrees (parseStr size n (some t₁)) (some (v', t₂)) H)
    (hnext : Agrees (next size (code ']') (.array (array ++ [v']))
      (parseElems size n (array ++ [v'])) (some t₂)) result H) :
    Agrees (parseElems size (n + 1) array (some t)) result H := by
  obtain ⟨c, s, rfl, hspace, hclose⟩ := head_of_value hnum hv
  rw [parseElems, deref_bind, if_neg (cur_ne_zero_of_white ht h₁),
    toSign_bind ht hsize (skipWhitespace_of_white h₁ hspace), deref_bind,
    if_neg fun h ↦ hclose h.2]
  refine hread.bind (g := fun _ ↦ result) fun a rest heq ↦ ?_
  obtain ⟨rfl, rfl⟩ := Prod.mk.inj (Option.some.inj heq)
  exact hnext

/-- One turn of the loop over the members. -/
theorem parseMembers_turn {n : ℕ} {object : JObject} {t s t₁ t₂ t₃ t₄ r₃ : JString}
    {v v' : JValue} {result : Option (JValue × JString)} (hnum : ∀ t v, num t v → Number t v)
    (ht : IsText t) (hsize : t.length < size)
    (h₁ : White t (code '"' :: (s ++ code '"' :: t₁))) (hs : Chars s)
    (h₂ : White t₁ (code ':' :: t₂)) (h₃ : White t₂ t₃) (hv : Value read num t₃ v r₃)
    (hread : Agrees (parseStr size n (some t₃)) (some (v', t₄)) H)
    (hnext : Agrees (next size (code '}') (.object (object.set s v'))
      (parseMembers size n (object.set s v')) (some t₄)) result H) :
    Agrees (parseMembers size (n + 1) object (some t)) result H := by
  obtain ⟨c, s', rfl, hspace, -⟩ := head_of_value hnum hv
  have hbody : s ++ code '"' :: t₁ <:+ t := (List.suffix_cons _ _).trans h₁.suffix
  have htail : t₁ <:+ t :=
    ((List.suffix_cons _ _).trans (List.suffix_append s _)).trans hbody
  have hcolon : t₂ <:+ t := suffix_of_name h₁ h₂
  have hne : ¬ (List.isEmpty object = true ∧ code '"' = code '}') := fun h ↦ absurd h.2 (by decide)
  have hquote : cur (code '"' :: (s ++ code '"' :: t₁)) = code '"' := rfl
  have hsign : cur (code ':' :: t₂) = code ':' := rfl
  rw [parseMembers, deref_bind, if_neg (cur_ne_zero_of_white ht h₁),
    toSign_bind ht hsize (skipWhitespace_of_white h₁ (by decide)), deref_bind, hquote, if_neg hne,
    if_neg (not_not.2 rfl), advance_bind,
    extractString_bind (ht.of_suffix hbody) (hbody.length_le.trans_lt hsize)
      (extractString_of_chars hs (ht.of_suffix hbody)),
    toSign_bind (ht.of_suffix htail) (htail.length_le.trans_lt hsize)
      (skipWhitespace_of_white h₂ (by decide)),
    deref_bind, hsign, advance_bind, if_neg (not_not.2 rfl),
    toSign_bind (ht.of_suffix hcolon) (hcolon.length_le.trans_lt hsize)
      (skipWhitespace_of_white h₃ hspace)]
  refine hread.bind (g := fun _ ↦ result) fun a rest heq ↦ ?_
  obtain ⟨rfl, rfl⟩ := Prod.mk.inj (Option.some.inj heq)
  exact hnext

/-! ### The text of one value -/

theorem wordOr_of_prefix {word s : JString} (hword : ∀ w ∈ word, w ≠ 0) (v : JValue)
    (other : Reader JValue) : wordOr word v other (some (word ++ s)) = .ok v (some s) := by
  have hfound := startsWith_eq hword (Nat.zero_le (word ++ s).length)
  rw [List.drop_zero, decide_eq_true (List.prefix_append word s)] at hfound
  rw [wordOr, Effect.bind_ok hfound, if_pos rfl,
    Effect.bind_ok (advanceBy_eq (List.prefix_append word s).length_le), List.drop_left]
  rfl

theorem wordOr_of_not_prefix {word s : JString} (hword : ∀ w ∈ word, w ≠ 0) (v : JValue)
    (other : Reader JValue) (h : ¬ word <+: s) : wordOr word v other (some s) = other (some s) := by
  have hfound := startsWith_eq hword (Nat.zero_le s.length)
  rw [List.drop_zero, decide_eq_false h] at hfound
  rw [wordOr, Effect.bind_ok hfound, if_neg (by simp)]

theorem parseStr_word (size n : ℕ) (r : JString) :
    parseStr size (n + 1) (some (jNull ++ r)) = .ok .null (some r) ∧
      parseStr size (n + 1) (some (jTrue ++ r)) = .ok (.bool true) (some r) ∧
      parseStr size (n + 1) (some (jFalse ++ r)) = .ok (.bool false) (some r) := by
  have hnull : cur (jNull ++ r) ≠ code '"' := show code 'n' ≠ code '"' by decide
  have htrue : cur (jTrue ++ r) ≠ code '"' := show code 't' ≠ code '"' by decide
  have hfalse : cur (jFalse ++ r) ≠ code '"' := show code 'f' ≠ code '"' by decide
  refine ⟨?_, ?_, ?_⟩
  · rw [parseStr, deref_bind, if_neg hnull,
      wordOr_of_not_prefix (by decide) _ _ (by simp [jFalse, jNull, code]),
      wordOr_of_not_prefix (by decide) _ _ (by simp [jTrue, jNull, code]),
      wordOr_of_prefix (by decide)]
  · rw [parseStr, deref_bind, if_neg htrue,
      wordOr_of_not_prefix (by decide) _ _ (by simp [jFalse, jTrue, code]),
      wordOr_of_prefix (by decide)]
  · rw [parseStr, deref_bind, if_neg hfalse, wordOr_of_prefix (by decide)]

/-- A text that starts with neither a quote nor one of the words. -/
theorem parseStr_other {data : JString}
    (hcur : ∀ c ∈ [code '"', code 'f', code 't', code 'n'], cur data ≠ c) (n : ℕ) :
    parseStr size (n + 1) (some data) =
      (if cur data = code '-' ∨ isDigit (cur data) = true then parseNumber size
      else if cur data = code '{' then do
        advance
        parseMembers size n []
      else if cur data = code '[' then do
        advance
        parseElems size n []
      else Effect.raise .null : Reader JValue) (some data) := by
  have hprefix : ∀ c ∈ [code '"', code 'f', code 't', code 'n'], ∀ p, ¬ c :: p <+: data := by
    rintro c hc p ⟨t, rfl⟩
    exact hcur c hc rfl
  have hfalse : ¬ jFalse <+: data := hprefix (code 'f') (by simp) _
  have htrue : ¬ jTrue <+: data := hprefix (code 't') (by simp) _
  have hnull : ¬ jNull <+: data := hprefix (code 'n') (by simp) _
  rw [parseStr, deref_bind, if_neg (hcur _ (by simp)),
    wordOr_of_not_prefix (by decide) _ _ hfalse, wordOr_of_not_prefix (by decide) _ _ htrue,
    wordOr_of_not_prefix (by decide) _ _ hnull]

theorem parseStr_bracket (n : ℕ) (data : JString) :
    parseStr size (n + 1) (some (code '[' :: data)) = parseElems size n [] (some data) := by
  have hcur : cur (code '[' :: data) = code '[' := rfl
  rw [parseStr_other (by rw [hcur]; decide), hcur, if_neg (by decide), if_neg (by decide),
    if_pos rfl, advance_bind]

theorem parseStr_brace (n : ℕ) (data : JString) :
    parseStr size (n + 1) (some (code '{' :: data)) = parseMembers size n [] (some data) := by
  have hcur : cur (code '{' :: data) = code '{' := rfl
  rw [parseStr_other (by rw [hcur]; decide), hcur, if_neg (by decide), if_pos rfl, advance_bind]

theorem parseStr_number {data : JString} (hdata : cur data = code '-' ∨ isDigit (cur data) = true)
    (n : ℕ) : parseStr size (n + 1) (some data) = parseNumber size (some data) := by
  have hcur : ∀ c ∈ [code '"', code 'f', code 't', code 'n'], cur data ≠ c := by
    rintro c hc rfl
    revert hdata
    generalize cur data = d at hc ⊢
    revert d
    decide
  rw [parseStr_other hcur, if_pos hdata]

theorem parseStr_quote (n : ℕ) {s r : JString} (hs : Chars s) (ht : IsText (s ++ code '"' :: r))
    (hsize : (s ++ code '"' :: r).length < size) :
    parseStr size (n + 1) (some (code '"' :: (s ++ code '"' :: r))) = .ok (.string s) (some r) := by
  have hcur : cur (code '"' :: (s ++ code '"' :: r)) = code '"' := rfl
  rw [parseStr, deref_bind, hcur, if_pos rfl, advance_bind,
    extractString_bind ht hsize (extractString_of_chars hs ht)]
  rfl

/-! ### Derivations -/

/-- The numbers of a derivation denote what the reader makes of them, and their exponents end, or
else the reader may hang. -/
def Accepts (num : JString → JValue → Prop) (H : Prop) : Prop :=
  ∀ t v, num t v → Number t v ∧ (Ends t ∨ H) ∧
    ∀ rest, Delimited rest → Json.parseNumber (t ++ rest) = some (v, rest)

theorem Accepts.number (hnum : Accepts num H) (t : JString) (v : JValue) (h : num t v) :
    Number t v := (hnum t v h).1

theorem parseNumber_of_num (hnum : Accepts num H) {t r : JString} {v : JValue} (hv : num t v)
    (hr : Delimited r) (hsize : (t ++ r).length < size) :
    Agrees (parseNumber size (some (t ++ r))) (some (v, r)) H := by
  obtain ⟨-, hends, hread⟩ := hnum t v hv
  have hagrees := parseNumber_agrees hsize
  rw [hread r hr] at hagrees
  refine hagrees.mono ?_
  rintro ⟨t', v', rest, hparse, heq, hendless⟩
  -- the number that hangs is this one
  obtain ⟨-, rfl⟩ := Prod.mk.inj (Option.some.inj ((hread r hr).symm.trans hparse))
  obtain rfl := List.append_cancel_right heq
  exact hends.resolve_left hendless

mutual

/-- **What the grammar derives, the reader accepts**, when nothing behind the value continues it;
larger bounds do not matter. -/
theorem reads_of_value (hnum : Accepts num H) {t r : JString} {v : JValue} :
    Value id num t v r → IsText t → t.length < size → Delimited r → ∀ n, 2 * t.length < n →
      Agrees (parseStr size n (some t)) (some (v, r)) H
  | .null, _, _, _, n, hn => by
    obtain ⟨n, rfl⟩ : ∃ m, n = m + 1 := ⟨n - 1, by omega⟩
    rw [(parseStr_word size n r).1]
    exact .ok
  | .true, _, _, _, n, hn => by
    obtain ⟨n, rfl⟩ : ∃ m, n = m + 1 := ⟨n - 1, by omega⟩
    rw [(parseStr_word size n r).2.1]
    exact .ok
  | .false, _, _, _, n, hn => by
    obtain ⟨n, rfl⟩ : ∃ m, n = m + 1 := ⟨n - 1, by omega⟩
    rw [(parseStr_word size n r).2.2]
    exact .ok
  | .string (s := s) hs, ht, hsize, _, n, hn => by
    obtain ⟨n, rfl⟩ : ∃ m, n = m + 1 := ⟨n - 1, by omega⟩
    have hsuffix := List.suffix_cons (code '"') (s ++ code '"' :: r)
    rw [parseStr_quote n hs (ht.of_suffix hsuffix) (hsuffix.length_le.trans_lt hsize)]
    exact .ok
  | .number hv, _, hsize, hr, n, hn => by
    obtain ⟨n, rfl⟩ : ∃ m, n = m + 1 := ⟨n - 1, by omega⟩
    rw [parseStr_number ((hnum.number _ _ hv).head r)]
    exact parseNumber_of_num hnum hv hr hsize
  | .emptyArray (t := s) hs, ht, hsize, _, n, hn => by
    obtain ⟨n, rfl⟩ : ∃ m, n = m + 2 := ⟨n - 2, by simp only [List.length_cons] at hn; omega⟩
    have hsuffix := List.suffix_cons (code '[') s
    have hclose : List.isEmpty ([] : List JValue) = true ∧ cur (code ']' :: r) = code ']' :=
      ⟨rfl, rfl⟩
    rw [parseStr_bracket, parseElems, deref_bind,
      if_neg (cur_ne_zero_of_white (ht.of_suffix hsuffix) hs),
      toSign_bind (ht.of_suffix hsuffix) (hsuffix.length_le.trans_lt hsize)
        (skipWhitespace_of_white hs (by decide)), deref_bind, if_pos hclose, advance_bind]
    exact .ok
  | .array (t := s) hs, ht, hsize, _, n, hn => by
    obtain ⟨n, rfl⟩ : ∃ m, n = m + 1 := ⟨n - 1, by omega⟩
    have hsuffix := List.suffix_cons (code '[') s
    simp only [List.length_cons] at hn
    rw [parseStr_bracket]
    exact reads_of_elements hnum hs (ht.of_suffix hsuffix) (hsuffix.length_le.trans_lt hsize) [] n
      (by omega)
  | .emptyObject (t := s) hs, ht, hsize, _, n, hn => by
    obtain ⟨n, rfl⟩ : ∃ m, n = m + 2 := ⟨n - 2, by simp only [List.length_cons] at hn; omega⟩
    have hsuffix := List.suffix_cons (code '{') s
    have hclose : List.isEmpty ([] : JObject) = true ∧ cur (code '}' :: r) = code '}' :=
      ⟨rfl, rfl⟩
    rw [parseStr_brace, parseMembers, deref_bind,
      if_neg (cur_ne_zero_of_white (ht.of_suffix hsuffix) hs),
      toSign_bind (ht.of_suffix hsuffix) (hsuffix.length_le.trans_lt hsize)
        (skipWhitespace_of_white hs (by decide)), deref_bind, if_pos hclose, advance_bind]
    exact .ok
  | .object (t := s) hs, ht, hsize, _, n, hn => by
    obtain ⟨n, rfl⟩ : ∃ m, n = m + 1 := ⟨n - 1, by omega⟩
    have hsuffix := List.suffix_cons (code '{') s
    simp only [List.length_cons] at hn
    rw [parseStr_brace]
    exact reads_of_members hnum hs (ht.of_suffix hsuffix) (hsuffix.length_le.trans_lt hsize) [] n
      (by omega)

theorem reads_of_elements (hnum : Accepts num H) {t r : JString} {vs : List JValue} :
    Elements id num t vs r → IsText t → t.length < size → ∀ array n, 2 * t.length + 1 < n →
      Agrees (parseElems size n array (some t)) (some (.array (array ++ vs), r)) H
  | .last h₁ hv h₂, ht, hsize, array, n, hn => by
    obtain ⟨n, rfl⟩ : ∃ m, n = m + 1 := ⟨n - 1, by omega⟩
    have ht₁ := ht.of_suffix h₁.suffix
    have hlen₁ := h₁.suffix.length_le
    have hsize₁ := hlen₁.trans_lt hsize
    have hread := reads_of_value hnum hv ht₁ hsize₁ (delimited_of_white h₂ (by decide)) n (by omega)
    refine parseElems_turn hnum.number ht hsize h₁ hv hread ?_
    rw [next_of_close (ht₁.of_suffix hv.suffix) (hv.suffix.length_le.trans_lt hsize₁) h₂
      (by decide)]
    exact .ok
  | .cons (v := v) h₁ hv h₂ hvs, ht, hsize, array, n, hn => by
    obtain ⟨n, rfl⟩ : ∃ m, n = m + 1 := ⟨n - 1, by omega⟩
    have ht₁ := ht.of_suffix h₁.suffix
    have hlen₁ := h₁.suffix.length_le
    have hsize₁ := hlen₁.trans_lt hsize
    have hread := reads_of_value hnum hv ht₁ hsize₁ (delimited_of_white h₂ (by decide)) n (by omega)
    -- the comma and what is before it are gone
    have hrest := ((List.suffix_cons _ _).trans h₂.suffix).trans hv.suffix
    have hcomma := h₂.suffix.length_le
    have hlen₂ := hv.suffix.length_le
    simp only [List.length_cons] at hcomma
    have hloop := reads_of_elements hnum hvs (ht₁.of_suffix hrest)
      (hrest.length_le.trans_lt hsize₁) (array ++ [v]) n (by omega)
    rw [List.append_assoc, List.singleton_append] at hloop
    refine parseElems_turn hnum.number ht hsize h₁ hv hread ?_
    rw [next_of_comma (ht₁.of_suffix hv.suffix) (hv.suffix.length_le.trans_lt hsize₁) h₂
      (by decide)]
    exact hloop

theorem reads_of_members (hnum : Accepts num H) {t r : JString} {ms : List (JString × JValue)} :
    Members id num t ms r → IsText t → t.length < size → ∀ (object : JObject) (n : ℕ),
      2 * t.length + 1 < n →
        Agrees (parseMembers size n object (some t)) (some (.object (addMembers object ms), r)) H
  | .last h₁ hs h₂ h₃ hv h₄, ht, hsize, object, n, hn => by
    obtain ⟨n, rfl⟩ : ∃ m, n = m + 1 := ⟨n - 1, by omega⟩
    have hsuffix := h₃.suffix.trans (suffix_of_name h₁ h₂)
    have ht₃ := ht.of_suffix hsuffix
    have hlen₃ := hsuffix.length_le
    have hsize₃ := hlen₃.trans_lt hsize
    have hread := reads_of_value hnum hv ht₃ hsize₃ (delimited_of_white h₄ (by decide)) n (by omega)
    refine parseMembers_turn hnum.number ht hsize h₁ hs h₂ h₃ hv hread ?_
    rw [next_of_close (ht₃.of_suffix hv.suffix) (hv.suffix.length_le.trans_lt hsize₃) h₄
      (by decide)]
    exact .ok
  | .cons (s := s) (v := v) h₁ hs h₂ h₃ hv h₄ hms, ht, hsize, object, n, hn => by
    obtain ⟨n, rfl⟩ : ∃ m, n = m + 1 := ⟨n - 1, by omega⟩
    have hsuffix := h₃.suffix.trans (suffix_of_name h₁ h₂)
    have ht₃ := ht.of_suffix hsuffix
    have hlen₃ := hsuffix.length_le
    have hsize₃ := hlen₃.trans_lt hsize
    have hread := reads_of_value hnum hv ht₃ hsize₃ (delimited_of_white h₄ (by decide)) n (by omega)
    have hrest := ((List.suffix_cons _ _).trans h₄.suffix).trans hv.suffix
    have hcomma := h₄.suffix.length_le
    have hlen₄ := hv.suffix.length_le
    simp only [List.length_cons] at hcomma
    have hloop := reads_of_members hnum hms (ht₃.of_suffix hrest)
      (hrest.length_le.trans_lt hsize₃) (object.set s v) n (by omega)
    refine parseMembers_turn hnum.number ht hsize h₁ hs h₂ h₃ hv hread ?_
    rw [next_of_comma (ht₃.of_suffix hv.suffix) (hv.suffix.length_le.trans_lt hsize₃) h₄
      (by decide)]
    exact hloop

end

/-! ### Whole texts -/

theorem skipWhitespace_of_end {s : JString} (h : White s []) (hsize : s.length < size) :
    skipWhitespace size (some s) = .ok false (some []) := by
  obtain ⟨ws, hws, rfl⟩ := white_iff.1 h
  have hdrop : (ws ++ []).dropWhile isSpace = [] := by
    rw [List.append_nil, List.dropWhile_eq_nil_iff.2 hws]
  rw [skipWhitespace_eq hsize, hdrop]
  rfl

/-- A JSON text is read to its end. -/
theorem parseText_of_jsonText (hnum : Accepts num H) {text : JString} (htext : IsText text)
    {v : JValue} (h : JsonText id num text v) : Agrees (parseText text) (some (v, [])) H := by
  obtain ⟨t, r, hstart, hv, hend⟩ := h
  obtain ⟨c, s, rfl, hspace, -⟩ := head_of_value hnum.number hv
  have ht := htext.of_suffix hstart.suffix
  have hlen := hstart.suffix.length_le
  have hsize : text.length < text.length + 1 := Nat.lt_succ_self _
  have hdelimited : Delimited r := by
    obtain ⟨ws, hws, rfl⟩ := white_iff.1 hend
    rcases ws with - | ⟨w, ws⟩
    · decide
    · exact delimited_of_space (hws w (by simp)) _
  rw [parseText, parse, toSign_bind htext hsize (skipWhitespace_of_white hstart hspace)]
  have hread := reads_of_value hnum hv ht (hlen.trans_lt hsize) hdelimited
    (2 * (text.length + 1)) (by omega)
  refine hread.bind (g := fun _ ↦ some (v, [])) fun a rest heq ↦ ?_
  obtain ⟨rfl, rfl⟩ := Prod.mk.inj (Option.some.inj heq)
  have hrest := (hv.suffix.trans hstart.suffix).length_le
  rw [Effect.bind_ok (skipWhitespace_of_end hend (by omega))]
  exact .ok

/-- **The reader over memory is the reader of lists**, but for the loop that may hang. -/
theorem parseText_agrees {text : JString} (htext : IsText text) :
    Agrees (parseText text) ((Json.parse text).map fun v ↦ (v, [])) True := by
  have hsize : text.length < text.length + 1 := Nat.lt_succ_self _
  have hparse : (Json.parse text).map (fun v ↦ (v, ([] : JString))) =
      (Json.skipWhitespace text).bind fun d ↦ (Json.parseStr (2 * (text.length + 1)) d).bind
        fun r ↦ if (Json.skipWhitespace r.2).isSome then none else some (r.1, []) := by
    rw [Json.parse, cString_eq fun c hc ↦ (htext c hc).1, Option.bind_eq_bind, Option.map_bind]
    refine Option.bind_congr fun d hd ↦ ?_
    have hlen := (skipWhitespace_length hd).1
    have hfuel : Json.parseStr (2 * d.length + 1) d = Json.parseStr (2 * (text.length + 1)) d :=
      (parse_fuel _).1 _ d (by omega) (by omega)
    simp only [Function.comp_apply]
    rw [hfuel]
    rcases Json.parseStr (2 * (text.length + 1)) d with - | ⟨value, rest⟩
    · rfl
    · rcases hrest : Json.skipWhitespace rest with - | d'
      · simp [hrest]
      · simp [hrest]
  rw [hparse, parseText, parse]
  refine (toSign_agrees htext hsize).bind_unit fun d hd ↦ ?_
  have hstart := white_of_skipWhitespace hd
  have ht := htext.of_suffix hstart.suffix
  have hlen := hstart.suffix.length_le
  have hstr := (parseStr_agrees (text.length + 1) (2 * (text.length + 1))).1 d ht (by omega)
    (by omega)
  refine hstr.bind fun value rest hvalue ↦ ?_
  have hsuffix := ((parse_sound _).1 _ _ _ ht hvalue).suffix
  have hrest := hsuffix.length_le
  rw [Effect.bind_ok (skipWhitespace_eq (by omega)), Json.skipWhitespace]
  rcases hdrop : rest.dropWhile isSpace with - | ⟨c, s⟩
  · exact .ok
  · have hc : c ≠ 0 := by
      refine (ht c (hsuffix.subset ?_)).1
      exact (List.dropWhile_suffix isSpace).subset (hdrop ▸ List.mem_cons_self)
    have hmore : decide (cur (c :: s) ≠ 0) = true := decide_eq_true hc
    rw [hmore]
    exact .null

/-- The reader's value of a number, if it is one. -/
theorem accepts_fitting : Accepts Fitting True := fun _ _ h ↦
  ⟨.fitting h, .inr trivial, fun _ hrest ↦ parseNumber_of_fitting h hrest⟩

/-- A number with the value that the reader makes of it. -/
def ReadNumber (H : Prop) (t : JString) (v : JValue) : Prop :=
  (∃ v', Number t v') ∧ (Ends t ∨ H) ∧
    ∀ rest, Delimited rest → Json.parseNumber (t ++ rest) = some (v, rest)

theorem accepts_readNumber : Accepts (ReadNumber H) H := by
  rintro t v ⟨⟨v', hv'⟩, hends, hread⟩
  refine ⟨?_, hends, hread⟩
  obtain ⟨t', hnumber, heq⟩ := number_of_parseNumber (hread [] (by decide))
  rwa [List.append_cancel_right heq]

/-- A JSON text is read, unless it may hang. -/
theorem exists_agrees_of_jsonText {text : JString} (htext : IsText text) {v : JValue}
    (hnum : ∀ t v, num t v → Number t v ∧ (Ends t ∨ H)) (h : JsonText read num text v) :
    ∃ w, Agrees (parseText text) (some (w, [])) H := by
  obtain ⟨t, r, hstart, hv, hend⟩ := h
  have hmap : ∀ t v, num t v → ∃ v', ReadNumber H t v' := fun t v hv ↦
    (parseNumber_of_number (hnum t v hv).1).elim fun v' hread ↦
      ⟨v', ⟨v, (hnum t v hv).1⟩, (hnum t v hv).2, hread⟩
  obtain ⟨w, hw⟩ := value_map hmap hv
  exact ⟨w, parseText_of_jsonText accepts_readNumber htext ⟨t, r, hstart, hw, hend⟩⟩

end SocketPro.Json.Pointer
