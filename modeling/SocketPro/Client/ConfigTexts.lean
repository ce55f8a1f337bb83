import SocketPro.Client.SpConfig
import SocketPro.Json.Soundness

/-!
# The texts of a configuration

What `Parse` makes of the strings in a file. They are texts of a C string; unescaped and trimmed,
they have no backslash left before a unit with an escape, and no space at either end (`Kept`). What
`GetConfig` writes for such a text is read as that text, if the reader takes it at all.

**Where it does not.** A tab may stand in a string of the file as it is, and is written with a
backslash before it, which is no escape of JSON.
-/

namespace SocketPro.Client.SpConfig

open Json Unicode

/-! ### The strings of a file -/

instance (s : JString) : Decidable (IsText s) := by
  unfold IsText
  infer_instance

/-- What a string or a key in a file is. -/
def scanned (s : JString) : Bool := StringBody s && decide (IsText s)

theorem scanned_iff {s : JString} : scanned s = true ↔ StringBody s = true ∧ IsText s := by
  rw [scanned, Bool.and_eq_true, decide_eq_true_iff]

/-- The strings and keys of a value are as in a file. -/
def Lexical (v : JValue) : Prop := allParts scanned (fun _ ↦ true) v = true

theorem lexical_ofInt64 (n : ℤ) : Lexical (ofInt64 n) := by
  rw [Lexical, ofInt64]
  split <;> rfl

theorem scanned_of_chars {s t : JString} (hs : Chars s) (hst : s <:+: t) (ht : IsText t) :
    scanned s = true := by
  have htext : IsText s := fun c hc ↦ ht c (hst.subset hc)
  exact scanned_iff.2 ⟨hs.stringBody htext, htext⟩

theorem allMembers_ofMembers {ms : List (JString × JValue)}
    (h : allMembers scanned (fun _ ↦ true) ms = true) :
    allMembers scanned (fun _ ↦ true) (ofMembers ms) = true := by
  suffices hfold : ∀ object : JObject, allMembers scanned (fun _ ↦ true) object = true →
      allMembers scanned (fun _ ↦ true) (ms.foldl (fun o m ↦ o.set m.1 m.2) object) = true from
    hfold [] rfl
  induction ms with
  | nil => exact fun _ ho ↦ ho
  | cons m ms ih =>
    rw [allMembers, Bool.and_eq_true, Bool.and_eq_true] at h
    exact fun object ho ↦ ih h.2 _ (allMembers_set h.1.1 h.1.2 ho)

/-- A key stands between two quotes. -/
theorem key_segment {t s t₁ : JString} (h : White t (code '"' :: (s ++ code '"' :: t₁))) :
    s <:+: t := by
  have hs : s <:+: code '"' :: (s ++ code '"' :: t₁) := ⟨[code '"'], code '"' :: t₁, by simp⟩
  exact hs.trans h.suffix.isInfix

mutual

theorem lexical_of_value {t r : JString} {v : JValue} :
    Value id Number t v r → IsText t → Lexical v
  | .null, _ => rfl
  | .true, _ => rfl
  | .false, _ => rfl
  | .string (s := s) hs, ht => scanned_of_chars hs ⟨[code '"'], code '"' :: r, by simp⟩ ht
  | .number hv, _ => by
    cases hv with
    | fitting h =>
      cases h with
      | integer => rfl
      | negative => exact lexical_ofInt64 _
      | fractional => rfl
    | large => rfl
    | small => exact lexical_ofInt64 _
  | .emptyArray _, _ => rfl
  | .array hvs, ht => lexical_of_elements hvs (ht.of_suffix (List.suffix_cons _ _))
  | .emptyObject _, _ => rfl
  | .object hms, ht =>
    allMembers_ofMembers (lexical_of_members hms (ht.of_suffix (List.suffix_cons _ _)))

theorem lexical_of_elements {t r : JString} {vs : List JValue} :
    Elements id Number t vs r → IsText t → allElems scanned (fun _ ↦ true) vs = true
  | .last h₁ hv _, ht => by
    rw [allElems, lexical_of_value hv (ht.of_suffix h₁.suffix)]
    rfl
  | .cons h₁ hv h₂ hvs, ht => by
    have hnext := ((List.suffix_cons _ _).trans h₂.suffix).trans (hv.suffix.trans h₁.suffix)
    rw [allElems, lexical_of_value hv (ht.of_suffix h₁.suffix),
      lexical_of_elements hvs (ht.of_suffix hnext)]
    rfl

theorem lexical_of_members {t r : JString} {ms : List (JString × JValue)} :
    Members id Number t ms r → IsText t → allMembers scanned (fun _ ↦ true) ms = true
  | .last h₁ hs h₂ h₃ hv _, ht => by
    have hvalue := h₃.suffix.trans (suffix_of_name h₁ h₂)
    rw [allMembers, id, scanned_of_chars hs (key_segment h₁) ht,
      lexical_of_value hv (ht.of_suffix hvalue)]
    rfl
  | .cons h₁ hs h₂ h₃ hv h₄ hms, ht => by
    have hvalue := h₃.suffix.trans (suffix_of_name h₁ h₂)
    have hnext := ((List.suffix_cons _ _).trans h₄.suffix).trans (hv.suffix.trans hvalue)
    rw [allMembers, id, scanned_of_chars hs (key_segment h₁) ht,
      lexical_of_value hv (ht.of_suffix hvalue), lexical_of_members hms (ht.of_suffix hnext)]
    rfl

end

/-- The strings and keys of what is read from a file. -/
theorem lexical_of_parse {bytes : List UInt8} {v : JValue} (h : parse (charText bytes) = some v) :
    Lexical v := by
  have htext := isText_charText bytes
  obtain ⟨t, r, hstart, hvalue, -⟩ := jsonText_of_parse htext h
  exact lexical_of_value hvalue (htext.of_suffix hstart.suffix)

/-! ### Unescaping -/

theorem dropBackslashes_sublist (s : JString) : (dropBackslashes s).Sublist s := by
  fun_induction dropBackslashes s with
  | case1 => exact .slnil
  | case2 c => exact .refl _
  | case3 c e s hdrop ih => exact ih.trans (List.sublist_cons_self c (e :: s))
  | case4 c e s hkeep ih => exact ih.cons_cons c

theorem isText_unescape {s : JString} (hs : IsText s) : IsText (Unescape s) := by
  rw [Unescape, unescapeInPlace_eq]
  exact fun c hc ↦ hs c ((dropBackslashes_sublist s).subset hc)

/-- What is no backslash stays in front. -/
theorem dropBackslashes_cons {c : ℕ} (hc : narrow c ≠ code '\\') (s : JString) :
    dropBackslashes (c :: s) = c :: dropBackslashes s := by
  cases s with
  | nil => rfl
  | cons e s => rw [dropBackslashes, if_neg fun h ↦ hc h.1]

/-- **Unescaping a text settles it.** -/
theorem settled_unescape {s : JString} (hs : IsText s) : Settled (Unescape s) := by
  rw [Unescape, unescapeInPlace_eq]
  fun_induction dropBackslashes s with
  | case1 => exact .nil
  | case2 c => exact .singleton c
  | case3 c e s hdrop ih => exact ih fun d hd ↦ hs d (List.mem_cons_of_mem c hd)
  | case4 c e s hkeep ih =>
    have ih := ih fun d hd ↦ hs d (List.mem_cons_of_mem c hd)
    by_cases hc : narrow c = code '\\'
    · -- What follows has no escape, so it is no backslash and stays.
      have he : isUnescaped e ≠ true := fun h ↦ hkeep ⟨hc, h⟩
      have hlt : e < 256 := (hs e (by simp)).2
      have hne : narrow e ≠ code '\\' := by
        intro h
        rw [narrow_of_lt hlt] at h
        exact he (h ▸ isUnescaped_backslash)
      rw [dropBackslashes_cons hne] at ih ⊢
      exact List.isChain_cons_cons.2 ⟨fun h ↦ he h.2, ih⟩
    · cases hrest : dropBackslashes (e :: s) with
      | nil => exact .singleton c
      | cons d t =>
        rw [hrest] at ih
        exact List.isChain_cons_cons.2 ⟨fun h ↦ hc h.1, ih⟩

/-! ### Trimming -/

theorem trim_segment (s : JString) : Trim s <:+: s :=
  (List.dropWhile_suffix _).isInfix.trans (List.rdropWhile_prefix _ s).isInfix

theorem settled_trim {s : JString} (hs : Settled s) : Settled (Trim s) := by
  obtain ⟨front, back, heq⟩ := trim_segment s
  rw [← heq] at hs
  exact hs.left_of_append.right_of_append

theorem trim_trim (s : JString) : Trim (Trim s) = Trim s := by
  have hright : (Trim s).rdropWhile isspace = Trim s := by
    refine List.rdropWhile_eq_self_iff.2 fun hne ↦ ?_
    -- The last unit of a suffix is the last unit.
    obtain ⟨t, ht⟩ : Trim s <:+ s.rdropWhile isspace := List.dropWhile_suffix _
    have hall : s.rdropWhile isspace ≠ [] := by
      intro h
      rw [h] at ht
      exact hne (List.append_eq_nil_iff.1 ht).2
    have hlast : (Trim s).getLast hne = (s.rdropWhile isspace).getLast hall := by
      simp only [← ht]
      exact (List.getLast_append_of_ne_nil _ hne).symm
    rw [hlast]
    exact List.rdropWhile_last_not isspace s hall
  rw [Trim, hright]
  exact List.dropWhile_idempotent isspace _

theorem trim_eq_self_iff {s : JString} : Trim s = s ↔
    (∀ c, s.head? = some c → isspace c = false) ∧ ∀ c, s.getLast? = some c → isspace c = false := by
  have hhead : s.dropWhile isspace = s ↔ ∀ c, s.head? = some c → isspace c = false := by
    cases s with
    | nil => simp
    | cons c s => rw [List.dropWhile_eq_self_iff]; simp
  have hlast : s.rdropWhile isspace = s ↔ ∀ c, s.getLast? = some c → isspace c = false := by
    rw [List.rdropWhile_eq_self_iff]
    constructor
    · intro h c hc
      have hne : s ≠ [] := by
        rintro rfl
        exact nomatch hc
      rw [List.getLast?_eq_some_getLast hne] at hc
      exact Option.some.inj hc ▸ Bool.eq_false_iff.2 (h hne)
    · exact fun h hne ↦ Bool.eq_false_iff.1 (h _ (List.getLast?_eq_some_getLast hne))
  rw [← hhead, ← hlast]
  constructor
  · intro h
    have hprefix := List.rdropWhile_prefix isspace s
    have hright : s.rdropWhile isspace = s := by
      refine hprefix.eq_of_length_le ?_
      calc s.length = (Trim s).length := by rw [h]
        _ ≤ (s.rdropWhile isspace).length := (List.dropWhile_suffix _).length_le
    rw [Trim, hright] at h
    exact ⟨h, hright⟩
  · rintro ⟨hdrop, hright⟩
    rw [Trim, hright, hdrop]

theorem isspace_iff (c : ℕ) : isspace c = true ↔ c = 32 ∨ 9 ≤ c ∧ c ≤ 13 := by
  rw [isspace, Bool.or_eq_true, Bool.and_eq_true, decide_eq_true_iff, decide_eq_true_iff,
    decide_eq_true_iff]

theorem isspace_tolower (c : ℕ) : isspace (tolower c) = isspace c := by
  rw [Bool.eq_iff_iff, isspace_iff, isspace_iff, tolower]
  split
  · omega
  · rfl

theorem trim_toLower (s : JString) : Trim (ToLower s) = ToLower (Trim s) := by
  have hspace : isspace ∘ tolower = isspace := funext isspace_tolower
  rw [Trim, Trim, ToLower, ToLower, List.rdropWhile, List.rdropWhile, ← List.map_reverse,
    List.dropWhile_map, hspace, ← List.map_reverse, List.dropWhile_map, hspace]

theorem toLower_toLower (s : JString) : ToLower (ToLower s) = ToLower s := by
  have htolower (c : ℕ) : tolower (tolower c) = tolower c := by
    unfold tolower
    split
    · exact if_neg (by omega)
    · rfl
  rw [ToLower, ToLower, List.map_map]
  exact List.map_congr_left fun c _ ↦ htolower c

/-! ### Lower case -/

theorem isText_toLower {s : JString} (hs : IsText s) : IsText (ToLower s) := by
  intro d hd
  obtain ⟨c, hc, rfl⟩ := List.mem_map.1 hd
  obtain ⟨hzero, hlt⟩ := hs c hc
  unfold tolower
  split <;> omega

/-- No letter has an escape. -/
theorem not_letter_of_isUnescaped {c : ℕ} (h : isUnescaped c = true) : c < 65 ∨ c = 92 := by
  simp only [isUnescaped, isEscaped, Bool.or_eq_true, decide_eq_true_eq] at h
  rcases h with ((((((rfl | rfl) | rfl) | rfl) | rfl) | rfl) | rfl) | rfl <;> decide

theorem settled_toLower {s : JString} (hs : Settled s) : Settled (ToLower s) := by
  refine List.isChain_map_of_isChain tolower (fun c e hce ↦ ?_) hs
  have hbackslash : code '\\' = 92 := rfl
  have hnarrow : narrow (tolower c) = code '\\' → narrow c = code '\\' := by
    unfold tolower narrow
    split <;> omega
  have hunescaped : isUnescaped (tolower e) = true → isUnescaped e = true := by
    unfold tolower
    split
    · intro hlower
      have := not_letter_of_isUnescaped hlower
      omega
    · exact id
  exact fun h ↦ hce ⟨hnarrow h.1, hunescaped h.2⟩

/-! ### Wide texts -/

theorem map_toNat_ofNat {s : JString} (hs : IsText s) :
    (s.map UInt8.ofNat).map UInt8.toNat = s := by
  rw [List.map_map]
  conv_rhs => rw [← List.map_id s]
  exact List.map_congr_left fun c hc ↦ UInt8.toNat_ofNat_of_lt' (hs c hc).2

/-- A text that is no UTF-8 becomes the empty one. -/
theorem toUTF8_toWide {s : JString} (hs : IsText s) :
    ToUTF8 (ToWide s) = s ∨ ToWide s = [] := by
  rw [ToWide, ToUTF8]
  split
  · rename_i h
    rw [h]
    exact .inl (map_toNat_ofNat hs)
  · exact .inr rfl

theorem toWide_toUTF8_toWide {s : JString} (hs : IsText s) :
    ToWide (ToUTF8 (ToWide s)) = ToWide s := by
  rcases toUTF8_toWide hs with h | h
  · rw [h]
  · rw [h]
    rfl

/-! ### Texts that are kept -/

/-- What is made of a string by unescaping and trimming. -/
structure Kept (s : JString) : Prop where
  isText : IsText s
  settled : Settled s
  trim : Trim s = s

theorem kept_nil : Kept [] := ⟨nofun, .nil, rfl⟩

theorem kept_trim {s : JString} (hs : IsText s) : Kept (Trim (Unescape s)) where
  isText c hc := isText_unescape hs c ((trim_segment _).subset hc)
  settled := settled_trim (settled_unescape hs)
  trim := trim_trim _

theorem Kept.toLower {s : JString} (hs : Kept s) : Kept (ToLower s) :=
  ⟨isText_toLower hs.isText, settled_toLower hs.settled, by rw [trim_toLower, hs.trim]⟩

/-- A wide text comes back through UTF-8. -/
structure WideKept (s : List Char) : Prop where
  isText : IsText (ToUTF8 s)
  settled : Settled (ToUTF8 s)
  toWide : ToWide (ToUTF8 s) = s

theorem wideKept_nil : WideKept [] := ⟨nofun, .nil, rfl⟩

theorem wideKept_toWide {s : JString} (hs : IsText s) (hsettled : Settled s) :
    WideKept (ToWide s) := by
  have hback := toWide_toUTF8_toWide hs
  rcases toUTF8_toWide hs with h | h
  · exact ⟨h.symm ▸ hs, h.symm ▸ hsettled, hback⟩
  · rw [h]
    exact wideKept_nil

/-- What is written for a settled text is unescaped to it. -/
theorem unescape_escape {s : JString} (hs : Settled s) : Unescape (escape false s) = s := by
  rw [Unescape, ← escapeInPlace_eq]
  exact (unescapeInPlace_escapeInPlace_iff false s).2 hs

/-! ### Escaping -/

theorem escape_eq_nil {s : JString} : escape false s = [] ↔ s = [] := by
  cases s with
  | nil => exact Iff.rfl
  | cons c s =>
    rw [escape]
    split <;> simp

theorem isText_escape {s : JString} (h : IsText s) : IsText (escape false s) := by
  have hbackslash : code '\\' ≠ 0 ∧ code '\\' < 256 := by decide
  induction s with
  | nil => exact h
  | cons c s ih =>
    obtain ⟨hc, hs⟩ := List.forall_mem_cons.1 h
    rw [escape]
    split
    · exact List.forall_mem_cons.2 ⟨hbackslash, List.forall_mem_cons.2 ⟨hc, ih hs⟩⟩
    · exact List.forall_mem_cons.2 ⟨hc, ih hs⟩

theorem getLast?_escape (s : JString) : (escape false s).getLast? = s.getLast? := by
  have hcons (c : ℕ) (t u : JString) (htu : t.getLast? = u.getLast?) :
      (c :: t).getLast? = (c :: u).getLast? := by
    rw [List.getLast?_cons, List.getLast?_cons, htu]
  induction s with
  | nil => rfl
  | cons c s ih =>
    rw [escape]
    split
    · rw [List.getLast?_cons_cons]
      exact hcons c _ _ ih
    · exact hcons c _ _ ih

/-- A text without space at its ends is written without. -/
theorem trim_escape {s : JString} (h : Trim s = s) : Trim (escape false s) = escape false s := by
  rw [trim_eq_self_iff] at h ⊢
  rw [getLast?_escape]
  refine ⟨fun c hc ↦ ?_, h.2⟩
  cases s with
  | nil => exact nomatch hc
  | cons d s =>
    rw [escape] at hc
    split at hc
    · obtain rfl := Option.some.inj hc
      decide
    · exact h.1 c hc

/-- Escaping changes nothing exactly if nothing has an escape. -/
theorem escape_length_iff {s : JString} :
    (escape false s).length = s.length ↔ ∀ c ∈ s, isEscaped c = false := by
  have hle (s : JString) : s.length ≤ (escape false s).length := by
    induction s with
    | nil => exact le_rfl
    | cons c s ih =>
      rw [escape]
      split <;> simp only [List.length_cons] <;> omega
  induction s with
  | nil => simp [escape]
  | cons c s ih =>
    have hs := hle s
    rw [escape, Bool.and_false, Bool.or_false, List.forall_mem_cons]
    cases hc : isEscaped c with
    | true =>
      rw [if_pos rfl]
      simp only [List.length_cons]
      exact ⟨fun h ↦ by omega, fun h ↦ by cases h.1⟩
    | false =>
      rw [if_neg Bool.false_ne_true, List.length_cons, List.length_cons, Nat.add_right_cancel_iff]
      exact ih.trans (and_iff_right rfl).symm

theorem escape_eq_self {s : JString} (h : ∀ c ∈ s, isEscaped c = false) : escape false s = s := by
  induction s with
  | nil => rfl
  | cons c s ih =>
    obtain ⟨hc, hs⟩ := List.forall_mem_cons.1 h
    rw [escape, hc, Bool.and_false, Bool.or_false, if_neg Bool.false_ne_true, ih hs]

end SocketPro.Client.SpConfig
