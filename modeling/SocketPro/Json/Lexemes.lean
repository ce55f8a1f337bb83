import SocketPro.Json.Grammar
import SocketPro.Json.Number

/-!
# White space, strings and numbers of the reader

The reader's scanners against the grammar, in both directions: what a scanner takes off the front of
a text is a lexeme of the grammar, and a lexeme that nothing behind it continues is taken off.

The texts are texts of `char`, up to their terminating zero (`IsText`), so that the scanner of
strings, which sees a unit through its low byte, sees the unit.
-/

namespace SocketPro.Json

/-- Units of a C string of `char`, without its terminating zero. -/
def IsText (data : JString) : Prop := ∀ c ∈ data, c ≠ 0 ∧ c < 256

/-- The units of a text of `char` up to its terminating zero. -/
def charText (bytes : List UInt8) : JString := cString (bytes.map UInt8.toNat)

theorem isText_charText (bytes : List UInt8) : IsText (charText bytes) := by
  intro c hc
  refine ⟨by simpa using List.mem_takeWhile_imp hc, ?_⟩
  obtain ⟨b, -, rfl⟩ := List.mem_map.1 ((List.takeWhile_prefix _).subset hc)
  exact b.toNat_lt

theorem IsText.of_suffix {data rest : JString} (h : IsText data) (hrest : rest <:+ data) :
    IsText rest :=
  fun c hc ↦ h c (hrest.subset hc)

/-! ### Characters -/

theorem isSpace_iff (c : ℕ) : isSpace c = true ↔ IsWs c := by
  have h₁ : code ' ' = 0x20 := rfl
  have h₂ : code '\n' = 0x0A := rfl
  have h₃ : code '\r' = 0x0D := rfl
  have h₄ : code '\t' = 0x09 := rfl
  simp only [isSpace, IsWs, h₁, h₂, h₃, h₄, Bool.or_eq_true, decide_eq_true_eq]
  omega

theorem isDigit_iff (c : ℕ) : isDigit c = true ↔ IsDigit c := by
  have h₁ : code '0' = 0x30 := rfl
  have h₂ : code '9' = 0x39 := rfl
  simp only [isDigit, IsDigit, h₁, h₂, Bool.and_eq_true, decide_eq_true_eq]

theorem isHex_iff (c : ℕ) : isHex c = true ↔ IsHexDigit c := by
  have h₁ : code 'A' = 0x41 := rfl
  have h₂ : code 'F' = 0x46 := rfl
  have h₃ : code 'a' = 0x61 := rfl
  have h₄ : code 'f' = 0x66 := rfl
  simp only [isHex, IsHexDigit, h₁, h₂, h₃, h₄, Bool.or_eq_true, Bool.and_eq_true,
    decide_eq_true_eq, isDigit_iff, or_assoc]

theorem isSimpleEscape_iff (e : ℕ) : isSimpleEscape e = true ↔ e ∈ escapes.map Prod.fst := by
  simp only [isSimpleEscape, escapes, List.map_cons, List.map_nil, List.mem_cons,
    List.not_mem_nil, or_false, Bool.or_eq_true, decide_eq_true_eq]
  tauto

theorem narrow_of_lt {c : ℕ} (hc : c < 256) : narrow c = c := Nat.mod_eq_of_lt hc

/-- A unit that the scanner passes over alone. -/
theorem isUnescaped_iff {c : ℕ} (h0 : c ≠ 0) (hc : c < 256) :
    IsUnescaped c ↔ c ≠ code '\\' ∧ c ≠ code '"' ∧ isControl c = false := by
  have h₁ : code '\\' = 0x5C := rfl
  have h₂ : code '"' = 0x22 := rfl
  have h₃ : code ' ' = 0x20 := rfl
  have h₄ : code '\t' = 0x09 := rfl
  simp only [isControl, narrow_of_lt hc, IsUnescaped, h₁, h₂, h₃, h₄, Bool.eq_false_iff, ne_eq,
    Bool.and_eq_true, decide_eq_true_eq]
  omega

/-! ### White space -/

theorem white_iff {t r : JString} :
    White t r ↔ ∃ ws, (∀ c ∈ ws, isSpace c = true) ∧ t = ws ++ r := by
  simp only [White, isSpace_iff]

theorem White.suffix {t r : JString} (h : White t r) : r <:+ t := by
  obtain ⟨ws, -, rfl⟩ := h
  exact List.suffix_append ws r

/-- The scanner stops behind the white space. -/
theorem white_of_skipWhitespace {data d : JString} (h : skipWhitespace data = some d) :
    White data d := by
  rw [white_iff]
  unfold skipWhitespace at h
  split at h
  · exact absurd h (by simp)
  · rename_i c tail heq
    obtain rfl := Option.some.inj h
    refine ⟨data.takeWhile isSpace, fun x hx ↦ List.mem_takeWhile_imp hx, ?_⟩
    rw [← heq, List.takeWhile_append_dropWhile]

theorem skipWhitespace_of_white {data : JString} {c : ℕ} {d : JString}
    (h : White data (c :: d)) (hc : isSpace c = false) : skipWhitespace data = some (c :: d) := by
  obtain ⟨ws, hws, rfl⟩ := white_iff.1 h
  rw [skipWhitespace_append hws, skipWhitespace_cons hc]

/-- The scanner reports the end of the text when nothing but white space is left. -/
theorem skipWhitespace_eq_none {data : JString} : skipWhitespace data = none ↔ White data [] := by
  rw [white_iff, skipWhitespace]
  constructor
  · intro h
    split at h
    · rename_i hnil
      exact ⟨data, List.dropWhile_eq_nil_iff.1 hnil, (List.append_nil _).symm⟩
    · exact absurd h (by simp)
  · rintro ⟨ws, hws, rfl⟩
    rw [List.append_nil, List.dropWhile_eq_nil_iff.2 hws]

/-! ### Strings -/

/-- What stands between the quotes is a string body for the scanner. -/
theorem Chars.stringBody {s : JString} (h : Chars s) (hs : IsText s) : StringBody s = true := by
  induction h with
  | nil => rfl
  | @unescaped c s hc _ ih =>
    obtain ⟨h0, hlt⟩ := hs c (by simp)
    obtain ⟨hbackslash, hquote, hcontrol⟩ := (isUnescaped_iff h0 hlt).1 hc
    have ih := ih fun d hd ↦ hs d (List.mem_cons_of_mem _ hd)
    rw [StringBody.eq_def]
    simp [narrow_of_lt hlt, hbackslash, hquote, hcontrol, ih]
  | @escape e s he _ ih =>
    have ih := ih fun d hd ↦ hs d (List.mem_cons_of_mem _ (List.mem_cons_of_mem _ hd))
    have hnarrow : narrow (code '\\') = code '\\' := by decide
    rw [StringBody.eq_def]
    simp [hnarrow, (isSimpleEscape_iff e).2 he, ih]
  | @unicode h₁ h₂ h₃ h₄ s hh _ ih =>
    have ih := ih fun d hd ↦ hs d (by simp [hd])
    have hnarrow : narrow (code '\\') = code '\\' := by decide
    have hsimple : isSimpleEscape (code 'u') = false := by decide
    simp only [List.mem_cons, List.not_mem_nil, or_false, forall_eq_or_imp, forall_eq,
      ← isHex_iff] at hh
    rw [StringBody.eq_def]
    simp [hnarrow, hsimple, hh, ih]

/-- The scanner stops behind the first quote that no backslash escapes. -/
theorem chars_of_extractString {data s rest : JString} (hdata : IsText data)
    (h : extractString data = some (s, rest)) : Chars s ∧ data = s ++ code '"' :: rest := by
  fun_induction extractString data generalizing s with
  | case1 => simp at h
  | case2 => simp at h
  | case3 next hnext e data he ih =>
    obtain ⟨s', hs', rfl⟩ := prepend_eq_some h
    have htext : IsText data := hdata.of_suffix ⟨[next, e], rfl⟩
    obtain ⟨hchars, rfl⟩ := ih htext hs'
    obtain rfl : next = code '\\' := by rwa [narrow_of_lt (hdata next (by simp)).2] at hnext
    exact ⟨.escape ((isSimpleEscape_iff e).1 he) hchars, rfl⟩
  | case4 next hnext h₁ h₂ h₃ h₄ data hhex he ih =>
    obtain ⟨s', hs', rfl⟩ := prepend_eq_some h
    have htext : IsText data := hdata.of_suffix ⟨[next, code 'u', h₁, h₂, h₃, h₄], rfl⟩
    obtain ⟨hchars, rfl⟩ := ih htext hs'
    obtain rfl : next = code '\\' := by rwa [narrow_of_lt (hdata next (by simp)).2] at hnext
    refine ⟨.unicode ?_ hchars, rfl⟩
    simp only [Bool.and_eq_true] at hhex
    simp only [List.mem_cons, List.not_mem_nil, or_false, forall_eq_or_imp, forall_eq,
      ← isHex_iff]
    tauto
  | case5 => simp at h
  | case6 => simp at h
  | case7 => simp at h
  | case8 next data hnext hquote =>
    obtain ⟨rfl, rfl⟩ := Prod.mk.inj (Option.some.inj h)
    obtain rfl : next = code '"' := by rwa [narrow_of_lt (hdata next (by simp)).2] at hquote
    exact ⟨.nil, rfl⟩
  | case9 => simp at h
  | case10 next data hnext hquote hcontrol ih =>
    obtain ⟨s', hs', rfl⟩ := prepend_eq_some h
    obtain ⟨h0, hlt⟩ := hdata next (by simp)
    rw [narrow_of_lt hlt] at hnext hquote
    have hcontrol : isControl next = false := by simpa using hcontrol
    obtain ⟨hchars, rfl⟩ := ih (hdata.of_suffix ⟨[next], rfl⟩) hs'
    exact ⟨.unescaped ((isUnescaped_iff h0 hlt).2 ⟨hnext, hquote, hcontrol⟩) hchars, rfl⟩

theorem extractString_of_chars {s rest : JString} (hs : Chars s)
    (htext : IsText (s ++ code '"' :: rest)) :
    extractString (s ++ code '"' :: rest) = some (s, rest) :=
  extractString_append (hs.stringBody fun c hc ↦ htext c (List.mem_append_left _ hc)) rest

/-! ### Integers -/

/-- A text that starts with a digit is a run of digits and what is behind it. -/
theorem exists_digits {data : JString} (h : isDigit (cur data) = true) :
    ∃ ds rest, data = ds ++ rest ∧ Digits ds ∧ cur ds = cur data ∧ isDigit (cur rest) = false := by
  obtain ⟨c, data, rfl⟩ : ∃ c s, data = c :: s := by
    rcases data with - | ⟨c, data⟩
    · exact absurd h (by decide)
    · exact ⟨c, data, rfl⟩
  refine ⟨c :: data.takeWhile isDigit, data.dropWhile isDigit, ?_, ⟨by simp, ?_⟩, rfl, ?_⟩
  · rw [List.cons_append, List.takeWhile_append_dropWhile]
  · intro d hd
    rw [← isDigit_iff]
    rcases List.mem_cons.1 hd with rfl | hd
    · exact h
    · exact List.mem_takeWhile_imp hd
  · rcases hrest : data.dropWhile isDigit with - | ⟨d, s⟩
    · decide
    · have hhead := List.head_dropWhile_not isDigit (l := data) (by simp [hrest])
      simpa [hrest, cur] using hhead

/-- The first digit of an integer is no zero, unless it is the only one. -/
theorem isInt_of_digits {ds : JString} (hds : Digits ds) (hzero : cur ds ≠ code '0') :
    IsInt ds := by
  obtain ⟨c, ds, rfl⟩ := List.exists_cons_of_ne_nil hds.1
  exact .inr ⟨hds, by simpa [cur] using hzero⟩

/-- The 64-bit word that the reader makes of an integer. -/
def integerValue (neg : Bool) (n : ℕ) : JValue :=
  if neg then ofInt64 (wrap64 (-n)) else .uint64 (n % 2 ^ 64)

theorem digitsValue_eq (ds : JString) :
    digitsValue ds = ds.foldl (fun x c ↦ x * 10 + (c - code '0')) 0 := rfl

theorem atoull_fst (ds rest : JString) (hds : ∀ c ∈ ds, isDigit c = true)
    (hrest : isDigit (cur rest) = false) :
    atoull (ds ++ rest) = (digitsValue ds % 2 ^ 64, rest) := by
  have hfold := foldl_mod (2 ^ 64) ds 0
  rw [Nat.zero_mod] at hfold
  rw [atoull, readDigits_append _ _ hds hrest, hfold, digitsValue_eq]

theorem wrap64_neg (x : ℤ) : wrap64 (-wrap64 x) = wrap64 (-x) := by
  rw [wrap64, wrap64, wrap64, ← Int.zero_sub, Int.sub_bmod_bmod, Int.zero_sub]

theorem atoll_fst (ds rest : JString) (hds : ∀ c ∈ ds, isDigit c = true)
    (hrest : isDigit (cur rest) = false) :
    atoll (ds ++ rest) = (wrap64 (digitsValue ds), rest) := by
  have hfold := foldl_bmod (2 ^ 64) ds 0
  rw [Nat.cast_zero, Int.zero_bmod] at hfold
  rw [atoll, readDigits_append _ _ hds hrest, digitsValue_eq]
  simp only [wrap64]
  rw [hfold]

/-- An integer of the grammar is read as a 64-bit word. -/
theorem parseInteger_of_isInt {int rest : JString} (neg : Bool) (hint : IsInt int)
    (hrest : isDigit (cur rest) = false) :
    parseInteger neg (int ++ rest) = some (integerValue neg (digitsValue int), rest) := by
  rcases hint with rfl | ⟨⟨hne, hds⟩, hhead⟩
  · -- the single zero
    have hcur : cur ([code '0'] ++ rest) = code '0' := rfl
    rw [parseInteger, hcur, if_pos rfl]
    cases neg <;> rfl
  · obtain ⟨c, ds, rfl⟩ := List.exists_cons_of_ne_nil hne
    have hcur : cur (c :: ds ++ rest) = c := rfl
    have hzero : c ≠ code '0' := by simpa using hhead
    have hds : ∀ d ∈ c :: ds, isDigit d = true := fun d hd ↦ (isDigit_iff d).2 (hds d hd)
    rw [parseInteger, hcur, if_neg hzero, if_pos (hds c (by simp)), atoll_fst _ _ hds hrest,
      atoull_fst _ _ hds hrest, wrap64_neg, integerValue]
    split <;> rfl

/-- What the reader takes for an integer is one. -/
theorem parseInteger_sound {neg : Bool} {start rest : JString} {v : JValue}
    (h : parseInteger neg start = some (v, rest)) :
    ∃ int, IsInt int ∧ start = int ++ rest ∧ v = integerValue neg (digitsValue int) := by
  unfold parseInteger at h
  split at h
  · rename_i hzero
    obtain ⟨rfl, rfl⟩ := Prod.mk.inj (Option.some.inj h)
    obtain ⟨c, data, rfl⟩ : ∃ c data, start = c :: data := by
      rcases start with - | ⟨c, data⟩
      · exact absurd hzero (by decide)
      · exact ⟨c, data, rfl⟩
    obtain rfl : c = code '0' := hzero
    refine ⟨[code '0'], .inl rfl, rfl, ?_⟩
    cases neg <;> rfl
  · rename_i hzero
    split at h
    · rename_i hdigit
      obtain ⟨ds, tail, rfl, hds, hcur, htail⟩ := exists_digits hdigit
      have hint : IsInt ds := isInt_of_digits hds (hcur ▸ hzero)
      have hparse := parseInteger_of_isInt neg hint htail
      rw [parseInteger, if_neg hzero, if_pos hdigit, h] at hparse
      obtain ⟨rfl, rfl⟩ := Prod.mk.inj (Option.some.inj hparse)
      exact ⟨ds, hint, rfl, rfl⟩
    · exact absurd h (by simp)

/-- The word is the number that the text denotes, when a word holds it. -/
theorem number_of_integer {neg : Bool} {int : JString} (hint : IsInt int) :
    Number ((if neg then [code '-'] else []) ++ int) (integerValue neg (digitsValue int)) := by
  cases neg with
  | false =>
    rcases lt_or_ge (digitsValue int) (2 ^ 64) with hlt | hge
    · have hvalue : integerValue false (digitsValue int) = .uint64 (digitsValue int) := by
        rw [integerValue, if_neg (by simp), Nat.mod_eq_of_lt hlt]
      rw [hvalue]
      exact .fitting (.integer hint hlt)
    · exact .large hint hge
  | true =>
    rcases le_or_gt (digitsValue int) (2 ^ 63) with hle | hgt
    · have hvalue : integerValue true (digitsValue int) = ofInt64 (-digitsValue int) := by
        rw [integerValue, if_pos rfl, wrap64_of_range (by omega) (by omega)]
      rw [hvalue]
      exact .fitting (.negative hint hle)
    · exact .small hint hgt

/-! ### Fractions and exponents -/

theorem Digits.isDigit_cur {ds : JString} (hds : Digits ds) (rest : JString) :
    isDigit (cur (ds ++ rest)) = true := by
  obtain ⟨c, ds, rfl⟩ := List.exists_cons_of_ne_nil hds.1
  exact (isDigit_iff c).2 (hds.2 c (by simp))

theorem skipDigits_of_digits {ds rest : JString} (hds : Digits ds)
    (hrest : isDigit (cur rest) = false) : skipDigits (ds ++ rest) = some rest := by
  have hall : ∀ c ∈ ds, isDigit c = true := fun c hc ↦ (isDigit_iff c).2 (hds.2 c hc)
  have hdrop : rest.dropWhile isDigit = rest := by
    rcases rest with - | ⟨c, rest⟩
    · rfl
    · exact List.dropWhile_cons_of_neg (by simpa [cur] using hrest)
  rw [skipDigits, if_pos (hds.isDigit_cur rest), List.dropWhile_append_of_pos hall, hdrop]

theorem skipDigits_sound {data rest : JString} (h : skipDigits data = some rest) :
    ∃ ds, Digits ds ∧ data = ds ++ rest := by
  have hdigit : isDigit (cur data) = true := by
    unfold skipDigits at h
    split at h
    · assumption
    · exact absurd h (by simp)
  obtain ⟨ds, tail, rfl, hds, -, htail⟩ := exists_digits hdigit
  rw [skipDigits_of_digits hds htail] at h
  exact ⟨ds, hds, by rw [Option.some.inj h]⟩

theorem skipFraction_of_isFrac {frac rest : JString} (hfrac : IsFrac frac)
    (hrest : isDigit (cur rest) = false) (hpoint : cur rest ≠ code '.') :
    skipFraction (frac ++ rest) = some rest := by
  rcases hfrac with rfl | ⟨ds, rfl, hds⟩
  · rw [List.nil_append, skipFraction, if_neg hpoint]
  · have hcur : cur (code '.' :: ds ++ rest) = code '.' := rfl
    rw [skipFraction, hcur, if_pos rfl]
    exact skipDigits_of_digits hds hrest

theorem skipFraction_sound {data rest : JString} (h : skipFraction data = some rest) :
    ∃ frac, IsFrac frac ∧ data = frac ++ rest ∧ (frac = [] → cur data ≠ code '.') := by
  unfold skipFraction at h
  split at h
  · rename_i hpoint
    obtain ⟨ds, hds, htail⟩ := skipDigits_sound h
    obtain ⟨c, data, rfl⟩ : ∃ c s, data = c :: s := by
      rcases data with - | ⟨c, data⟩
      · exact absurd hpoint (by decide)
      · exact ⟨c, data, rfl⟩
    obtain rfl : c = code '.' := hpoint
    obtain rfl : data = ds ++ rest := htail
    exact ⟨code '.' :: ds, .inr ⟨ds, rfl, hds⟩, rfl, by simp⟩
  · rename_i hpoint
    exact ⟨[], .inl rfl, Option.some.inj h, fun _ ↦ hpoint⟩

theorem skipExponent_of_isExp {exp rest : JString} (hexp : IsExp exp)
    (hrest : isDigit (cur rest) = false) (he : cur rest ≠ code 'e') (hE : cur rest ≠ code 'E') :
    skipExponent (exp ++ rest) = some rest := by
  rcases hexp with rfl | ⟨e, sign, ds, rfl, hmark, hsign, hds⟩
  · rw [List.nil_append, skipExponent, if_neg (by tauto)]
  · have hmark : cur (e :: (sign ++ ds) ++ rest) = code 'E' ∨
        cur (e :: (sign ++ ds) ++ rest) = code 'e' := by
      simpa [cur, or_comm] using hmark
    have htail : (e :: (sign ++ ds) ++ rest).tail = sign ++ (ds ++ rest) := by simp
    rw [skipExponent, if_pos hmark, htail]
    simp only [List.mem_cons, List.not_mem_nil, or_false] at hsign
    rcases hsign with rfl | rfl | rfl
    · -- no sign: the digits follow
      have hdigit := hds.isDigit_cur rest
      have hne : ¬ (cur (ds ++ rest) = code '-' ∨ cur (ds ++ rest) = code '+') := by
        rintro (h | h) <;> exact absurd (h ▸ hdigit) (by decide)
      rw [List.nil_append, if_neg hne]
      exact skipDigits_of_digits hds hrest
    · exact skipDigits_of_digits hds hrest
    · exact skipDigits_of_digits hds hrest

theorem skipExponent_sound {data rest : JString} (h : skipExponent data = some rest) :
    ∃ exp, IsExp exp ∧ data = exp ++ rest ∧
      (exp = [] → cur data ≠ code 'e' ∧ cur data ≠ code 'E') := by
  unfold skipExponent at h
  split at h
  · rename_i hmark
    obtain ⟨e, data, rfl⟩ : ∃ c s, data = c :: s := by
      rcases data with - | ⟨c, data⟩
      · exact absurd hmark (by decide)
      · exact ⟨c, data, rfl⟩
    have he : e ∈ [code 'e', code 'E'] := by simpa [cur, or_comm] using hmark
    rw [List.tail_cons] at h
    split at h
    · rename_i hsign
      obtain ⟨c, data, rfl⟩ : ∃ c s, data = c :: s := by
        rcases data with - | ⟨c, data⟩
        · exact absurd hsign (by decide)
        · exact ⟨c, data, rfl⟩
      have hc : [c] ∈ [[], [code '+'], [code '-']] := by simpa [cur, or_comm] using hsign
      obtain ⟨ds, hds, htail⟩ := skipDigits_sound h
      obtain rfl : data = ds ++ rest := htail
      exact ⟨e :: ([c] ++ ds), .inr ⟨e, [c], ds, rfl, he, hc, hds⟩, rfl, by simp⟩
    · obtain ⟨ds, hds, rfl⟩ := skipDigits_sound h
      exact ⟨e :: ([] ++ ds), .inr ⟨e, [], ds, rfl, he, by simp, hds⟩, rfl, by simp⟩
  · rename_i hmark
    exact ⟨[], .inl rfl, Option.some.inj h, fun _ ↦ by tauto⟩

/-! ### Numbers -/

/-- The text that was passed over. -/
theorem take_length_sub (t rest : JString) :
    (t ++ rest).take ((t ++ rest).length - rest.length) = t := by
  rw [List.length_append, Nat.add_sub_cancel, List.take_left]

/-- What the reader takes for a number is one, and it reads what the number denotes. -/
theorem number_of_parseNumber {data rest : JString} {v : JValue}
    (h : parseNumber data = some (v, rest)) : ∃ t, Number t v ∧ data = t ++ rest := by
  simp only [parseNumber, Option.bind_eq_bind, Option.bind_eq_some_iff] at h
  obtain ⟨⟨value, rest₀⟩, hinteger, h⟩ := h
  obtain ⟨int, hint, hstart, rfl⟩ := parseInteger_sound hinteger
  -- the sign and the integer
  obtain ⟨neg, hneg⟩ : ∃ neg : Bool, neg = decide (cur data = code '-') := ⟨_, rfl⟩
  have hdata : data = (if neg then [code '-'] else []) ++ int ++ rest₀ := by
    rcases data with - | ⟨c, data⟩
    · simpa [hneg, cur, code] using hstart
    · rcases eq_or_ne c (code '-') with rfl | hc
      · simpa [hneg, cur] using hstart
      · simpa [hneg, cur, hc] using hstart
  split at h
  · -- a fraction or an exponent follows the integer
    rename_i hmark
    simp only [Option.bind_eq_some_iff] at h
    obtain ⟨rest₁, hfraction, rest₂, hexponent, h⟩ := h
    obtain ⟨rfl, rfl⟩ := Prod.mk.inj (Option.some.inj h)
    obtain ⟨frac, hfrac, rfl, hpoint⟩ := skipFraction_sound hfraction
    obtain ⟨exp, hexp, rfl, hexpMark⟩ := skipExponent_sound hexponent
    have hne : frac ++ exp ≠ [] := by
      intro hnil
      obtain ⟨rfl, rfl⟩ := List.append_eq_nil_iff.1 hnil
      have hpoint := hpoint rfl
      have hexpMark := hexpMark rfl
      simp only [List.nil_append] at hpoint hmark
      tauto
    have htake : data = (if neg then [code '-'] else []) ++ (int ++ (frac ++ exp)) ++ rest₂ := by
      rw [hdata]
      simp
    refine ⟨(if neg then [code '-'] else []) ++ (int ++ (frac ++ exp)), ?_, htake⟩
    rw [htake, take_length_sub]
    exact .fitting (.fractional (by cases neg <;> simp) hint hfrac hexp hne)
  · obtain ⟨rfl, rfl⟩ := Prod.mk.inj (Option.some.inj h)
    rw [← hneg]
    exact ⟨_, number_of_integer hint, hdata⟩

theorem IsInt.isDigit_cur {int : JString} (hint : IsInt int) (rest : JString) :
    isDigit (cur (int ++ rest)) = true := by
  rcases hint with rfl | ⟨hint, -⟩
  · rfl
  · exact hint.isDigit_cur rest

/-- Neither an exponent nor what may stand behind it continues a fraction. -/
theorem IsExp.delimits {exp rest : JString} (hexp : IsExp exp) (hrest : Delimited rest) :
    isDigit (cur (exp ++ rest)) = false ∧ cur (exp ++ rest) ≠ code '.' := by
  rcases hexp with rfl | ⟨e, sign, ds, rfl, hmark, -, -⟩
  · exact ⟨hrest.1, hrest.2.1⟩
  · simp only [List.mem_cons, List.not_mem_nil, or_false] at hmark
    rcases hmark with rfl | rfl
    · exact ⟨rfl, show code 'e' ≠ code '.' by decide⟩
    · exact ⟨rfl, show code 'E' ≠ code '.' by decide⟩

theorem IsFrac.delimits {frac rest : JString} (hfrac : IsFrac frac)
    (hrest : isDigit (cur rest) = false) : isDigit (cur (frac ++ rest)) = false := by
  rcases hfrac with rfl | ⟨ds, rfl, -⟩
  · exact hrest
  · rfl

/-- What the reader makes of a sign, an integer, a fraction and an exponent. -/
def numberValue (neg : Bool) (int frac exp : JString) : JValue :=
  if frac ++ exp = [] then integerValue neg (digitsValue int)
  else .number ((if neg then [code '-'] else []) ++ (int ++ (frac ++ exp)))

theorem parseNumber_of_parts (neg : Bool) {int frac exp rest : JString} (hint : IsInt int)
    (hfrac : IsFrac frac) (hexp : IsExp exp) (hrest : Delimited rest) :
    parseNumber ((if neg then [code '-'] else []) ++ (int ++ (frac ++ exp)) ++ rest) =
      some (numberValue neg int frac exp, rest) := by
  obtain ⟨data, hdata⟩ : ∃ data, data =
      (if neg then [code '-'] else []) ++ (int ++ (frac ++ exp)) ++ rest := ⟨_, rfl⟩
  have hparts : data = (if neg then [code '-'] else []) ++ (int ++ (frac ++ (exp ++ rest))) := by
    rw [hdata]
    simp
  obtain ⟨hdigit, hpoint⟩ := hexp.delimits hrest
  have hneg : decide (cur data = code '-') = neg := by
    cases neg with
    | true =>
      rw [hparts]
      rfl
    | false =>
      have hfirst := hint.isDigit_cur (frac ++ (exp ++ rest))
      rw [hparts, decide_eq_false_iff_not]
      rintro (h : cur (int ++ (frac ++ (exp ++ rest))) = code '-')
      exact absurd (h ▸ hfirst) (by decide)
  have hstart : (if neg then data.tail else data) = int ++ (frac ++ (exp ++ rest)) := by
    rw [hparts]
    cases neg <;> rfl
  have hinteger := parseInteger_of_isInt neg hint (hfrac.delimits hdigit)
  have hfraction := skipFraction_of_isFrac hfrac hdigit hpoint
  have hexponent := skipExponent_of_isExp hexp hrest.1 hrest.2.2.1 hrest.2.2.2
  rw [← hdata, parseNumber]
  simp only [hneg, hstart, hinteger, hfraction, hexponent, Option.bind_eq_bind, Option.bind_some]
  split
  · rename_i hmark
    have hne : frac ++ exp ≠ [] := by
      intro hnil
      obtain ⟨rfl, rfl⟩ := List.append_eq_nil_iff.1 hnil
      obtain ⟨-, hpoint, he, hE⟩ := hrest
      simp only [List.nil_append] at hmark
      tauto
    rw [numberValue, if_neg hne, hdata, take_length_sub]
    rfl
  · -- without a mark the fraction and the exponent are empty
    rename_i hmark
    obtain rfl : frac = [] := by
      rcases hfrac with rfl | ⟨ds, rfl, -⟩
      · rfl
      · exact absurd (.inl rfl) hmark
    obtain rfl : exp = [] := by
      rcases hexp with rfl | ⟨e, sign, ds, rfl, he, -, -⟩
      · rfl
      · simp only [List.mem_cons, List.not_mem_nil, or_false] at he
        exact absurd (.inr he) hmark
    rfl

/-- An integer that nothing behind it continues is taken off. -/
theorem parseNumber_of_integer (neg : Bool) {int rest : JString} (hint : IsInt int)
    (hrest : Delimited rest) :
    parseNumber ((if neg then [code '-'] else []) ++ int ++ rest) =
      some (integerValue neg (digitsValue int), rest) := by
  have hparts := parseNumber_of_parts neg hint (.inl rfl : IsFrac []) (.inl rfl : IsExp []) hrest
  rwa [List.append_nil, List.append_nil] at hparts

/-- A number that nothing behind it continues is taken off. -/
theorem parseNumber_of_fitting {t rest : JString} {v : JValue} (ht : Fitting t v)
    (hrest : Delimited rest) : parseNumber (t ++ rest) = some (v, rest) := by
  cases ht with
  | integer hint hrange =>
    have hvalue : integerValue false (digitsValue t) = .uint64 (digitsValue t) := by
      rw [integerValue, if_neg (by simp), Nat.mod_eq_of_lt hrange]
    rw [← hvalue]
    exact parseNumber_of_integer false hint hrest
  | @negative int hint hrange =>
    have hvalue : integerValue true (digitsValue int) = ofInt64 (-digitsValue int) := by
      rw [integerValue, if_pos rfl, wrap64_of_range (by omega) (by omega)]
    rw [← hvalue]
    exact parseNumber_of_integer true hint hrest
  | @fractional minus int frac exp hminus hint hfrac hexp hne =>
    obtain ⟨neg, rfl⟩ : ∃ neg : Bool, (if neg then [code '-'] else []) = minus := by
      simp only [List.mem_cons, List.not_mem_nil, or_false] at hminus
      rcases hminus with rfl | rfl
      · exact ⟨false, rfl⟩
      · exact ⟨true, rfl⟩
    rw [parseNumber_of_parts neg hint hfrac hexp hrest, numberValue, if_neg hne]

theorem parseNumber_of_number {t : JString} {v : JValue} (ht : Number t v) :
    ∃ v', ∀ rest, Delimited rest → parseNumber (t ++ rest) = some (v', rest) := by
  cases ht with
  | fitting h => exact ⟨v, fun rest hrest ↦ parseNumber_of_fitting h hrest⟩
  | large hint => exact ⟨_, fun rest hrest ↦ parseNumber_of_integer false hint hrest⟩
  | small hint => exact ⟨_, fun rest hrest ↦ parseNumber_of_integer true hint hrest⟩

theorem Number.ne_string {t s : JString} {v : JValue} (ht : Number t v) : v ≠ .string s := by
  obtain ⟨v', hread⟩ := parseNumber_of_number ht
  have hofInt64 : ∀ n : ℤ, ofInt64 n ≠ .string s := fun n ↦ by
    rw [ofInt64]
    split <;> exact JValue.noConfusion
  rcases ht with ⟨- | - | -⟩ | - | -
  · exact JValue.noConfusion
  · exact hofInt64 _
  · exact JValue.noConfusion
  · exact JValue.noConfusion
  · exact hofInt64 _

/-- A number starts with a minus or a digit. -/
theorem Number.head {t : JString} {v : JValue} (ht : Number t v) (r : JString) :
    cur (t ++ r) = code '-' ∨ isDigit (cur (t ++ r)) = true := by
  rcases ht with ⟨hint | - | ⟨hminus, hint⟩⟩ | hint | -
  · exact .inr (hint.isDigit_cur r)
  · exact .inl rfl
  · simp only [List.append_assoc]
    simp only [List.mem_cons, List.not_mem_nil, or_false] at hminus
    rcases hminus with rfl | rfl
    · exact .inr (hint.isDigit_cur _)
    · exact .inl rfl
  · exact .inr (hint.isDigit_cur r)
  · exact .inl rfl

end SocketPro.Json
