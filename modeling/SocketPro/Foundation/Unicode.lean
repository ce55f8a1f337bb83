import SocketPro.Foundation.Bytes

/-!
# UTF-8 and UTF-16

Texts are lists of Unicode characters. Both encodings are total functions, and both decoders put the
replacement character U+FFFD where the input is malformed: for UTF-8 in the place of one byte, for
UTF-16 in the place of a surrogate that is not half of a pair.

**Decoding undoes encoding** (`decodeUTF8_encodeUTF8`, `decodeUTF16_encodeUTF16`), and encoding
undoes decoding exactly on well-formed input: on UTF-8 that encodes some text, on UTF-16 without
unpaired surrogates (`encodeUTF16_decodeUTF16_iff`).
-/

namespace Unicode

/-- U+FFFD. -/
def replacement : Char := '\uFFFD'

/-! ### UTF-8 -/

def encodeUTF8 (cs : List Char) : List UInt8 := cs.flatMap String.utf8EncodeChar

/-- Decode at most `n` characters. -/
def decodeUTF8Go : ℕ → List UInt8 → List Char
  | 0, _ => []
  | _ + 1, [] => []
  | n + 1, b :: bs =>
    match (b :: bs).toByteArray.utf8DecodeChar? 0 with
    | some c => c :: decodeUTF8Go n ((b :: bs).drop c.utf8Size)
    | none => replacement :: decodeUTF8Go n bs

/-- Every character takes at least one byte. -/
def decodeUTF8 (bs : List UInt8) : List Char := decodeUTF8Go bs.length bs

/-- The bytes encode some text. -/
def ValidUTF8 (bs : List UInt8) : Prop := ∃ cs, encodeUTF8 cs = bs

theorem encodeUTF8_cons (c : Char) (cs : List Char) :
    encodeUTF8 (c :: cs) = String.utf8EncodeChar c ++ encodeUTF8 cs := rfl

theorem decodeUTF8Go_encodeUTF8 (cs : List Char) {n : ℕ} (hn : (encodeUTF8 cs).length ≤ n) :
    decodeUTF8Go n (encodeUTF8 cs) = cs := by
  induction cs generalizing n with
  | nil => cases n <;> rfl
  | cons c cs ih =>
    have hsize : (String.utf8EncodeChar c).length = c.utf8Size := String.length_utf8EncodeChar c
    have hpos : 0 < c.utf8Size := Char.utf8Size_pos c
    rw [encodeUTF8_cons, List.length_append, hsize] at hn
    obtain ⟨n, rfl⟩ : ∃ m, n = m + 1 := ⟨n - 1, by omega⟩
    have hdecode : (encodeUTF8 (c :: cs)).toByteArray.utf8DecodeChar? 0 = some c := by
      rw [encodeUTF8_cons, List.toByteArray_append']
      exact ByteArray.utf8DecodeChar?_utf8EncodeChar_append
    have hdrop : (encodeUTF8 (c :: cs)).drop c.utf8Size = encodeUTF8 cs := by
      rw [encodeUTF8_cons, ← hsize, List.drop_left]
    cases hbs : encodeUTF8 (c :: cs) with
    | nil =>
      have hlen := congrArg List.length hbs
      rw [encodeUTF8_cons, List.length_append, hsize, List.length_nil] at hlen
      omega
    | cons b bs =>
      rw [hbs] at hdecode hdrop
      rw [decodeUTF8Go, hdecode]
      show c :: decodeUTF8Go n ((b :: bs).drop c.utf8Size) = c :: cs
      rw [hdrop, ih (by omega)]

theorem decodeUTF8_encodeUTF8 (cs : List Char) : decodeUTF8 (encodeUTF8 cs) = cs :=
  decodeUTF8Go_encodeUTF8 cs le_rfl

/-- Encoding undoes decoding on the encoded texts, and only there. -/
theorem encodeUTF8_decodeUTF8_iff (bs : List UInt8) :
    encodeUTF8 (decodeUTF8 bs) = bs ↔ ValidUTF8 bs := by
  constructor
  · exact fun h ↦ ⟨_, h⟩
  · rintro ⟨cs, rfl⟩
    rw [decodeUTF8_encodeUTF8]

/-! ### UTF-16 -/

/-- The units of one character. -/
def encodeUTF16Char (c : Char) : List UInt16 :=
  if c.toNat < 0x10000 then [UInt16.ofNat c.toNat]
  else [UInt16.ofNat (0xD800 + (c.toNat - 0x10000) / 0x400),
    UInt16.ofNat (0xDC00 + (c.toNat - 0x10000) % 0x400)]

def encodeUTF16 (cs : List Char) : List UInt16 := cs.flatMap encodeUTF16Char

def IsHigh (u : UInt16) : Prop := 0xD800 ≤ u.toNat ∧ u.toNat < 0xDC00

def IsLow (u : UInt16) : Prop := 0xDC00 ≤ u.toNat ∧ u.toNat < 0xE000

/-- Half of a pair. -/
def IsSurrogate (u : UInt16) : Prop := 0xD800 ≤ u.toNat ∧ u.toNat < 0xE000

instance : DecidablePred IsHigh := fun _ ↦ inferInstanceAs (Decidable (_ ∧ _))
instance : DecidablePred IsLow := fun _ ↦ inferInstanceAs (Decidable (_ ∧ _))
instance : DecidablePred IsSurrogate := fun _ ↦ inferInstanceAs (Decidable (_ ∧ _))

/-- The character of a unit that is no half of a pair. -/
def unitChar (u : UInt16) : Char := if IsSurrogate u then replacement else Char.ofNat u.toNat

/-- The character of a pair. -/
def pairChar (u v : UInt16) : Char :=
  Char.ofNat (0x10000 + (u.toNat - 0xD800) * 0x400 + (v.toNat - 0xDC00))

def decodeUTF16 : List UInt16 → List Char
  | [] => []
  | [u] => [unitChar u]
  | u :: v :: us =>
    if IsHigh u ∧ IsLow v then pairChar u v :: decodeUTF16 us
    else unitChar u :: decodeUTF16 (v :: us)

/-- Every surrogate is half of a pair. -/
def Paired : List UInt16 → Prop
  | [] => True
  | [u] => ¬ IsSurrogate u
  | u :: v :: us => if IsHigh u ∧ IsLow v then Paired us else ¬ IsSurrogate u ∧ Paired (v :: us)

instance decidablePaired : ∀ us : List UInt16, Decidable (Paired us)
  | [] => .isTrue trivial
  | [u] => inferInstanceAs (Decidable (¬ IsSurrogate u))
  | u :: v :: us =>
    haveI := decidablePaired us
    haveI := decidablePaired (v :: us)
    inferInstanceAs (Decidable (if IsHigh u ∧ IsLow v then Paired us
      else ¬ IsSurrogate u ∧ Paired (v :: us)))

theorem decodeUTF16_cons {u : UInt16} (hu : ¬ IsHigh u) (us : List UInt16) :
    decodeUTF16 (u :: us) = unitChar u :: decodeUTF16 us := by
  cases us with
  | nil => rfl
  | cons v us => rw [decodeUTF16, if_neg fun h ↦ hu h.1]

/-- A character is not half of a pair. -/
theorem not_surrogate (c : Char) : c.toNat < 0xD800 ∨ 0xE000 ≤ c.toNat ∧ c.toNat < 0x110000 := by
  rcases c.valid with h | ⟨hlow, hhigh⟩
  · exact .inl h
  · exact .inr ⟨hlow, hhigh⟩

theorem decodeUTF16_encodeUTF16Char (c : Char) (us : List UInt16) :
    decodeUTF16 (encodeUTF16Char c ++ us) = c :: decodeUTF16 us := by
  have hc := not_surrogate c
  rw [encodeUTF16Char]
  split
  · next hsmall =>
    have hu : (UInt16.ofNat c.toNat).toNat = c.toNat := by
      rw [UInt16.toNat_ofNat']
      exact Nat.mod_eq_of_lt hsmall
    have hnot : ¬ IsSurrogate (UInt16.ofNat c.toNat) := by
      rw [IsSurrogate, hu]
      omega
    have hhigh : ¬ IsHigh (UInt16.ofNat c.toNat) := fun h ↦
      hnot ⟨h.1, lt_trans h.2 (by decide)⟩
    rw [List.singleton_append, decodeUTF16_cons hhigh, unitChar, if_neg hnot, hu, Char.ofNat_toNat]
  · next hbig =>
    have hhi : (UInt16.ofNat (0xD800 + (c.toNat - 0x10000) / 0x400)).toNat =
        0xD800 + (c.toNat - 0x10000) / 0x400 := by
      rw [UInt16.toNat_ofNat']
      exact Nat.mod_eq_of_lt (by omega)
    have hlo : (UInt16.ofNat (0xDC00 + (c.toNat - 0x10000) % 0x400)).toNat =
        0xDC00 + (c.toNat - 0x10000) % 0x400 := by
      rw [UInt16.toNat_ofNat']
      exact Nat.mod_eq_of_lt (by omega)
    have hpair : 0x10000 + (0xD800 + (c.toNat - 0x10000) / 0x400 - 0xD800) * 0x400 +
        (0xDC00 + (c.toNat - 0x10000) % 0x400 - 0xDC00) = c.toNat := by omega
    rw [List.cons_append, List.cons_append, List.nil_append, decodeUTF16, if_pos, pairChar, hhi, hlo,
      hpair, Char.ofNat_toNat]
    rw [IsHigh, IsLow, hhi, hlo]
    omega

theorem decodeUTF16_encodeUTF16 (cs : List Char) : decodeUTF16 (encodeUTF16 cs) = cs := by
  induction cs with
  | nil => rfl
  | cons c cs ih => rw [encodeUTF16, List.flatMap_cons, decodeUTF16_encodeUTF16Char, ← encodeUTF16, ih]

theorem toNat_ofNat_of_valid {n : ℕ} (h : n < 0xD800 ∨ 0xDFFF < n ∧ n < 0x110000) :
    (Char.ofNat n).toNat = n := by
  rw [Char.ofNat, dif_pos h]
  rfl

/-- A unit that is no half of a pair is the only unit of its character. -/
theorem encodeUTF16Char_unitChar (u : UInt16) :
    encodeUTF16Char (unitChar u) = [u] ↔ ¬ IsSurrogate u := by
  have hlt : u.toNat < 0x10000 := u.toNat_lt
  constructor
  · intro h hu
    rw [unitChar, if_pos hu] at h
    have hunit : UInt16.ofNat replacement.toNat = u := List.head_eq_of_cons_eq h
    subst hunit
    exact absurd hu (by decide)
  · intro hu
    have hvalid : (Char.ofNat u.toNat).toNat = u.toNat := by
      rw [IsSurrogate] at hu
      exact toNat_ofNat_of_valid (by omega)
    rw [unitChar, if_neg hu, encodeUTF16Char, hvalid, if_pos hlt, UInt16.ofNat_toNat]

theorem length_encodeUTF16Char_unitChar (u : UInt16) : (encodeUTF16Char (unitChar u)).length = 1 := by
  by_cases hu : IsSurrogate u
  · rw [unitChar, if_pos hu]
    rfl
  · rw [(encodeUTF16Char_unitChar u).2 hu]
    rfl

theorem encodeUTF16Char_pairChar {u v : UInt16} (hu : IsHigh u) (hv : IsLow v) :
    encodeUTF16Char (pairChar u v) = [u, v] := by
  obtain ⟨hu₁, hu₂⟩ := hu
  obtain ⟨hv₁, hv₂⟩ := hv
  have hvalid : (pairChar u v).toNat =
      0x10000 + (u.toNat - 0xD800) * 0x400 + (v.toNat - 0xDC00) :=
    toNat_ofNat_of_valid (by omega)
  have hhi : 0xD800 + ((pairChar u v).toNat - 0x10000) / 0x400 = u.toNat := by omega
  have hlo : 0xDC00 + ((pairChar u v).toNat - 0x10000) % 0x400 = v.toNat := by omega
  rw [encodeUTF16Char, if_neg (by omega), hhi, hlo, UInt16.ofNat_toNat, UInt16.ofNat_toNat]

theorem length_encodeUTF16_decodeUTF16 (us : List UInt16) :
    (encodeUTF16 (decodeUTF16 us)).length = us.length := by
  induction us using decodeUTF16.induct with
  | case1 => rfl
  | case2 u =>
    rw [decodeUTF16, encodeUTF16, List.flatMap_singleton, length_encodeUTF16Char_unitChar]
    rfl
  | case3 u v us hpair ih =>
    rw [decodeUTF16, if_pos hpair, encodeUTF16, List.flatMap_cons, ← encodeUTF16,
      encodeUTF16Char_pairChar hpair.1 hpair.2, List.length_append, ih]
    simp only [List.length_cons, List.length_nil]
    omega
  | case4 u v us hpair ih =>
    rw [decodeUTF16, if_neg hpair, encodeUTF16, List.flatMap_cons, ← encodeUTF16,
      List.length_append, length_encodeUTF16Char_unitChar, ih]
    simp only [List.length_cons]
    omega

/-- **Encoding undoes decoding where every surrogate is half of a pair**, and only there. -/
theorem encodeUTF16_decodeUTF16_iff (us : List UInt16) :
    encodeUTF16 (decodeUTF16 us) = us ↔ Paired us := by
  induction us using decodeUTF16.induct with
  | case1 => simp [decodeUTF16, encodeUTF16, Paired]
  | case2 u =>
    rw [decodeUTF16, encodeUTF16, List.flatMap_singleton, encodeUTF16Char_unitChar, Paired]
  | case3 u v us hpair ih =>
    rw [decodeUTF16, if_pos hpair, encodeUTF16, List.flatMap_cons, ← encodeUTF16,
      encodeUTF16Char_pairChar hpair.1 hpair.2, Paired, if_pos hpair, ← ih]
    simp
  | case4 u v us hpair ih =>
    rw [decodeUTF16, if_neg hpair, encodeUTF16, List.flatMap_cons, ← encodeUTF16, Paired,
      if_neg hpair, ← ih, ← encodeUTF16Char_unitChar u]
    constructor
    · intro h
      exact List.append_inj h (length_encodeUTF16Char_unitChar u)
    · rintro ⟨hu, hus⟩
      rw [hu, hus]
      rfl

end Unicode
