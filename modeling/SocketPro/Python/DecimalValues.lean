import SocketPro.Python.Decimals

/-!
# Which decimals are exchanged

A `DECIMAL` has a sign, 96 bits and a scale of at most 28. `SaveDecimal` takes a `Decimal` apart
along its text, so it depends on the representation of the value: a text with an exponent makes it
raise, and the scale that it writes is that of the representation. `LoadDecimal` puts the point into
the text of the integer, and needs as many digits as there are places behind the point.

`InRange` says of a `Decimal` that its value is a `DECIMAL` of 28 digits. It comes back only if it
is `Carried`; and what a `DECIMAL` from elsewhere needs to be read as its value is what its digits
and its scale need (`decimals_exchanged_iff`).
-/

namespace SocketPro.Python

open Bytes Machine

/-- The value is an integer of at most 28 digits with a scale, or with zeros behind it that do not
lead out of 96 bits. -/
def Decimal.InRange : Decimal → Prop
  | .special => False
  | .finite _ c e => ∃ (n : ℕ) (s : ℤ), numDigits n ≤ 28 ∧ -28 ≤ s ∧ s ≤ 28 ∧
    (n : ℚ) * 10 ^ s < 2 ^ 96 ∧ (c : ℚ) * 10 ^ e = n * 10 ^ s

/-- What is written has a scale of a `DECIMAL`, one of its signs, 96 bits, and the value of the
decimal. -/
def Decimal.Represents : Decimal → List Write → Prop
  | .special, _ => False
  | .finite negative c e, ws => ∃ sign scale n, ws = decimalWrites sign scale n ∧ scale ≤ 28 ∧
    (sign = 0 ∨ sign = 0x80) ∧ n < 2 ^ 96 ∧
      scaled (decide (sign ≠ 0)) n 10 (-(scale : ℕ)) = scaled negative c 10 e

/-- `SaveDecimal` does not raise, writes the value of the decimal, and `LoadDecimal` returns a
decimal equal to it. -/
def Decimal.RoundTrips (d : Decimal) : Prop :=
  ∃ ws, SaveDecimal d = some ws ∧ d.Represents ws ∧ Returns LoadDecimal (bytesOf ws) d.Equals

/-- A decimal that comes back has at most 28 places behind the point. -/
theorem Decimal.Carried.scale_le {negative : Bool} {c : ℕ} {e : ℤ}
    (h : (Decimal.finite negative c e).Carried) : (-(rounded c e).2).toNat ≤ 28 := by
  have hshort := numDigits_rounded c e
  obtain ⟨hdvd, hexp, hdigits⟩ := h
  rw [rounded_of_dvd e hdvd] at hshort ⊢
  dsimp only at hshort ⊢
  omega

/-- What is written of a decimal that comes back is a `DECIMAL` of its value. -/
theorem Decimal.Carried.represents {d : Decimal} (h : d.Carried) {ws : List Write}
    (hws : SaveDecimal d = some ws) : d.Represents ws := by
  cases d with
  | special => exact h
  | finite negative c e =>
    have hraises := h.not_raises
    have hdigits := numDigits_rounded c e
    have hlt := (rounded_lt c e).1
    have hle : (rounded c e).2 ≤ 0 := not_lt.1 fun hpos ↦ hraises (.inl hpos)
    have hvalue := scaled_rounded negative h.1 hle
    rw [SaveDecimal_eq, if_neg hraises] at hws
    refine ⟨_, _, _, (Option.some.inj hws).symm, h.scale_le, ?_, by omega, ?_⟩
    · cases negative <;> decide
    · rw [hvalue]
      cases negative <;> rfl

/-- The bytes of a `DECIMAL`. -/
def decimalBytes (reserved scale sign n : ℕ) : List UInt8 :=
  leBytes 2 reserved ++ (leBytes 1 scale ++ (leBytes 1 sign ++ (leBytes 4 (n / 2 ^ 64) ++
    leBytes 8 (n % 2 ^ 64))))

/-- `LoadDecimal` reads the value of a `DECIMAL`. -/
def ReadsDecimal (reserved scale sign n : ℕ) : Prop :=
  Returns LoadDecimal (decimalBytes reserved scale sign n) fun o ↦
    o.atoms = [.number (scaled (decide (sign ≠ 0)) n 10 (-(scale : ℕ)))]

theorem readsDecimal_iff {reserved scale sign n : ℕ} (hreserved : reserved < 2 ^ 16)
    (hscale : scale < 2 ^ 8) (hsign : sign < 2 ^ 8) (hn : n < 2 ^ 96) :
    ReadsDecimal reserved scale sign n ↔ scale ≤ numDigits n ∨ n = 0 := by
  rw [ReadsDecimal, decimalBytes, (LoadDecimal_returnsIff reserved scale sign (n / 2 ^ 64)
    (n % 2 ^ 64) hreserved hscale hsign (by omega) (by omega) _).iff, Nat.div_add_mod']
  exact decimal?_value _ n scale

theorem decimal_roundTrips_iff (d : Decimal) : d.RoundTrips ↔ d.Carried := by
  constructor
  · rintro ⟨ws, hws, -, hreturns⟩
    exact (decimal_carries d).iff.1 ⟨ws, hws, hreturns⟩
  · intro h
    obtain ⟨ws, hws, hreturns⟩ := (decimal_carries d).iff.2 h
    exact ⟨ws, hws, h.represents hws, hreturns⟩

/-- **When a decimal is saved and loaded**, and **when a `DECIMAL` from elsewhere is loaded.** -/
theorem decimals_exchanged_iff (d : Decimal) {reserved scale sign n : ℕ}
    (hreserved : reserved < 2 ^ 16) (hscale : scale ≤ 28) (hsign : sign < 2 ^ 8) (hn : n < 2 ^ 96) :
    (d.RoundTrips ↔ d.Carried) ∧
      (ReadsDecimal reserved scale sign n ↔ scale ≤ numDigits n ∨ n = 0) :=
  ⟨decimal_roundTrips_iff d, readsDecimal_iff hreserved (by omega) hsign hn⟩

/-- -12.50 both ways. -/
theorem amount_exchanged :
    (Decimal.finite true 1250 (-2)).RoundTrips ∧ ReadsDecimal 14 2 0x80 1250 :=
  have h := @decimals_exchanged_iff (.finite true 1250 (-2)) 14 2 0x80 1250 (by decide) (by decide)
    (by decide) (by decide)
  ⟨h.1.2 (by decide), h.2.2 (.inl (by decide))⟩

/-- 0.001 and 1000, written as `1E+3`, are in range. The first one is not loaded, and the second one
is not saved. -/
theorem thousandth_not_exchanged :
    (Decimal.finite false 1 (-3)).InRange ∧ ¬ (Decimal.finite false 1 (-3)).RoundTrips ∧
    (Decimal.finite false 1 3).InRange ∧ SaveDecimal (.finite false 1 3) = none ∧
    ¬ ReadsDecimal 14 3 0 1 := by
  refine ⟨⟨1, -3, ?_⟩, fun h ↦ ?_, ⟨1, 3, ?_⟩, by decide, fun h ↦ ?_⟩
  · norm_num [numDigits]
  · exact absurd ((decimal_roundTrips_iff _).1 h) (by decide)
  · norm_num [numDigits]
  · exact absurd ((readsDecimal_iff (by decide) (by decide) (by decide) (by decide)).1 h)
      (by decide)

end SocketPro.Python
