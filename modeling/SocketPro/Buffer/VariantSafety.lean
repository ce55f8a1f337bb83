import SocketPro.Buffer.VariantItems

/-!
# Decoding untrusted bytes

`Safe cv f p c` is what a reader of bytes from a peer has to guarantee: `CUQueue::Pop(VARIANT&, p)`
throws, or it stays within the content and within the arrays it has allocated and returns the
number of bytes by which the content has become shorter.

**The reader is safe exactly outside the hazards** (`popVariant_safe_iff`). The paths that compare
a length with what is left do so in 32 bits, so that a sum beyond 2^32 passes; the path that turns
an array of chars into a `BSTR` compares nothing, which is the hazard that six bytes suffice for
(`not_safe_charArray`). A return is always right about its number: whenever the reader stays inside
the content, the number it returns is the decrease.
-/

namespace SocketPro.Buffer

open Bytes Machine Effect

/-- `CUQueue::Pop(VARIANT&, p)` throws, or it has read only bytes of the content and written only
into the memory of its arrays, and returns the decrease of `GetSize()`. -/
def Safe (cv : Converters) (f : Flags) (p : ℕ) (c : List UInt8) : Prop :=
  Meets (popVariant cv f p) c (fun x c' ↦ c.length = x.2 + c'.length) False

instance (cv : Converters) (f : Flags) (p : ℕ) (c : List UInt8) : Decidable (Safe cv f p c) :=
  decidableMeets

/-- The bytes from position `p` on begin with a hazard; behind the end of the content the only one
is that the end of the tag wraps around 2^32 and lands inside. -/
def HazardAt (cv : Converters) (f : Flags) (p : ℕ) (c : List UInt8) : Prop :=
  if p ≤ c.length then Hazard cv f p (c.drop p) else 2 ^ 32 ≤ p + 2 ∧ p + 2 ≤ c.length + 2 ^ 32

variable {cv : Converters} {f : Flags} {p : ℕ} {c : List UInt8}

/-- A position behind the end: the tag is refused, or its check wraps. -/
theorem popVariant_behind (hc : c.length < p) (hp : p < 2 ^ 32) :
    popVariant cv f p c =
      if p + 2 < 2 ^ 32 ∨ c.length + 2 ^ 32 < p + 2 then .throw .remainingData c else .fault := by
  have hpop : popInto 2 2 p c =
      if p + 2 < 2 ^ 32 ∨ c.length + 2 ^ 32 < p + 2 then .throw .remainingData c else .fault := by
    have hout : ¬ (p + 2 ≤ c.length ∧ 2 ≤ 2) := by omega
    rw [popInto, if_neg hout]
    split_ifs with h₁ h₂ h₂
    · rfl
    · omega
    · omega
    · rfl
  split_ifs at hpop ⊢ with h
  · exact bind_throw (bind_throw hpop)
  · exact bind_fault (bind_fault hpop)

/-- A reader that stays inside returns the decrease. -/
theorem safe_of_not_fault (hc : c.length < 2 ^ 32) (hp : p ≤ c.length)
    (h : popVariant cv f p c ≠ .fault) : Safe cv f p c := by
  obtain ⟨pre, tail, rfl, rfl⟩ : ∃ pre tail, c = pre ++ tail ∧ pre.length = p :=
    ⟨c.take p, c.drop p, (List.take_append_drop p c).symm, List.length_take_of_le hp⟩
  have hmeets : Meets (popVariant cv f pre.length) (pre ++ tail) _ _ := popVariant_meets hc
  cases hx : popVariant cv f pre.length (pre ++ tail) with
  | ok x c' =>
    obtain ⟨b, rest, -, rfl, hn, rfl⟩ := hmeets.ok hx
    refine .of_ok hx ?_
    rw [hn]
    simp only [List.length_append]
    omega
  | throw e c' => exact .of_throw hx
  | fault => exact absurd hx h

/-- **Decoding is safe exactly where no hazard is.** -/
theorem popVariant_safe_iff (cv : Converters) (f : Flags) (p : ℕ) (c : List UInt8)
    (hc : c.length < 2 ^ 32) (hp : p < 2 ^ 32) : Safe cv f p c ↔ ¬ HazardAt cv f p c := by
  by_cases hle : p ≤ c.length
  · rw [HazardAt, if_pos hle]
    constructor
    · -- At a hazard the reader is at fault.
      intro hsafe hhazard
      obtain ⟨pre, tail, rfl, rfl⟩ : ∃ pre tail, c = pre ++ tail ∧ pre.length = p :=
        ⟨c.take p, c.drop p, (List.take_append_drop p c).symm, List.length_take_of_le hle⟩
      rw [List.drop_left] at hhazard
      exact hsafe.fault (popVariant_fault hhazard hc)
    · -- Elsewhere it is not, and then its number is right.
      intro hno
      refine safe_of_not_fault hc hle fun hfault ↦ hno ?_
      have hsplit : c.take p ++ c.drop p = c := List.take_append_drop p c
      have hpre : (c.take p).length = p := List.length_take_of_le hle
      have hmeets : Meets (popVariant cv f (c.take p).length) (c.take p ++ c.drop p) _ _ :=
        popVariant_meets (by rwa [hsplit])
      rw [hpre, hsplit] at hmeets
      exact hmeets.fault hfault
  · rw [HazardAt, if_neg hle]
    have hpop : popVariant cv f p c = _ := popVariant_behind (Nat.not_le.1 hle) hp
    split_ifs at hpop with h
    · exact iff_of_true (.of_throw hpop) (by omega)
    · exact iff_of_false (fun hsafe ↦ hsafe.fault hpop) (not_not.2 (by omega))

/-- The converters on texts of ASCII characters. -/
def asciiConverters : Converters where
  toUTF8 text := (text.map fun u ↦ UInt8.ofNat u.toNat).take 0xffffffff
  toBSTR utf8 := utf8.map fun b ↦ UInt16.ofNat b.toNat
  toUTF8_lt text := lt_of_le_of_lt (List.length_take_le _ _) (by decide)

/-- An array of one char, its count and the char itself, behind which other bytes follow. -/
theorem not_hazard_charArray :
    ¬ HazardAt asciiConverters ⟨true, false⟩ 1 [7, 0x10, 0x20, 1, 0, 0, 0, 0x41, 9] :=
  (popVariant_safe_iff _ _ _ _ (by decide) (by decide)).1 (by decide)

/-- The same array without the char: with `m_8ToW` set, a byte behind the content is read. -/
theorem not_safe_charArray :
    ¬ ∀ (cv : Converters) (f : Flags) (p : ℕ) (c : List UInt8),
      c.length < 2 ^ 32 → p < 2 ^ 32 → Safe cv f p c := fun h ↦
  absurd (h asciiConverters ⟨true, false⟩ 0 [0x10, 0x20, 1, 0, 0, 0] (by decide) (by decide))
    (by decide)

end SocketPro.Buffer
