import SocketPro.Foundation.Bytes

/-!
# VARIANT values and their bytes on the wire

The types of `linux_win.h` that `CUQueue` serialises. A scalar is kept as the bytes of the union
member that the codec copies, so integers, floats, dates and decimals need no separate treatment;
a safe array of scalars is kept as its element count and the bytes behind `pvData`. Strings are
lists of UTF-16 units, and a null `BSTR` is `none`.

`VARIANT.WellFormed` is what the callers promise of a value: scalars as wide as their type, array
data as long as the count says, counts of 32 bits, and no NUL inside a `BSTR` (`linux_win.h`: "a
null-terminated string without null char in middle on non-windows platforms").

**The wire.** `VARIANT.pieces` lists the byte strings that stand for a value, tag first, in the
portions in which the writer appends them; `VARIANT.encode` is their concatenation. No length is
reduced modulo 2^32 here: whether the 32-bit arithmetic of the code gets there is for the writer
to show.
-/

namespace SocketPro.Buffer

open Bytes

/-! ### Type tags -/

/-- The scalar members of `VARENUM` that the codec copies byte by byte. -/
inductive ScalarVT
  | I1 | UI1 | I2 | UI2 | I4 | UI4 | R4 | R8 | CY | DATE | BOOL | DECIMAL | INT | UINT | I8 | UI8
deriving DecidableEq, Repr

namespace ScalarVT

/-- The `VARENUM` value. -/
def vt : ScalarVT → ℕ
  | I2 => 2 | I4 => 3 | R4 => 4 | R8 => 5 | CY => 6 | DATE => 7 | BOOL => 11 | DECIMAL => 14
  | I1 => 16 | UI1 => 17 | UI2 => 18 | UI4 => 19 | I8 => 20 | UI8 => 21 | INT => 22 | UINT => 23

/-- `sizeof` of the union member, which is also `cbElements` of an array of this type. -/
def size : ScalarVT → ℕ
  | I1 | UI1 => 1
  | I2 | UI2 | BOOL => 2
  | I4 | UI4 | INT | UINT | R4 => 4
  | R8 | CY | DATE | I8 | UI8 => 8
  | DECIMAL => 16

/-- The scalar type with this `VARENUM` value. -/
def ofVt? : ℕ → Option ScalarVT
  | 2 => some I2 | 3 => some I4 | 4 => some R4 | 5 => some R8 | 6 => some CY | 7 => some DATE
  | 11 => some BOOL | 14 => some DECIMAL | 16 => some I1 | 17 => some UI1 | 18 => some UI2
  | 19 => some UI4 | 20 => some I8 | 21 => some UI8 | 22 => some INT | 23 => some UINT
  | _ => none

theorem vt_of_ofVt? {n : ℕ} {t : ScalarVT} (h : ofVt? n = some t) : n = t.vt := by
  unfold ofVt? at h
  split at h <;> cases h <;> rfl

theorem size_le (t : ScalarVT) : t.size ≤ 16 := by
  cases t <;> decide

end ScalarVT

abbrev VT_EMPTY : ℕ := 0
abbrev VT_NULL : ℕ := 1
abbrev VT_BSTR : ℕ := 8
abbrev VT_VARIANT : ℕ := 12
abbrev VT_CLSID : ℕ := 72
abbrev VT_ARRAY : ℕ := 0x2000

/-- `UQUEUE_NULL_LENGTH`, the length that stands for a null string. -/
abbrev UQUEUE_NULL_LENGTH : ℕ := 0xffffffff

/-- The cases of the `switch (vtData.vt)` in `CUQueue::Pop(VARIANT&, position)`. -/
inductive Kind
  | empty
  | null
  | scalar (t : ScalarVT)
  | bstr
  | clsid
  | scalarArray (t : ScalarVT)
  | bstrArray
  | variantArray
  | unsupportedArray
  | unsupported
deriving DecidableEq, Repr

/-- The case an array tag falls in: the tag has to be exactly `VT_ARRAY` plus the element type. -/
def arrayKindOf (base : ℕ) : Kind :=
  if base = VT_VARIANT then .variantArray
  else if base = VT_BSTR then .bstrArray
  else match ScalarVT.ofVt? base with
    | some t => .scalarArray t
    | none => .unsupportedArray

/-- The case of the `switch` that a tag selects. -/
def kindOf (vt : ℕ) : Kind :=
  if vt = VT_EMPTY then .empty
  else if vt = VT_NULL then .null
  else if vt = VT_BSTR then .bstr
  else if vt = VT_CLSID then .clsid
  else match ScalarVT.ofVt? vt with
    | some t => .scalar t
    | none => if vt &&& VT_ARRAY = VT_ARRAY then arrayKindOf (vt - VT_ARRAY) else .unsupported

/-- The tag that selects a case, where there is exactly one. -/
def Kind.vt? : Kind → Option ℕ
  | .empty => some VT_EMPTY
  | .null => some VT_NULL
  | .scalar t => some t.vt
  | .bstr => some VT_BSTR
  | .clsid => some VT_CLSID
  | .scalarArray t => some (VT_ARRAY + t.vt)
  | .bstrArray => some (VT_ARRAY + VT_BSTR)
  | .variantArray => some (VT_ARRAY + VT_VARIANT)
  | .unsupportedArray => none
  | .unsupported => none

/-- A tag that stands for a case selects it. -/
theorem kindOf_of_vt? {k : Kind} {vt : ℕ} (h : k.vt? = some vt) : kindOf vt = k := by
  cases k with
  | scalar t => cases h; cases t <;> rfl
  | scalarArray t => cases h; cases t <;> rfl
  | unsupportedArray => cases h
  | unsupported => cases h
  | _ => cases h; rfl

theorem arrayKindOf_eq {base : ℕ} {k : Kind} (h : arrayKindOf base = k) :
    k = .unsupportedArray ∨ k.vt? = some (VT_ARRAY + base) := by
  unfold arrayKindOf at h
  split at h
  · next hb => subst h hb; exact .inr rfl
  split at h
  · next hb => subst h hb; exact .inr rfl
  split at h
  · next t ht =>
    subst h
    rw [ScalarVT.vt_of_ofVt? ht]
    exact .inr rfl
  · exact .inl h.symm

/-- The case selected determines the tag, except for the two cases that throw. -/
theorem vt?_kindOf (vt : ℕ) :
    kindOf vt = .unsupportedArray ∨ kindOf vt = .unsupported ∨ (kindOf vt).vt? = some vt := by
  generalize hk : kindOf vt = k
  unfold kindOf at hk
  split at hk
  · next h => subst hk h; exact .inr (.inr rfl)
  split at hk
  · next h => subst hk h; exact .inr (.inr rfl)
  split at hk
  · next h => subst hk h; exact .inr (.inr rfl)
  split at hk
  · next h => subst hk h; exact .inr (.inr rfl)
  split at hk
  · next t ht =>
    subst hk
    rw [ScalarVT.vt_of_ofVt? ht]
    exact .inr (.inr rfl)
  split at hk
  · next hbit =>
    have hle : VT_ARRAY ≤ vt := hbit ▸ Nat.and_le_left
    rcases arrayKindOf_eq hk with hk | hk
    · exact .inl hk
    · rw [Nat.add_sub_cancel' hle] at hk
      exact .inr (.inr hk)
  · exact .inr (.inl hk.symm)

/-! ### Values -/

/-- A `VARIANT` with what it points to. The last two constructors are the types the writer
rejects; of an array it still writes the element count. -/
inductive VARIANT
  | empty
  | null
  | scalar (t : ScalarVT) (raw : List UInt8)
  | bstr (bstrVal : Option (List UInt16))
  | scalarArray (t : ScalarVT) (cElements : ℕ) (pvData : List UInt8)
  | bstrArray (pvData : List (Option (List UInt16)))
  | variantArray (pvData : List VARIANT)
  | unsupported (vt : ℕ)
  | unsupportedArray (vt : ℕ) (cElements : ℕ)
deriving Repr

/-- The text a string pointer stands for has no NUL inside. -/
def WellFormedBSTR : Option (List UInt16) → Prop
  | none => True
  | some us => 0 ∉ us

instance : DecidablePred WellFormedBSTR
  | none => .isTrue trivial
  | some us => inferInstanceAs (Decidable (0 ∉ us))

namespace VARIANT

/-- `vtData.vt`. -/
def vt : VARIANT → ℕ
  | empty => VT_EMPTY
  | null => VT_NULL
  | scalar t _ => t.vt
  | bstr _ => VT_BSTR
  | scalarArray t _ _ => VT_ARRAY + t.vt
  | bstrArray _ => VT_ARRAY + VT_BSTR
  | variantArray _ => VT_ARRAY + VT_VARIANT
  | unsupported vt => vt
  | unsupportedArray vt _ => vt

/-- A value of a type that the writer supports, as its callers have to build it. -/
inductive WellFormed : VARIANT → Prop
  | empty : WellFormed .empty
  | null : WellFormed .null
  | scalar {t : ScalarVT} {raw : List UInt8} : raw.length = t.size → WellFormed (.scalar t raw)
  | bstr {s : Option (List UInt16)} : WellFormedBSTR s → WellFormed (.bstr s)
  | scalarArray {t : ScalarVT} {n : ℕ} {data : List UInt8} :
      n < 2 ^ 32 → data.length = n * t.size → WellFormed (.scalarArray t n data)
  | bstrArray {ss : List (Option (List UInt16))} :
      ss.length < 2 ^ 32 → (∀ s ∈ ss, WellFormedBSTR s) → WellFormed (.bstrArray ss)
  | variantArray {vs : List VARIANT} :
      vs.length < 2 ^ 32 → (∀ v ∈ vs, WellFormed v) → WellFormed (.variantArray vs)

end VARIANT

/-! ### The bytes of a value -/

/-- `operator<<(const char16_t*)`: the length in bytes ahead of the text. -/
def bstrPieces : Option (List UInt16) → List (List UInt8)
  | none => [leBytes 4 UQUEUE_NULL_LENGTH]
  | some us =>
    if us.length = 0 then [leBytes 4 0] else [leBytes 4 (2 * us.length), utf16Bytes us]

/-- The bytes of a string, its length ahead. -/
def encodeBSTR (s : Option (List UInt16)) : List UInt8 := (bstrPieces s).flatten

theorem encodeBSTR_none : encodeBSTR none = leBytes 4 UQUEUE_NULL_LENGTH := by
  simp [encodeBSTR, bstrPieces]

theorem encodeBSTR_some (us : List UInt16) :
    encodeBSTR (some us) = leBytes 4 (2 * us.length) ++ utf16Bytes us := by
  rw [encodeBSTR, bstrPieces]
  split
  · next h =>
    rw [List.length_eq_zero_iff.1 h]
    rfl
  · simp

namespace VARIANT

mutual

/-- The byte strings that are appended, one after the other, for a value. -/
def pieces : VARIANT → List (List UInt8)
  | empty => [leBytes 2 VT_EMPTY]
  | null => [leBytes 2 VT_NULL]
  | scalar t raw => [leBytes 2 t.vt, raw]
  | bstr s => leBytes 2 VT_BSTR :: bstrPieces s
  | scalarArray t n data =>
    if n = 0 then [leBytes 2 (VT_ARRAY + t.vt), leBytes 4 0]
    else [leBytes 2 (VT_ARRAY + t.vt), leBytes 4 n, data]
  | bstrArray ss =>
    leBytes 2 (VT_ARRAY + VT_BSTR) :: leBytes 4 ss.length :: ss.flatMap bstrPieces
  | variantArray vs =>
    leBytes 2 (VT_ARRAY + VT_VARIANT) :: leBytes 4 vs.length :: elementPieces vs
  | unsupported vt => [leBytes 2 vt]
  | unsupportedArray vt n => [leBytes 2 vt, leBytes 4 n]

/-- The byte strings for the elements of an array. -/
def elementPieces : List VARIANT → List (List UInt8)
  | [] => []
  | v :: vs => v.pieces ++ elementPieces vs

end

/-- The bytes of a value on the wire. -/
def encode (v : VARIANT) : List UInt8 := v.pieces.flatten

/-- The bytes of a value after its tag. -/
def payload (v : VARIANT) : List UInt8 := v.pieces.tail.flatten

/-- The bytes of the elements of an array. -/
def encodeElements (vs : List VARIANT) : List UInt8 := (elementPieces vs).flatten

theorem encodeElements_cons (v : VARIANT) (vs : List VARIANT) :
    encodeElements (v :: vs) = v.encode ++ encodeElements vs := by
  rw [encodeElements, elementPieces, List.flatten_append]
  rfl

/-- Every value starts with its tag. -/
theorem pieces_eq (v : VARIANT) : v.pieces = leBytes 2 v.vt :: v.pieces.tail := by
  cases v with
  | scalarArray t n data =>
    rw [pieces]
    split <;> rfl
  | _ => rfl

theorem encode_eq (v : VARIANT) : v.encode = leBytes 2 v.vt ++ v.payload := by
  rw [encode, pieces_eq, List.flatten_cons]
  rfl

end VARIANT

end SocketPro.Buffer
