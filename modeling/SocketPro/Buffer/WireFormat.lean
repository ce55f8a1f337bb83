import SocketPro.Buffer.VariantPop

/-!
# The wire format of a VARIANT, and its hazards

What the reader accepts, said without the reader.

* `Item cv f v bytes`: the byte string is one item that stands for the value `v` under the flags.
  It begins with its tag; counts and lengths are the 32-bit numbers that the code computes from the
  stream, and an array item has elements that fit the memory `SafeArrayCreate` reserves for them.
* `Hazard cv f p tail`: the bytes `tail` that follow position `p` begin so that the reader leaves
  the content or the array. There are four kinds: a position within a few bytes of 2^32 or a length
  that wraps around it; a UTF-8 text that is longer than what is left; an array whose size wraps
  below that of its header; and an array whose size wraps so that an element that is present has no
  place in it.

**Items and hazards are about bytes.** Neither mentions what the reader does; that it reads exactly
the items and goes wrong exactly at the hazards is proved in the next modules.
-/

namespace SocketPro.Buffer

open Bytes Machine

/-! ### Items -/

/-- A string with its length ahead. A last odd byte belongs to the item but to no unit. -/
inductive BSTRItem : Option (List UInt16) → List UInt8 → Prop
  | null : BSTRItem none (leBytes 4 UQUEUE_NULL_LENGTH)
  | text {raw : List UInt8} : raw.length < UQUEUE_NULL_LENGTH →
      BSTRItem (some (utf16Units raw)) (leBytes 4 raw.length ++ raw)

section

variable (cv : Converters) (f : Flags)

/-- One item of the stream and the value that it stands for. -/
inductive Item : VARIANT → List UInt8 → Prop
  | empty : Item .empty (leBytes 2 VT_EMPTY)
  | null : Item .null (leBytes 2 VT_NULL)
  | scalar {t : ScalarVT} {raw : List UInt8} : raw.length = t.size →
      Item (.scalar t raw) (leBytes 2 t.vt ++ raw)
  | bstr {s : Option (List UInt16)} {b : List UInt8} : f.m_ToUtf8 = false → BSTRItem s b →
      Item (.bstr s) (leBytes 2 VT_BSTR ++ b)
  | nullAsUTF8 : f.m_ToUtf8 = true →
      Item .null (leBytes 2 VT_BSTR ++ leBytes 4 UQUEUE_NULL_LENGTH)
  | textAsUTF8 {raw utf8 : List UInt8} : f.m_ToUtf8 = true → raw.length < UQUEUE_NULL_LENGTH →
      cv.toUTF8 (utf16Units raw) = utf8 →
      sizeofSAFEARRAY + utf8.length ≤ safeArrayBytes 1 utf8.length →
      Item (.scalarArray .I1 utf8.length utf8) (leBytes 2 VT_BSTR ++ (leBytes 4 raw.length ++ raw))
  | clsid {raw : List UInt8} : raw.length = 16 →
      Item (.scalarArray .UI1 16 raw) (leBytes 2 VT_CLSID ++ raw)
  | i1AsBSTR {raw : List UInt8} : f.m_8ToW = true → raw.length < 2 ^ 32 →
      Item (.bstr (some (cv.toBSTR raw)))
        (leBytes 2 (VT_ARRAY + ScalarVT.I1.vt) ++ (leBytes 4 raw.length ++ raw))
  | scalarArray {t : ScalarVT} {n : ℕ} {data : List UInt8} : (f.m_8ToW && t = .I1) = false →
      n < 2 ^ 32 → sizeofSAFEARRAY ≤ safeArrayBytes t.size n → data.length = n * t.size % 2 ^ 32 →
      Item (.scalarArray t n data) (leBytes 2 (VT_ARRAY + t.vt) ++ (leBytes 4 n ++ data))
  | bstrArray {ss : List (Option (List UInt16))} {bs : List UInt8} : ss.length < 2 ^ 32 →
      sizeofSAFEARRAY + 8 * ss.length ≤ safeArrayBytes 8 ss.length → Chunked BSTRItem ss bs →
      Item (.bstrArray ss) (leBytes 2 (VT_ARRAY + VT_BSTR) ++ (leBytes 4 ss.length ++ bs))
  | variantArray {vs : List VARIANT} {bs : List UInt8} : vs.length < 2 ^ 32 →
      sizeofSAFEARRAY + 24 * vs.length ≤ safeArrayBytes 24 vs.length → Chunked Item vs bs →
      Item (.variantArray vs) (leBytes 2 (VT_ARRAY + VT_VARIANT) ++ (leBytes 4 vs.length ++ bs))

/-! ### Hazards -/

/-- A string whose length, or the position of whose length, wraps around 2^32. -/
inductive BSTRHazard (p : ℕ) : List UInt8 → Prop
  | length {tail : List UInt8} : 2 ^ 32 ≤ p + 4 → BSTRHazard p tail
  | text {len : ℕ} {rest : List UInt8} : len < UQUEUE_NULL_LENGTH → 2 ^ 32 ≤ p + len →
      BSTRHazard p (leBytes 4 len ++ rest)

/-- The cases in which an element count follows the tag. -/
def Kind.IsArray : Kind → Prop
  | .scalarArray _ | .bstrArray | .variantArray | .unsupportedArray => True
  | _ => False

/-- An array in which `k` elements do not fit the memory that is reserved for `n` of them. -/
def NoRoom (cbElements n k : ℕ) : Prop :=
  safeArrayBytes cbElements n < sizeofSAFEARRAY + cbElements * k

/-- The bytes behind position `p` begin so that the reader leaves the content or an array. -/
inductive Hazard (p : ℕ) : List UInt8 → Prop
  | tag {tail : List UInt8} : 2 ^ 32 ≤ p + 2 → Hazard p tail
  | scalar {t : ScalarVT} {rest : List UInt8} : 2 ^ 32 ≤ p + t.size →
      Hazard p (leBytes 2 t.vt ++ rest)
  | clsid {rest : List UInt8} : 2 ^ 32 ≤ p + 16 → Hazard p (leBytes 2 VT_CLSID ++ rest)
  | bstr {rest : List UInt8} : BSTRHazard p rest → Hazard p (leBytes 2 VT_BSTR ++ rest)
  | textAsUTF8 {raw utf8 rest : List UInt8} : f.m_ToUtf8 = true →
      raw.length < UQUEUE_NULL_LENGTH → cv.toUTF8 (utf16Units raw) = utf8 →
      NoRoom 1 utf8.length utf8.length →
      Hazard p (leBytes 2 VT_BSTR ++ (leBytes 4 raw.length ++ (raw ++ rest)))
  | count {vt : ℕ} {rest : List UInt8} : vt < 2 ^ 16 → (kindOf vt).IsArray → 2 ^ 32 ≤ p + 4 →
      Hazard p (leBytes 2 vt ++ rest)
  | i1AsBSTR {n : ℕ} {rest : List UInt8} : f.m_8ToW = true → n < 2 ^ 32 → rest.length < n →
      Hazard p (leBytes 2 (VT_ARRAY + ScalarVT.I1.vt) ++ (leBytes 4 n ++ rest))
  | scalarArraySize {t : ScalarVT} {n : ℕ} {rest : List UInt8} :
      (f.m_8ToW && t = .I1) = false → n < 2 ^ 32 → NoRoom t.size n 0 →
      Hazard p (leBytes 2 (VT_ARRAY + t.vt) ++ (leBytes 4 n ++ rest))
  | scalarArray {t : ScalarVT} {n : ℕ} {rest : List UInt8} :
      (f.m_8ToW && t = .I1) = false → n < 2 ^ 32 → 2 ^ 32 ≤ p + n * t.size % 2 ^ 32 →
      Hazard p (leBytes 2 (VT_ARRAY + t.vt) ++ (leBytes 4 n ++ rest))
  | bstrArraySize {n : ℕ} {rest : List UInt8} : n < 2 ^ 32 → NoRoom 8 n 0 →
      Hazard p (leBytes 2 (VT_ARRAY + VT_BSTR) ++ (leBytes 4 n ++ rest))
  | bstrArrayRoom {n : ℕ} {ss : List (Option (List UInt16))} {s : Option (List UInt16)}
      {bs b rest : List UInt8} :
      n < 2 ^ 32 → Chunked BSTRItem ss bs → BSTRItem s b → ss.length < n →
      NoRoom 8 n (ss.length + 1) →
      Hazard p (leBytes 2 (VT_ARRAY + VT_BSTR) ++ (leBytes 4 n ++ (bs ++ (b ++ rest))))
  | bstrArray {n : ℕ} {ss : List (Option (List UInt16))} {bs rest : List UInt8} :
      n < 2 ^ 32 → Chunked BSTRItem ss bs → ss.length < n → BSTRHazard p rest →
      Hazard p (leBytes 2 (VT_ARRAY + VT_BSTR) ++ (leBytes 4 n ++ (bs ++ rest)))
  | variantArraySize {n : ℕ} {rest : List UInt8} : n < 2 ^ 32 → NoRoom 24 n 0 →
      Hazard p (leBytes 2 (VT_ARRAY + VT_VARIANT) ++ (leBytes 4 n ++ rest))
  | variantArrayRoom {n : ℕ} {vs : List VARIANT} {bs rest : List UInt8} :
      n < 2 ^ 32 → Chunked (Item cv f) vs bs → vs.length < n → NoRoom 24 n (vs.length + 1) →
      Hazard p (leBytes 2 (VT_ARRAY + VT_VARIANT) ++ (leBytes 4 n ++ (bs ++ rest)))
  | variantArray {n : ℕ} {vs : List VARIANT} {bs rest : List UInt8} :
      n < 2 ^ 32 → Chunked (Item cv f) vs bs → vs.length < n → Hazard p rest →
      Hazard p (leBytes 2 (VT_ARRAY + VT_VARIANT) ++ (leBytes 4 n ++ (bs ++ rest)))

end

end SocketPro.Buffer
