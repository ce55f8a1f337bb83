import SocketPro.Buffer.Variant
import SocketPro.Buffer.CUQueue

/-!
# `CUQueue::Pop(VARIANT&, position)`

The reader of `membuffer.cpp` (POSIX build, assertions off). Popping never allocates for the buffer
itself and only moves the head or the bytes behind the position, so its programs act on the content
alone, an `Effect CUException (List UInt8) _`.

Sizes are computed as the code does: `len + position` and `count * sizeof(element)` modulo 2^32, and
so is the memory `SafeArrayCreate` asks for. The model is at `fault` where the code reads bytes that
are not in the content, or writes behind the memory of an array; handing a range that is not in the
content to a text converter counts as reading it. What the converters make of a text is a
parameter. Element loops run as often as the count in the stream says, and the recursion into the
elements of an array of variants is bounded by `fuel`; `CUQueue::Pop` is run with more of it than
there are bytes (`popVariant`), and every result about it holds for any such amount.
-/

namespace SocketPro.Buffer

open Bytes Machine

/-- A program on the content of a buffer. -/
abbrev Pop := Effect CUException (List UInt8)

/-! ### Bytes -/

/-- `Pop(unsigned char *buffer, len, position)`: read and remove. `room` is how many bytes `buffer`
has. -/
def popInto (room len position : ℕ) : Pop (List UInt8) := fun c ↦
  if c.length < (len + position) % 2 ^ 32 then .throw .remainingData c
  else if position + len ≤ c.length ∧ len ≤ room then
    .ok ((c.drop position).take len) (removeAt position len c)
  else .fault

/-- `Pop(len, position)`: discard as much of `len` bytes as there is. -/
def discard (len position : ℕ) : Pop ℕ := fun c ↦
  let n := if len = 0 ∨ c.length ≤ position then 0 else min len (c.length - position)
  .ok n (removeAt position n c)

/-- `GetSize()`. -/
def getSize : Pop ℕ := fun c ↦ .ok c.length c

/-- Read `len` bytes at `GetBuffer(position)` without any check. -/
def peek (len position : ℕ) : Pop (List UInt8) := fun c ↦
  if position + len ≤ c.length then .ok ((c.drop position).take len) c else .fault

/-- `Pop(&data, position)` of an unsigned number of `w` bytes. -/
def popNumber (w position : ℕ) : Pop ℕ := do
  let bytes ← popInto w w position
  pure (ofLE bytes)

/-! ### Safe arrays -/

/-- `sizeof(SAFEARRAY)`. -/
abbrev sizeofSAFEARRAY : ℕ := 32

/-- The `bytes` that `SafeArrayCreate` allocates: the header, the elements and a null char. -/
def safeArrayBytes (cbElements cElements : ℕ) : ℕ :=
  (sizeofSAFEARRAY + (cbElements * cElements % 2 ^ 32 + 1)) % 2 ^ 32

/-- `SafeArrayCreate` with elements of `cbElements` bytes: the number of bytes it reserves behind
`pvData`. All of them are zeroed, and where the size has wrapped below that of the header, the
`memset` runs over `bytes - sizeof (SAFEARRAY)` bytes, a number near 2^64. -/
def safeArrayCreate (cbElements cElements : ℕ) : Pop ℕ := do
  Effect.guard (decide (sizeofSAFEARRAY ≤ safeArrayBytes cbElements cElements))
  pure (safeArrayBytes cbElements cElements - sizeofSAFEARRAY)

/-- The write of an array element behind which `used` bytes of the array are in use. -/
def store (used room : ℕ) : Pop Unit := Effect.guard (decide (used ≤ room))

/-! ### Strings -/

/-- The text of a string whose length prefix `len` has been read: checked, copied and discarded.
The copy is stored in memory of which `used` out of `room` bytes are then in use. -/
def popText (len used room position : ℕ) : Pop (List UInt16) := do
  let size ← getSize
  if size < (len + position) % 2 ^ 32 then Effect.raise .badUnicode
  else do
    let text ← peek (2 * (len / 2)) position
    store used room
    let _ ← discard len position
    pure (utf16Units text)

/-- A string with its length ahead, as `VT_BSTR` and the loop over an array of strings read it, and
by how much `GetSize()` has decreased. -/
def popBSTR (used room position : ℕ) : Pop (Option (List UInt16) × ℕ) := do
  let ulLen ← getSize
  let len ← popNumber 4 position
  if len = UQUEUE_NULL_LENGTH then do
    store used room
    let rest ← getSize
    pure (none, ulLen - rest)
  else do
    let text ← popText len used room position
    let rest ← getSize
    pure (some text, ulLen - rest)

/-- A loop that reads the elements of an array one after the other, from index `i` on, and adds up
by how much `GetSize()` has decreased. -/
def popLoop {α : Type} (pop : ℕ → Pop (α × ℕ)) : ℕ → ℕ → Pop (List α × ℕ)
  | _, 0 => pure ([], 0)
  | i, k + 1 => do
    let (a, n) ← pop i
    let (as, m) ← popLoop pop (i + 1) k
    pure (a :: as, (n + m) % 2 ^ 32)

/-- The loop over an array of strings. -/
def popBSTRs (room ulSize position : ℕ) : Pop (List (Option (List UInt16)) × ℕ) :=
  popLoop (fun ulIndex ↦ popBSTR (8 * (ulIndex + 1)) room position) 0 ulSize

/-! ### Variants -/

/-- The flags `m_8ToW` and `m_ToUtf8` of a buffer. -/
structure Flags where
  m_8ToW : Bool
  m_ToUtf8 : Bool
deriving DecidableEq, Repr

/-- The text converters: what `Utilities::ToUTF8` leaves in the buffer it is given, which is a
buffer of 32-bit size, and what `Utilities::ToBSTR` returns. -/
structure Converters where
  toUTF8 : List UInt16 → List UInt8
  toBSTR : List UInt8 → List UInt16
  toUTF8_lt : ∀ text, (toUTF8 text).length < 2 ^ 32

/-- `VT_BSTR` with `m_ToUtf8` set: the text is converted into an array of `VT_I1`. -/
def popBSTRAsUTF8 (cv : Converters) (position : ℕ) : Pop (VARIANT × ℕ) := do
  let len ← popNumber 4 position
  if len = UQUEUE_NULL_LENGTH then pure (.null, 4)
  else do
    let text ← popText len 0 0 position
    let room ← safeArrayCreate ScalarVT.I1.size (cv.toUTF8 text).length
    store (cv.toUTF8 text).length room
    pure (.scalarArray .I1 (cv.toUTF8 text).length (cv.toUTF8 text), (4 + len) % 2 ^ 32)

/-- An array of scalars. -/
def popScalarArray (t : ScalarVT) (position : ℕ) : Pop (VARIANT × ℕ) := do
  let ulSize ← popNumber 4 position
  let room ← safeArrayCreate t.size ulSize
  let data ← popInto room (ulSize * t.size % 2 ^ 32) position
  pure (.scalarArray t ulSize data, (4 + ulSize * t.size % 2 ^ 32) % 2 ^ 32)

/-- `VT_ARRAY|VT_I1` with `m_8ToW` set: the bytes are converted into a `VT_BSTR`. Nothing compares
the count with what is left. -/
def popI1ArrayAsBSTR (cv : Converters) (position : ℕ) : Pop (VARIANT × ℕ) := do
  let ulSize ← popNumber 4 position
  let utf8 ← peek ulSize position
  let _ ← discard ulSize position
  pure (.bstr (some (cv.toBSTR utf8)), (4 + ulSize) % 2 ^ 32)

/-- `VT_CLSID`: sixteen bytes into an array of `VT_UI1`. -/
def popCLSID (position : ℕ) : Pop (VARIANT × ℕ) := do
  let room ← safeArrayCreate ScalarVT.UI1.size 16
  let data ← popInto room 16 position
  pure (.scalarArray .UI1 16 data, 16)

/-- Element `ul` of an array of variants. It is looked at before it is read into, so it has to lie
in the array. -/
def popElement (room : ℕ) (pop : Pop (VARIANT × ℕ)) (ul : ℕ) : Pop (VARIANT × ℕ) := do
  store (24 * (ul + 1)) room
  pop

/-- The loop over an array of variants. -/
def popElements (room ulSize : ℕ) (pop : Pop (VARIANT × ℕ)) : Pop (List VARIANT × ℕ) :=
  popLoop (popElement room pop) 0 ulSize

/-- An array whose elements are read by a loop: the count, the memory, the elements. -/
def popArray {α : Type} (cbElements position : ℕ) (parray : List α → VARIANT)
    (loop : ℕ → ℕ → Pop (List α × ℕ)) : Pop (VARIANT × ℕ) := do
  let ulSize ← popNumber 4 position
  let room ← safeArrayCreate cbElements ulSize
  let (as, n) ← loop room ulSize
  pure (parray as, (4 + n) % 2 ^ 32)

/-- The `switch (vtData.vt)` after the tag; `pop` reads an element of an array of variants. -/
def popPayload (cv : Converters) (f : Flags) (position : ℕ) (pop : Pop (VARIANT × ℕ)) :
    Kind → Pop (VARIANT × ℕ)
  | .empty => pure (.empty, 0)
  | .null => pure (.null, 0)
  | .scalar t => do
    let raw ← popInto t.size t.size position
    pure (.scalar t raw, t.size)
  | .bstr =>
    bif f.m_ToUtf8 then popBSTRAsUTF8 cv position
    else do
      let (s, n) ← popBSTR 0 0 position
      pure (.bstr s, n)
  | .clsid => popCLSID position
  | .scalarArray t =>
    bif f.m_8ToW && t = .I1 then popI1ArrayAsBSTR cv position else popScalarArray t position
  | .bstrArray =>
    popArray 8 position .bstrArray fun room ulSize ↦ popBSTRs room ulSize position
  | .variantArray =>
    popArray 24 position .variantArray fun room ulSize ↦ popElements room ulSize pop
  | .unsupportedArray => do
    let _ ← popNumber 4 position
    Effect.raise .deserialization
  | .unsupported => Effect.raise .deserialization

/-- The reader with a bound on the nesting of arrays. -/
def popVariantFuel (cv : Converters) (f : Flags) (position : ℕ) : ℕ → Pop (VARIANT × ℕ)
  | 0 => fun _ ↦ .fault
  | fuel + 1 => do
    let vt ← popNumber 2 position
    let (v, n) ← popPayload cv f position (popVariantFuel cv f position fuel) (kindOf vt)
    pure (v, (2 + n) % 2 ^ 32)

/-- `CUQueue::Pop(VARIANT&, unsigned int)`: the value and the number returned. -/
def popVariant (cv : Converters) (f : Flags) (position : ℕ) : Pop (VARIANT × ℕ) := fun c ↦
  popVariantFuel cv f position (c.length + 1) c

end SocketPro.Buffer
