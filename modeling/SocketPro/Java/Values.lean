import SocketPro.Java.ByteList

/-!
# `Save(Object)` of the Java `CUQueue`

A value is an object that `Save(Object)` takes. What is saved of it is its type in two bytes and
then, for an array, the number of the elements, and the elements. Every part is a write of its own:
`Write` is one call of `Ensure` with what is put behind it. The bytes of numbers stand in the order
of the buffer; a text is always in `UTF-16LE`.

A time is the number that `UDateTime` makes of it, and a decimal what `Save(BigDecimal)` computes of
it. An `IUSerializer` is whatever its `SaveTo` saves.

* `saveAll_ok` — **saving**: in a queue whose end is where bytes are written, each write comes
  behind the one before, as long as the buffer can grow for it.
-/

namespace SocketPro.Java

open Block Bytes Machine Nio Unicode

/-! ### Values -/

/-- The types of the elements, other than bytes and texts. -/
inductive Kind
  | boolean
  | character
  | short
  | int
  | float
  | long
  | double
  | date
  | uuid
  | decimal
deriving DecidableEq, Repr

/-- `tagVariantDataType` -/
def Kind.vt : Kind → ℕ
  | boolean => 11
  | character => 18
  | short => 2
  | int => 22
  | float => 4
  | long => 20
  | double => 5
  | date => 7
  | uuid => 72
  | decimal => 14

abbrev sdVT_EMPTY : ℕ := 0

abbrev sdVT_NULL : ℕ := 1

abbrev sdVT_BSTR : ℕ := 8

abbrev sdVT_VARIANT : ℕ := 12

abbrev sdVT_UI1 : ℕ := 17

abbrev sdVT_NETObject : ℕ := 0xE00

abbrev sdVT_ARRAY : ℕ := 0x2000

/-- The parts of a decimal. -/
structure Decimal where
  scale : UInt8
  negative : Bool
  high : UInt32
  low : UInt64

/-- The elements of a type; floating-point numbers are their bits. -/
def Kind.Element : Kind → Type
  | boolean => Bool
  | character | short => UInt16
  | int | float => UInt32
  | long | double | date => UInt64
  | uuid => UInt64 × UInt64
  | decimal => Decimal

/-- One call of `Ensure` and what is put: some bytes, or a text that is encoded. -/
inductive Write
  | data (bytes : List UInt8)
  | text (s : List UInt16)

/-- The bytes of a write. -/
def Write.bytes : Write → List UInt8
  | data bytes => bytes
  | text s => utf16Bytes s

inductive Value
  | null
  | object
  | byte (b : UInt8)
  | bytes (a : List UInt8)
  | scalar (k : Kind) (e : k.Element)
  | array (k : Kind) (a : List k.Element)
  | string (s : List UInt16)
  | strings (a : List (Option (List UInt16)))
  | objects (a : List Value)
  | serializer (s : List Write)
  | serializers (a : List (List Write))

/-- `java.nio.ByteOrder` -/
inductive ByteOrder
  | BIG_ENDIAN
  | LITTLE_ENDIAN
deriving DecidableEq, Repr

/-- The low bytes of a number. -/
def ByteOrder.bytes : ByteOrder → ℕ → ℕ → List UInt8
  | BIG_ENDIAN, w, n => (leBytes w n).reverse
  | LITTLE_ENDIAN, w, n => leBytes w n

@[simp] theorem ByteOrder.length_bytes (order : ByteOrder) (w n : ℕ) :
    (order.bytes w n).length = w := by
  cases order with
  | BIG_ENDIAN => rw [bytes, List.length_reverse, length_leBytes]
  | LITTLE_ENDIAN => rw [bytes, length_leBytes]

section Writes

variable (order : ByteOrder)

/-- `Save` of a number of some bytes. -/
def number (w n : ℕ) : Write := .data (order.bytes w n)

/-- The `Save` of an element. -/
def Kind.writes : (k : Kind) → k.Element → List Write
  | .boolean, b => [number order 2 (bif b then 0xFFFF else 0)]
  | .character, n | .short, n => [number order 2 (UInt16.toNat n)]
  | .int, n | .float, n => [number order 4 (UInt32.toNat n)]
  | .long, n | .double, n | .date, n => [number order 8 (UInt64.toNat n)]
  | .uuid, (most, least) =>
    [.data (order.bytes 8 (UInt64.toNat most) ++ order.bytes 8 (UInt64.toNat least))]
  | .decimal, d =>
    [number order 2 14, number order 1 (UInt8.toNat (Decimal.scale d)),
      number order 1 (bif Decimal.negative d then 128 else 0),
      number order 4 (UInt32.toNat (Decimal.high d)), number order 8 (UInt64.toNat (Decimal.low d))]

/-- `Save(String)`. The encoder is not called for an empty text. -/
def stringWrites : Option (List UInt16) → List Write
  | none => [number order 4 0xFFFFFFFF]
  | some [] => [number order 4 0]
  | some (u :: s) => [number order 4 ((u :: s).length * 2), .text (u :: s)]

mutual

/-- `Save(Object)`. -/
def Value.writes : Value → List Write
  | .null => [number order 2 sdVT_NULL]
  | .object => [number order 2 sdVT_EMPTY]
  | .byte b => [number order 2 sdVT_UI1, .data [b]]
  | .bytes a => [number order 2 (sdVT_ARRAY + sdVT_UI1), number order 4 a.length, .data a]
  | .scalar k e => number order 2 k.vt :: k.writes order e
  | .array k a =>
    number order 2 (sdVT_ARRAY + k.vt) :: number order 4 a.length :: a.flatMap (k.writes order)
  | .string s => number order 2 sdVT_BSTR :: stringWrites order (some s)
  | .strings a =>
    number order 2 (sdVT_ARRAY + sdVT_BSTR) :: number order 4 a.length ::
      a.flatMap (stringWrites order)
  | .objects a =>
    number order 2 (sdVT_ARRAY + sdVT_VARIANT) :: number order 4 a.length :: objectWrites a
  | .serializer s => number order 2 sdVT_NETObject :: s
  | .serializers a =>
    number order 2 (sdVT_ARRAY + sdVT_NETObject) :: number order 4 a.length :: a.flatten

/-- The loop over an `Object[]`. -/
def objectWrites : List Value → List Write
  | [] => []
  | v :: a => v.writes ++ objectWrites a

end

/-- The bytes of a value. -/
def Value.encode (v : Value) : List UInt8 := (v.writes order).flatMap Write.bytes

end Writes

namespace CUQueue

/-- Perform a write. -/
def write : Write → Method Unit
  | .data bytes => Append bytes
  | .text s => Encode s

/-- Perform some writes. -/
def saveAll : List Write → Method Unit
  | [] => pure ()
  | w :: ws => do
    write w
    saveAll ws

/-- `Save(Object)`. -/
def Save (order : ByteOrder) (v : Value) : Method Unit := saveAll (v.writes order)

end CUQueue

/-! ### How the buffer grows -/

/-- The size of the buffer, and how much of it is content. -/
structure Extent where
  capacity : ℕ
  len : ℕ
deriving DecidableEq, Repr

/-- The size that `Realloc` rounds up to. -/
def rounded (block n : ℕ) : ℕ :=
  ((if n = 0 then DEFAULT_BUFFER_SIZE else n) / block + 1) * block

namespace Extent

/-- Some bytes are written, if the buffer can become as large as it takes. -/
def write (block : ℕ) (e : Extent) (n : ℕ) : Option Extent :=
  if e.len + n < e.capacity then some ⟨e.capacity, e.len + n⟩
  else if rounded block (e.capacity + n) < intBound then
    some ⟨rounded block (e.capacity + n), e.len + n⟩
  else none

/-- Several writes. -/
def writes (block : ℕ) (e : Extent) (ws : List Write) : Option Extent :=
  ws.foldlM (fun e w ↦ e.write block w.bytes.length) e

end Extent

/-- The text of a write can be encoded. -/
def Write.Paired : Write → Prop
  | data _ => True
  | text s => Unicode.Paired s

/-! ### Saving -/

namespace CUQueue

/-- The queue holds the list at the front of its buffer and can go on writing behind it. -/
structure Writable (q : CUQueue) (t : List UInt8) (block : ℕ) (e : Extent) : Prop where
  holds : q.Holds t
  block_eq : q.m_blockSize = block
  capacity_eq : q.m_bytes.capacity = e.capacity
  len_eq : q.m_len = e.len
  front : q.m_position = 0
  ends : q.m_bReading = true ∧ t = [] ∨
    q.m_bReading = false ∧ q.m_bytes.position = q.m_len ∧ q.m_bytes.limit = q.m_bytes.capacity

variable {q : CUQueue} {t : List UInt8} {block n : ℕ} {e e' : Extent}

/-- **`Ensure`** makes the room that the extent says. -/
theorem ensure_writable (h : q.Writable t block e) (he : e.write block n = some e') :
    ∃ q', Ensure n q = .ok () q' ∧ q'.Writable t block ⟨e'.capacity, e.len⟩ ∧
      q'.m_bReading = false ∧ e.len + n ≤ e'.capacity := by
  obtain ⟨hholds, hblock, hcapacity, hlen, hfront, hends⟩ := h
  obtain ⟨b, hstop, harray, hlimit, hreading, hwriting⟩ := stopReading_ok hholds.toSound
  have hcap : b.capacity = e.capacity := (congrArg List.length harray).trans hcapacity
  have hend : b.position = q.m_len ∧ b.limit = b.capacity := by
    rcases hends with ⟨hr, -⟩ | ⟨hr, hpos, hlim⟩
    · obtain ⟨hpos, hlim⟩ := hreading hr
      exact ⟨by rw [hpos, hfront, Nat.zero_add], hlim⟩
    · rw [hwriting hr]
      exact ⟨hpos, hlim⟩
  let q₁ : CUQueue := { q with m_bytes := b, m_bReading := false }
  have hsound : q₁.Sound := ⟨hlimit, hholds.block_pos, hholds.block_lt⟩
  have hcontent : q₁.content = t := by
    rw [← hholds.content]
    show slice q.m_position q.m_len b.array = slice q.m_position q.m_len q.m_bytes.array
    rw [harray]
  have htail : q₁.getTailSize = (e.capacity : ℤ) - e.len := by
    show (b.capacity : ℤ) - q.m_position - q.m_len = _
    rw [hcap, hfront, hlen]
    omega
  rw [Extent.write] at he
  split at he
  · next hroom =>
    -- there is more room than is needed
    obtain rfl := Option.some.inj he
    have hskip : makeRoom n q₁ = .ok () q₁ := if_neg (by rw [htail]; omega)
    refine ⟨q₁, (Effect.bind_ok hstop).trans hskip, ⟨⟨hsound, hcontent⟩, hblock, hcap, hlen, hfront,
      .inr ⟨rfl, hend⟩⟩, rfl, hroom.le⟩
  · next hroom =>
    split at he
    · next hround =>
      obtain rfl := Option.some.inj he
      have hrounded : q₁.roundedSize (e.capacity + n) = rounded block (e.capacity + n) := by
        show ((if (e.capacity : ℤ) + n ≤ 0 then (DEFAULT_BUFFER_SIZE : ℤ) else e.capacity + n) /
          (q.m_blockSize : ℤ) + 1) * q.m_blockSize = _
        rw [hblock, rounded]
        push_cast
        by_cases hzero : e.capacity + n = 0
        · rw [if_pos (by omega), if_pos hzero]
        · rw [if_neg (by omega), if_neg hzero]
      have halloc : q₁.Allocates (e.capacity + n) := by
        rw [Allocates, hrounded]
        exact Int.ofNat_lt.2 hround
      have hsize : (e.capacity : ℤ) + n < intBound := (lt_roundedSize hsound _).1.trans halloc
      have hlen₁ : (q₁.m_len : ℤ) ≤ e.capacity + n := by
        have hfits := hholds.fits_capacity
        show (q.m_len : ℤ) ≤ e.capacity + n
        omega
      obtain ⟨c, hc, hclimit, hsmall, hslice, hcpos, hcsize⟩ := realloc_ok hsound hlen₁ halloc
      have hccap : c.capacity = rounded block (e.capacity + n) := by omega
      have hgrow : makeRoom n q₁ = .ok () { q₁ with m_bytes := c, m_position := 0 } := by
        rw [makeRoom, if_pos (by rw [htail]; omega), if_neg, ← hc]
        · show Realloc (toInt (b.capacity + n)) q₁ = _
          rw [hcap, toInt_of_lt (by omega) hsize]
        · show ¬ (n : ℤ) < b.capacity - q.m_len
          omega
      refine ⟨_, (Effect.bind_ok hstop).trans hgrow, ⟨⟨⟨?_, hholds.block_pos, hholds.block_lt⟩,
        hslice.trans hcontent⟩, hblock, hccap, hlen, rfl, .inr ⟨rfl, hcpos rfl, hclimit⟩⟩, rfl, ?_⟩
      · show 0 + q.m_len ≤ c.limit
        have hlen₂ : (q.m_len : ℤ) ≤ e.capacity + n := hlen₁
        omega
      · show e.len + n ≤ rounded block (e.capacity + n)
        have hlen₂ : (q.m_len : ℤ) ≤ e.capacity + n := hlen₁
        have hfits := hholds.fits_capacity
        omega
    · cases he

/-- Bytes that are put behind `Ensure`. -/
theorem put_writable (h : q.Writable t block ⟨e'.capacity, e.len⟩) (hr : q.m_bReading = false)
    {data : List UInt8} (hroom : e.len + data.length ≤ e'.capacity)
    (hlen : e'.len = e.len + data.length) :
    ∃ q', (do
        put data
        assign fun q ↦ { q with m_len := q.m_len + data.length } : Method Unit) q = .ok () q' ∧
      q'.Writable (t ++ data) block e' := by
  obtain ⟨hholds, hblock, hcapacity, hqlen, hfront, hends⟩ := h
  obtain ⟨hpos, hlimit⟩ := (hends.resolve_left fun hnot ↦
    absurd (hr.symm.trans hnot.1) (by decide)).2
  have hin : q.m_bytes.position + data.length ≤ q.m_bytes.limit := by
    rw [hpos, hlimit, hqlen, hcapacity]
    exact hroom
  obtain ⟨b, hput, harray, hbpos, hblimit, hbcap, -⟩ := ByteBuffer.put_eq hin
  have hput₁ : put data q = .ok () { q with m_bytes := b } := by
    rw [put, onBuffer, hput]
  have hwritten : (do
      put data
      assign fun q ↦ { q with m_len := q.m_len + data.length } : Method Unit) q =
        .ok () { q with m_bytes := b, m_len := q.m_len + data.length } :=
    (Effect.bind_ok hput₁).trans rfl
  refine ⟨_, hwritten, ⟨?_, hblock, hbcap.trans hcapacity, ?_, hfront, .inr ⟨hr, ?_, ?_⟩⟩⟩
  · have hready : q.Ready data.length := by
      refine ⟨by rw [hpos, hfront, Nat.zero_add], ?_⟩
      rw [hfront, Nat.zero_add, ← hpos]
      exact hin
    obtain ⟨q', hq', hheld⟩ := written_holds hholds.toSound (.inr hready)
    obtain rfl : q' = _ := (Outcome.ok.inj (hq'.symm.trans hwritten)).2
    rwa [hholds.content] at hheld
  · show q.m_len + data.length = e'.len
    rw [hqlen, hlen]
  · show b.position = q.m_len + data.length
    rw [hbpos, hpos]
  · show b.limit = b.capacity
    rw [hblimit, hlimit, hbcap]

theorem Extent.len_write (he : e.write block n = some e') : e'.len = e.len + n := by
  rw [Extent.write] at he
  split at he
  · rw [← Option.some.inj he]
  · split at he
    · rw [← Option.some.inj he]
    · cases he

/-- **One write.** -/
theorem write_ok (h : q.Writable t block e) {w : Write} (hw : w.Paired)
    (he : e.write block w.bytes.length = some e') :
    ∃ q', write w q = .ok () q' ∧ q'.Writable (t ++ w.bytes) block e' := by
  have hlen := Extent.len_write he
  cases w with
  | data bytes =>
    obtain ⟨q₁, hensure, hq₁, hr, hroom⟩ := ensure_writable h he
    obtain ⟨q', hput, hq'⟩ := put_writable hq₁ hr hroom hlen
    exact ⟨q', (Effect.bind_ok hensure).trans hput, hq'⟩
  | text s =>
    rw [Write.bytes, length_utf16Bytes] at he hlen
    obtain ⟨q₁, hensure, hq₁, hr, hroom⟩ := ensure_writable h he
    have hroom' : e.len + (utf16Bytes s).length ≤ e'.capacity := by rwa [length_utf16Bytes]
    have hlen' : e'.len = e.len + (utf16Bytes s).length := by rwa [length_utf16Bytes]
    obtain ⟨q', hput, hq'⟩ := put_writable hq₁ hr hroom' hlen'
    obtain ⟨hpos, hlimit⟩ := (hq₁.ends.resolve_left fun hnot ↦
      absurd (hr.symm.trans hnot.1) (by decide)).2
    -- there is room for all units
    have hall : encodeUnits ((q₁.m_bytes.limit - q₁.m_bytes.position) / 2) s = s := by
      refine encodeUnits_eq hw ?_
      rw [hpos, hlimit, hq₁.len_eq, hq₁.capacity_eq]
      show s.length ≤ (e'.capacity - e.len) / 2
      omega
    refine ⟨q', (Effect.bind_ok hensure).trans ?_, hq'⟩
    rw [← hput, length_utf16Bytes]
    show (put (utf16Bytes (encodeUnits ((q₁.m_bytes.limit - q₁.m_bytes.position) / 2) s))
      q₁).andThen _ = _
    rw [hall]
    rfl

/-- **Some writes** -/
theorem saveAll_ok {ws : List Write} (h : q.Writable t block e) (hws : ∀ w ∈ ws, w.Paired)
    (he : e.writes block ws = some e') :
    ∃ q', saveAll ws q = .ok () q' ∧ q'.Writable (t ++ ws.flatMap Write.bytes) block e' := by
  induction ws generalizing q t e with
  | nil =>
    obtain rfl := Option.some.inj he
    rw [List.flatMap_nil, List.append_nil]
    exact ⟨q, rfl, h⟩
  | cons w ws ih =>
    rw [Extent.writes, List.foldlM_cons] at he
    obtain ⟨e₁, hw, hrest⟩ := Option.bind_eq_some_iff.1 he
    obtain ⟨q₁, hwrite, hq₁⟩ := write_ok h (hws w List.mem_cons_self) hw
    obtain ⟨q', hsave, hq'⟩ := ih hq₁ (fun w hw ↦ hws w (List.mem_cons_of_mem _ hw)) hrest
    rw [List.append_assoc] at hq'
    rw [List.flatMap_cons]
    exact ⟨q', (Effect.bind_ok hwrite).trans hsave, hq'⟩

end CUQueue

end SocketPro.Java
