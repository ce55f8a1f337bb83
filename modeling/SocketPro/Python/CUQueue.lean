import SocketPro.Foundation.Block
import SocketPro.Foundation.Effect
import SocketPro.Python.Values

/-!
# The memory of the Python `CUQueue`

`memqueue.py`: the content is the `_m_len_` bytes of a `bytearray` from `_m_position_` on. A number
is packed into the bytes behind the content; `Push` replaces all bytes behind the content, so that
the `bytearray` ends with what has been pushed.

The size that `_ensure_` adds is computed with a division of floats. It is exact for blocks whose
size is a power of two, as that of the queues of the pool is.

* `saveAll_ok`, `PopBytes_ok` — every write comes behind the content and every read takes the front
  of it, wherever the content lies.
-/

namespace SocketPro.Python

open Block Bytes Machine

/-- The members of `CUQueue`. -/
structure CUQueue where
  m_bytes : List UInt8
  m_len : ℕ
  m_position : ℕ
  m_blockSize : ℕ
deriving DecidableEq

/-- What the methods raise. -/
inductive Exception
  | ValueError (message : String)
  | StructError
deriving DecidableEq, Repr

/-- A method of `CUQueue`. -/
abbrev Method (α : Type) := Effect Exception CUQueue α

namespace CUQueue

/-- The `_m_len_` bytes from `_m_position_` on. -/
def content (q : CUQueue) : List UInt8 := slice q.m_position q.m_len q.m_bytes

/-! ### Methods -/

/-- `TailSize` -/
def TailSize (q : CUQueue) : ℤ := (q.m_bytes.length : ℤ) - q.m_len - q.m_position

/-- `Realloc(newSize)` -/
def Realloc (newSize : ℤ) : Method Unit := fun q ↦
  let newSize := if newSize ≤ 0 then 1024 else newSize.toNat
  let len := min q.m_len newSize
  let kept := slice q.m_position len q.m_bytes
  .ok () { q with
    m_bytes := kept ++ List.replicate (newSize - len) 0
    m_len := len
    m_position := 0 }

/-- `_ensure_(len)` -/
def ensure (len : ℕ) : Method Unit := fun q ↦
  if q.TailSize < len then Realloc (q.m_bytes.length + (len - q.TailSize + q.m_blockSize)) q
  else .ok () q

/-- `struct.pack_into` behind the content, which raises where there is no room. -/
def packInto (data : List UInt8) : Method Unit := fun q ↦
  if q.m_position + q.m_len + data.length ≤ q.m_bytes.length then
    .ok () { q with
      m_bytes := overwrite (q.m_position + q.m_len) data q.m_bytes
      m_len := q.m_len + data.length }
  else .throw .StructError q

/-- The `Save` of a number or of a text. -/
def pack (data : List UInt8) : Method Unit := do
  ensure data.length
  packInto data

/-- `Push(bytes, length)`. The slice assignment puts all of the bytes in the place of what is behind
the content. -/
def Push (bytes : List UInt8) (length : ℕ) : Method Unit :=
  if length = 0 then pure ()
  else do
    ensure (min length bytes.length)
    fun q ↦ .ok () { q with
      m_bytes := q.m_bytes.take (q.m_position + q.m_len) ++ bytes
      m_len := q.m_len + min length bytes.length }

/-- Perform a write. -/
def write : Write → Method Unit
  | .pack bytes => pack bytes
  | .push bytes => Push bytes bytes.length

/-- `SaveUInt(n)`, which raises for a number of more than four bytes. -/
def SaveUInt (n : ℕ) : Method Unit :=
  match packInt 4 false n with
  | some w => write w
  | none => Effect.raise .StructError

/-- Perform some writes. -/
def saveAll : List Write → Method Unit
  | [] => pure ()
  | w :: ws => do
    write w
    saveAll ws

/-- `_available_(size)` -/
def available (size : ℕ) : Method Unit := fun q ↦
  if q.m_len < size then
    .throw (.ValueError "Invalid data found") { q with m_len := 0, m_position := 0 }
  else .ok () q

/-- `_set_(size)` -/
def set (size : ℕ) : Method Unit := fun q ↦
  let len := q.m_len - size
  .ok () { q with m_len := len, m_position := if len = 0 then 0 else q.m_position + size }

/-- The bytes that are read from the front. -/
def take (size : ℕ) : Method (List UInt8) := do
  available size
  fun q ↦ (set size >>= fun _ ↦ pure (slice q.m_position size q.m_bytes) : Method _) q

/-- `PopBytes(length)` -/
def PopBytes (length : ℕ) : Method (List UInt8) :=
  if length = 0 then pure [] else take length

/-- `SetSize(0)` -/
def clear : Method Unit := fun q ↦ .ok () { q with m_len := 0, m_position := 0 }

/-- `(c_ubyte * q.GetSize()).from_buffer(q._m_bytes_, q._m_position_)` -/
def fromBuffer : Method (List UInt8) := fun q ↦
  if q.m_position + q.m_len ≤ q.m_bytes.length then .ok q.content q
  else .throw (.ValueError "Buffer size too small") q

/-! ### The content -/

/-- The content lies in the bytes and is the list. -/
structure Holds (q : CUQueue) (t : List UInt8) : Prop where
  fits : q.m_position + q.m_len ≤ q.m_bytes.length
  content : q.content = t

variable {q : CUQueue} {t : List UInt8} {n : ℕ}

theorem Holds.length (h : q.Holds t) : t.length = q.m_len := by
  rw [← h.content, CUQueue.content, length_slice h.fits]

/-- The content is moved to the front of a larger bytearray. -/
theorem Holds.moved (h : q.Holds t) (hn : q.m_len ≤ n) :
    (slice q.m_position q.m_len q.m_bytes ++ List.replicate (n - q.m_len) 0).length = n ∧
      CUQueue.Holds { q with
        m_bytes := slice q.m_position q.m_len q.m_bytes ++ List.replicate (n - q.m_len) 0
        m_position := 0 } t := by
  have hslice : (slice q.m_position q.m_len q.m_bytes).length = q.m_len := length_slice h.fits
  have hlength : (slice q.m_position q.m_len q.m_bytes ++
      List.replicate (n - q.m_len) 0).length = n := by
    rw [List.length_append, hslice, List.length_replicate]
    omega
  refine ⟨hlength, ?_, ?_⟩
  · show 0 + q.m_len ≤ _
    rw [hlength]
    omega
  · show slice 0 q.m_len (slice q.m_position q.m_len q.m_bytes ++ _) = _
    rw [← h.content, slice, List.drop_zero, List.take_append_of_le_length hslice.ge,
      List.take_of_length_le hslice.le, CUQueue.content]

/-- Bytes are put behind the content. -/
theorem Holds.packed (h : q.Holds t) {data : List UInt8}
    (hroom : q.m_position + q.m_len + data.length ≤ q.m_bytes.length) :
    CUQueue.Holds { q with
      m_bytes := overwrite (q.m_position + q.m_len) data q.m_bytes
      m_len := q.m_len + data.length } (t ++ data) := by
  obtain ⟨m, hm, hlength, hslice⟩ := write_behind hroom
  obtain rfl := Option.some.inj ((write_eq_some hroom).symm.trans hm)
  constructor
  · show q.m_position + (q.m_len + data.length) ≤ (overwrite _ _ _).length
    rw [hlength, ← Nat.add_assoc]
    exact hroom
  · rw [← h.content]
    exact hslice

/-- Bytes are put in the place of what is behind the content; some of them belong to it. -/
theorem Holds.pushed (h : q.Holds t) {data : List UInt8} (hn : n ≤ data.length) :
    CUQueue.Holds { q with
      m_bytes := q.m_bytes.take (q.m_position + q.m_len) ++ data
      m_len := q.m_len + n } (t ++ data.take n) := by
  have hfits := h.fits
  have hkept : (q.m_bytes.take (q.m_position + q.m_len)).length = q.m_position + q.m_len := by
    rw [List.length_take, Nat.min_eq_left h.fits]
  constructor
  · show q.m_position + (q.m_len + n) ≤ (_ ++ data).length
    rw [List.length_append, hkept]
    omega
  · have hfront : ((q.m_bytes.drop q.m_position).take q.m_len).length = q.m_len := by
      rw [List.length_take, List.length_drop, Nat.min_eq_left (by omega)]
    rw [← h.content]
    show slice q.m_position (q.m_len + n) (_ ++ data) = _
    rw [slice, CUQueue.content, slice, List.drop_append_of_le_length (by omega), List.drop_take,
      Nat.add_sub_cancel_left, List.take_append, hfront, Nat.add_sub_cancel_left,
      List.take_of_length_le (by omega)]

/-- The bytes at the front. -/
theorem Holds.front (h : q.Holds t) (hn : n ≤ t.length) :
    slice q.m_position n q.m_bytes = t.take n := by
  have hlen := h.length
  rw [← h.content, CUQueue.content, take_slice (by omega)]

/-- Bytes are taken from the front. -/
theorem Holds.taken (h : q.Holds t) (hn : n ≤ t.length) :
    CUQueue.Holds { q with
      m_len := q.m_len - n
      m_position := if q.m_len - n = 0 then 0 else q.m_position + n } (t.drop n) := by
  have hlen := h.length
  have hfits := h.fits
  constructor
  · show (if q.m_len - n = 0 then 0 else q.m_position + n) + (q.m_len - n) ≤ q.m_bytes.length
    split <;> omega
  · rw [← h.content]
    show slice (if q.m_len - n = 0 then 0 else q.m_position + n) (q.m_len - n) q.m_bytes = _
    rw [CUQueue.content, drop_slice]
    split
    · next hzero => rw [hzero, slice_zero, slice_zero]
    · rfl

/-- **`_ensure_`** makes room behind the content. -/
theorem ensure_ok (h : q.Holds t) (n : ℕ) :
    ∃ q', ensure n q = .ok () q' ∧ q'.Holds t ∧ q'.m_position + q'.m_len + n ≤ q'.m_bytes.length := by
  have hfits := h.fits
  have htail : q.TailSize = (q.m_bytes.length : ℤ) - q.m_len - q.m_position := rfl
  by_cases hshort : q.TailSize < n
  · let newSize : ℤ := q.m_bytes.length + (n - q.TailSize + q.m_blockSize)
    have hpos : ¬ newSize ≤ 0 := by omega
    have hkept : min q.m_len newSize.toNat = q.m_len := Nat.min_eq_left (by omega)
    obtain ⟨hlength, hholds⟩ := h.moved (n := newSize.toNat) (by omega)
    refine ⟨_, ?_, hholds, ?_⟩
    · rw [ensure, if_pos hshort, Realloc]
      simp only [newSize, if_neg hpos, hkept]
    · show 0 + q.m_len + n ≤ _
      rw [hlength]
      omega
  · exact ⟨q, if_neg hshort, h, by omega⟩

/-- Numbers and texts come behind the content. -/
theorem pack_ok (h : q.Holds t) (data : List UInt8) :
    ∃ q', pack data q = .ok () q' ∧ q'.Holds (t ++ data) := by
  obtain ⟨q₁, hensure, hq₁, hroom⟩ := ensure_ok h data.length
  exact ⟨_, (Effect.bind_ok hensure).trans (if_pos hroom), hq₁.packed hroom⟩

/-- So do the bytes that are pushed. -/
theorem Push_ok (h : q.Holds t) (data : List UInt8) :
    ∃ q', Push data data.length q = .ok () q' ∧ q'.Holds (t ++ data) := by
  rw [Push]
  by_cases hzero : data.length = 0
  · rw [if_pos hzero, List.length_eq_zero_iff.1 hzero, List.append_nil]
    exact ⟨q, rfl, h⟩
  · obtain ⟨q₁, hensure, hq₁, hroom⟩ := ensure_ok h data.length
    have hpushed := hq₁.pushed (n := data.length) le_rfl
    rw [List.take_length] at hpushed
    rw [if_neg hzero, Nat.min_self]
    exact ⟨_, (Effect.bind_ok hensure).trans rfl, hpushed⟩

/-- **One write.** -/
theorem write_ok (h : q.Holds t) (w : Write) :
    ∃ q', write w q = .ok () q' ∧ q'.Holds (t ++ w.bytes) := by
  cases w with
  | pack bytes => exact pack_ok h bytes
  | push bytes => exact Push_ok h bytes

theorem packInt_length (hn : n < 2 ^ 32) :
    packInt 4 false n = some (.pack (leBytes 4 n)) := packInt_of_lt 4 hn

theorem SaveUInt_ok (h : q.Holds t) (hn : n < 2 ^ 32) :
    ∃ q', SaveUInt n q = .ok () q' ∧ q'.Holds (t ++ leBytes 4 n) := by
  rw [SaveUInt, packInt_length hn]
  exact write_ok h (.pack (leBytes 4 n))

/-- **Some writes.** -/
theorem saveAll_ok (h : q.Holds t) (ws : List Write) :
    ∃ q', saveAll ws q = .ok () q' ∧ q'.Holds (t ++ ws.flatMap Write.bytes) := by
  induction ws generalizing q t with
  | nil =>
    rw [List.flatMap_nil, List.append_nil]
    exact ⟨q, rfl, h⟩
  | cons w ws ih =>
    obtain ⟨q₁, hwrite, hq₁⟩ := write_ok h w
    obtain ⟨q', hsave, hq'⟩ := ih hq₁
    rw [List.flatMap_cons, ← List.append_assoc]
    exact ⟨q', (Effect.bind_ok hwrite).trans hsave, hq'⟩

/-- **Reading** takes the front of the content. -/
theorem take_ok (h : q.Holds t) (hn : n ≤ t.length) :
    ∃ q', take n q = .ok (t.take n) q' ∧ q'.Holds (t.drop n) := by
  have hlen := h.length
  have havailable : available n q = .ok () q := if_neg (by omega)
  refine ⟨_, ?_, h.taken hn⟩
  rw [← h.front hn]
  exact (Effect.bind_ok havailable).trans rfl

theorem PopBytes_ok (h : q.Holds t) (hpos : 0 < n) (hn : n ≤ t.length) :
    ∃ q', PopBytes n q = .ok (t.take n) q' ∧ q'.Holds (t.drop n) := by
  rw [PopBytes, if_neg (Nat.ne_of_gt hpos)]
  exact take_ok h hn

theorem clear_ok (q : CUQueue) : ∃ q', clear q = .ok () q' ∧ q'.Holds [] :=
  ⟨_, rfl, Nat.zero_le _, slice_zero⟩

theorem fromBuffer_ok (h : q.Holds t) : fromBuffer q = .ok t q := by
  rw [fromBuffer, if_pos h.fits, h.content]

end CUQueue

end SocketPro.Python
