import SocketPro.Foundation.Block
import Mathlib.Algebra.Order.Ring.Int

/-!
# `java.nio.ByteBuffer`

A buffer of bytes with a position and a limit. `get` and `put` work at the position and fail rather
than pass the limit; `clear` and `compact` prepare for writing. A buffer whose position is behind
its limit, or its limit behind its capacity, cannot be built.
-/

namespace Nio

open Block

/-- The lengths of arrays and buffers are less than this. -/
def intBound : ℕ := 2 ^ 31

/-- `byte[]`. -/
abbrev Bytes := { l : List UInt8 // l.length < intBound }

/-- `ByteBuffer`. The bytes of the buffer can be a part of those of an array, with others before
and behind them. -/
structure ByteBuffer where
  array : List UInt8
  before : List UInt8
  behind : List UInt8
  position : ℕ
  limit : ℕ
  isDirect : Bool
  position_le : position ≤ limit
  limit_le : limit ≤ array.length
  capacity_lt : array.length < intBound
deriving DecidableEq

namespace ByteBuffer

variable (b : ByteBuffer)

def capacity : ℕ := b.array.length

/-- `array()`: all bytes of the array the buffer is a part of. -/
def backing : List UInt8 := b.before ++ b.array ++ b.behind

/-- The bytes between the position and the limit. -/
def remaining : List UInt8 := slice b.position (b.limit - b.position) b.array

/-- A direct buffer of zeros. -/
def zeros (n : ℕ) (h : n < intBound) : ByteBuffer where
  array := List.replicate n 0
  before := []
  behind := []
  position := 0
  limit := n
  isDirect := true
  position_le := Nat.zero_le _
  limit_le := List.length_replicate.ge
  capacity_lt := by rwa [List.length_replicate]

/-- `allocateDirect(capacity)`, which throws for a negative one. -/
def allocateDirect (capacity : ℤ) : Option ByteBuffer :=
  if h : 0 ≤ capacity ∧ capacity.toNat < intBound then some (zeros capacity.toNat h.2) else none

/-- `wrap(array)`. -/
def wrap (bytes : Bytes) : ByteBuffer where
  array := bytes.1
  before := []
  behind := []
  position := 0
  limit := bytes.1.length
  isDirect := false
  position_le := Nat.zero_le _
  limit_le := le_rfl
  capacity_lt := bytes.2

/-- `position(newPosition)`, which throws behind the limit. -/
def setPosition (newPosition : ℕ) : Option ByteBuffer :=
  if h : newPosition ≤ b.limit then some { b with position := newPosition, position_le := h }
  else none

/-- `limit(newLimit)`, which throws behind the capacity and takes the position along. -/
def setLimit (newLimit : ℕ) : Option ByteBuffer :=
  if h : newLimit ≤ b.capacity then
    some { b with
      position := min b.position newLimit
      limit := newLimit
      position_le := Nat.min_le_right _ _
      limit_le := h }
  else none

/-- `clear()`. -/
def clear : ByteBuffer :=
  { b with position := 0, limit := b.capacity, position_le := Nat.zero_le _, limit_le := le_rfl }

/-- Read some bytes; `none` for a `BufferUnderflowException`. -/
def get (n : ℕ) : Option (List UInt8 × ByteBuffer) :=
  if h : b.position + n ≤ b.limit then
    some (slice b.position n b.array, { b with position := b.position + n, position_le := h })
  else none

/-- Write some bytes; `none` for a `BufferOverflowException`. -/
def put (bytes : List UInt8) : Option ByteBuffer :=
  if h : b.position + bytes.length ≤ b.limit then
    have hlen : (overwrite b.position bytes b.array).length = b.array.length :=
      length_overwrite (h.trans b.limit_le)
    some { b with
      array := overwrite b.position bytes b.array
      position := b.position + bytes.length
      position_le := h
      limit_le := hlen ▸ b.limit_le
      capacity_lt := hlen ▸ b.capacity_lt }
  else none

theorem length_compacted :
    (b.remaining ++ b.array.drop (b.limit - b.position)).length = b.array.length := by
  have hpos := b.position_le
  have hlim := b.limit_le
  rw [remaining, List.length_append, length_slice (by omega), List.length_drop]
  omega

/-- `compact()`. -/
def compact : ByteBuffer :=
  { b with
    array := b.remaining ++ b.array.drop (b.limit - b.position)
    position := b.limit - b.position
    limit := b.capacity
    position_le := (Nat.sub_le _ _).trans b.limit_le
    limit_le := b.length_compacted.ge
    capacity_lt := b.length_compacted ▸ b.capacity_lt }

variable {b} {n : ℕ}

/-! ### Where nothing is thrown -/

theorem setPosition_eq (h : n ≤ b.limit) :
    b.setPosition n = some { b with position := n, position_le := h } := dif_pos h

theorem setLimit_eq (h : n ≤ b.capacity) :
    b.setLimit n = some { b with
      position := min b.position n
      limit := n
      position_le := Nat.min_le_right _ _
      limit_le := h } := dif_pos h

theorem get_eq (h : b.position + n ≤ b.limit) :
    b.get n = some (slice b.position n b.array,
      { b with position := b.position + n, position_le := h }) := dif_pos h

/-- What was written lies behind what was there, and before the new position. -/
theorem put_eq {bytes : List UInt8} (h : b.position + bytes.length ≤ b.limit) :
    ∃ c, b.put bytes = some c ∧ c.array = overwrite b.position bytes b.array ∧
      c.position = b.position + bytes.length ∧ c.limit = b.limit ∧ c.capacity = b.capacity ∧
      c.isDirect = b.isDirect := by
  refine ⟨_, dif_pos h, rfl, rfl, rfl, ?_, rfl⟩
  exact length_overwrite (h.trans b.limit_le)

theorem allocateDirect_eq {capacity : ℕ} (h : capacity < intBound) :
    allocateDirect capacity = some (zeros capacity h) := dif_pos ⟨Int.natCast_nonneg _, h⟩

theorem clear_zeros (h : n < intBound) : (zeros n h).clear = zeros n h := by
  simp only [clear, zeros, capacity, List.length_replicate]

/-- `compact` moves the bytes from the position on to the front. -/
theorem slice_compact (h : b.position + n ≤ b.limit) :
    slice 0 n b.compact.array = slice b.position n b.array := by
  have hlen : (b.remaining).length = b.limit - b.position :=
    length_slice (by have := b.position_le; have := b.limit_le; omega)
  rw [slice, List.drop_zero]
  show (b.remaining ++ b.array.drop (b.limit - b.position)).take n = _
  rw [List.take_append_of_le_length (by omega), remaining, take_slice (by omega)]

end ByteBuffer

end Nio
