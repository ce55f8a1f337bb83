import SocketPro.Foundation.Block
import SocketPro.Foundation.Trace
import SocketPro.Buffer.CUQueue

/-!
# The memory of `CUQueue`

`CUQueue` of `membuffer.h` with the memory it allocates: the content is the `m_nSize` bytes from
`m_nHeadPos` on. The bytes before it are still there, and `SetHeadPosition(headPos)` takes them back
into the content, so the memory outside of the content matters as well.

A copy that leaves the allocated block makes the operation go wrong (`none`). Allocations succeed.
The arguments are 32-bit numbers; the additions that may leave 32 bits, the growth of the capacity
in `Insert` and the sum `Pop` into a buffer compares with the size, are taken modulo `2 ^ 32`.
-/

namespace SocketPro.Memory

open Block Machine

/-- The members of `CUQueue`. -/
structure CUQueue where
  m_pBuffer : List (Option UInt8)
  m_nMaxBuffer : ℕ
  m_nSize : ℕ
  m_nHeadPos : ℕ
  m_nBlockSize : ℕ
deriving DecidableEq, Repr

/-- `DEFAULT_MEMORY_BUFFER_BLOCK_SIZE`. -/
def DEFAULT_MEMORY_BUFFER_BLOCK_SIZE : ℕ := 4096

/-- `UQUEUE_END_POSTION`. -/
def UQUEUE_END_POSTION : ℕ := 0xffffffff

/-- What an operation gives back: nothing, a number of bytes, the bytes copied into the buffer of
the caller, or an exception. -/
inductive Result
  | done
  | count (n : ℕ)
  | bytes (buffer : List (Option UInt8))
  | thrown (e : Buffer.CUException)
deriving DecidableEq, Repr

namespace CUQueue

/-- The constructor. -/
def new (maxLen blockSize : UInt32) : CUQueue where
  m_pBuffer := alloc maxLen.toNat
  m_nMaxBuffer := maxLen.toNat
  m_nSize := 0
  m_nHeadPos := 0
  m_nBlockSize := if blockSize = 0 then DEFAULT_MEMORY_BUFFER_BLOCK_SIZE else blockSize.toNat

/-- The `GetSize()` bytes from `GetBuffer()` on. -/
def content (q : CUQueue) : List (Option UInt8) := slice q.m_nHeadPos q.m_nSize q.m_pBuffer

/-- `SetHeadPosition()`: the content moves to the beginning of the block. -/
def setHeadPosition (q : CUQueue) : Option CUQueue :=
  if q.m_nHeadPos = 0 then some q
  else do
    let m ← copyAny q.m_pBuffer q.m_pBuffer 0 q.m_nHeadPos q.m_nSize
    some { q with m_pBuffer := m, m_nHeadPos := 0 }

/-- `SetHeadPosition(headPos)`. -/
def setHeadPositionTo (q : CUQueue) (headPos : ℕ) : CUQueue :=
  if q.m_nHeadPos ≤ headPos then q
  else { q with m_nSize := q.m_nSize + (q.m_nHeadPos - headPos), m_nHeadPos := headPos }

/-- The end of `Insert`, where the content starts at the beginning of the block. -/
def insertShift (q : CUQueue) (buffer : List (Option UInt8)) (position : ℕ) : Option CUQueue :=
  let len := buffer.length
  if len ≤ q.m_nMaxBuffer - q.m_nSize then do
    let m ← memmove q.m_pBuffer (position + len) position (q.m_nSize - position)
    let m ← write m position buffer
    some { q with m_pBuffer := m, m_nSize := q.m_nSize + len }
  else do
    let max := Buffer.grow q.m_nBlockSize q.m_nMaxBuffer q.m_nSize len
    let temp ← copyAny q.m_pBuffer (alloc max) 0 0 position
    let temp ← write temp position buffer
    let temp ← copyAny q.m_pBuffer temp (position + len) position (q.m_nSize - position)
    some { q with m_pBuffer := temp, m_nMaxBuffer := max, m_nSize := q.m_nSize + len }

/-- `Insert(buffer, len, position)`; a null pointer is an empty buffer. -/
def insert (q : CUQueue) (buffer : List UInt8) (position : ℕ) : Option CUQueue :=
  let cells := buffer.map some
  let len := buffer.length
  if len = 0 then some q
  else if position = 0 ∧ len ≤ q.m_nHeadPos then do
    let m ← write q.m_pBuffer (q.m_nHeadPos - len) cells
    some { q with m_pBuffer := m, m_nHeadPos := q.m_nHeadPos - len, m_nSize := q.m_nSize + len }
  else if len ≤ q.m_nMaxBuffer - q.m_nHeadPos - q.m_nSize ∧ q.m_nSize ≤ position then do
    let m ← write q.m_pBuffer (q.m_nHeadPos + q.m_nSize) cells
    some { q with m_pBuffer := m, m_nSize := q.m_nSize + len }
  else do
    let q ← q.setHeadPosition
    q.insertShift cells (min position q.m_nSize)

/-- `Push(buffer, len)`. -/
def push (q : CUQueue) (buffer : List UInt8) : Option CUQueue := q.insert buffer UQUEUE_END_POSTION

/-- The end of both `Pop`s: `len` bytes of the content from `position` on go. -/
def discard (q : CUQueue) (len position : ℕ) : Option CUQueue :=
  let left := q.m_nSize - len
  if left = 0 then some { q with m_nSize := left, m_nHeadPos := 0 }
  else if position = 0 then some { q with m_nSize := left, m_nHeadPos := q.m_nHeadPos + len }
  else do
    let m ← memmove q.m_pBuffer (q.m_nHeadPos + position) (q.m_nHeadPos + position + len)
      (left - position)
    some { q with m_pBuffer := m, m_nSize := left }

/-- `Pop(len, position)`. -/
def pop (q : CUQueue) (len position : ℕ) : Option (ℕ × CUQueue) :=
  if len = 0 ∨ q.m_nSize ≤ position then some (0, q)
  else do
    let len := min len (q.m_nSize - position)
    some (len, ← q.discard len position)

/-- `Pop(buffer, len, position)`. -/
def popInto (q : CUQueue) (len position : ℕ) : Option (Result × CUQueue) :=
  if q.m_nSize < (len + position) % 2 ^ 32 then some (.thrown .remainingData, q)
  else do
    let buffer ← read q.m_pBuffer (q.m_nHeadPos + position) len
    some (.bytes buffer, ← q.discard len position)

/-- `Replace(pos, len, buffer, size)`. -/
def replace (q : CUQueue) (pos len : ℕ) (buffer : List UInt8) : Option CUQueue := do
  let size := buffer.length
  let m ← write q.m_pBuffer (q.m_nHeadPos + pos) ((buffer.take len).map some)
  let q := { q with m_pBuffer := m }
  if size < len then
    let (_, q) ← q.pop (len - size) (pos + size)
    some q
  else if len = size then some q
  else q.insert (buffer.drop len) (pos + len)

/-- `SetSize(size, adjustHeadPos)`. -/
def setSize (q : CUQueue) (size : ℕ) (adjustHeadPos : Bool) : Option CUQueue :=
  if adjustHeadPos = true ∧ q.m_nHeadPos ≠ 0 then do
    let m ← copyAny q.m_pBuffer q.m_pBuffer 0 q.m_nHeadPos size
    some { q with m_pBuffer := m, m_nSize := size, m_nHeadPos := 0 }
  else some { q with m_nSize := size, m_nHeadPos := if size = 0 then 0 else q.m_nHeadPos }

/-- `ReallocBuffer(size)`. -/
def reallocBuffer (q : CUQueue) (size : ℕ) : Option CUQueue := do
  let size := if size = 0 then q.m_nBlockSize else size
  let kept := min q.m_nSize size
  let m ← copyAny q.m_pBuffer (alloc size) 0 q.m_nHeadPos kept
  some { q with m_pBuffer := m, m_nMaxBuffer := size, m_nSize := kept, m_nHeadPos := 0 }

/-- `sizeof(wchar_t)`. -/
def wchar (windows : Bool) : ℕ := if windows then 2 else 4

/-- `SetNull()`. -/
def setNull (windows : Bool) (q : CUQueue) : Option CUQueue :=
  let pos := q.m_nHeadPos + q.m_nSize
  let zeros := List.replicate (wchar windows) (0 : UInt8)
  if pos + wchar windows ≤ q.m_nMaxBuffer then do
    let m ← write q.m_pBuffer pos (zeros.map some)
    some { q with m_pBuffer := m }
  else do
    let q ← q.push zeros
    some { q with m_nSize := q.m_nSize - wchar windows }

end CUQueue

/-! ### Operations -/

/-- The operations on one buffer, with 32-bit arguments. -/
inductive Op
  | push (buffer : List UInt8)
  | insert (buffer : List UInt8) (position : UInt32)
  | pop (len position : UInt32)
  | popInto (len position : UInt32)
  | replace (pos len : UInt32) (buffer : List UInt8)
  | setHeadPosition
  | setHeadPositionTo (headPos : UInt32)
  | setSize (size : UInt32) (adjustHeadPos : Bool)
  | reallocBuffer (size : UInt32)
  | setNull

/-- An operation on one of several buffers, or a `Swap` of two of them. -/
inductive Action (ι : Type)
  | on (i : ι) (op : Op)
  | swap (i j : ι)

/-- Perform an operation on a buffer. -/
def CUQueue.perform (windows : Bool) (q : CUQueue) : Op → Option (Result × CUQueue)
  | .push buffer => (q.push buffer).map (.done, ·)
  | .insert buffer position => (q.insert buffer position.toNat).map (.done, ·)
  | .pop len position => (q.pop len.toNat position.toNat).map fun r ↦ (.count r.1, r.2)
  | .popInto len position => q.popInto len.toNat position.toNat
  | .replace pos len buffer => (q.replace pos.toNat len.toNat buffer).map (.done, ·)
  | .setHeadPosition => q.setHeadPosition.map (.done, ·)
  | .setHeadPositionTo headPos => some (.done, q.setHeadPositionTo headPos.toNat)
  | .setSize size adjustHeadPos => (q.setSize size.toNat adjustHeadPos).map (.done, ·)
  | .reallocBuffer size => (q.reallocBuffer size.toNat).map (.done, ·)
  | .setNull => (q.setNull windows).map (.done, ·)

variable {ι : Type} [DecidableEq ι]

/-- Perform an action on a family of buffers. -/
def step (windows : Bool) (s : ι → CUQueue) : Action ι → Option (Result × (ι → CUQueue))
  | .on i op => ((s i).perform windows op).map fun r ↦ (r.1, Function.update s i r.2)
  | .swap i j => some (.done, Function.update (Function.update s i (s j)) j (s i))

end SocketPro.Memory
