import SocketPro.Foundation.Block
import SocketPro.Foundation.Bytes
import SocketPro.Foundation.Effect
import SocketPro.Foundation.Trace

/-!
# The memory of the C# `CUQueue`

`CUQueue` of `uqueue.cs` with its array: the content is the `m_len` bytes of `m_bytes` from
`m_position` on. The numbers are `uint`, and their sums and differences are taken modulo `2 ^ 32`.

A method returns, throws, or is at fault where `CopyMemory` leaves the array. Every `Save` and
`Push` comes down to `Append`, and every `Load` to `CopyTo`, a `Pop` or `Discard`.
-/

namespace SocketPro.CSharp

open Block Bytes Machine

/-- The members of `CUQueue`. -/
structure CUQueue where
  m_bytes : List UInt8
  m_position : ℕ
  m_len : ℕ
  m_blockSize : ℕ
deriving DecidableEq, Repr

/-- `DEFAULT_BUFFER_SIZE`. -/
def DEFAULT_BUFFER_SIZE : ℕ := 4 * 1024

/-- The largest length an array of bytes can have. -/
def maxLength : ℕ := 0x7fffffc7

/-- What the methods throw. -/
inductive Exception
  | invalidOperation (message : String)
  | argument
  | outOfMemory
  | divideByZero
deriving DecidableEq, Repr

/-- A method of `CUQueue`. -/
abbrev Method (α : Type) := Effect Exception CUQueue α

/-- `new byte[n]`. -/
def newArray (n : ℕ) : Method (List UInt8) := fun q ↦
  if maxLength < n then .throw .outOfMemory q else .ok (List.replicate n 0) q

namespace CUQueue

/-- The constructor with an initial size and a block size. -/
def new (InitialSize BlockSize : UInt32) : CUQueue where
  m_bytes := List.replicate InitialSize.toNat 0
  m_position := 0
  m_len := 0
  m_blockSize := BlockSize.toNat

/-- The `GetSize()` bytes from `HeadPosition` on. -/
def content (q : CUQueue) : List UInt8 := slice q.m_position q.m_len q.m_bytes

/-- `MaxBufferSize`. -/
def MaxBufferSize (q : CUQueue) : ℕ := q.m_bytes.length

/-- `TailSize`. -/
def TailSize (q : CUQueue) : ℕ := sub32 (sub32 q.m_bytes.length q.m_position) q.m_len

/-- `Empty()`. -/
def Empty : Method Unit := fun q ↦ .ok () { q with m_bytes := [], m_position := 0, m_len := 0 }

/-- `Realloc(newMaxSize)`. -/
def Realloc (newMaxSize : ℕ) : Method Unit := do
  let newMaxSize := if newMaxSize = 0 then DEFAULT_BUFFER_SIZE else newMaxSize
  let buffer ← newArray newMaxSize
  fun q ↦
    let m_len := if newMaxSize < q.m_len then newMaxSize else q.m_len
    -- `Buffer.BlockCopy` throws where it would leave an array
    match copyAny q.m_bytes buffer 0 q.m_position m_len with
    | some m_bytes => .ok () { q with m_bytes := m_bytes, m_position := 0, m_len := m_len }
    | none => .throw .argument { q with m_len := m_len }

/-- By how much `Append` makes the array larger for `len` more bytes. -/
def addedSize (q : CUQueue) (len : ℕ) : ℕ :=
  (sub32 len q.TailSize / q.m_blockSize + 1) % 2 ^ 32 * q.m_blockSize % 2 ^ 32

/-- `CopyMemory(des + remaining, pData, len)`. -/
def copyMemory (remaining : ℕ) (pData : List UInt8) : Method Unit := fun q ↦
  match write q.m_bytes remaining pData with
  | some m_bytes => .ok () { q with m_bytes := m_bytes }
  | none => .fault

/-- Whether `Append` needs a larger array for `len` more bytes. -/
def Grows (q : CUQueue) (len : ℕ) : Prop :=
  sub32 q.m_bytes.length ((q.m_position + q.m_len) % 2 ^ 32) < len

instance (q : CUQueue) (len : ℕ) : Decidable (q.Grows len) := Nat.decLt _ _

/-- The larger array. -/
def makeRoom (len : ℕ) : Method Unit := fun q ↦
  if q.Grows len then
    if q.m_blockSize = 0 then .throw .divideByZero q
    else Realloc ((q.MaxBufferSize + q.addedSize len) % 2 ^ 32) q
  else .ok () q

/-- `Append(pData, len)`. -/
def Append (pData : List UInt8) : Method Unit := fun q ↦
  -- the position is computed before the content is moved
  let remaining := (q.m_position + q.m_len) % 2 ^ 32
  (do
    makeRoom pData.length
    copyMemory remaining pData
    fun q ↦ .ok () { q with m_len := (q.m_len + pData.length) % 2 ^ 32 } : Method Unit) q

/-- The front of the content goes: what every reading method does in the end. -/
def drop (q : CUQueue) (len : ℕ) : CUQueue :=
  { q with m_len := q.m_len - len,
           m_position := if q.m_len - len = 0 then 0 else q.m_position + len }

/-- `CopyTo(data, len)`: the bytes that are copied. -/
def CopyTo (len : ℕ) : Method (List UInt8) := fun q ↦
  if q.m_len < len then
    .throw (.invalidOperation "Invalid data found") { q with m_bytes := [], m_position := 0, m_len := 0 }
  else
    match read q.m_bytes q.m_position len with
    | some data => .ok data (q.drop len)
    | none => .fault

/-- The `Pop`s of arrays. -/
def Pop (nLen : ℕ) : Method (List UInt8) := fun q ↦
  let nLen := min nLen q.m_len
  if q.m_len = 0 then .ok [] q
  else
    match read q.m_bytes q.m_position nLen with
    | some Bytes => .ok Bytes (q.drop nLen)
    | none => .throw .argument q

/-- `Pop(out strData, nBytes)`: the bytes that are decoded. -/
def PopString (nBytes : ℕ) : Method (List UInt8) := fun q ↦
  if 0 < nBytes % 2 then .throw .argument q
  else
    let nBytes := min nBytes q.m_len
    match read q.m_bytes q.m_position nBytes with
    | some bytes => .ok bytes (q.drop nBytes)
    | none => .throw .argument q

/-- `Discard(len)`. -/
def Discard (len : ℕ) : Method ℕ := fun q ↦ .ok (min len q.m_len) (q.drop (min len q.m_len))

/-- `SetSize(size)`. -/
def SetSize (size : ℕ) : Method Unit := fun q ↦
  if size = 0 then .ok () { q with m_position := 0, m_len := 0 }
  else if sub32 q.m_bytes.length q.m_position < size then
    .throw (.invalidOperation "Bad new size") q
  else .ok () { q with m_len := size }

end CUQueue

/-! ### Operations -/

/-- The operations on one queue, with 32-bit arguments. -/
inductive Op
  | append (pData : List UInt8)
  | copyTo (len : UInt32)
  | pop (nLen : UInt32)
  | popString (nBytes : UInt32)
  | discard (len : UInt32)
  | setSize (size : UInt32)
  | realloc (newMaxSize : UInt32)
  | empty

/-- An operation on one of several queues, or a `Swap` of two of them. -/
inductive Action (ι : Type)
  | on (i : ι) (op : Op)
  | swap (i j : ι)

/-- What an operation gives back. -/
inductive Result
  | done
  | count (n : ℕ)
  | bytes (data : List UInt8)
  | thrown (e : Exception)
deriving DecidableEq, Repr

/-- A method with its result; nothing comes after a fault. -/
def Method.result {α : Type} (x : Method α) (f : α → Result) (q : CUQueue) :
    Option (Result × CUQueue) :=
  match x q with
  | .ok a q => some (f a, q)
  | .throw e q => some (.thrown e, q)
  | .fault => none

/-- Perform an operation on a queue. -/
def CUQueue.perform (q : CUQueue) : Op → Option (Result × CUQueue)
  | .append pData => Method.result (Append pData) (fun _ ↦ .done) q
  | .copyTo len => Method.result (CopyTo len.toNat) .bytes q
  | .pop nLen => Method.result (Pop nLen.toNat) .bytes q
  | .popString nBytes => Method.result (PopString nBytes.toNat) .bytes q
  | .discard len => Method.result (Discard len.toNat) .count q
  | .setSize size => Method.result (SetSize size.toNat) (fun _ ↦ .done) q
  | .realloc newMaxSize => Method.result (Realloc newMaxSize.toNat) (fun _ ↦ .done) q
  | .empty => Method.result Empty (fun _ ↦ .done) q

variable {ι : Type} [DecidableEq ι]

/-- Perform an action on a family of queues. -/
def step (s : ι → CUQueue) : Action ι → Option (Result × (ι → CUQueue))
  | .on i op => ((s i).perform op).map fun r ↦ (r.1, Function.update s i r.2)
  | .swap i j => some (.done, Function.update (Function.update s i (s j)) j (s i))

/-- Queues that have just been constructed. -/
def start (InitialSize BlockSize : ι → UInt32) (i : ι) : CUQueue :=
  .new (InitialSize i) (BlockSize i)

end SocketPro.CSharp
