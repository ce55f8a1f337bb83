import SocketPro.Foundation.Effect
import SocketPro.Foundation.Trace
import SocketPro.Foundation.Unicode
import SocketPro.Java.ByteBuffer

/-!
# The memory of the Java `CUQueue`

`CUQueue.java` with its `ByteBuffer`: the content is the `m_len` bytes of the buffer from
`m_position` on. The buffer has a position and a limit of its own. While `m_bReading`, it is read at
its position up to its limit; otherwise the next bytes are written at its position.

Every `Save` and `Push` of bytes comes down to `Append`, every `Load` of a number to `Load`. A
`Save` of a text is the `Save` of its length with an `Encode`; a `Save` of another queue is the
`Save` of its size with a `Push`.
-/

namespace SocketPro.Java

open Block Bytes Machine Nio Unicode

/-- The members of `CUQueue`. -/
structure CUQueue where
  m_blockSize : ℕ
  m_bytes : ByteBuffer
  m_len : ℕ
  m_bReading : Bool
  m_position : ℕ
deriving DecidableEq

def DEFAULT_BUFFER_SIZE : ℕ := 4 * 1024

def DEFAULT_BLOCK_SIZE : ℕ := 4 * 1024

/-- What the methods throw; the exceptions of a `ByteBuffer` have no message of the queue's. -/
inductive Exception
  | runtime (message : String)
  | illegalArgument (message : Option String)
  | bufferUnderflow
  | bufferOverflow
  | indexOutOfBounds
  | negativeArraySize
deriving DecidableEq, Repr

/-- A method of `CUQueue`. -/
abbrev Method (α : Type) := Effect Exception CUQueue α

/-- A sum or a product of `int`s. -/
def toInt (n : ℤ) : ℤ := n.bmod (2 ^ 32)

namespace CUQueue

/-- The `m_len` bytes from `m_position` on. -/
def content (q : CUQueue) : List UInt8 := slice q.m_position q.m_len q.m_bytes.array

/-! ### Constructors -/

/-- A size, or what stands for it when it is not positive. -/
def orDefault (size : Int32) (default : ℕ) : ℕ := if size.toInt ≤ 0 then default else size.toInt.toNat

theorem orDefault_lt {size : Int32} {default : ℕ} (h : default < intBound) :
    orDefault size default < intBound := by
  have hsize := size.toInt_lt
  rw [orDefault]
  split
  · exact h
  · show size.toInt.toNat < 2 ^ 31
    omega

/-- `CUQueue(maxSize, blockSize)`. -/
def ofSizes (maxSize blockSize : Int32) : CUQueue where
  m_blockSize := orDefault blockSize DEFAULT_BLOCK_SIZE
  m_bytes := .zeros (orDefault maxSize DEFAULT_BUFFER_SIZE) (orDefault_lt (by decide))
  m_len := 0
  m_bReading := false
  m_position := 0

/-- `CUQueue(maxSize)`, with the block size that stands for zero. -/
def ofSize (maxSize : Int32) : CUQueue := ofSizes maxSize 0

/-- `CUQueue()`. -/
def new : CUQueue := ofSize 0

/-- The number of the bytes that are content. -/
def usedLength (bytes : Bytes) (len : Int32) : ℕ :=
  if 0 < len.toInt ∧ len.toInt < bytes.1.length then len.toInt.toNat else bytes.1.length

/-- `CUQueue(bytes, len)`. -/
def ofBytesLen (bytes : Option Bytes) (len : Int32) : CUQueue :=
  match bytes with
  | none => new
  | some bytes => { new with m_bytes := .wrap bytes, m_len := usedLength bytes len }

/-- `CUQueue(bytes)`. -/
def ofBytes (bytes : Option Bytes) : CUQueue :=
  match bytes with
  | none => new
  | some bytes => { new with m_bytes := .wrap bytes, m_len := bytes.1.length }

/-! ### The buffer -/

/-- An assignment to the members. -/
def assign (f : CUQueue → CUQueue) : Method Unit := fun q ↦ .ok () (f q)

/-- A method of the buffer, with what it throws. -/
def onBuffer (f : ByteBuffer → Option ByteBuffer) (e : Exception) : Method Unit := fun q ↦
  match f q.m_bytes with
  | some b => .ok () { q with m_bytes := b }
  | none => .throw e q

/-- `m_bytes.position(n)`. -/
def position (n : ℕ) : Method Unit := onBuffer (·.setPosition n) (.illegalArgument none)

/-- `m_bytes.limit(n)`. -/
def limit (n : ℕ) : Method Unit := onBuffer (·.setLimit n) (.illegalArgument none)

/-- `m_bytes.put(bytes)`. -/
def put (bytes : List UInt8) : Method Unit := onBuffer (·.put bytes) .bufferOverflow

/-- `m_bytes.get(..)` of `n` bytes. -/
def get (n : ℕ) : Method (List UInt8) := fun q ↦
  match q.m_bytes.get n with
  | some (data, b) => .ok data { q with m_bytes := b }
  | none => .throw .bufferUnderflow q

/-- `position(m_position)`, then `limit(m_position + m_len)`. -/
def window : Method Unit := do
  fun q ↦ position q.m_position q
  fun q ↦ limit (q.m_position + q.m_len) q

/-! ### Sizes -/

/-- `SetSize(size)`. -/
def SetSize (size : ℤ) : Method Unit := fun q ↦
  if size < 0 then
    .throw (.illegalArgument (some "New size can not be less than 0")) q
  else if (q.m_bytes.capacity : ℤ) - q.m_position < size then
    .throw (.illegalArgument (some "Bad new size")) q
  else if size = 0 then
    .ok () { q with m_len := 0, m_position := 0, m_bytes := q.m_bytes.clear }
  else
    (do
      assign fun q ↦ { q with m_len := size.toNat }
      window : Method Unit) q

/-- `Empty()`. -/
def Empty : Method Unit :=
  assign fun q ↦ { q with m_len := 0, m_bytes := q.m_bytes.clear, m_position := 0 }

/-- `Discard(len)`. Where a negative `len` makes the position negative, the model stops. -/
def Discard (len : ℤ) : Method ℤ := fun q ↦
  let len := min len q.m_len
  if (q.m_len : ℤ) - len = 0 then
    .ok len { q with m_len := 0, m_position := 0, m_bytes := q.m_bytes.clear }
  else if q.m_position + len < 0 then .fault
  else
    (do
      assign fun q ↦
        { q with m_len := (q.m_len - len).toNat, m_position := (q.m_position + len).toNat }
      fun q ↦ position q.m_position q
      pure len : Method ℤ) q

/-- The size that `Realloc(newMaxSize)` computes, were `int` unbounded. -/
def roundedSize (q : CUQueue) (newMaxSize : ℤ) : ℤ :=
  let newMaxSize : ℤ := if newMaxSize ≤ 0 then DEFAULT_BUFFER_SIZE else newMaxSize
  (newMaxSize / q.m_blockSize + 1) * q.m_blockSize

/-- The content is put into the new buffer of `Realloc`. -/
def copyTo (bytes : ByteBuffer) : Method ByteBuffer := fun q ↦
  if q.m_len = 0 then .ok bytes q
  else
    (do
      assign fun q ↦ { q with m_len := min q.m_len bytes.capacity }
      window
      fun q ↦
        match bytes.put q.m_bytes.remaining with
        | some bytes => .ok bytes q
        | none => .throw .bufferOverflow q : Method ByteBuffer) q

/-- `Realloc(newMaxSize)`. -/
def Realloc (newMaxSize : ℤ) : Method Unit := fun q ↦
  match ByteBuffer.allocateDirect (toInt (q.roundedSize newMaxSize)) with
  | none => .throw (.illegalArgument none) q
  | some bytes =>
    (do
      let bytes ← copyTo bytes
      assign fun q ↦ { q with m_bytes := bytes, m_position := 0 }
      -- while reading, the position stays where the copy has left it
      fun q ↦ if q.m_bReading then .ok () q else position q.m_len q : Method Unit) q

/-- `getTailSize()`. -/
def getTailSize (q : CUQueue) : ℤ := q.m_bytes.capacity - q.m_position - q.m_len

/-- The first part of `Ensure`: the end of the content is where the next bytes are written. -/
def stopReading : Method Unit := fun q ↦
  if q.m_bReading then
    (do
      position (q.m_position + q.m_len)
      limit q.m_bytes.capacity
      assign fun q ↦ { q with m_bReading := false } : Method Unit) q
  else .ok () q

/-- The second part: the content is moved to the front, or to a larger buffer. -/
def makeRoom (addedBytes : ℕ) : Method Unit := fun q ↦
  if q.getTailSize ≤ addedBytes then
    if (addedBytes : ℤ) < q.m_bytes.capacity - q.m_len then
      (do
        position q.m_position
        assign fun q ↦ { q with m_bytes := q.m_bytes.compact, m_position := 0 }
        position q.m_len : Method Unit) q
    else Realloc (toInt (q.m_bytes.capacity + addedBytes)) q
  else .ok () q

/-- `Ensure(addedBytes)`. -/
def Ensure (addedBytes : ℕ) : Method Unit := do
  stopReading
  makeRoom addedBytes

/-! ### Writing -/

/-- The writing of some bytes: what every `Save` and `Push` does. -/
def Append (data : List UInt8) : Method Unit := do
  Ensure data.length
  put data
  assign fun q ↦ { q with m_len := q.m_len + data.length }

/-- `Push(bytes, offset, len)`. -/
def PushBytes (bytes : Option Bytes) (offset len : ℤ) : Method Unit := fun q ↦
  let offset := max offset 0
  match bytes with
  | none => .ok () q
  | some bytes =>
    if len ≤ 0 then .ok () q
    else if bytes.1.length < toInt (offset + len) then
      .throw (.illegalArgument (some "Bad offset or length")) q
    else
      (do
        Ensure len.toNat
        fun q ↦
          if offset + len ≤ bytes.1.length then
            put (slice offset.toNat len.toNat bytes.1) q
          else .throw .indexOutOfBounds q
        assign fun q ↦ { q with m_len := q.m_len + len.toNat } : Method Unit) q

/-- The units that the encoder of `UTF-16LE` writes where there is room for `n`: it stops at a
surrogate that is not half of a pair. -/
def encodeUnits : ℕ → List UInt16 → List UInt16
  | _, [] => []
  | n, [u] => if IsSurrogate u ∨ n < 1 then [] else [u]
  | n, u :: v :: us =>
    if IsHigh u ∧ IsLow v then
      if n < 2 then [] else u :: v :: encodeUnits (n - 2) us
    else if IsSurrogate u ∨ n < 1 then []
    else u :: encodeUnits (n - 1) (v :: us)

/-- `Save(s)` of a text that is not empty, behind the `Save` of its length. -/
def Encode (s : List UInt16) : Method Unit := do
  Ensure (2 * s.length)
  fun q ↦ put (utf16Bytes (encodeUnits ((q.m_bytes.limit - q.m_bytes.position) / 2) s)) q
  assign fun q ↦ { q with m_len := q.m_len + 2 * s.length }

/-! ### Reading -/

/-- The first part of `SetForReading`: the buffer becomes the content. -/
def startReading : Method Unit := fun q ↦
  if q.m_bReading then .ok () q
  else
    (do
      window
      assign fun q ↦ { q with m_bReading := true } : Method Unit) q

/-- `SetForReading(bytes)`. -/
def SetForReading (bytes : ℕ) : Method Unit := do
  startReading
  fun q ↦ if q.m_len < bytes then .throw (.runtime "Invalid data found") q else .ok () q

/-- `AdjustPosition(bytes)`, which is called with no more than `m_len`. -/
def AdjustPosition (bytes : ℕ) : Method Unit := fun q ↦
  if q.m_len - bytes = 0 then
    .ok () { q with m_len := 0, m_position := 0, m_bytes := q.m_bytes.clear }
  else .ok () { q with m_len := q.m_len - bytes, m_position := q.m_position + bytes }

/-- The bytes that are read from the front. -/
def take (n : ℕ) : Method (List UInt8) := do
  let bytes ← get n
  AdjustPosition n
  pure bytes

/-- The reading of `n` bytes: what every `Load` of a number does. -/
def Load (n : ℕ) : Method (List UInt8) := do
  SetForReading n
  take n

/-- `LoadBytes()` behind the `LoadInt` of the size. -/
def takeBytes (size : ℤ) : Method (Option (List UInt8)) := fun q ↦
  if size = -1 then .ok none q
  else if q.m_len < size then .throw (.runtime "Invalid data found") q
  else if size < 0 then .throw .negativeArraySize q
  else (do return some (← take size.toNat) : Method (Option (List UInt8))) q

/-- `LoadBytes()`. -/
def LoadBytes : Method (Option (List UInt8)) := do
  let n ← Load 4
  takeBytes (toInt (ofLE n))

/-- `PopBytes(size)`. -/
def PopBytes (size : ℤ) : Method (Option (List UInt8)) := fun q ↦
  if size < 0 then .ok none q
  else if size = 0 then .ok (some []) q
  else (do return some (← Load (min size.toNat q.m_len)) : Method (Option (List UInt8))) q

/-- `PopBytes(bytes, size)` with an array of a length: the bytes that are copied to it. -/
def PopBytesTo (length : Option ℕ) (size : ℤ) : Method (List UInt8) := fun q ↦
  match length with
  | none => .ok [] q
  | some length =>
    if size ≤ 0 then .ok [] q else Load (min (min size.toNat length) q.m_len) q

/-- `GetBuffer` behind `SetForReading`. -/
def peek (offset len : ℕ) : Method (List UInt8) := fun q ↦
  if offset ≠ 0 ∨ q.m_bytes.isDirect then
    if 0 < len then
      (do
        let bytes ← get len
        fun q ↦ position q.m_position q
        pure bytes : Method (List UInt8)) q
    else .ok [] q
  else .ok q.m_bytes.backing q

/-- `GetBuffer(offset)`. -/
def GetBuffer (offset : ℤ) : Method (List UInt8) := fun q ↦
  let offset := min offset.toNat q.m_len
  (do
    SetForReading 0
    peek offset (q.m_len - offset) : Method (List UInt8)) q

/-- `getIntenalBuffer()`: the bytes between the position and the limit. -/
def getIntenalBuffer : Method (List UInt8) := do
  SetForReading 0
  fun q ↦ .ok q.m_bytes.remaining q

/-! ### Other buffers -/

/-- `new byte[4]`. -/
def fourBytes : Bytes := ⟨[0, 0, 0, 0], by decide⟩

/-- `UseBuffer(bytes, len)`. -/
def UseBytesLen (bytes : Option Bytes) (len : Int32) : Method Unit := assign fun q ↦
  match bytes with
  | none => { q with m_bytes := .wrap fourBytes, m_len := 0, m_position := 0 }
  | some bytes =>
    { q with m_bytes := .wrap bytes, m_len := usedLength bytes len, m_position := 0 }

/-- `UseBuffer(bytes)`. -/
def UseBytes (bytes : Option Bytes) : Method Unit := assign fun q ↦
  match bytes with
  | none => { q with m_bytes := .wrap fourBytes, m_len := 0, m_position := 0 }
  | some bytes => { q with m_bytes := .wrap bytes, m_len := bytes.1.length, m_position := 0 }

/-- `UseBuffer(bytes, len)` of a `ByteBuffer`. -/
def UseBuffer (bytes : Option ByteBuffer) (len : ℤ) : Method Unit :=
  match bytes with
  | none => assign fun q ↦ { q with m_position := 0, m_bytes := .wrap fourBytes, m_len := 0 }
  | some bytes => do
    assign fun q ↦ { q with m_position := 0, m_bytes := bytes }
    position 0
    fun q ↦ if len < 0 then .throw (.illegalArgument none) q else limit len.toNat q
    assign fun q ↦ { q with m_len := len.toNat }

end CUQueue

/-! ### Operations -/

/-- The public constructors. -/
inductive Constructor
  | default
  | size (maxSize : Int32)
  | sizes (maxSize blockSize : Int32)
  | bytes (bytes : Option Bytes)
  | bytesLen (bytes : Option Bytes) (len : Int32)

/-- What a constructor makes. -/
def Constructor.make : Constructor → CUQueue
  | .default => .new
  | .size maxSize => .ofSize maxSize
  | .sizes maxSize blockSize => .ofSizes maxSize blockSize
  | .bytes array => .ofBytes array
  | .bytesLen array len => .ofBytesLen array len

/-- The operations on one queue. -/
inductive Op
  | append (data : List UInt8)
  | pushBytes (bytes : Option Bytes) (offset len : Int32)
  | encode (s : List UInt16)
  | load (n : ℕ)
  | loadBytes
  | popBytes (size : Int32)
  | popBytesTo (length : Option ℕ) (size : Int32)
  | discard (len : Int32)
  | setSize (size : Int32)
  | realloc (newMaxSize : Int32)
  | getBuffer (offset : Int32)
  | getIntenalBuffer
  | empty
  | useBytes (bytes : Option Bytes)
  | useBytesLen (bytes : Option Bytes) (len : Int32)
  | useBuffer (bytes : Option ByteBuffer) (len : Int32)

/-- An operation on one of several queues, or `Push` of one of them to another. -/
inductive Action (ι : Type)
  | on (i : ι) (op : Op)
  | push (i q : ι)

/-- What an operation gives back. -/
inductive Result
  | done
  | count (n : ℤ)
  | bytes (data : Option (List UInt8))
  | thrown (e : Exception)
deriving DecidableEq, Repr

/-- A method with its result; nothing comes after a fault. -/
def Method.result {σ α : Type} (x : Effect Exception σ α) (f : α → Result) (s : σ) :
    Option (Result × σ) :=
  match x s with
  | .ok a s => some (f a, s)
  | .throw e s => some (.thrown e, s)
  | .fault => none

namespace CUQueue

/-- Perform an operation on a queue. -/
def perform (q : CUQueue) : Op → Option (Result × CUQueue)
  | .append data => Method.result (Append data) (fun _ ↦ .done) q
  | .pushBytes bytes offset len =>
    Method.result (PushBytes bytes offset.toInt len.toInt) (fun _ ↦ .done) q
  | .encode s => Method.result (Encode s) (fun _ ↦ .done) q
  | .load n => Method.result (Load n) (fun data ↦ .bytes (some data)) q
  | .loadBytes => Method.result LoadBytes .bytes q
  | .popBytes size => Method.result (PopBytes size.toInt) .bytes q
  | .popBytesTo length size =>
    Method.result (PopBytesTo length size.toInt) (fun data ↦ .bytes (some data)) q
  | .discard len => Method.result (Discard len.toInt) .count q
  | .setSize size => Method.result (SetSize size.toInt) (fun _ ↦ .done) q
  | .realloc newMaxSize => Method.result (Realloc newMaxSize.toInt) (fun _ ↦ .done) q
  | .getBuffer offset =>
    Method.result (GetBuffer offset.toInt) (fun data ↦ .bytes (some data)) q
  | .getIntenalBuffer => Method.result CUQueue.getIntenalBuffer (fun data ↦ .bytes (some data)) q
  | .empty => Method.result Empty (fun _ ↦ .done) q
  | .useBytes bytes => Method.result (UseBytes bytes) (fun _ ↦ .done) q
  | .useBytesLen bytes len => Method.result (UseBytesLen bytes len) (fun _ ↦ .done) q
  | .useBuffer bytes len => Method.result (UseBuffer bytes len.toInt) (fun _ ↦ .done) q

/-! ### `Push` of a queue -/

/-- A method of the queue that something is pushed to. -/
def onThis {α : Type} (x : Method α) : Effect Exception (CUQueue × CUQueue) α := fun s ↦
  match x s.1 with
  | .ok a q => .ok a (q, s.2)
  | .throw e q => .throw e (q, s.2)
  | .fault => .fault

/-- A method of the queue that is pushed. -/
def onOther {α : Type} (x : Method α) : Effect Exception (CUQueue × CUQueue) α := fun s ↦
  match x s.2 with
  | .ok a q => .ok a (s.1, q)
  | .throw e q => .throw e (s.1, q)
  | .fault => .fault

/-- `Push(q)` of another queue. -/
def Push : Effect Exception (CUQueue × CUQueue) Unit := fun s ↦
  let nSize := s.2.m_len
  if nSize = 0 then .ok () s
  else
    (do
      onOther (SetForReading 0)
      onOther fun q ↦ limit (q.m_position + nSize) q
      onThis (Ensure nSize)
      fun s ↦ onThis (put s.2.m_bytes.remaining) s
      onOther fun q ↦ position q.m_bytes.limit q
      onThis (assign fun q ↦ { q with m_len := q.m_len + nSize })
      onOther fun q ↦ position q.m_position q : Effect Exception (CUQueue × CUQueue) Unit) s

/-- `Push(q)` of the queue itself: a buffer cannot be put into itself. -/
def PushSelf : Method Unit := fun q ↦
  if q.m_len = 0 then .ok () q
  else
    (do
      SetForReading 0
      limit (q.m_position + q.m_len)
      Ensure q.m_len
      Effect.raise (.illegalArgument none) : Method Unit) q

end CUQueue

variable {ι : Type} [DecidableEq ι]

/-- Perform an action on a family of queues. -/
def step (s : ι → CUQueue) : Action ι → Option (Result × (ι → CUQueue))
  | .on i op => ((s i).perform op).map fun r ↦ (r.1, Function.update s i r.2)
  | .push i q =>
    if i = q then
      (Method.result CUQueue.PushSelf (fun _ ↦ .done) (s i)).map fun r ↦
        (r.1, Function.update s i r.2)
    else
      (Method.result CUQueue.Push (fun _ ↦ .done) (s i, s q)).map fun r ↦
        (r.1, Function.update (Function.update s i r.2.1) q r.2.2)

/-- Queues that have just been constructed. -/
def start (c : ι → Constructor) (i : ι) : CUQueue := (c i).make

end SocketPro.Java
