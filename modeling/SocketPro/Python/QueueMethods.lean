import SocketPro.Foundation.Script
import SocketPro.Foundation.Rounding
import SocketPro.Foundation.Trace
import SocketPro.Python.CUQueue

/-!
# The methods of the Python `CUQueue`

Every method of `memqueue.py` that writes or reads does so with one of three pieces of code: it
packs a value behind the content, it puts bytes there with a slice assignment, or it takes bytes
from the front. These are the commands of the interface `Command`; the methods are programs over it,
and so is code that uses a queue through its methods, as `SaveObject`, `LoadObject` and a `SaveTo`
do.

The room that `_ensure_` adds is computed with floats, `addedSize` here, for blocks of any size.
-/

namespace SocketPro.Python.ByteQueue

open Block Bytes Machine Rounding Unicode

/-- What the methods raise, and what code that calls them does. -/
inductive Error
  | ValueError (message : String)
  | StructError
  | OverflowError
  | UnicodeError
  | NameError
  | DecimalError
  | NotImplementedError
  | AttributeError
  | TypeError
deriving DecidableEq, Repr

/-- What is raised; `pack_into` needs room for its bytes. -/
inductive Raised
  | noRoom
  | error (e : Error)
deriving DecidableEq, Repr

/-- The bytes of a value in a format of some size. -/
abbrev Packed (size : ℕ) := { data : List UInt8 // data.length = size }

/-- What the methods are made of. -/
inductive Command
  | pack (size : ℕ) (data : Except Error (Packed size))
  | push (bytes : List UInt8) (length : ℕ)
  | take (size : ℕ)
  | raise (e : Error)

/-- What a command returns. -/
abbrev Command.Result : Command → Type
  | .pack _ _ => Unit
  | .push _ _ => Unit
  | .take _ => List UInt8
  | .raise _ => Empty

/-- Code that uses a queue. -/
abbrev Method (α : Type) := Script Command Command.Result α

/-! ### The commands on a queue -/

/-- A result of double precision. -/
def float (q : ℚ) : ℚ := toBits 53 q

/-- `int(((len - ts) / self._m_blockSize_ + 1) * self._m_blockSize_)` -/
def addedSize (missing blockSize : ℕ) : ℕ :=
  ⌊float (float (float (missing / blockSize) + 1) * float blockSize)⌋₊

/-- **The room is enough**, however large the blocks are. -/
theorem le_addedSize {missing blockSize : ℕ} (hmissing : missing ≤ 2 ^ 50) (hblock : 0 < blockSize) :
    missing ≤ addedSize missing blockSize := by
  rcases Nat.eq_zero_or_pos missing with rfl | hpos
  · exact Nat.zero_le _
  have hm : (0 : ℚ) < missing := by exact_mod_cast hpos
  have hb : (1 : ℚ) ≤ blockSize := by exact_mod_cast hblock
  have hround {q : ℚ} (hq : 0 < q) : q * (1 - 1 / 2 ^ 53) ≤ float q := le_toBits hq
  -- what is left of a number after one rounding
  generalize hc : (1 - 1 / 2 ^ 53 : ℚ) = c at hround
  have hc0 : 0 < c := by rw [← hc]; norm_num
  have hc1 : c ≤ 1 := by rw [← hc]; norm_num
  have hquotient : 0 < (missing : ℚ) / blockSize := by positivity
  have hx : (missing : ℚ) / blockSize * c ≤ float (missing / blockSize) := hround hquotient
  have hx0 : 0 < float (missing / blockSize) := lt_of_lt_of_le (by positivity) hx
  have hy : ((missing : ℚ) / blockSize + 1) * c * c ≤ float (float (missing / blockSize) + 1) := by
    refine le_trans (mul_le_mul_of_nonneg_right ?_ hc0.le) (hround (by positivity))
    rw [add_mul, one_mul]
    exact add_le_add hx hc1
  have hsize : (blockSize : ℚ) * c ≤ float blockSize := hround (by positivity)
  have hproduct : ((missing : ℚ) / blockSize + 1) * c * c * (blockSize * c) * c ≤
      float (float (float (missing / blockSize) + 1) * float blockSize) := by
    have hsize0 : 0 < float blockSize := lt_of_lt_of_le (by positivity) hsize
    have hy0 : 0 < float (float (missing / blockSize) + 1) := lt_of_lt_of_le (by positivity) hy
    refine le_trans (mul_le_mul_of_nonneg_right ?_ hc0.le) (hround (by positivity))
    exact mul_le_mul hy hsize (by positivity) hy0.le
  have hall : ((missing : ℚ) / blockSize + 1) * c * c * (blockSize * c) * c =
      (missing + blockSize) * c ^ 4 := by
    field_simp
  have hfour : 1 - 4 / 2 ^ 53 ≤ c ^ 4 := by rw [← hc]; norm_num
  refine Nat.le_floor (le_trans ?_ hproduct)
  rw [hall]
  have hmissing' : (missing : ℚ) ≤ 2 ^ 50 := by exact_mod_cast hmissing
  calc (missing : ℚ) ≤ (missing + blockSize) * (1 - 4 / 2 ^ 53) := by linarith
    _ ≤ (missing + blockSize) * c ^ 4 := mul_le_mul_of_nonneg_left hfour (by positivity)

/-- `Realloc(newSize)` -/
def Realloc (newSize : ℤ) (q : CUQueue) : CUQueue :=
  let newSize := if newSize ≤ 0 then 1024 else newSize.toNat
  let len := min q.m_len newSize
  let kept := slice q.m_position len q.m_bytes
  { q with
    m_bytes := kept ++ List.replicate (newSize - len) 0
    m_len := len
    m_position := 0 }

/-- `_ensure_(len)` -/
def ensure (len : ℕ) (q : CUQueue) : CUQueue :=
  if q.TailSize < len then
    Realloc (q.m_bytes.length + addedSize (len - q.TailSize).toNat q.m_blockSize) q
  else q

/-- `struct.pack_into` behind the content. -/
def packInto (size : ℕ) (data : Except Error (Packed size)) : Effect Raised CUQueue Unit := fun q ↦
  if q.m_bytes.length < q.m_position + q.m_len + size then .throw .noRoom q
  else match data with
    | .error e => .throw (.error e) q
    | .ok data => .ok () { q with
        m_bytes := overwrite (q.m_position + q.m_len) data.1 q.m_bytes
        m_len := q.m_len + size }

/-- The rest of `Push(bytes, length)`; all of the bytes come in the place of what is behind the
content. -/
def pushBytes (bytes : List UInt8) (length : ℕ) (q : CUQueue) : CUQueue :=
  let q := ensure (min length bytes.length) q
  { q with
    m_bytes := q.m_bytes.take (q.m_position + q.m_len) ++ bytes
    m_len := q.m_len + min length bytes.length }

abbrev invalidData : Raised := .error (.ValueError "Invalid data found")

/-- `_available_(size)` -/
def available (size : ℕ) : Effect Raised CUQueue Unit := fun q ↦
  if q.m_len < size then .throw invalidData { q with m_len := 0, m_position := 0 } else .ok () q

/-- `_set_(size)` -/
def set (size : ℕ) (q : CUQueue) : CUQueue :=
  let len := q.m_len - size
  { q with m_len := len, m_position := if len = 0 then 0 else q.m_position + size }

/-- What each command does to a queue. -/
def memory : Handler Command Command.Result Raised CUQueue
  | .pack size data => fun q ↦ packInto size data (ensure size q)
  | .push bytes length => fun q ↦ .ok () (pushBytes bytes length q)
  | .take size =>
    available size >>= fun _ ↦ fun q ↦ .ok (slice q.m_position size q.m_bytes) (set size q)
  | .raise e => Effect.raise (.error e)

/-! ### The methods -/

/-- What a call returns: the queue itself, or a value. -/
inductive Answer
  | self
  | null
  | int (n : ℤ)
  | bool (b : Bool)
  | text (cs : List Char)
  | bytes (data : List UInt8)
  | decimal (sign scale n : ℤ)
deriving DecidableEq, Repr

def pack (size : ℕ) (data : Except Error (Packed size)) : Method Unit :=
  Script.call (Command.pack size data) .done

def push (bytes : List UInt8) (length : ℕ) : Method Unit :=
  Script.call (Command.push bytes length) .done

def take (size : ℕ) : Method (List UInt8) := Script.call (Command.take size) .done

def raise {α : Type} (e : Error) : Method α :=
  Script.call (Command.raise e) fun r : Empty ↦ r.elim

/-- An integer in a format. -/
def structInt (size : ℕ) (signed : Bool) (n : ℤ) : Except Error (Packed size) :=
  if InRange size signed n then .ok ⟨leBytes size (n % 256 ^ size).toNat, length_leBytes _ _⟩
  else .error .StructError

def SaveInt (n : ℤ) : Method Unit := pack 4 (structInt 4 true n)

def SaveUInt (n : ℤ) : Method Unit := pack 4 (structInt 4 false n)

def SaveShort (s : ℤ) : Method Unit := pack 2 (structInt 2 true s)

def SaveUShort (s : ℤ) : Method Unit := pack 2 (structInt 2 false s)

def SaveByte (b : ℤ) : Method Unit := pack 1 (structInt 1 false b)

def SaveAChar (c : ℤ) : Method Unit := pack 1 (structInt 1 true c)

def SaveLong (n : ℤ) : Method Unit := pack 8 (structInt 8 true n)

def SaveULong (n : ℤ) : Method Unit := pack 8 (structInt 8 false n)

/-- `ord` -/
def ord : CodePoint → ℕ
  | .char c => c.toNat
  | .surrogate u => 0xD800 + u

def SaveChar (c : CodePoint) : Method Unit := SaveUShort (ord c)

/-- A number of single precision, where the machine has one that is near. -/
def SaveFloat (toSingle : UInt64 → Option UInt32) (f : UInt64) : Method Unit :=
  pack 4 (match toSingle f with
    | some x => .ok ⟨leBytes 4 x.toNat, length_leBytes _ _⟩
    | none => .error .OverflowError)

def SaveDouble (d : UInt64) : Method Unit := pack 8 (.ok ⟨leBytes 8 d.toNat, length_leBytes _ _⟩)

def SaveBool (b : Bool) : Method Unit := pack 1 (.ok ⟨[if b then 1 else 0], rfl⟩)

/-- A text in the format `I…s`: the number of its bytes, and these. -/
def saveText (s : List UInt8) : Method Unit :=
  pack (s.length + 4) (if s.length < 2 ^ 32 then
      .ok ⟨leBytes 4 s.length ++ s, by rw [List.length_append, length_leBytes, Nat.add_comm]⟩
    else .error .StructError)

def SaveAString : Option (List CodePoint) → Method Unit
  | none => SaveInt (-1)
  | some s =>
    match chars? s with
    | none => raise .UnicodeError
    | some cs => saveText (encodeUTF8 cs)

def SaveString : Option (List CodePoint) → Method Unit
  | none => SaveInt (-1)
  | some s =>
    match chars? s with
    | none => raise .UnicodeError
    | some cs => saveText (utf16Bytes (encodeUTF16 cs))

/-- `SaveDate(dt)`, with `UDateTime(dt).time`. -/
def SaveDate (time : ℤ) : Method Unit := SaveULong time

def Push (bytes : Option (List UInt8)) (length : Option ℕ) : Method Answer :=
  match bytes, length with
  | some bytes, some length =>
    if length = 0 then pure .null
    else do
      push bytes length
      return .self
  | _, _ => pure .null

def SaveBytes (bytes : Option (List UInt8)) (length : ℕ) : Method Answer :=
  match bytes with
  | none => do
    SaveInt (-1)
    return .self
  | some bytes => do
    SaveInt (min length bytes.length : ℕ)
    Push (some bytes) (some (min length bytes.length))

def SaveUUID (uuid : Uuid) : Method Answer := Push (some uuid.1) (some 16)

def SaveDecimal (dec : Decimal) : Method Unit :=
  match getSSInt96 dec with
  | none => raise .DecimalError
  | some (sign, scale, n) => do
    SaveUShort 14
    SaveByte scale
    SaveByte sign
    SaveUInt (n / 2 ^ 64 : ℕ)
    SaveULong (n % 2 ^ 64 : ℕ)

/-- An integer from its bytes. -/
def unpackInt (signed : Bool) (data : List UInt8) : ℤ :=
  if signed then (ofLE data : ℤ).bmod (256 ^ data.length) else ofLE data

def loadInt (size : ℕ) (signed : Bool) : Method ℤ := do
  return unpackInt signed (← take size)

def LoadInt : Method ℤ := loadInt 4 true

def LoadUInt : Method ℤ := loadInt 4 false

def LoadShort : Method ℤ := loadInt 2 true

def LoadUShort : Method ℤ := loadInt 2 false

def LoadByte : Method ℤ := loadInt 1 false

def LoadAChar : Method ℤ := loadInt 1 true

def LoadLong : Method ℤ := loadInt 8 true

def LoadULong : Method ℤ := loadInt 8 false

/-- There is no `unichr` any more. -/
def LoadChar : Method ℤ := do
  let _ ← LoadUShort
  raise .NameError

/-- The bits of a number of single precision. -/
def LoadFloat : Method ℤ := loadInt 4 false

def LoadDouble : Method ℤ := loadInt 8 false

def LoadBool : Method Bool := do
  return (← take 1) != [0]

/-- `PopBytes(length)`; the length of a null is not looked for. -/
def PopBytes (length : ℤ) : Method (Option (List UInt8)) :=
  if length = -1 ∨ length = 0xffffffff then pure none
  else if length = 0 then pure (some [])
  else return some (← take length.toNat)

def LoadBytes : Method (Option (List UInt8)) := do
  PopBytes (← LoadUInt)

/-- `decode('utf-8')` -/
def decodeUTF8? (bytes : List UInt8) : Option (List Char) :=
  if encodeUTF8 (decodeUTF8 bytes) = bytes then some (decodeUTF8 bytes) else none

/-- `decode('utf-16-le')` -/
def decodeUTF16? (bytes : List UInt8) : Option (List Char) :=
  let cs := decodeUTF16 (utf16Units bytes)
  if utf16Bytes (encodeUTF16 cs) = bytes then some cs else none

/-- A text, from what its bytes decode to. -/
def loadText (decode : List UInt8 → Option (List Char)) : Method (Option (List Char)) := do
  match ← LoadBytes with
  | none => pure none
  | some bytes =>
    match decode bytes with
    | some cs => pure (some cs)
    | none => raise .UnicodeError

def LoadAString : Method (Option (List Char)) := loadText decodeUTF8?

def LoadString : Method (Option (List Char)) := loadText decodeUTF16?

/-- The number that `UDateTime` takes apart. -/
def LoadDate : Method ℤ := LoadULong

def LoadUUID : Method (List UInt8) := take 16

/-- The sign, the scale and the digits, which the text of the decimal is made of. -/
def LoadDecimal : Method (ℤ × ℤ × ℤ) := do
  let _ ← LoadUShort
  let scale ← LoadByte
  let sign ← LoadByte
  let hi32 ← LoadUInt
  let lo64 ← LoadULong
  return (sign, scale, hi32 * 2 ^ 64 + lo64)

/-! ### Methods that move no bytes -/

/-- `Discard(len)` -/
def Discard (len : ℕ) (q : CUQueue) : ℕ × CUQueue :=
  let len := min len q.m_len
  (len, set len q)

/-- `SetSize(size)` -/
def SetSize (size : ℤ) : Effect Raised CUQueue Unit := fun q ↦
  if size = 0 then .ok () { q with m_position := 0, m_len := 0 }
  else if size < 0 ∨ (q.m_bytes.length : ℤ) - q.m_position < size then
    .throw (.error (.ValueError "Bad new size")) q
  else .ok () { q with m_len := size.toNat }

/-- `Empty()` -/
def Empty (q : CUQueue) : CUQueue := { q with m_position := 0, m_len := 0, m_bytes := [] }

/-- `__init__`, with a capacity or with a bytearray. -/
inductive Constructor
  | capacity (capacity blockSize : ℤ)
  | bytes (bytes : List UInt8) (blockSize : ℤ)
deriving DecidableEq, Repr

/-- A size, or 1024 in the place of one that is not positive. -/
def orDefault (size : ℤ) : ℕ := if size ≤ 0 then 1024 else size.toNat

def Constructor.make : Constructor → CUQueue
  | .capacity n blockSize => ⟨List.replicate (orDefault n) 0, 0, 0, orDefault blockSize⟩
  | .bytes data blockSize => ⟨data, data.length, 0, orDefault blockSize⟩

/-! ### Calls -/

/-- A method that writes or reads, with its arguments, or other code that uses the queue. -/
inductive Call
  | SaveInt (n : ℤ)
  | SaveUInt (n : ℤ)
  | SaveShort (s : ℤ)
  | SaveUShort (s : ℤ)
  | SaveByte (b : ℤ)
  | SaveAChar (c : ℤ)
  | SaveChar (c : CodePoint)
  | SaveLong (n : ℤ)
  | SaveULong (n : ℤ)
  | SaveFloat (f : UInt64)
  | SaveDouble (d : UInt64)
  | SaveBool (b : Bool)
  | SaveAString (s : Option (List CodePoint))
  | SaveString (s : Option (List CodePoint))
  | SaveDate (time : ℤ)
  | Push (bytes : Option (List UInt8)) (length : Option ℕ)
  | SaveBytes (bytes : Option (List UInt8)) (length : ℕ)
  | SaveUUID (uuid : Uuid)
  | SaveDecimal (dec : Decimal)
  | LoadInt
  | LoadUInt
  | LoadShort
  | LoadUShort
  | LoadByte
  | LoadAChar
  | LoadChar
  | LoadLong
  | LoadULong
  | LoadFloat
  | LoadDouble
  | LoadBool
  | LoadAString
  | LoadString
  | LoadDate
  | LoadBytes
  | LoadUUID
  | LoadDecimal
  | PopBytes (length : ℤ)
  | code (m : Method Answer)

/-- A method that returns the queue. -/
def saving (m : Method Unit) : Method Answer := do
  m
  return .self

/-- A method that returns a value. -/
def loading {α : Type} (m : Method α) (f : α → Answer) : Method Answer := do
  return f (← m)

def orNull {α : Type} (f : α → Answer) : Option α → Answer
  | none => .null
  | some a => f a

/-- The method of a call. -/
def Call.method (toSingle : UInt64 → Option UInt32) : Call → Method Answer
  | SaveInt n => saving (ByteQueue.SaveInt n)
  | SaveUInt n => saving (ByteQueue.SaveUInt n)
  | SaveShort s => saving (ByteQueue.SaveShort s)
  | SaveUShort s => saving (ByteQueue.SaveUShort s)
  | SaveByte b => saving (ByteQueue.SaveByte b)
  | SaveAChar c => saving (ByteQueue.SaveAChar c)
  | SaveChar c => saving (ByteQueue.SaveChar c)
  | SaveLong n => saving (ByteQueue.SaveLong n)
  | SaveULong n => saving (ByteQueue.SaveULong n)
  | SaveFloat f => saving (ByteQueue.SaveFloat toSingle f)
  | SaveDouble d => saving (ByteQueue.SaveDouble d)
  | SaveBool b => saving (ByteQueue.SaveBool b)
  | SaveAString s => saving (ByteQueue.SaveAString s)
  | SaveString s => saving (ByteQueue.SaveString s)
  | SaveDate time => saving (ByteQueue.SaveDate time)
  | Push bytes length => ByteQueue.Push bytes length
  | SaveBytes bytes length => ByteQueue.SaveBytes bytes length
  | SaveUUID uuid => ByteQueue.SaveUUID uuid
  | SaveDecimal dec => saving (ByteQueue.SaveDecimal dec)
  | LoadInt => loading ByteQueue.LoadInt .int
  | LoadUInt => loading ByteQueue.LoadUInt .int
  | LoadShort => loading ByteQueue.LoadShort .int
  | LoadUShort => loading ByteQueue.LoadUShort .int
  | LoadByte => loading ByteQueue.LoadByte .int
  | LoadAChar => loading ByteQueue.LoadAChar .int
  | LoadChar => loading ByteQueue.LoadChar .int
  | LoadLong => loading ByteQueue.LoadLong .int
  | LoadULong => loading ByteQueue.LoadULong .int
  | LoadFloat => loading ByteQueue.LoadFloat .int
  | LoadDouble => loading ByteQueue.LoadDouble .int
  | LoadBool => loading ByteQueue.LoadBool .bool
  | LoadAString => loading ByteQueue.LoadAString (orNull .text)
  | LoadString => loading ByteQueue.LoadString (orNull .text)
  | LoadDate => loading ByteQueue.LoadDate .int
  | LoadBytes => loading ByteQueue.LoadBytes (orNull .bytes)
  | LoadUUID => loading ByteQueue.LoadUUID .bytes
  | LoadDecimal => loading ByteQueue.LoadDecimal fun d ↦ .decimal d.1 d.2.1 d.2.2
  | PopBytes length => loading (ByteQueue.PopBytes length) (orNull .bytes)
  | code m => m

/-- What is done with several queues. -/
inductive Action (ι : Type)
  | on (i : ι) (call : Call)
  | discard (i : ι) (len : ℕ)
  | setSize (i : ι) (size : ℤ)
  | realloc (i : ι) (newSize : ℤ)
  | empty (i : ι)
  | swap (i q : ι)

/-- What comes of it. -/
inductive Result
  | returned (a : Answer)
  | thrown (e : Raised)
deriving DecidableEq, Repr

/-- The result of code that has been run on a state; nothing comes after a fault. -/
def resultOf {σ : Type} : Outcome Raised σ Answer → Option (Result × σ)
  | .ok a s => some (.returned a, s)
  | .throw e s => some (.thrown e, s)
  | .fault => none

section Step

variable {ι : Type} [DecidableEq ι] (toSingle : UInt64 → Option UInt32)

/-- Perform an action. -/
def step (s : ι → CUQueue) : Action ι → Option (Result × (ι → CUQueue))
  | .on i call => (resultOf ((call.method toSingle).perform memory (s i))).map fun r ↦
    (r.1, Function.update s i r.2)
  | .discard i len =>
    some (.returned (.int (Discard len (s i)).1), Function.update s i (Discard len (s i)).2)
  | .setSize i size => (resultOf ((SetSize size >>= fun _ ↦ pure .null) (s i))).map fun r ↦
    (r.1, Function.update s i r.2)
  | .realloc i newSize => some (.returned .null, Function.update s i (Realloc newSize (s i)))
  | .empty i => some (.returned .null, Function.update s i (Empty (s i)))
  | .swap i q => some (.returned .null, Function.update (Function.update s i (s q)) q (s i))

end Step

/-- Queues that have just been made. -/
def start {ι : Type} (c : ι → Constructor) (i : ι) : CUQueue := (c i).make

end SocketPro.Python.ByteQueue
