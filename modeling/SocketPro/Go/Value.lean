import SocketPro.Go.Time
import Mathlib.Data.BitVec

/-!
# Go values

The Go values that `SaveObject` accepts or `LoadObject` returns. A number is the bits of its memory,
whatever its type makes of them, so `float64` needs no separate treatment. A string is its bytes; a
slice is its elements, and a pointer to something that may be `nil` an option.
-/

namespace SocketPro.Go

open Calendar

/-- The number types of which there are slices on the wire. -/
inductive Num
  | int16 | uint16 | int32 | uint32 | int64 | uint64 | float32 | float64
deriving DecidableEq, Repr

/-- The size in bytes. -/
def Num.size : Num → ℕ
  | int16 | uint16 => 2
  | int32 | uint32 | float32 => 4
  | int64 | uint64 | float64 => 8

/-- A value of the type. -/
abbrev Num.Val (t : Num) : Type := BitVec (8 * t.size)

/-- `DECIMAL` of `cuqueue.go`. -/
structure DECIMAL where
  wReserved : BitVec 16
  Scale : BitVec 8
  Sign : BitVec 8
  Hi32 : BitVec 32
  Lo64 : BitVec 64
deriving DecidableEq, Repr

/-- `uuid.UUID`, an array of 16 bytes. -/
abbrev UUID : Type := BitVec 128

/-- A string, by its bytes. -/
abbrev GoString : Type := List UInt8

inductive Value
  | nil
  | num (t : Num) (n : t.Val)
  | int (n : BitVec 64)
  | uint (n : BitVec 64)
  | int8 (n : BitVec 8)
  | byte (n : BitVec 8)
  | bool (b : Bool)
  | string (s : GoString)
  | AStr (s : GoString)
  | time (t : Time)
  | decimal (d : DECIMAL)
  | uuid (id : UUID)
  /-- `[]byte`. -/
  | bytes (s : List UInt8)
  /-- `*[]byte`. -/
  | bytesPtr (s : Option (List UInt8))
  | int8s (s : List (BitVec 8))
  | nums (t : Num) (ns : List t.Val)
  | ints (ns : List (BitVec 64))
  | uints (ns : List (BitVec 64))
  | strings (ss : List GoString)
  /-- `[]*string`. -/
  | stringPtrs (ss : List (Option GoString))
  | bools (bs : List Bool)
  | times (ts : List Time)
  | decimals (ds : List DECIMAL)
  | uuids (ids : List UUID)
  /-- `[]interface{}`. -/
  | interfaces (vs : List Value)

namespace Value

mutual

/-- The value in the type in which it comes back. -/
def retype : Value → Value
  | int n => num .int32 (n.truncate 32)
  | uint n => num .uint32 (n.truncate 32)
  | time t => time (truncate t)
  | bytes s => bytesPtr (some s)
  | int8s s => AStr (s.map UInt8.ofBitVec)
  | ints ns => nums .int32 (ns.map (·.truncate 32))
  | uints ns => nums .uint32 (ns.map (·.truncate 32))
  | strings ss => stringPtrs (ss.map some)
  | times ts => times (ts.map truncate)
  | interfaces vs => interfaces (retypeAll vs)
  | v => v

def retypeAll : List Value → List Value
  | [] => []
  | v :: vs => retype v :: retypeAll vs

end

end Value

end SocketPro.Go
