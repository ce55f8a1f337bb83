import SocketPro.Python.Values

/-!
# The objects that `LoadObject` makes

They are what comes out of a queue, and what the rows of a table cache consist of. A `float` is its
bits, and a decimal its sign, its digits and its exponent.

**Equality.** Numbers of all types are equal when their values are. What `==` depends on is written
down as `atoms`, so that it is an equality of lists; a NaN and an `object()` are equal to no other
object. The comparison of the elements of two lists starts with `is`. There, of two NaNs with the
same bits and of two `object()`s it is assumed that they are one object.
-/

namespace SocketPro.Python

/-- What `LoadObject` makes. -/
inductive Obj
  | none
  | object
  | str (s : List CodePoint)
  | datetime (d : DateTime)
  | date (year month day : ℕ)
  | time (hour minute second microsecond : ℕ)
  | bytearray (a : List UInt8)
  | list (a : List Obj)
  | bool (b : Bool)
  | int (n : ℤ)
  | float (bits : UInt64)
  | uuid (u : Uuid)
  | decimal (negative : Bool) (coefficient : ℕ) (exponent : ℤ)

/-- What objects are compared by. -/
inductive Atom
  | none
  | object
  | str (s : List CodePoint)
  | datetime (d : DateTime)
  | date (year month day : ℕ)
  | time (hour minute second microsecond : ℕ)
  | bytearray (a : List UInt8)
  | uuid (u : Uuid)
  | number (q : ℚ)
  | infinity (negative : Bool)
  | nan (bits : UInt64)
  | openList
  | closeList
deriving DecidableEq

/-- `s * n * base ** e`, where `s` is a sign. -/
def scaled (negative : Bool) (n : ℕ) (base : ℚ) (e : ℤ) : ℚ :=
  (if negative = true then -(n : ℚ) else n) * base ^ e

/-- The number of double precision with the given bits. -/
def floatAtom (bits : UInt64) : Atom :=
  let negative : Bool := 2 ^ 63 ≤ bits.toNat
  let e : ℕ := bits.toNat / 2 ^ 52 % 2 ^ 11
  let mantissa := bits.toNat % 2 ^ 52
  if e = 2 ^ 11 - 1 then if mantissa = 0 then .infinity negative else .nan bits
  else if e = 0 then .number (scaled negative mantissa 2 (-1074))
  else .number (scaled negative (2 ^ 52 + mantissa) 2 (e - 1075))

namespace Obj

mutual

/-- The object as atoms, a list between brackets. -/
def atoms : Obj → List Atom
  | none => [.none]
  | object => [.object]
  | str s => [.str s]
  | datetime d => [.datetime d]
  | date year month day => [.date year month day]
  | time hour minute second microsecond => [.time hour minute second microsecond]
  | bytearray a => [.bytearray a]
  | list a => .openList :: (listAtoms a ++ [.closeList])
  | bool b => [.number (if b = true then 1 else 0)]
  | int n => [.number n]
  | float bits => [floatAtom bits]
  | uuid u => [.uuid u]
  | decimal negative coefficient exponent => [.number (scaled negative coefficient 10 exponent)]

def listAtoms : List Obj → List Atom
  | [] => []
  | v :: a => atoms v ++ listAtoms a

end

/-- What is equal to itself. -/
def reflexive : List Atom → Bool
  | [.nan _] => false
  | [.object] => false
  | _ => true

/-- `a == b` -/
def eq (a b : Obj) : Bool := a.atoms = b.atoms && reflexive a.atoms

/-- `a == b` for lists, where elements are compared by `is` and by `==`. -/
def eqList (a b : List Obj) : Bool := a.map atoms = b.map atoms

/-- `a is None` -/
def isNone : Obj → Bool
  | none => true
  | _ => false

/-- An object is equal to an element of a list if it is to that of an equal list. -/
theorem eq_getD_of_eqList {a b : List Obj} (h : eqList a b = true) (v : Obj) (k : ℕ) :
    v.eq (a.getD k none) = v.eq (b.getD k none) := by
  have hmap : a.map atoms = b.map atoms := of_decide_eq_true h
  have hget : a[k]?.map atoms = b[k]?.map atoms := by
    rw [← List.getElem?_map, ← List.getElem?_map, hmap]
  have hatoms : (a.getD k none).atoms = (b.getD k none).atoms := by
    rw [List.getD_eq_getElem?_getD, List.getD_eq_getElem?_getD, ← Option.getD_map atoms,
      ← Option.getD_map atoms, hget]
  rw [eq, eq, hatoms]

end Obj

/-- Numbers of different types. -/
example : (Obj.int 1).eq (.bool true) = true ∧
    (Obj.decimal false 250 (-2)).eq (.float 0x4004000000000000) = true ∧
    (Obj.float 0x7ff8000000000000).eq (.float 0x7ff8000000000000) = false := by
  decide +kernel

end SocketPro.Python
