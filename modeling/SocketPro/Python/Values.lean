import SocketPro.Foundation.Unicode
import Mathlib.Data.Nat.Log

/-!
# `SaveObject` of the Python `CUQueue`

The objects that `SaveObject` has a branch for, with the hints that choose a type for a number or a
text, and what is written of them. Every write is one call of `_ensure_` with a `struct.pack_into`
or a slice assignment behind it. Where a call raises, there is `none`: a number does not fit its
type, a text has a surrogate, a decimal is written with an exponent, or the branch itself is wrong.

`_saveList_` goes through the classes of elements that get an array of their own; the elements of
every other list are written by `SaveObject`, without a hint.

The conversion of a number of double precision to single precision is that of the machine.
-/

namespace SocketPro.Python

open Bytes Unicode

/-- The hints with a branch of their own, and all others, the empty text among them. -/
inductive Hint
  | c
  | h
  | H
  | I
  | L
  | b
  | B
  | Q
  | q
  | f
  | time
  | other
deriving DecidableEq, Repr

/-! ### Objects -/

/-- A character of a text: one of Unicode, or a surrogate that stands for itself. -/
inductive CodePoint
  | char (c : Char)
  | surrogate (u : Fin 0x800)
deriving DecidableEq

/-- The characters of a text without surrogates. -/
def chars? (s : List CodePoint) : Option (List Char) :=
  s.mapM fun
    | .char c => some c
    | .surrogate _ => none

/-- `datetime.datetime` -/
structure DateTime where
  year : ℕ
  month : ℕ
  day : ℕ
  hour : ℕ
  minute : ℕ
  second : ℕ
  microsecond : ℕ
  year_pos : 1 ≤ year
  year_le : year ≤ 9999
  month_pos : 1 ≤ month
  month_le : month ≤ 12
  day_pos : 1 ≤ day
  day_le : day ≤ 31
  hour_lt : hour < 24
  minute_lt : minute < 60
  second_lt : second < 60
  microsecond_lt : microsecond < 1000000
deriving DecidableEq

/-- `uuid.UUID`, by its `bytes_le`. -/
abbrev Uuid := { bytes : List UInt8 // bytes.length = 16 }

/-- `decimal.Decimal`: a sign, the number that the digits make, and an exponent; or one of the
special values. -/
inductive Decimal
  | finite (negative : Bool) (coefficient : ℕ) (exponent : ℤ)
  | special
deriving DecidableEq

/-- One call of `_ensure_` with what comes behind it: `struct.pack_into`, or the slice assignment of
`Push`. -/
inductive Write
  | pack (bytes : List UInt8)
  | push (bytes : List UInt8)
deriving DecidableEq

def Write.bytes : Write → List UInt8
  | pack bytes => bytes
  | push bytes => bytes

/-- The objects with a branch in `SaveObject`. A `float` is its bits, and an `IUSerializer` what its
`SaveTo` writes. -/
inductive Value
  | none
  | object
  | str (s : List CodePoint)
  | datetime (d : DateTime)
  | bytearray (a : List UInt8)
  | list (a : List Value)
  | tuple (a : List Value)
  | bool (b : Bool)
  | int (n : ℤ)
  | float (bits : UInt64)
  | uuid (u : Uuid)
  | decimal (d : Decimal)
  | serializer (s : List Write)

abbrev sdVT_EMPTY : ℕ := 0

abbrev sdVT_NULL : ℕ := 1

abbrev sdVT_I2 : ℕ := 2

abbrev sdVT_R4 : ℕ := 4

abbrev sdVT_R8 : ℕ := 5

abbrev sdVT_DATE : ℕ := 7

abbrev sdVT_BSTR : ℕ := 8

abbrev sdVT_BOOL : ℕ := 11

abbrev sdVT_VARIANT : ℕ := 12

abbrev sdVT_DECIMAL : ℕ := 14

abbrev sdVT_I1 : ℕ := 16

abbrev sdVT_UI1 : ℕ := 17

abbrev sdVT_UI2 : ℕ := 18

abbrev sdVT_I8 : ℕ := 20

abbrev sdVT_UI8 : ℕ := 21

abbrev sdVT_INT : ℕ := 22

abbrev sdVT_UINT : ℕ := 23

abbrev sdVT_CLSID : ℕ := 72

abbrev sdVT_USERIALIZER_OBJECT : ℕ := 0xD00

abbrev sdVT_ARRAY : ℕ := 0x2000

/-! ### Numbers and texts -/

/-- The numbers of an integer format. -/
def InRange (width : ℕ) (signed : Bool) (n : ℤ) : Prop :=
  if signed = true then -(256 ^ width / 2) ≤ n ∧ n < 256 ^ width / 2
  else 0 ≤ n ∧ n < 256 ^ width

theorem inRange_ofNat {width : ℕ} {signed : Bool} {n : ℕ} :
    n < (if signed = true then 256 ^ width / 2 else 256 ^ width) ↔ InRange width signed n := by
  have hpow : (256 : ℤ) ^ width = (256 ^ width : ℕ) := by push_cast; rfl
  rw [InRange, hpow]
  split <;> omega

theorem inRange_negSucc {width : ℕ} {signed : Bool} {n : ℕ} :
    signed = true ∧ n < 256 ^ width / 2 ↔ InRange width signed (Int.negSucc n) := by
  have hpow : (256 : ℤ) ^ width = (256 ^ width : ℕ) := by push_cast; rfl
  rw [InRange, hpow, Int.negSucc_eq]
  cases signed with
  | true => rw [if_pos rfl, eq_self, true_and]; omega
  | false =>
    rw [if_neg Bool.false_ne_true]
    exact ⟨fun h ↦ absurd h.1 Bool.false_ne_true, fun h ↦ by omega⟩

/-- The comparison is one of natural numbers, so that it gets stuck on a variable at once. -/
instance (width : ℕ) (signed : Bool) : (n : ℤ) → Decidable (InRange width signed n)
  | .ofNat _ => decidable_of_iff _ inRange_ofNat
  | .negSucc _ => decidable_of_iff _ inRange_negSucc

/-- `struct.pack` of an integer. -/
def packInt (width : ℕ) (signed : Bool) (n : ℤ) : Option Write :=
  if InRange width signed n then some (.pack (leBytes width (n % 256 ^ width).toNat))
  else Option.none

/-- `SaveUShort` of a type, which always fits. -/
def saveVT (vt : ℕ) : Write := .pack (leBytes 2 vt)

theorem packInt_of_lt (width : ℕ) {n : ℕ} (h : n < 256 ^ width) :
    packInt width false n = some (.pack (leBytes width n)) := by
  have hpow : (256 : ℤ) ^ width = (256 ^ width : ℕ) := by push_cast; rfl
  have hrange : InRange width false (n : ℤ) := by
    rw [InRange, if_neg Bool.false_ne_true, hpow]
    omega
  have hmod : ((n : ℤ) % (256 ^ width : ℕ)).toNat = n := by
    rw [Int.emod_eq_of_lt (by omega) (by omega), Int.toNat_natCast]
  rw [packInt, if_pos hrange, hpow, hmod]

theorem packInt_of_le (width : ℕ) {n : ℕ} (h : 256 ^ width ≤ n) : packInt width false n = none := by
  have hpow : (256 : ℤ) ^ width = (256 ^ width : ℕ) := by push_cast; rfl
  refine if_neg fun hrange ↦ ?_
  rw [InRange, if_neg Bool.false_ne_true, hpow] at hrange
  omega

/-- The type of an integer with a hint, its width, and whether it has a sign. -/
def Hint.int : Hint → ℕ × ℕ × Bool
  | h => (sdVT_I2, 2, true)
  | H => (sdVT_UI2, 2, false)
  | I | L => (sdVT_UINT, 4, false)
  | b => (sdVT_I1, 1, true)
  | B => (sdVT_UI1, 1, false)
  | Q => (sdVT_UI8, 8, false)
  | q => (sdVT_I8, 8, true)
  | c | f | time | other => (sdVT_INT, 4, true)

/-- The length and the bytes of a text in one format. -/
def saveText (bytes : List UInt8) : Option Write :=
  if bytes.length < 2 ^ 32 then some (.pack (leBytes 4 bytes.length ++ bytes)) else Option.none

/-- `SaveAString(s)` -/
def SaveAString (s : List CodePoint) : Option Write := do
  saveText (encodeUTF8 (← chars? s))

/-- `SaveString(s)` -/
def SaveString (s : List CodePoint) : Option Write := do
  saveText (utf16Bytes (encodeUTF16 (← chars? s)))

/-- `UDateTime(dt).time` -/
def DateTime.time (d : DateTime) : ℕ :=
  let time := if 1900 ≤ d.year then d.year - 1900 else 2 ^ 13 + (1900 - d.year)
  let time := time * 2 ^ 4 + (d.month - 1)
  let time := time * 2 ^ 5 + d.day
  let time := time * 2 ^ 5 + d.hour
  let time := time * 2 ^ 6 + d.minute
  let time := time * 2 ^ 6 + d.second
  time * 2 ^ 24 + d.microsecond * 10

/-- `SaveDate(dt)` -/
def SaveDate (d : DateTime) : Option Write := packInt 8 false d.time

/-! ### Decimals -/

/-- The number of digits. -/
def numDigits (n : ℕ) : ℕ := Nat.log 10 n + 1

/-- A coefficient without its last `k` digits, rounded half to even. -/
def roundHalfEven (n k : ℕ) : ℕ :=
  let q := n / 10 ^ k
  let r := n % 10 ^ k
  if 10 ^ k < 2 * r ∨ 2 * r = 10 ^ k ∧ q % 2 = 1 then q + 1 else q

/-- `dec/1` with a precision of 28 digits. -/
def toPrecision (coefficient : ℕ) (exponent : ℤ) : ℕ × ℤ :=
  let k := numDigits coefficient - 28
  let n := roundHalfEven coefficient k
  if n = 10 ^ 28 then (10 ^ 27, exponent + k + 1) else (n, exponent + k)

/-- `_getSSInt96_(dec)`: the sign, the scale and the digits. A text of the decimal with an exponent
makes `int` or `index` raise, and a special value has no exponent to compare. -/
def getSSInt96 : Decimal → Option (ℕ × ℕ × ℕ)
  | .special => Option.none
  | .finite negative coefficient exponent =>
    let (n, e) := if 28 < numDigits coefficient then toPrecision coefficient exponent
      else (coefficient, exponent)
    if 0 < e ∨ e + numDigits n ≤ -6 then Option.none
    else some (if negative = true then 0x80 else 0, (-e).toNat, n)

/-- `SaveDecimal(dec)` -/
def SaveDecimal (d : Decimal) : Option (List Write) := do
  let (sign, scale, n) ← getSSInt96 d
  return [← packInt 2 false 14, ← packInt 1 false scale, ← packInt 1 false sign,
    ← packInt 4 false (n / 2 ^ 64), ← packInt 8 false (n % 2 ^ 64)]

/-! ### Lists -/

namespace Value

def bool? : Value → Option Bool
  | bool b => some b
  | _ => Option.none

/-- An integer that is no `bool`. -/
def int? : Value → Option ℤ
  | int n => some n
  | _ => Option.none

def float? : Value → Option UInt64
  | float bits => some bits
  | _ => Option.none

def uuid? : Value → Option Uuid
  | uuid u => some u
  | _ => Option.none

def decimal? : Value → Option Decimal
  | decimal d => some d
  | _ => Option.none

def serializer? : Value → Option (List Write)
  | serializer s => some s
  | _ => Option.none

end Value

/-- An array: its type, the number of its elements, and the elements. -/
def saveArray {α : Type} (vt : ℕ) (a : List α) (save : α → Option (List Write)) :
    Option (List Write) := do
  let length ← packInt 4 false a.length
  let elements ← a.mapM save
  return saveVT (sdVT_ARRAY + vt) :: length :: elements.flatten

section SaveObject

variable (toSingle : UInt64 → Option UInt32)

/-- The list of integers. With the hint `b` the list has no `encode`, and with the hint `B` a
parameter is missing. -/
def saveInts (hint : Hint) (a : List ℤ) : Option (List Write) :=
  match hint with
  | .b | .B => Option.none
  | hint => saveArray hint.int.1 a fun n ↦ do return [← packInt hint.int.2.1 hint.int.2.2 n]

/-- The list of floats. A float is no argument of the format of `SaveDate`. -/
def saveFloats (hint : Hint) (a : List UInt64) : Option (List Write) :=
  match hint with
  | .time => Option.none
  | .f => saveArray sdVT_R4 a fun x ↦ do return [.pack (leBytes 4 (← toSingle x).toNat)]
  | _ => saveArray sdVT_R8 a fun x ↦ some [.pack (leBytes 8 x.toNat)]

/-- `_saveList_(lst, hint)`, where `objects` are the elements by `SaveObject`. -/
def saveList (hint : Hint) (a : List Value) (objects : Option (List Write)) :
    Option (List Write) :=
  match a.mapM Value.bool? with
  | some bs =>
    saveArray sdVT_BOOL bs fun b ↦ do return [← packInt 2 true (if b = true then -1 else 0)]
  | Option.none =>
  match a.mapM Value.int? with
  | some ns => saveInts hint ns
  | Option.none =>
  match a.mapM Value.float? with
  | some xs => saveFloats toSingle hint xs
  | Option.none =>
  match a.mapM Value.uuid? with
  | some us => saveArray sdVT_CLSID us fun u ↦ some [.push u.1]
  | Option.none =>
  match a.mapM Value.decimal? with
  | some ds => saveArray sdVT_DECIMAL ds SaveDecimal
  | Option.none =>
  match a.mapM Value.serializer? with
  | some ss => saveArray sdVT_USERIALIZER_OBJECT ss some
  | Option.none => do
    let length ← packInt 4 false a.length
    return saveVT (sdVT_ARRAY + sdVT_VARIANT) :: length :: (← objects)

mutual

/-- `SaveObject(obj, hint)` -/
def SaveObject (hint : Hint) : Value → Option (List Write)
  | .none => some [saveVT sdVT_NULL]
  | .object => some [saveVT sdVT_EMPTY]
  | .str s =>
    if hint = .c then do return [saveVT (sdVT_ARRAY + sdVT_I1), ← SaveAString s]
    else do return [saveVT sdVT_BSTR, ← SaveString s]
  | .datetime d => do return [saveVT sdVT_DATE, ← SaveDate d]
  | .bytearray a => do
    return [saveVT (sdVT_ARRAY + sdVT_UI1), ← packInt 4 false a.length, .push a]
  | .list a => saveList toSingle hint a (SaveObjects a)
  | .tuple a => saveList toSingle hint a (SaveObjects a)
  | .bool b => do return [saveVT sdVT_BOOL, ← packInt 2 false (if b = true then 0xFFFF else 0)]
  | .int n => do return [saveVT hint.int.1, ← packInt hint.int.2.1 hint.int.2.2 n]
  | .float x =>
    if hint = .f then do return [saveVT sdVT_R4, .pack (leBytes 4 (← toSingle x).toNat)]
    else some [saveVT sdVT_R8, .pack (leBytes 8 x.toNat)]
  | .uuid u => some [saveVT sdVT_CLSID, .push u.1]
  | .decimal d => do return saveVT sdVT_DECIMAL :: (← SaveDecimal d)
  | .serializer s => some (saveVT sdVT_USERIALIZER_OBJECT :: s)

/-- The elements of a list one after the other, without a hint. -/
def SaveObjects : List Value → Option (List Write)
  | [] => some []
  | v :: a => do return (← SaveObject .other v) ++ (← SaveObjects a)

end

/-! ### The type in front -/

variable {toSingle} {ws : List Write}

theorem saveArray_front {α : Type} {vt : ℕ} {a : List α} {save : α → Option (List Write)}
    (h : saveArray vt a save = some ws) : ∃ rest, ws = saveVT (sdVT_ARRAY + vt) :: rest := by
  rw [saveArray] at h
  obtain ⟨length, -, h⟩ := Option.bind_eq_some_iff.1 h
  obtain ⟨elements, -, h⟩ := Option.bind_eq_some_iff.1 h
  exact ⟨_, (Option.some.inj h).symm⟩

theorem saveList_front {hint : Hint} {a : List Value} {objects : Option (List Write)}
    (h : saveList toSingle hint a objects = some ws) : ∃ vt rest, ws = saveVT vt :: rest := by
  rw [saveList] at h
  split at h
  · exact ⟨_, saveArray_front h⟩
  split at h
  · rw [saveInts.eq_def] at h
    split at h
    · cases h
    · cases h
    · exact ⟨_, saveArray_front h⟩
  split at h
  · rw [saveFloats.eq_def] at h
    split at h
    · cases h
    · exact ⟨_, saveArray_front h⟩
    · exact ⟨_, saveArray_front h⟩
  split at h
  · exact ⟨_, saveArray_front h⟩
  split at h
  · exact ⟨_, saveArray_front h⟩
  split at h
  · exact ⟨_, saveArray_front h⟩
  · obtain ⟨length, -, h⟩ := Option.bind_eq_some_iff.1 h
    obtain ⟨elements, -, h⟩ := Option.bind_eq_some_iff.1 h
    exact ⟨_, _, (Option.some.inj h).symm⟩

/-- **The first write is that of the type.** -/
theorem SaveObject_front {hint : Hint} {v : Value} (h : SaveObject toSingle hint v = some ws) :
    ∃ vt rest, ws = saveVT vt :: rest := by
  have hbind : ∀ {vt : ℕ} {x : Option Write},
      (do return [saveVT vt, ← x] : Option (List Write)) = some ws →
      ∃ vt rest, ws = saveVT vt :: rest := fun h ↦ by
    obtain ⟨w, -, h⟩ := Option.bind_eq_some_iff.1 h
    exact ⟨_, _, (Option.some.inj h).symm⟩
  cases v with
  | none | object | uuid u | serializer s =>
    rw [SaveObject] at h
    exact ⟨_, _, (Option.some.inj h).symm⟩
  | str s =>
    rw [SaveObject] at h
    split at h
    · exact hbind h
    · exact hbind h
  | datetime d | bool b | int n =>
    rw [SaveObject] at h
    exact hbind h
  | bytearray a =>
    rw [SaveObject] at h
    obtain ⟨w, -, h⟩ := Option.bind_eq_some_iff.1 h
    exact ⟨_, _, (Option.some.inj h).symm⟩
  | list a | tuple a =>
    rw [SaveObject] at h
    exact saveList_front h
  | float x =>
    rw [SaveObject] at h
    split at h
    · obtain ⟨w, -, h⟩ := Option.bind_eq_some_iff.1 h
      exact ⟨_, _, (Option.some.inj h).symm⟩
    · exact ⟨_, _, (Option.some.inj h).symm⟩
  | decimal d =>
    rw [SaveObject] at h
    obtain ⟨w, -, h⟩ := Option.bind_eq_some_iff.1 h
    exact ⟨_, _, (Option.some.inj h).symm⟩

end SaveObject

end SocketPro.Python
