import Mathlib.Data.List.Lex
import Mathlib.Data.Int.Order.Basic
import Mathlib.Algebra.Group.Int.Defs
import Mathlib.Algebra.Group.Nat.Defs

/-!
# JSON values and their writer

`JValue<TChar>` and `Stringify`. A string is a list of code units; a unit is a natural number, so
one model covers `char`, `char16_t` and `wchar_t`. An object is a `std::map`, here the list of its
members in the order of the map, that is by strictly increasing key.

**What is stored is escaped.** The constructors that take a text put a backslash before some of its
units (`escape`) and the writer copies the stored string between quotes; keys are stored and written
as they are given.

Floating-point numbers are not modelled. The reader recognises them, so a value can hold one: as the
text it was read from, with the printing of a double a parameter of the writer.
-/

namespace SocketPro.Json

/-- The code unit of an ASCII character. -/
def code (c : Char) : ℕ := c.toNat

/-- `std::basic_string<TChar>`. -/
abbrev JString := List ℕ

/-- A JSON value by its `enumType`. -/
inductive JValue where
  | null
  | string (strValue : JString)
  | bool (bValue : Bool)
  /-- A floating-point number, as the text it was read from. -/
  | number (text : JString)
  | array (arrValue : List JValue)
  | object (objValue : List (JString × JValue))
  | int64 (int64Value : ℤ)
  | uint64 (uint64Value : ℕ)

/-- `std::map<JString, JValue>`, its members by strictly increasing key. -/
abbrev JObject := List (JString × JValue)

/-! ### Building values -/

/-- The units that `Escape` always puts a backslash before. -/
def isEscaped (c : ℕ) : Bool :=
  c = code '\\' || c = 8 || c = 12 || c = code '"' || c = code '\t' || c = code '\r' ||
    c = code '\n'

/-- `Escape`: a backslash before each unit that has a one-letter escape, followed by the unit
itself. -/
def escape (escapeForwardslash : Bool) : JString → JString
  | [] => []
  | c :: str =>
    if isEscaped c || (c = code '/' && escapeForwardslash) then
      code '\\' :: c :: escape escapeForwardslash str
    else c :: escape escapeForwardslash str

/-- A signed 64-bit word wraps around. -/
def wrap64 (x : ℤ) : ℤ := x.bmod (2 ^ 64)

/-- `JValue(INT64)`: the type is `Uint64` unless the number is negative. -/
def ofInt64 (n : ℤ) : JValue :=
  if n < 0 then .int64 n else .uint64 n.toNat

/-- `JValue(const JString&, true, escape_fowardslash)` and the assignment of a string. -/
def ofString (str : JString) (escapeForwardslash : Bool) : JValue :=
  .string (escape escapeForwardslash str)

/-- `object[key] = value`. -/
def JObject.set (key : JString) (value : JValue) : JObject → JObject
  | [] => [(key, value)]
  | m :: ms =>
    if key < m.1 then (key, value) :: m :: ms
    else if key = m.1 then (key, value) :: ms
    else m :: JObject.set key value ms

/-- The text has no terminating zero inside. -/
def NulFree (str : JString) : Prop := ∀ c ∈ str, c ≠ 0

instance (str : JString) : Decidable (NulFree str) := by
  unfold NulFree
  infer_instance

/-- **The values one can build** without floating-point numbers from NUL-free texts and keys. -/
inductive Built : JValue → Prop where
  | null : Built .null
  | bool (b : Bool) : Built (.bool b)
  | int64 (n : ℤ) (hmin : -2 ^ 63 ≤ n) (hmax : n < 2 ^ 63) : Built (ofInt64 n)
  | uint64 (n : ℕ) (hmax : n < 2 ^ 64) : Built (.uint64 n)
  | string (text : JString) (escapeForwardslash : Bool) (htext : NulFree text) :
    Built (ofString text escapeForwardslash)
  | array (vs : List JValue) (hvs : ∀ v ∈ vs, Built v) : Built (.array vs)
  | object (ms : JObject) (hsorted : (ms.map Prod.fst).Pairwise (· < ·))
    (hkeys : ∀ m ∈ ms, NulFree m.1) (hvs : ∀ m ∈ ms, Built m.2) : Built (.object ms)

/-! ### Printing a number -/

/-- The loop of `ToString`: it fills the buffer from the back, `start` places are left. C++
division truncates, so a negative `x` leaves negative digits. -/
def toStringLoop : ℕ → ℤ → JString → JString
  | 0, _, buff => buff
  | start + 1, x, buff =>
    if x = 0 then buff
    else toStringLoop start (x.tdiv 10) ((x.tmod 10 + code '0').toNat :: buff)

/-- `ToString(INT64)`. -/
def toStringInt64 (x : ℤ) : JString :=
  if x = 0 then [code '0']
  else if x < 0 then code '-' :: toStringLoop 20 (wrap64 (x * -1)) []
  else toStringLoop 20 x []

/-- `ToString(UINT64)`. -/
def toStringUint64 (x : ℕ) : JString :=
  if x = 0 then [code '0'] else toStringLoop 20 x []

/-! ### Stringify -/

/-- What the layout of the text depends on. -/
structure Layout where
  pretty : Bool
  indentChars : ℕ
  /-- `ToString(double)` on the number read from a text. -/
  ofDouble : JString → JString

/-- `if (pretty) ret_str.push_back('\n')`. -/
def Layout.newline (l : Layout) : JString :=
  if l.pretty then [code '\n'] else []

/-- `if (pretty) ret_str.append(indent * indent_chars, ' ')`. -/
def Layout.pad (l : Layout) (indent : ℕ) : JString :=
  if l.pretty then List.replicate (indent * l.indentChars) (code ' ') else []

/-- The string constants `JNull`, `JTrue` and `JFalse`. -/
def jNull : JString := [code 'n', code 'u', code 'l', code 'l']

def jTrue : JString := [code 't', code 'r', code 'u', code 'e']

def jFalse : JString := [code 'f', code 'a', code 'l', code 's', code 'e']

mutual

/-- `Stringify`: the text appended for a value that stands at depth `indent`. -/
def stringify (l : Layout) (indent : ℕ) : JValue → JString
  | .null => jNull
  | .string s => code '"' :: (s ++ [code '"'])
  | .bool b => if b then jTrue else jFalse
  | .number text => l.ofDouble text
  | .int64 x => toStringInt64 x
  | .uint64 x => toStringUint64 x
  | .array vs =>
    code '[' :: (l.newline ++ (stringifyElems l (indent + 1) vs ++
      (l.newline ++ (l.pad indent ++ [code ']']))))
  | .object ms =>
    code '{' :: (l.newline ++ (stringifyMembers l (indent + 1) ms ++
      (l.newline ++ (l.pad indent ++ [code '}']))))

/-- The loop over the elements of an array. -/
def stringifyElems (l : Layout) (indent : ℕ) : List JValue → JString
  | [] => []
  | v :: vs =>
    l.pad indent ++ (stringify l indent v ++
      if vs.isEmpty then [] else code ',' :: (l.newline ++ stringifyElems l indent vs))

/-- The loop over the members of an object. -/
def stringifyMembers (l : Layout) (indent : ℕ) : JObject → JString
  | [] => []
  | (key, v) :: ms =>
    l.pad indent ++ (code '"' :: (key ++ (code '"' :: code ':' :: (stringify l indent v ++
      if ms.isEmpty then [] else code ',' :: (l.newline ++ stringifyMembers l indent ms)))))

end

end SocketPro.Json
