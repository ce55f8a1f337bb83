import SocketPro.Foundation.Effect
import SocketPro.Json.Parser

/-!
# The reader over memory

`Parse` and the functions it calls once more, now with the pointer they move: each looks at `*data`,
adds to `data` and loops, as the source does. **A look past the terminating zero is a fault.** A
loop that runs out of its turns is `endless`; the turns suffice for every loop but one.

**The exponent.** `ParseStr` multiplies or divides as often as the exponent says and counts with a
`double`. The counter stops growing at `2 ^ 53`, so for a larger exponent the loop never ends
(`scaleEnds_iff`).
-/

namespace SocketPro.Json.Pointer

open Machine

/-- Where `data` points: at what is left of the text, which the terminating zero ends, or past that
zero. -/
abbrev Ptr := Option JString

/-- How a function ends that returns no value: with `nullptr`, or not at all. -/
inductive Stop
  | null
  | endless
deriving DecidableEq, Repr

abbrev Reader (α : Type) := Effect Stop Ptr α

/-! ### The pointer -/

/-- `data[k]`. -/
def peek (k : ℕ) : Reader ℕ
  | some s => if k ≤ s.length then .ok (s.getD k 0) (some s) else .fault
  | none => .fault

/-- `*data`. -/
def deref : Reader ℕ := peek 0

/-- `++data`. -/
def advance : Reader Unit
  | some (_ :: s) => .ok () (some s)
  | _ => .ok () none

/-- `data += k`. -/
def advanceBy : ℕ → Reader Unit
  | 0 => pure ()
  | k + 1 => do
    advance
    advanceBy k

def advanceIf (b : Bool) : Reader Unit := if b then advance else pure ()

/-- A copy of `data`. -/
def position : Reader Ptr := fun p ↦ .ok p p

/-- The units from `start` up to `data`. -/
def between (start data : Ptr) : JString :=
  (start.getD []).take ((start.getD []).length - (data.getD []).length)

/-! ### Scanning -/

/-- `while (p(*data)) ++data;`. -/
def skipWhile (p : ℕ → Bool) : ℕ → Reader Unit
  | 0 => Effect.raise .endless
  | n + 1 => do
    let c ← deref
    if p c then do
      advance
      skipWhile p n
    else pure ()

/-- `SkipWhitespace`. -/
def skipWhitespace (size : ℕ) : Reader Bool := do
  skipWhile isSpace size
  let c ← deref
  return decide (c ≠ 0)

/-- `if (!SkipWhitespace(data)) return nullptr;`. -/
def toSign (size : ℕ) : Reader Unit := do
  let more ← skipWhitespace size
  if more then pure () else Effect.raise .null

/-- The loop over the digits of a `\u` escape; `k` are left. -/
def hexDigits : ℕ → Reader Unit
  | 0 => pure ()
  | k + 1 => do
    advance
    let h ← deref
    if isHex h then hexDigits k else Effect.raise .null

/-- The loop of `ExtractString`. -/
def extractLoop (start : Ptr) : ℕ → Reader JString
  | 0 => Effect.raise .endless
  | n + 1 => do
    let c ← deref
    if c = 0 then Effect.raise .null
    else if narrow c = code '\\' then do
      advance
      let e ← deref
      if isSimpleEscape e then do
        advance
        extractLoop start n
      else if e = code 'u' then do
        hexDigits 4
        advance
        extractLoop start n
      else Effect.raise .null
    else if narrow c = code '"' then do
      let data ← position
      advance
      return between start data
    else if isControl c then Effect.raise .null
    else do
      advance
      extractLoop start n

/-- `ExtractString`. -/
def extractString (size : ℕ) : Reader JString := do
  let start ← position
  extractLoop start size

/-! ### Numbers -/

/-- The loop of `atoll` and `atoull`. -/
def readDigits {α : Type} (accumulate : α → ℕ → α) (x : α) : ℕ → Reader α
  | 0 => Effect.raise .endless
  | n + 1 => do
    let c ← deref
    if isDigit c then do
      advance
      readDigits accumulate (accumulate x (c - code '0')) n
    else return x

/-- `atoll`. -/
def atoll (size : ℕ) : Reader ℤ := do
  let c ← deref
  let neg := decide (c = code '-')
  advanceIf neg
  let x ← readDigits (fun x d ↦ wrap64 (x * 10 + d)) 0 size
  return if neg then wrap64 (-x) else x

/-- `atoull`. -/
def atoull (size : ℕ) : Reader ℕ :=
  readDigits (fun x d ↦ (x * 10 + d) % 2 ^ 64) 0 size

/-- `(double) expo`, as far as it matters to a comparison with the counter: `2 ^ 53 + 1` is rounded
to `2 ^ 53`, and what is larger stays larger. -/
def castDouble (expo : ℤ) : ℤ := if expo = 2 ^ 53 + 1 then 2 ^ 53 else expo

/-- `for (double i = 0.0; i < expo; ++i)` comes to its end. -/
def scaleEnds (expo : ℤ) : Bool := expo ≤ 2 ^ 53 + 1

/-- A digit and those behind it, or `nullptr`. -/
def skipDigits (size : ℕ) : Reader Unit := do
  let c ← deref
  if isDigit c then skipWhile isDigit size else Effect.raise .null

/-- The part of a number from its point on. -/
def skipFraction (size : ℕ) : Reader Unit := do
  let c ← deref
  if c = code '.' then do
    advance
    skipDigits size
  else pure ()

/-- The digits of an exponent, and the loop that scales the number by them. -/
def scale (size : ℕ) : Reader Unit := do
  let c ← deref
  if isDigit c then do
    let expo ← atoll size
    if scaleEnds expo then pure () else Effect.raise .endless
  else Effect.raise .null

/-- The part of a number from its exponent on. -/
def skipExponent (size : ℕ) : Reader Unit := do
  let c ← deref
  if c = code 'E' ∨ c = code 'e' then do
    advance
    let sign ← deref
    advanceIf (decide (sign = code '-' ∨ sign = code '+'))
    scale size
  else pure ()

/-- The integer part of a number, behind its sign. -/
def parseInteger (size : ℕ) (neg : Bool) : Reader JValue := do
  let c ← deref
  if c = code '0' then do
    advance
    return .uint64 0
  else if isDigit c then
    if neg then do
      let x ← atoll size
      return ofInt64 (wrap64 (-x))
    else do
      let x ← atoull size
      return .uint64 x
  else Effect.raise .null

/-- The branch of `ParseStr` for numbers. -/
def parseNumber (size : ℕ) : Reader JValue := do
  let start ← position
  let c ← deref
  let neg := decide (c = code '-')
  advanceIf neg
  let value ← parseInteger size neg
  let c ← deref
  if c = code '.' ∨ c = code 'e' ∨ c = code 'E' then do
    skipFraction size
    skipExponent size
    let data ← position
    return .number (between start data)
  else return value

/-! ### Values -/

/-- `data[0] == w₀ && data[1] == w₁ && …`, from the unit `k` on. -/
def startsWith (k : ℕ) : JString → Reader Bool
  | [] => pure true
  | w :: word => do
    let c ← peek k
    if c = w then startsWith (k + 1) word else pure false

/-- The value of a word, or else what follows. -/
def wordOr (word : JString) (value : JValue) (other : Reader JValue) : Reader JValue := do
  let found ← startsWith 0 word
  if found then do
    advanceBy word.length
    return value
  else other

/-- Behind an element or a member: the bracket that closes the value, or a comma and one more turn
of the loop. -/
def next (size close : ℕ) (value : JValue) (loop : Reader JValue) : Reader JValue := do
  toSign size
  let c ← deref
  if c = close then do
    advance
    return value
  else if c ≠ code ',' then Effect.raise .null
  else do
    advance
    loop

mutual

/-- `ParseStr`. -/
def parseStr (size : ℕ) : ℕ → Reader JValue
  | 0 => Effect.raise .endless
  | n + 1 => do
    let c ← deref
    if c = code '"' then do
      advance
      let str ← extractString size
      return .string str
    else wordOr jFalse (.bool false) <| wordOr jTrue (.bool true) <| wordOr jNull .null <|
      if c = code '-' ∨ isDigit c then parseNumber size
      else if c = code '{' then do
        advance
        parseMembers size n []
      else if c = code '[' then do
        advance
        parseElems size n []
      else Effect.raise .null

/-- The loop of `ParseStr` over the members of an object. -/
def parseMembers (size : ℕ) : ℕ → JObject → Reader JValue
  | 0, _ => Effect.raise .endless
  | n + 1, object => do
    let c ← deref
    if c = 0 then Effect.raise .null
    else do
      toSign size
      let c ← deref
      if object.isEmpty ∧ c = code '}' then do
        advance
        return .object object
      else if c ≠ code '"' then Effect.raise .null
      else do
        advance
        let name ← extractString size
        toSign size
        let c ← deref
        advance
        if c ≠ code ':' then Effect.raise .null
        else do
          toSign size
          let value ← parseStr size n
          next size (code '}') (.object (object.set name value))
            (parseMembers size n (object.set name value))

/-- The loop of `ParseStr` over the elements of an array. -/
def parseElems (size : ℕ) : ℕ → List JValue → Reader JValue
  | 0, _ => Effect.raise .endless
  | n + 1, array => do
    let c ← deref
    if c = 0 then Effect.raise .null
    else do
      toSign size
      let c ← deref
      if array.isEmpty ∧ c = code ']' then do
        advance
        return .array array
      else do
        let value ← parseStr size n
        next size (code ']') (.array (array ++ [value])) (parseElems size n (array ++ [value]))

end

/-- `JValue::Parse`. -/
def parse (size : ℕ) : Reader JValue := do
  toSign size
  let value ← parseStr size (2 * size)
  let more ← skipWhitespace size
  if more then Effect.raise .null else return value

/-- `JValue::Parse` on a text that a zero ends. No loop over its units takes more turns than it has
units, and one to find the end. -/
def parseText (text : JString) : Outcome Stop Ptr JValue :=
  parse (text.length + 1) (some text)

/-- A text without its closing bracket is looked at up to the zero and no further. -/
example : parseText [code '[', code '1', code ','] = .throw .null (some []) := rfl

end SocketPro.Json.Pointer
