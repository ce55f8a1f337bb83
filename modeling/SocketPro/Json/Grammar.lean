import SocketPro.Json.JValue

/-!
# The JSON grammar

The grammar of RFC 8259 as a relation between a text, the value it denotes and the text that is left
behind it, relaxed for strings: between the quotes every unit may stand that is neither a quote nor
a backslash nor a control character other than the tab. Nothing here is taken from the reader.

**Strings.** What a string denotes depends on how its escapes are read, so the grammar has a
parameter `read`: `unescape` replaces each escape by the character it stands for, encoded in UTF-8,
and `id` keeps the spelling.

**Numbers.** Which texts are numbers, and what they denote, is the parameter `num`. In `Fitting` an
integer denotes the `Int64` or `Uint64` that holds it, and a number with a fraction or an exponent
is kept as its text. `Number` has the other integers as well, of whose value it only says that it is
an integer.
-/

namespace SocketPro.Json

/-! ### Characters -/

/-- `ws`, one unit of it. -/
def IsWs (c : ℕ) : Prop := c = 0x20 ∨ c = 0x09 ∨ c = 0x0A ∨ c = 0x0D

def IsDigit (c : ℕ) : Prop := 0x30 ≤ c ∧ c ≤ 0x39

def IsHexDigit (c : ℕ) : Prop := IsDigit c ∨ 0x41 ≤ c ∧ c ≤ 0x46 ∨ 0x61 ≤ c ∧ c ≤ 0x66

/-- `unescaped`, with the tab. -/
def IsUnescaped (c : ℕ) : Prop := c = 0x09 ∨ 0x20 ≤ c ∧ c ≠ 0x22 ∧ c ≠ 0x5C

/-- The units that stand alone behind a backslash, each with the character it stands for. -/
def escapes : List (ℕ × ℕ) :=
  [(code '"', 0x22), (code '\\', 0x5C), (code '/', 0x2F), (code 'b', 0x08), (code 'f', 0x0C),
    (code 'n', 0x0A), (code 'r', 0x0D), (code 't', 0x09)]

/-- White space stands before `r` in `t`. -/
def White (t r : JString) : Prop := ∃ ws, (∀ c ∈ ws, IsWs c) ∧ t = ws ++ r

/-! ### Strings -/

/-- `*char`, what stands between the quotes. -/
inductive Chars : JString → Prop where
  | nil : Chars []
  | unescaped {c : ℕ} {s : JString} (hc : IsUnescaped c) (hs : Chars s) : Chars (c :: s)
  | escape {e : ℕ} {s : JString} (he : e ∈ escapes.map Prod.fst) (hs : Chars s) :
    Chars (code '\\' :: e :: s)
  | unicode {h₁ h₂ h₃ h₄ : ℕ} {s : JString} (hh : ∀ h ∈ [h₁, h₂, h₃, h₄], IsHexDigit h)
    (hs : Chars s) : Chars (code '\\' :: code 'u' :: h₁ :: h₂ :: h₃ :: h₄ :: s)

/-- The value of a hexadecimal digit. -/
def hexValue (c : ℕ) : ℕ :=
  if c ≤ 0x39 then c - 0x30 else if c ≤ 0x46 then c - 0x41 + 10 else c - 0x61 + 10

/-- The UTF-8 encoding of a code point. -/
def utf8 (n : ℕ) : JString :=
  if n < 0x80 then [n]
  else if n < 0x800 then [0xC0 + n / 64, 0x80 + n % 64]
  else if n < 0x10000 then [0xE0 + n / 4096, 0x80 + n / 64 % 64, 0x80 + n % 64]
  else [0xF0 + n / 262144, 0x80 + n / 4096 % 64, 0x80 + n / 64 % 64, 0x80 + n % 64]

/-- The code units of a string body: its escapes replaced by what they stand for. The flag says
which units came from a `\u` escape. -/
def unescapeUnits : JString → List (ℕ × Bool)
  | [] => []
  | [c] => [(c, false)]
  | c :: e :: s =>
    if c = code '\\' then
      if e = code 'u' then
        match s with
        | h₁ :: h₂ :: h₃ :: h₄ :: s =>
          (((hexValue h₁ * 16 + hexValue h₂) * 16 + hexValue h₃) * 16 + hexValue h₄, true) ::
            unescapeUnits s
        | _ => []
      else ((escapes.lookup e).getD e, false) :: unescapeUnits s
    else (c, false) :: unescapeUnits (e :: s)

/-- UTF-8 for the units that came from escapes, two surrogates taken together. -/
def encodeUnits : List (ℕ × Bool) → JString
  | [] => []
  | [(u, escaped)] => if escaped then utf8 u else [u]
  | (u, escaped) :: (l, escaped') :: us =>
    if escaped ∧ escaped' ∧ 0xD800 ≤ u ∧ u < 0xDC00 ∧ 0xDC00 ≤ l ∧ l < 0xE000 then
      utf8 (0x10000 + (u - 0xD800) * 1024 + (l - 0xDC00)) ++ encodeUnits us
    else (if escaped then utf8 u else [u]) ++ encodeUnits ((l, escaped') :: us)

/-- The characters that a string body denotes. -/
def unescape (s : JString) : JString := encodeUnits (unescapeUnits s)

/-- A line feed, a surrogate pair and an unescaped unit. -/
example : unescape [92, 110, 92, 117, 68, 56, 51, 68, 92, 117, 68, 69, 48, 48, 65] =
    [10, 0xF0, 0x9F, 0x98, 0x80, 65] := by decide

/-! ### Numbers -/

/-- `1*DIGIT`. -/
def Digits (ds : JString) : Prop := ds ≠ [] ∧ ∀ c ∈ ds, IsDigit c

/-- The number that digits denote. -/
def digitsValue (ds : JString) : ℕ := ds.foldl (fun x c ↦ x * 10 + (c - 0x30)) 0

/-- `int`, no leading zeros. -/
def IsInt (t : JString) : Prop :=
  t = [code '0'] ∨ Digits t ∧ t.head? ≠ some (code '0')

/-- `[ frac ]`. -/
def IsFrac (t : JString) : Prop := t = [] ∨ ∃ ds, t = code '.' :: ds ∧ Digits ds

/-- `[ exp ]`. -/
def IsExp (t : JString) : Prop :=
  t = [] ∨ ∃ e sign ds, t = e :: (sign ++ ds) ∧ e ∈ [code 'e', code 'E'] ∧
    sign ∈ [[], [code '+'], [code '-']] ∧ Digits ds

/-- `[ minus ] int [ frac ] [ exp ]` and what it denotes: an integer that a 64-bit word holds, or a
number that is not written as an integer. -/
inductive Fitting : JString → JValue → Prop where
  | integer {int : JString} (hint : IsInt int) (hrange : digitsValue int < 2 ^ 64) :
    Fitting int (.uint64 (digitsValue int))
  | negative {int : JString} (hint : IsInt int) (hrange : digitsValue int ≤ 2 ^ 63) :
    Fitting (code '-' :: int) (ofInt64 (-digitsValue int))
  | fractional {minus int frac exp : JString} (hminus : minus ∈ [[], [code '-']])
    (hint : IsInt int) (hfrac : IsFrac frac) (hexp : IsExp exp) (hne : frac ++ exp ≠ []) :
    Fitting (minus ++ (int ++ (frac ++ exp))) (.number (minus ++ (int ++ (frac ++ exp))))

/-- The same with the integers that no word holds. -/
inductive Number : JString → JValue → Prop where
  | fitting {t : JString} {v : JValue} (h : Fitting t v) : Number t v
  | large {int : JString} {n : ℕ} (hint : IsInt int) (hrange : 2 ^ 64 ≤ digitsValue int) :
    Number int (.uint64 n)
  | small {int : JString} {n : ℤ} (hint : IsInt int) (hrange : 2 ^ 63 < digitsValue int) :
    Number (code '-' :: int) (ofInt64 n)

/-! ### Values -/

/-- The object with these members. Of the members with one key the last counts. -/
def ofMembers (ms : List (JString × JValue)) : JObject :=
  ms.foldl (fun object m ↦ object.set m.1 m.2) []

section Values

variable (read : JString → JString) (num : JString → JValue → Prop)

mutual

/-- `value`: a text, the value that stands at its front, and what is left behind it. -/
inductive Value : JString → JValue → JString → Prop where
  | null {r : JString} : Value (jNull ++ r) .null r
  | true {r : JString} : Value (jTrue ++ r) (.bool true) r
  | false {r : JString} : Value (jFalse ++ r) (.bool false) r
  | string {s r : JString} (hs : Chars s) :
    Value (code '"' :: (s ++ code '"' :: r)) (.string (read s)) r
  | number {t r : JString} {v : JValue} (hv : num t v) : Value (t ++ r) v r
  | emptyArray {t r : JString} (ht : White t (code ']' :: r)) :
    Value (code '[' :: t) (.array []) r
  | array {t r : JString} {vs : List JValue} (ht : Elements t vs r) :
    Value (code '[' :: t) (.array vs) r
  | emptyObject {t r : JString} (ht : White t (code '}' :: r)) :
    Value (code '{' :: t) (.object []) r
  | object {t r : JString} {ms : List (JString × JValue)} (ht : Members t ms r) :
    Value (code '{' :: t) (.object (ofMembers ms)) r

/-- The values of an array, up to its closing bracket. -/
inductive Elements : JString → List JValue → JString → Prop where
  | last {t t₁ t₂ r : JString} {v : JValue} (h₁ : White t t₁) (hv : Value t₁ v t₂)
    (h₂ : White t₂ (code ']' :: r)) : Elements t [v] r
  | cons {t t₁ t₂ t₃ r : JString} {v : JValue} {vs : List JValue} (h₁ : White t t₁)
    (hv : Value t₁ v t₂) (h₂ : White t₂ (code ',' :: t₃)) (hvs : Elements t₃ vs r) :
    Elements t (v :: vs) r

/-- The members of an object, up to its closing brace. -/
inductive Members : JString → List (JString × JValue) → JString → Prop where
  | last {t s t₁ t₂ t₃ t₄ r : JString} {v : JValue}
    (h₁ : White t (code '"' :: (s ++ code '"' :: t₁))) (hs : Chars s)
    (h₂ : White t₁ (code ':' :: t₂)) (h₃ : White t₂ t₃) (hv : Value t₃ v t₄)
    (h₄ : White t₄ (code '}' :: r)) : Members t [(read s, v)] r
  | cons {t s t₁ t₂ t₃ t₄ t₅ r : JString} {v : JValue} {ms : List (JString × JValue)}
    (h₁ : White t (code '"' :: (s ++ code '"' :: t₁))) (hs : Chars s)
    (h₂ : White t₁ (code ':' :: t₂)) (h₃ : White t₂ t₃) (hv : Value t₃ v t₄)
    (h₄ : White t₄ (code ',' :: t₅)) (hms : Members t₅ ms r) :
    Members t ((read s, v) :: ms) r

end

/-- **A JSON text**: one value between white space. -/
def JsonText (text : JString) (v : JValue) : Prop :=
  ∃ t r, White text t ∧ Value read num t v r ∧ White r []

end Values

end SocketPro.Json
