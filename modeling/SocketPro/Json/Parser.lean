import SocketPro.Json.JValue
import Mathlib.Data.List.TakeWhile

/-!
# The JSON reader

`Parse` and the functions it calls. A C string is the list of its units up to the terminating zero,
so the pointer `data` is the list that is left and reading past the last unit yields the zero.

**The string scanner narrows.** `ExtractString` looks at each unit through a `char`, that is through
its low byte, except right after a backslash. What stands between the quotes is kept as it is, with
its backslashes. `StringBody` is the lexical rule it amounts to.

**Recursion.** The functions recurse on a bound that `parse` sets from the length of the text.
`parse_fuel` shows that a larger bound makes no difference, so it never cuts a reading short.
-/

namespace SocketPro.Json

/-! ### Scanning -/

/-- `*data`, the terminating zero at the end. -/
def cur (data : JString) : ℕ := data.headD 0

def isSpace (c : ℕ) : Bool :=
  c = code ' ' || c = code '\n' || c = code '\r' || c = code '\t'

def isDigit (c : ℕ) : Bool := code '0' ≤ c && c ≤ code '9'

/-- `SkipWhitespace`: the rest of the text, or `none` when the text ends. -/
def skipWhitespace (data : JString) : Option JString :=
  match data.dropWhile isSpace with
  | [] => none
  | c :: data => some (c :: data)

/-- A unit seen through a `char`. -/
def narrow (c : ℕ) : ℕ := c % 256

/-- The units allowed alone after a backslash. -/
def isSimpleEscape (c : ℕ) : Bool :=
  c = code '"' || c = code '\\' || c = code 'b' || c = code 'f' || c = code 'n' || c = code 'r' ||
    c = code 't' || c = code '/'

def isHex (c : ℕ) : Bool :=
  isDigit c || (code 'A' ≤ c && c ≤ code 'F') || (code 'a' ≤ c && c ≤ code 'f')

/-- `next > 0 && next < ' ' && next != '\t'`. -/
def isControl (c : ℕ) : Bool :=
  0 < narrow c && narrow c < code ' ' && narrow c ≠ code '\t'

/-- Put units that were passed over before what was read after them. -/
def prepend (cs : JString) (o : Option (JString × JString)) : Option (JString × JString) :=
  o.map fun r ↦ (cs ++ r.1, r.2)

/-- `ExtractString`: the text up to the closing quote, and what follows the quote. -/
def extractString : JString → Option (JString × JString)
  | [] => none
  | next :: data =>
    if narrow next = code '\\' then
      match data with
      | [] => none
      | e :: data =>
        if isSimpleEscape e then prepend [next, e] (extractString data)
        else if e = code 'u' then
          match data with
          | h₁ :: h₂ :: h₃ :: h₄ :: data =>
            if isHex h₁ && isHex h₂ && isHex h₃ && isHex h₄ then
              prepend [next, e, h₁, h₂, h₃, h₄] (extractString data)
            else none
          | _ => none
        else none
    else if narrow next = code '"' then some ([], data)
    else if isControl next then none
    else prepend [next] (extractString data)

/-- **The lexical rule of string bodies.** Each unit whose low byte is a backslash starts a complete
escape, and no other unit has the low byte of a quote or of a control character but the tab. -/
def StringBody : JString → Bool
  | [] => true
  | next :: s =>
    if narrow next = code '\\' then
      match s with
      | [] => false
      | e :: s =>
        if isSimpleEscape e then StringBody s
        else if e = code 'u' then
          match s with
          | h₁ :: h₂ :: h₃ :: h₄ :: s =>
            isHex h₁ && isHex h₂ && isHex h₃ && isHex h₄ && StringBody s
          | _ => false
        else false
    else narrow next ≠ code '"' && !isControl next && StringBody s

/-! ### Numbers -/

/-- The loop of `atoll` and `atoull`: accumulate the value of each digit. -/
def readDigits {α : Type} (accumulate : α → ℕ → α) (x : α) : JString → α × JString
  | [] => (x, [])
  | c :: data =>
    if isDigit c then readDigits accumulate (accumulate x (c - code '0')) data else (x, c :: data)

/-- `atoll` on a text that starts with a digit. -/
def atoll (data : JString) : ℤ × JString :=
  readDigits (fun x d ↦ wrap64 (x * 10 + d)) 0 data

/-- `atoull`. -/
def atoull (data : JString) : ℕ × JString :=
  readDigits (fun x d ↦ (x * 10 + d) % 2 ^ 64) 0 data

/-- A fraction or an exponent needs a digit; what it evaluates to is not modelled. -/
def skipDigits (data : JString) : Option JString :=
  if isDigit (cur data) then some (data.dropWhile isDigit) else none

/-- The part of a number from its point on. -/
def skipFraction (data : JString) : Option JString :=
  if cur data = code '.' then skipDigits data.tail else some data

/-- The part of a number from its exponent on. -/
def skipExponent (data : JString) : Option JString :=
  if cur data = code 'E' ∨ cur data = code 'e' then
    if cur data.tail = code '-' ∨ cur data.tail = code '+' then skipDigits data.tail.tail
    else skipDigits data.tail
  else some data

/-- The integer part of a number, behind its sign. -/
def parseInteger (neg : Bool) (start : JString) : Option (JValue × JString) :=
  if cur start = code '0' then some (.uint64 0, start.tail)
  else if isDigit (cur start) then
    if neg then some (ofInt64 (wrap64 (-(atoll start).1)), (atoll start).2)
    else some (.uint64 (atoull start).1, (atoull start).2)
  else none

/-- The branch of `ParseStr` for numbers. -/
def parseNumber (data : JString) : Option (JValue × JString) := do
  let neg : Bool := cur data = code '-'
  let (value, rest) ← parseInteger neg (if neg then data.tail else data)
  if cur rest = code '.' ∨ cur rest = code 'e' ∨ cur rest = code 'E' then
    let rest ← skipFraction rest
    let rest ← skipExponent rest
    return (.number (data.take (data.length - rest.length)), rest)
  return (value, rest)

/-! ### Values -/

mutual

/-- `ParseStr`. -/
def parseStr : ℕ → JString → Option (JValue × JString)
  | 0, _ => none
  | n + 1, data =>
    if cur data = code '"' then (extractString data.tail).map fun r ↦ (.string r.1, r.2)
    else if jFalse <+: data then some (.bool false, data.drop 5)
    else if jTrue <+: data then some (.bool true, data.drop 4)
    else if jNull <+: data then some (.null, data.drop 4)
    else if cur data = code '-' ∨ isDigit (cur data) then parseNumber data
    else if cur data = code '{' then parseMembers n [] data.tail
    else if cur data = code '[' then parseElems n [] data.tail
    else none

/-- The loop of `ParseStr` over the members of an object, with those read so far. -/
def parseMembers : ℕ → JObject → JString → Option (JValue × JString)
  | 0, _, _ => none
  | n + 1, object, data => do
    let data ← skipWhitespace data
    if object.isEmpty ∧ cur data = code '}' then return (.object object, data.tail)
    if cur data ≠ code '"' then none
    let (name, data) ← extractString data.tail
    let data ← skipWhitespace data
    if cur data ≠ code ':' then none
    let data ← skipWhitespace data.tail
    let (value, data) ← parseStr n data
    let data ← skipWhitespace data
    if cur data = code '}' then return (.object (object.set name value), data.tail)
    if cur data ≠ code ',' then none
    parseMembers n (object.set name value) data.tail

/-- The loop of `ParseStr` over the elements of an array, with those read so far. -/
def parseElems : ℕ → List JValue → JString → Option (JValue × JString)
  | 0, _, _ => none
  | n + 1, array, data => do
    let data ← skipWhitespace data
    if array.isEmpty ∧ cur data = code ']' then return (.array array, data.tail)
    let (value, data) ← parseStr n data
    let data ← skipWhitespace data
    if cur data = code ']' then return (.array (array ++ [value]), data.tail)
    if cur data ≠ code ',' then none
    parseElems n (array ++ [value]) data.tail

end

/-- The units of a C string up to its terminating zero. -/
def cString (data : JString) : JString := data.takeWhile (· ≠ 0)

/-- `JValue::Parse`: one value with white space around it, and nothing else. -/
def parse (text : JString) : Option JValue := do
  let data ← skipWhitespace (cString text)
  let (value, data) ← parseStr (2 * data.length + 1) data
  match skipWhitespace data with
  | some _ => none
  | none => some value

theorem cString_eq {s : JString} (hs : NulFree s) : cString s = s := by
  rw [cString, List.takeWhile_eq_self_iff]
  intro c hc
  simpa using hs c hc

/-! ### White space -/

theorem skipWhitespace_append {ws : JString} (hws : ∀ c ∈ ws, isSpace c = true) (data : JString) :
    skipWhitespace (ws ++ data) = skipWhitespace data := by
  rw [skipWhitespace, skipWhitespace, List.dropWhile_append_of_pos hws]

theorem skipWhitespace_cons {c : ℕ} (hc : isSpace c = false) (data : JString) :
    skipWhitespace (c :: data) = some (c :: data) := by
  simp [skipWhitespace, hc]

theorem skipWhitespace_length {data rest : JString} (h : skipWhitespace data = some rest) :
    rest.length ≤ data.length ∧ rest ≠ [] := by
  unfold skipWhitespace at h
  split at h
  · exact absurd h (by simp)
  · rename_i c tail heq
    obtain rfl := Option.some.inj h
    exact ⟨heq ▸ (List.dropWhile_suffix isSpace).length_le, by simp⟩

/-! ### String bodies -/

theorem extractString_quote {c : ℕ} (hc : narrow c = code '"') (rest : JString) :
    extractString (c :: rest) = some ([], rest) := by
  have hne : code '"' ≠ code '\\' := by decide
  rw [extractString.eq_def]
  simp [hc, hne]

theorem extractString_plain {c : ℕ} (hbackslash : narrow c ≠ code '\\')
    (hquote : narrow c ≠ code '"') (hcontrol : isControl c = false) (data : JString) :
    extractString (c :: data) = prepend [c] (extractString data) := by
  rw [extractString.eq_def]
  simp [hbackslash, hquote, hcontrol]

theorem extractString_simple {c e : ℕ} (hc : narrow c = code '\\') (he : isSimpleEscape e = true)
    (data : JString) : extractString (c :: e :: data) = prepend [c, e] (extractString data) := by
  rw [extractString.eq_def]
  simp [hc, he]

theorem extractString_unicode {c h₁ h₂ h₃ h₄ : ℕ} (hc : narrow c = code '\\')
    (hhex : (isHex h₁ && isHex h₂ && isHex h₃ && isHex h₄) = true) (data : JString) :
    extractString (c :: code 'u' :: h₁ :: h₂ :: h₃ :: h₄ :: data) =
      prepend [c, code 'u', h₁, h₂, h₃, h₄] (extractString data) := by
  have hu : isSimpleEscape (code 'u') = false := by decide
  rw [extractString.eq_def]
  simp [hc, hu, hhex]

/-- The scanner accepts a string body and stops right behind the closing quote. -/
theorem extractString_append {s : JString} (hs : StringBody s = true) (rest : JString) :
    extractString (s ++ code '"' :: rest) = some (s, rest) := by
  fun_induction StringBody s with
  | case1 => exact extractString_quote (by decide) rest
  | case2 => simp at hs
  | case3 next hnext e s he ih =>
    rw [List.cons_append, List.cons_append, extractString_simple hnext he, ih hs]
    rfl
  | case4 next hnext h₁ h₂ h₃ h₄ s he ih =>
    rw [Bool.and_eq_true] at hs
    simp only [List.cons_append]
    rw [extractString_unicode hnext hs.1, ih hs.2]
    rfl
  | case5 => simp at hs
  | case6 => simp at hs
  | case7 next s hnext ih =>
    simp only [Bool.and_eq_true, Bool.not_eq_true', decide_eq_true_eq] at hs
    obtain ⟨⟨hquote, hcontrol⟩, hs⟩ := hs
    rw [List.cons_append, extractString_plain hnext hquote hcontrol, ih hs]
    rfl

theorem prepend_eq_some {cs s rest : JString} {o : Option (JString × JString)}
    (h : prepend cs o = some (s, rest)) : ∃ s', o = some (s', rest) ∧ s = cs ++ s' := by
  obtain ⟨⟨s', rest'⟩, ho, heq⟩ := Option.map_eq_some_iff.1 h
  obtain ⟨rfl, rfl⟩ := Prod.mk.inj heq
  exact ⟨s', ho, rfl⟩

/-- What the scanner accepts is a string body, and it consumes at least the closing quote. -/
theorem stringBody_of_extractString {data s rest : JString}
    (h : extractString data = some (s, rest)) :
    StringBody s = true ∧ rest.length < data.length := by
  fun_induction extractString data generalizing s with
  | case1 => simp at h
  | case2 => simp at h
  | case3 next hnext e data he ih =>
    obtain ⟨s', hs', rfl⟩ := prepend_eq_some h
    obtain ⟨hbody, hlen⟩ := ih hs'
    refine ⟨?_, by simp only [List.length_cons]; omega⟩
    rw [List.cons_append, List.cons_append, StringBody.eq_def]
    simpa [hnext, he] using hbody
  | case4 next hnext h₁ h₂ h₃ h₄ data hhex he ih =>
    obtain ⟨s', hs', rfl⟩ := prepend_eq_some h
    obtain ⟨hbody, hlen⟩ := ih hs'
    refine ⟨?_, by simp only [List.length_cons]; omega⟩
    simp only [List.cons_append]
    rw [StringBody.eq_def]
    simp only [Bool.and_eq_true] at hhex
    simpa [hnext, he, hhex] using hbody
  | case5 => simp at h
  | case6 => simp at h
  | case7 => simp at h
  | case8 next data hnext hquote =>
    obtain ⟨rfl, rfl⟩ := Prod.mk.inj (Option.some.inj h)
    exact ⟨rfl, by simp⟩
  | case9 => simp at h
  | case10 next data hnext hquote hcontrol ih =>
    obtain ⟨s', hs', rfl⟩ := prepend_eq_some h
    obtain ⟨hbody, hlen⟩ := ih hs'
    refine ⟨?_, by simp only [List.length_cons]; omega⟩
    rw [List.cons_append, StringBody.eq_def]
    simpa [hnext, hquote, hcontrol] using hbody

/-! ### What the reader consumes -/

theorem readDigits_length {α : Type} (accumulate : α → ℕ → α) (x : α) (data : JString) :
    (readDigits accumulate x data).2.length ≤ data.length := by
  induction data generalizing x with
  | nil => exact le_rfl
  | cons c data ih =>
    rw [readDigits]
    split
    · exact (ih _).trans (by simp)
    · exact le_rfl

/-- A text that starts with a digit is not empty, and the loop takes at least that digit. -/
theorem readDigits_length_lt {α : Type} (accumulate : α → ℕ → α) (x : α) {data : JString}
    (hdata : isDigit (cur data) = true) :
    (readDigits accumulate x data).2.length < data.length := by
  cases data with
  | nil => exact absurd hdata (by decide)
  | cons c data =>
    rw [readDigits, if_pos (show isDigit c = true from hdata)]
    exact (readDigits_length _ _ _).trans_lt (by simp)

theorem skipDigits_length {data rest : JString} (h : skipDigits data = some rest) :
    rest.length ≤ data.length := by
  unfold skipDigits at h
  split at h
  · exact Option.some.inj h ▸ (List.dropWhile_suffix isDigit).length_le
  · exact absurd h (by simp)

theorem skipFraction_length {data rest : JString} (h : skipFraction data = some rest) :
    rest.length ≤ data.length := by
  unfold skipFraction at h
  split at h
  · exact (skipDigits_length h).trans (List.tail_suffix data).length_le
  · exact Option.some.inj h ▸ le_rfl

theorem skipExponent_length {data rest : JString} (h : skipExponent data = some rest) :
    rest.length ≤ data.length := by
  have htail := (List.tail_suffix data).length_le
  have htail' := (List.tail_suffix data.tail).length_le
  unfold skipExponent at h
  split at h
  · split at h
    · exact (skipDigits_length h).trans (htail'.trans htail)
    · exact (skipDigits_length h).trans htail
  · exact Option.some.inj h ▸ le_rfl

theorem tail_length_lt {data : JString} {c : ℕ} (hcur : cur data = c) (hc : c ≠ 0) :
    data.tail.length < data.length := by
  cases data with
  | nil => exact absurd hcur.symm hc
  | cons => simp

theorem parseInteger_some {neg : Bool} {start rest : JString} {v : JValue}
    (h : parseInteger neg start = some (v, rest)) :
    rest.length < start.length ∧ ((∃ n, v = .uint64 n) ∨ ∃ x, v = .int64 x) := by
  unfold parseInteger at h
  split at h
  · rename_i hzero
    obtain ⟨rfl, rfl⟩ := Prod.mk.inj (Option.some.inj h)
    exact ⟨tail_length_lt hzero (by decide), .inl ⟨0, rfl⟩⟩
  · split at h
    · rename_i hdigit
      split at h
      · obtain ⟨rfl, rfl⟩ := Prod.mk.inj (Option.some.inj h)
        refine ⟨readDigits_length_lt _ _ hdigit, ?_⟩
        unfold ofInt64
        split
        · exact .inr ⟨_, rfl⟩
        · exact .inl ⟨_, rfl⟩
      · obtain ⟨rfl, rfl⟩ := Prod.mk.inj (Option.some.inj h)
        exact ⟨readDigits_length_lt _ _ hdigit, .inl ⟨_, rfl⟩⟩
    · exact absurd h (by simp)

/-- What `parseNumber` yields: a number of one of the three kinds, and it consumes something. -/
theorem parseNumber_some {data rest : JString} {v : JValue}
    (h : parseNumber data = some (v, rest)) :
    rest.length < data.length ∧
      ((∃ n, v = .uint64 n) ∨ (∃ x, v = .int64 x) ∨ ∃ text, v = .number text) := by
  simp only [parseNumber, Option.bind_eq_bind, Option.bind_eq_some_iff] at h
  obtain ⟨⟨value, rest₀⟩, hint, h⟩ := h
  have hlen : (if cur data = code '-' then data.tail else data).length ≤ data.length := by
    split
    · exact (List.tail_suffix data).length_le
    · exact le_rfl
  obtain ⟨hrest, hvalue⟩ := parseInteger_some hint
  simp only [decide_eq_true_eq] at hrest
  split at h
  · simp only [Option.bind_eq_some_iff] at h
    obtain ⟨rest₁, hfraction, rest₂, hexponent, h⟩ := h
    obtain ⟨rfl, rfl⟩ := Prod.mk.inj (Option.some.inj h)
    have hle := (skipExponent_length hexponent).trans (skipFraction_length hfraction)
    exact ⟨hle.trans_lt (hrest.trans_le hlen), .inr (.inr ⟨_, rfl⟩)⟩
  · obtain ⟨rfl, rfl⟩ := Prod.mk.inj (Option.some.inj h)
    exact ⟨hrest.trans_le hlen, hvalue.imp_right .inl⟩

/-! ### One turn of a loop -/

/-- What the loop does behind an element. -/
def nextElem (n : ℕ) (array : List JValue) (data : JString) : Option (JValue × JString) :=
  (skipWhitespace data).bind fun data ↦
    if cur data = code ']' then some (.array array, data.tail)
    else if cur data = code ',' then parseElems n array data.tail
    else none

/-- What the loop does behind a member. -/
def nextMember (n : ℕ) (object : JObject) (data : JString) : Option (JValue × JString) :=
  (skipWhitespace data).bind fun data ↦
    if cur data = code '}' then some (.object object, data.tail)
    else if cur data = code ',' then parseMembers n object data.tail
    else none

/-- The body of the loop. -/
theorem parseElems_eq (n : ℕ) (array : List JValue) (data : JString) :
    parseElems (n + 1) array data = (skipWhitespace data).bind fun d ↦
      if array.isEmpty ∧ cur d = code ']' then some (.array array, d.tail)
      else (parseStr n d).bind fun r ↦ nextElem n (array ++ [r.1]) r.2 := by
  rw [parseElems]
  refine Option.bind_congr fun d _ ↦ ?_
  split
  · rfl
  · refine Option.bind_congr fun ⟨value, d₁⟩ _ ↦ Option.bind_congr fun d₂ _ ↦ ?_
    split
    · rfl
    · split
      · rfl
      · rename_i h
        rw [if_pos (not_not.1 h)]

theorem parseMembers_eq (n : ℕ) (object : JObject) (data : JString) :
    parseMembers (n + 1) object data = (skipWhitespace data).bind fun d ↦
      if object.isEmpty ∧ cur d = code '}' then some (.object object, d.tail)
      else if cur d ≠ code '"' then none
      else (extractString d.tail).bind fun name ↦ (skipWhitespace name.2).bind fun d₂ ↦
        if cur d₂ ≠ code ':' then none
        else (skipWhitespace d₂.tail).bind fun d₃ ↦
          (parseStr n d₃).bind fun r ↦ nextMember n (object.set name.1 r.1) r.2 := by
  rw [parseMembers]
  refine Option.bind_congr fun d _ ↦ ?_
  split
  · rfl
  · split
    · rfl
    · refine Option.bind_congr fun ⟨name, d₁⟩ _ ↦ Option.bind_congr fun d₂ _ ↦ ?_
      split
      · rfl
      · refine Option.bind_congr fun d₃ _ ↦ Option.bind_congr fun ⟨value, d₄⟩ _ ↦
          Option.bind_congr fun d₅ _ ↦ ?_
        split
        · rfl
        · split
          · rfl
          · rename_i h
            rw [if_pos (not_not.1 h)]

theorem parseElems_step (n : ℕ) {array : List JValue} {data d : JString}
    (hd : skipWhitespace data = some d) (hclose : cur d ≠ code ']') :
    parseElems (n + 1) array data =
      (parseStr n d).bind fun r ↦ nextElem n (array ++ [r.1]) r.2 := by
  rw [parseElems_eq, hd, Option.bind_some, if_neg fun h ↦ hclose h.2]

theorem parseMembers_step (n : ℕ) {object : JObject} {data d name d₁ d₂ d₃ : JString}
    (hd : skipWhitespace data = some d) (hquote : cur d = code '"')
    (hname : extractString d.tail = some (name, d₁)) (hd₂ : skipWhitespace d₁ = some d₂)
    (hcolon : cur d₂ = code ':') (hd₃ : skipWhitespace d₂.tail = some d₃) :
    parseMembers (n + 1) object data =
      (parseStr n d₃).bind fun r ↦ nextMember n (object.set name r.1) r.2 := by
  have hne : code '"' ≠ code '}' := by decide
  rw [parseMembers_eq, hd, Option.bind_some, if_neg fun h ↦ hne (hquote.symm.trans h.2),
    if_neg (not_not.2 hquote), hname, Option.bind_some, hd₂, Option.bind_some,
    if_neg (not_not.2 hcolon), hd₃, Option.bind_some]

/-- One turn of the loop over the elements of an array. -/
theorem parseElems_some {n : ℕ} {array : List JValue} {data rest : JString} {v : JValue}
    (h : parseElems (n + 1) array data = some (v, rest)) :
    (∃ d, skipWhitespace data = some d ∧ array = [] ∧ cur d = code ']' ∧ v = .array [] ∧
        rest = d.tail) ∨
      ∃ d value d₁ d₂, skipWhitespace data = some d ∧ parseStr n d = some (value, d₁) ∧
        skipWhitespace d₁ = some d₂ ∧
        (cur d₂ = code ']' ∧ v = .array (array ++ [value]) ∧ rest = d₂.tail ∨
          cur d₂ = code ',' ∧ parseElems n (array ++ [value]) d₂.tail = some (v, rest)) := by
  rw [parseElems] at h
  obtain ⟨d, hd, h⟩ := Option.bind_eq_some_iff.1 h
  split at h
  · rename_i hclose
    obtain rfl := List.isEmpty_iff.1 hclose.1
    obtain ⟨rfl, rfl⟩ := Prod.mk.inj (Option.some.inj h)
    exact .inl ⟨d, hd, rfl, hclose.2, rfl, rfl⟩
  · obtain ⟨⟨value, d₁⟩, hvalue, h⟩ := Option.bind_eq_some_iff.1 h
    obtain ⟨d₂, hd₂, h⟩ := Option.bind_eq_some_iff.1 h
    refine .inr ⟨d, value, d₁, d₂, hd, hvalue, hd₂, ?_⟩
    split at h
    · rename_i hclose
      obtain ⟨rfl, rfl⟩ := Prod.mk.inj (Option.some.inj h)
      exact .inl ⟨hclose, rfl, rfl⟩
    · split at h
      · exact absurd h (by simp)
      · rename_i hcomma
        exact .inr ⟨not_not.1 hcomma, h⟩

/-- One turn of the loop over the members of an object. -/
theorem parseMembers_some {n : ℕ} {object : JObject} {data rest : JString} {v : JValue}
    (h : parseMembers (n + 1) object data = some (v, rest)) :
    (∃ d, skipWhitespace data = some d ∧ object = [] ∧ cur d = code '}' ∧ v = .object [] ∧
        rest = d.tail) ∨
      ∃ d name d₁ d₂ d₃ value d₄ d₅, skipWhitespace data = some d ∧ cur d = code '"' ∧
        extractString d.tail = some (name, d₁) ∧ skipWhitespace d₁ = some d₂ ∧
        cur d₂ = code ':' ∧ skipWhitespace d₂.tail = some d₃ ∧
        parseStr n d₃ = some (value, d₄) ∧ skipWhitespace d₄ = some d₅ ∧
        (cur d₅ = code '}' ∧ v = .object (object.set name value) ∧ rest = d₅.tail ∨
          cur d₅ = code ',' ∧
            parseMembers n (object.set name value) d₅.tail = some (v, rest)) := by
  rw [parseMembers] at h
  obtain ⟨d, hd, h⟩ := Option.bind_eq_some_iff.1 h
  split at h
  · rename_i hclose
    obtain rfl := List.isEmpty_iff.1 hclose.1
    obtain ⟨rfl, rfl⟩ := Prod.mk.inj (Option.some.inj h)
    exact .inl ⟨d, hd, rfl, hclose.2, rfl, rfl⟩
  · split at h
    · exact absurd h (by simp)
    · rename_i hquote
      obtain ⟨⟨name, d₁⟩, hname, h⟩ := Option.bind_eq_some_iff.1 h
      obtain ⟨d₂, hd₂, h⟩ := Option.bind_eq_some_iff.1 h
      split at h
      · exact absurd h (by simp)
      · rename_i hcolon
        obtain ⟨d₃, hd₃, h⟩ := Option.bind_eq_some_iff.1 h
        obtain ⟨⟨value, d₄⟩, hvalue, h⟩ := Option.bind_eq_some_iff.1 h
        obtain ⟨d₅, hd₅, h⟩ := Option.bind_eq_some_iff.1 h
        refine .inr ⟨d, name, d₁, d₂, d₃, value, d₄, d₅, hd, not_not.1 hquote, hname, hd₂,
          not_not.1 hcolon, hd₃, hvalue, hd₅, ?_⟩
        split at h
        · rename_i hclose
          obtain ⟨rfl, rfl⟩ := Prod.mk.inj (Option.some.inj h)
          exact .inl ⟨hclose, rfl, rfl⟩
        · split at h
          · exact absurd h (by simp)
          · rename_i hcomma
            exact .inr ⟨not_not.1 hcomma, h⟩

/-- The branches of `ParseStr`. -/
theorem parseStr_some {n : ℕ} {data rest : JString} {v : JValue}
    (h : parseStr (n + 1) data = some (v, rest)) :
    (cur data = code '"' ∧ ∃ s, extractString data.tail = some (s, rest) ∧ v = .string s) ∨
      (∃ word, (word, v) ∈ [(jFalse, .bool false), (jTrue, .bool true), (jNull, .null)] ∧
        data = word ++ rest) ∨
      parseNumber data = some (v, rest) ∨
      (cur data = code '{' ∧ parseMembers n [] data.tail = some (v, rest)) ∨
      cur data = code '[' ∧ parseElems n [] data.tail = some (v, rest) := by
  rw [parseStr] at h
  split at h
  · rename_i hquote
    obtain ⟨⟨s, rest'⟩, hs, heq⟩ := Option.map_eq_some_iff.1 h
    obtain ⟨rfl, rfl⟩ := Prod.mk.inj heq
    exact .inl ⟨hquote, s, hs, rfl⟩
  · split at h
    · rename_i hprefix
      obtain ⟨t, rfl⟩ := hprefix
      obtain ⟨rfl, rfl⟩ := Prod.mk.inj (Option.some.inj h)
      exact .inr (.inl ⟨jFalse, by simp, rfl⟩)
    · split at h
      · rename_i hprefix
        obtain ⟨t, rfl⟩ := hprefix
        obtain ⟨rfl, rfl⟩ := Prod.mk.inj (Option.some.inj h)
        exact .inr (.inl ⟨jTrue, by simp, rfl⟩)
      · split at h
        · rename_i hprefix
          obtain ⟨t, rfl⟩ := hprefix
          obtain ⟨rfl, rfl⟩ := Prod.mk.inj (Option.some.inj h)
          exact .inr (.inl ⟨jNull, by simp, rfl⟩)
        · split at h
          · exact .inr (.inr (.inl h))
          · split at h
            · rename_i hcur
              exact .inr (.inr (.inr (.inl ⟨hcur, h⟩)))
            · split at h
              · rename_i hcur
                exact .inr (.inr (.inr (.inr ⟨hcur, h⟩)))
              · exact absurd h (by simp)

/-- Reading a value consumes something; so do the loops once they are behind the bracket. -/
theorem parse_length (n : ℕ) :
    (∀ data v rest, parseStr n data = some (v, rest) → rest.length < data.length) ∧
    (∀ object data v rest, parseMembers n object data = some (v, rest) →
      rest.length < data.length) ∧
    (∀ array data v rest, parseElems n array data = some (v, rest) →
      rest.length < data.length) := by
  have hskip : ∀ {data d : JString}, skipWhitespace data = some d → d.tail.length < data.length := by
    intro data d hd
    obtain ⟨hle, hne⟩ := skipWhitespace_length hd
    have := List.length_pos_iff.2 hne
    rw [List.length_tail]
    omega
  induction n with
  | zero => exact ⟨by simp [parseStr], by simp [parseMembers], by simp [parseElems]⟩
  | succ n ih =>
    obtain ⟨ihStr, ihMembers, ihElems⟩ := ih
    refine ⟨fun data v rest h ↦ ?_, fun object data v rest h ↦ ?_, fun array data v rest h ↦ ?_⟩
    · have htail := (List.tail_suffix data).length_le
      rcases parseStr_some h with ⟨-, s, hs, -⟩ | ⟨word, hword, rfl⟩ | h | ⟨-, h⟩ | ⟨-, h⟩
      · exact (stringBody_of_extractString hs).2.trans_le htail
      · have hpos : 0 < word.length := by
          simp only [List.mem_cons, Prod.mk.injEq, List.not_mem_nil, or_false] at hword
          rcases hword with ⟨rfl, -⟩ | ⟨rfl, -⟩ | ⟨rfl, -⟩ <;> decide
        rw [List.length_append]
        omega
      · exact (parseNumber_some h).1
      · exact (ihMembers _ _ _ _ h).trans_le htail
      · exact (ihElems _ _ _ _ h).trans_le htail
    · rcases parseMembers_some h with ⟨d, hd, -, -, -, rfl⟩ |
        ⟨d, name, d₁, d₂, d₃, value, d₄, d₅, hd, -, hname, hd₂, -, hd₃, hvalue, hd₅, h⟩
      · exact hskip hd
      · have h₁ := (stringBody_of_extractString hname).2
        have h₂ := hskip hd
        have h₃ := hskip hd₂
        have h₄ := (skipWhitespace_length hd₃).1
        have h₅ := ihStr _ _ _ hvalue
        have h₆ := hskip hd₅
        rcases h with ⟨-, -, rfl⟩ | ⟨-, h⟩
        · omega
        · have := ihMembers _ _ _ _ h
          omega
    · rcases parseElems_some h with ⟨d, hd, -, -, -, rfl⟩ | ⟨d, value, d₁, d₂, hd, hvalue, hd₂, h⟩
      · exact hskip hd
      · have h₁ := (skipWhitespace_length hd).1
        have h₂ := ihStr _ _ _ hvalue
        have h₃ := hskip hd₂
        rcases h with ⟨-, -, rfl⟩ | ⟨-, h⟩
        · omega
        · have := ihElems _ _ _ _ h
          omega

/-- **The bound never cuts a reading short**: above twice the length of the text it does not
matter. -/
theorem parse_fuel (n : ℕ) :
    (∀ m data, 2 * data.length < n → 2 * data.length < m → parseStr n data = parseStr m data) ∧
    (∀ m object data, 2 * data.length + 1 < n → 2 * data.length + 1 < m →
      parseMembers n object data = parseMembers m object data) ∧
    (∀ m array data, 2 * data.length + 1 < n → 2 * data.length + 1 < m →
      parseElems n array data = parseElems m array data) := by
  induction n with
  | zero => exact ⟨fun _ _ h ↦ by omega, fun _ _ _ h ↦ by omega, fun _ _ _ h ↦ by omega⟩
  | succ n ih =>
    obtain ⟨ihStr, ihMembers, ihElems⟩ := ih
    refine ⟨fun m data hn hm ↦ ?_, fun m object data hn hm ↦ ?_, fun m array data hn hm ↦ ?_⟩
    all_goals
      obtain ⟨m, rfl⟩ : ∃ k, m = k + 1 := ⟨m - 1, by omega⟩
    · rw [parseStr, parseStr]
      rcases data with - | ⟨c, data⟩
      · rfl
      · simp only [List.length_cons] at hn hm
        rw [List.tail_cons, ihMembers m [] data (by omega) (by omega),
          ihElems m [] data (by omega) (by omega)]
    · rw [parseMembers, parseMembers]
      refine Option.bind_congr fun d hd ↦ ?_
      have h₁ := skipWhitespace_length hd
      have h₁' := List.length_pos_iff.2 h₁.2
      split
      · rfl
      · split
        · rfl
        · refine Option.bind_congr fun ⟨name, d₁⟩ hname ↦ ?_
          have h₂ := (stringBody_of_extractString hname).2
          rw [List.length_tail] at h₂
          refine Option.bind_congr fun d₂ hd₂ ↦ ?_
          have h₃ := (skipWhitespace_length hd₂).1
          split
          · rfl
          · refine Option.bind_congr fun d₃ hd₃ ↦ ?_
            have h₄ := (skipWhitespace_length hd₃).1
            rw [List.length_tail] at h₄
            rw [ihStr m d₃ (by omega) (by omega)]
            refine Option.bind_congr fun ⟨value, d₄⟩ hvalue ↦ ?_
            have h₅ := (parse_length m).1 _ _ _ hvalue
            refine Option.bind_congr fun d₅ hd₅ ↦ ?_
            have h₆ := (skipWhitespace_length hd₅).1
            rw [ihMembers m _ _ (by rw [List.length_tail]; omega) (by rw [List.length_tail]; omega)]
    · rw [parseElems, parseElems]
      refine Option.bind_congr fun d hd ↦ ?_
      have h₁ := (skipWhitespace_length hd).1
      split
      · rfl
      · rw [ihStr m d (by omega) (by omega)]
        refine Option.bind_congr fun ⟨value, d₁⟩ hvalue ↦ ?_
        have h₂ := (parse_length m).1 _ _ _ hvalue
        refine Option.bind_congr fun d₂ hd₂ ↦ ?_
        have h₃ := skipWhitespace_length hd₂
        have h₃' := List.length_pos_iff.2 h₃.2
        rw [ihElems m _ _ (by rw [List.length_tail]; omega) (by rw [List.length_tail]; omega)]

/-! ### The text of one value -/

/-- A text that starts with neither a quote nor one of the words. -/
theorem parseStr_other {data : JString}
    (hcur : ∀ c ∈ [code '"', code 'f', code 't', code 'n'], cur data ≠ c) (n : ℕ) :
    parseStr (n + 1) data =
      if cur data = code '-' ∨ isDigit (cur data) = true then parseNumber data
      else if cur data = code '{' then parseMembers n [] data.tail
      else if cur data = code '[' then parseElems n [] data.tail
      else none := by
  have hprefix : ∀ c ∈ [code '"', code 'f', code 't', code 'n'], ∀ p, ¬ c :: p <+: data := by
    rintro c hc p ⟨t, rfl⟩
    exact hcur c hc rfl
  have hfalse : ¬ jFalse <+: data := hprefix (code 'f') (by simp) _
  have htrue : ¬ jTrue <+: data := hprefix (code 't') (by simp) _
  have hnull : ¬ jNull <+: data := hprefix (code 'n') (by simp) _
  rw [parseStr, if_neg (hcur _ (by simp)), if_neg hfalse, if_neg htrue, if_neg hnull]

theorem parseStr_number {data : JString} (hdata : cur data = code '-' ∨ isDigit (cur data) = true)
    (n : ℕ) : parseStr (n + 1) data = parseNumber data := by
  have hcur : ∀ c ∈ [code '"', code 'f', code 't', code 'n'], cur data ≠ c := by
    rintro c hc rfl
    revert hdata
    generalize cur data = d at hc ⊢
    revert d
    decide
  rw [parseStr_other hcur, if_pos hdata]

theorem parseStr_bracket (n : ℕ) (data : JString) :
    parseStr (n + 1) (code '[' :: data) = parseElems n [] data := by
  have hcur : cur (code '[' :: data) = code '[' := rfl
  rw [parseStr_other (by rw [hcur]; decide), hcur, if_neg (by decide), if_neg (by decide),
    if_pos rfl, List.tail_cons]

theorem parseStr_brace (n : ℕ) (data : JString) :
    parseStr (n + 1) (code '{' :: data) = parseMembers n [] data := by
  have hcur : cur (code '{' :: data) = code '{' := rfl
  rw [parseStr_other (by rw [hcur]; decide), hcur, if_neg (by decide), if_pos rfl, List.tail_cons]

theorem parseStr_word (n : ℕ) (rest : JString) :
    parseStr (n + 1) (jNull ++ rest) = some (.null, rest) ∧
      parseStr (n + 1) (jTrue ++ rest) = some (.bool true, rest) ∧
      parseStr (n + 1) (jFalse ++ rest) = some (.bool false, rest) := by
  refine ⟨?_, ?_, ?_⟩ <;> simp [parseStr, jNull, jTrue, jFalse, cur, code]

/-! ### The text of one turn -/

theorem parseElems_close (n : ℕ) {ws : JString} (hws : ∀ c ∈ ws, isSpace c = true)
    (rest : JString) : parseElems (n + 1) [] (ws ++ code ']' :: rest) = some (.array [], rest) := by
  have hcur : cur (code ']' :: rest) = code ']' := rfl
  rw [parseElems, skipWhitespace_append hws, skipWhitespace_cons (by decide)]
  simp [hcur]

theorem parseMembers_close (n : ℕ) {ws : JString} (hws : ∀ c ∈ ws, isSpace c = true)
    (rest : JString) :
    parseMembers (n + 1) [] (ws ++ code '}' :: rest) = some (.object [], rest) := by
  have hcur : cur (code '}' :: rest) = code '}' := rfl
  rw [parseMembers, skipWhitespace_append hws, skipWhitespace_cons (by decide)]
  simp [hcur]

theorem parseElems_next (n : ℕ) (array : List JValue) {ws : JString}
    (hws : ∀ c ∈ ws, isSpace c = true) {c : ℕ} (hc : isSpace c = false) (hclose : c ≠ code ']')
    (data : JString) :
    parseElems (n + 1) array (ws ++ c :: data) =
      (parseStr n (c :: data)).bind fun r ↦ nextElem n (array ++ [r.1]) r.2 :=
  parseElems_step n ((skipWhitespace_append hws _).trans (skipWhitespace_cons hc data)) hclose

theorem parseMembers_next (n : ℕ) (object : JObject) {ws : JString}
    (hws : ∀ c ∈ ws, isSpace c = true) {key : JString} (hkey : StringBody key = true) {c : ℕ}
    (hc : isSpace c = false) (data : JString) :
    parseMembers (n + 1) object (ws ++ code '"' :: (key ++ code '"' :: code ':' :: c :: data)) =
      (parseStr n (c :: data)).bind fun r ↦ nextMember n (object.set key r.1) r.2 :=
  parseMembers_step n ((skipWhitespace_append hws _).trans (skipWhitespace_cons (by decide) _)) rfl
    (extractString_append hkey _) (skipWhitespace_cons (by decide) _) rfl
    (skipWhitespace_cons hc data)

theorem nextElem_close (n : ℕ) (array : List JValue) {ws : JString}
    (hws : ∀ c ∈ ws, isSpace c = true) (rest : JString) :
    nextElem n array (ws ++ code ']' :: rest) = some (.array array, rest) := by
  have hcur : cur (code ']' :: rest) = code ']' := rfl
  rw [nextElem, skipWhitespace_append hws, skipWhitespace_cons (by decide), Option.bind_some,
    if_pos hcur, List.tail_cons]

theorem nextElem_comma (n : ℕ) (array : List JValue) (data : JString) :
    nextElem n array (code ',' :: data) = parseElems n array data := by
  have hcur : cur (code ',' :: data) = code ',' := rfl
  rw [nextElem, skipWhitespace_cons (by decide), Option.bind_some, hcur, if_neg (by decide),
    if_pos rfl, List.tail_cons]

theorem nextMember_close (n : ℕ) (object : JObject) {ws : JString}
    (hws : ∀ c ∈ ws, isSpace c = true) (rest : JString) :
    nextMember n object (ws ++ code '}' :: rest) = some (.object object, rest) := by
  have hcur : cur (code '}' :: rest) = code '}' := rfl
  rw [nextMember, skipWhitespace_append hws, skipWhitespace_cons (by decide), Option.bind_some,
    if_pos hcur, List.tail_cons]

theorem nextMember_comma (n : ℕ) (object : JObject) (data : JString) :
    nextMember n object (code ',' :: data) = parseMembers n object data := by
  have hcur : cur (code ',' :: data) = code ',' := rfl
  rw [nextMember, skipWhitespace_cons (by decide), Option.bind_some, hcur, if_neg (by decide),
    if_pos rfl, List.tail_cons]

end SocketPro.Json
