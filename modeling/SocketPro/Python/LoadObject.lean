import SocketPro.Python.Objects
import SocketPro.Foundation.ReadBack
import SocketPro.Foundation.Calendar
import Mathlib.Data.Nat.Digits.Defs

/-!
# `LoadObject` of the Python `CUQueue`

The functions that take objects off the front of a queue, on its content. `LoadObject` is called
without a `func`, so that it cannot make an object with a `LoadFrom` of its own.

A decimal is read as an integer in digits, into which a point is put before the last `scale`
characters. Slices are Python's: a position that is negative counts from the end, and one that is
beyond an end is that end.

The elements of an array are read one after the other; the nesting of arrays is bounded by `fuel`,
of which `LoadObject` has more than there are bytes.
-/

namespace SocketPro.Python

open Bytes Unicode Calendar Machine

/-- What is raised. -/
inductive LoadError
  | invalidData
  | unsupported
  | unicode
  | value
  | decimal
  | notCallable
deriving DecidableEq, Repr

/-- What the machine does with numbers of single and of double precision. -/
structure Floats where
  /-- `struct.pack('f', x)`, which raises for a number that is too large. -/
  toSingle : UInt64 → Option UInt32
  /-- `struct.unpack('f', ..)` -/
  toDouble : UInt32 → UInt64
  /-- `float(n)/10000.0` -/
  tenThousandths : ℤ → UInt64
  /-- The sign of a number is that of its integer. -/
  tenThousandths_ne : ∀ m n, m < 0 → 0 ≤ n → tenThousandths m ≠ tenThousandths n

/-- A program on the content of a queue. -/
abbrev Load := Effect LoadError (List UInt8)

abbrev sdVT_I4 : ℕ := 3

abbrev sdVT_CY : ℕ := 6

abbrev sdVT_UI4 : ℕ := 19

/-! ### Numbers and texts -/

/-- `_available_(size)`, the bytes, and `_set_(size)`. -/
def load (size : ℕ) : Load (List UInt8) := fun c ↦
  if c.length < size then .throw .invalidData [] else .ok (c.take size) (c.drop size)

/-- The number in bytes of a signed format. -/
def signedLE (bytes : List UInt8) : ℤ :=
  if ofLE bytes < 256 ^ bytes.length / 2 then ofLE bytes
  else (ofLE bytes : ℤ) - 256 ^ bytes.length

/-- `struct.unpack_from` of an unsigned integer of `width` bytes. -/
def loadNat (width : ℕ) : Load ℕ := do return ofLE (← load width)

/-- `struct.unpack_from` of a signed integer. -/
def loadInt (width : ℕ) : Load ℤ := do return signedLE (← load width)

/-- A result that may be missing. -/
def orRaise {α : Type} (e : LoadError) : Option α → Load α
  | some a => pure a
  | none => Effect.raise e

/-- `s.decode('utf-8')` -/
def decodeUTF8? (bytes : List UInt8) : Option (List Char) :=
  if encodeUTF8 (decodeUTF8 bytes) = bytes then some (decodeUTF8 bytes) else none

/-- `bytes.decode('utf-16-le')` -/
def decodeUTF16? (bytes : List UInt8) : Option (List Char) :=
  let cs := decodeUTF16 (utf16Units bytes)
  if utf16Bytes (encodeUTF16 cs) = bytes then some cs else none

/-- A text without surrogates. -/
def Obj.text (cs : List Char) : Obj := .str (cs.map .char)

/-- The body of `LoadAString`, `LoadString` and `LoadBytes`: a length, and what is made of so many
bytes. -/
def loadSized (make : List UInt8 → Load Obj) (empty : Obj) : Load Obj := do
  let length ← loadNat 4
  if length = 0xffffffff then return .none
  else if length = 0 then return empty
  else make (← load length)

/-- `LoadAString()` -/
def LoadAString : Load Obj :=
  loadSized (fun bytes ↦ do return .text (← orRaise .unicode (decodeUTF8? bytes))) (.text [])

/-- `LoadString()` -/
def LoadString : Load Obj :=
  loadSized (fun bytes ↦ do return .text (← orRaise .unicode (decodeUTF16? bytes))) (.text [])

/-- `LoadBytes()` -/
def LoadBytes : Load Obj := loadSized (fun bytes ↦ pure (.bytearray bytes)) (.bytearray [])

/-- `LoadUUID()` -/
def LoadUUID : Load Obj := fun c ↦
  if h : c.length < 16 then .throw .invalidData []
  else .ok (.uuid ⟨c.take 16, by rw [List.length_take]; omega⟩) (c.drop 16)

/-! ### Dates -/

/-- `datetime.datetime(year, month, day, hour, minute, second, us)` -/
def datetime? (year : ℤ) (month day hour minute second us : ℕ) : Option Obj :=
  if h : (1 ≤ year ∧ year ≤ 9999) ∧ ValidDate year month day ∧ hour < 24 ∧ minute < 60 ∧
      second < 60 ∧ us < 1000000 then
    some (.datetime ⟨year.toNat, month, day, hour, minute, second, us, by omega, by omega, h.2.1.1.1,
      h.2.1.1.2, h.2.1.2.1, h.2.1.2.2.trans (daysIn_le year month), h.2.2.1, h.2.2.2.1, h.2.2.2.2.1,
      h.2.2.2.2.2⟩)
  else none

/-- `datetime.date(year, month, day)` -/
def date? (year : ℤ) (month day : ℕ) : Option Obj :=
  if (1 ≤ year ∧ year ≤ 9999) ∧ ValidDate year month day then some (.date year.toNat month day)
  else none

/-- `datetime.time(hour, minute, second, us)` -/
def time? (hour minute second us : ℕ) : Option Obj :=
  if hour < 24 ∧ minute < 60 ∧ second < 60 ∧ us < 1000000 then some (.time hour minute second us)
  else none

/-- `UDateTime(time).Get()` -/
def getDate (time : ℕ) : Option Obj :=
  let us := time % 2 ^ 24 / 10
  let second := time / 2 ^ 24 % 2 ^ 6
  let minute := time / 2 ^ 30 % 2 ^ 6
  let hour := time / 2 ^ 36 % 2 ^ 5
  let day := time / 2 ^ 41 % 2 ^ 5
  let month := time / 2 ^ 46 % 2 ^ 4 + 1
  let bits : ℤ := (time / 2 ^ 50 % 2 ^ 13 : ℕ)
  let year : ℤ := if time / 2 ^ 63 ≠ 0 then 1900 - bits else 1900 + bits
  if day ≠ 0 then
    if hour ≠ 0 ∨ minute ≠ 0 ∨ second ≠ 0 ∨ us ≠ 0 then
      datetime? year month day hour minute second us
    else date? year month day
  else time? hour minute second us

/-- `LoadDate()` -/
def LoadDate : Load Obj := do orRaise .value (getDate (← loadNat 8))

/-! ### Decimals -/

/-- A character of the text of a number. -/
inductive Symbol
  | minus
  | point
  | digit (d : ℕ)
deriving DecidableEq, Repr

/-- The digits of `str(n)`. -/
def digitsOf (n : ℕ) : List ℕ := if n = 0 then [0] else (Nat.digits 10 n).reverse

/-- `str(n)` or `str(-n)` -/
def intText (negative : Bool) (n : ℕ) : List Symbol :=
  (if negative = true ∧ n ≠ 0 then [.minus] else []) ++ (digitsOf n).map .digit

/-- The place of the position `len(s) - scale` in a slice of `s`. -/
def slicePos (length scale : ℕ) : ℕ :=
  if scale ≤ length then length - scale else 2 * length - scale

/-- The point is put in. -/
def withPoint (scale : ℕ) (s : List Symbol) : List Symbol :=
  if scale = 0 then s
  else s.take (slicePos s.length scale) ++ .point :: s.drop (slicePos s.length scale)

/-- The digits in front of a text, and what follows. -/
def spanDigits : List Symbol → List ℕ × List Symbol
  | .digit d :: s => (d :: (spanDigits s).1, (spanDigits s).2)
  | s => ([], s)

/-- The number that digits make. -/
def ofDigits (ds : List ℕ) : ℕ := Nat.ofDigits 10 ds.reverse

/-- `Decimal(s)` of a text with a sign. -/
def unsignedDecimal? (negative : Bool) (s : List Symbol) : Option Obj :=
  let (whole, rest) := spanDigits s
  match rest with
  | [] => if whole = [] then none else some (.decimal negative (ofDigits whole) 0)
  | .point :: rest =>
    let (fraction, rest) := spanDigits rest
    if rest ≠ [] ∨ whole ++ fraction = [] then none
    else some (.decimal negative (ofDigits (whole ++ fraction)) (-fraction.length))
  | _ => none

/-- `Decimal(s)` -/
def decimal? : List Symbol → Option Obj
  | .minus :: s => unsignedDecimal? true s
  | s => unsignedDecimal? false s

/-- `LoadDecimal()` -/
def LoadDecimal : Load Obj := do
  let _ ← loadNat 2
  let scale ← loadNat 1
  let sign ← loadNat 1
  let hi32 ← loadNat 4
  let lo64 ← loadNat 8
  orRaise .decimal (decimal? (withPoint scale (intText (decide (sign ≠ 0)) (hi32 * 2 ^ 64 + lo64))))

/-! ### Objects -/

section LoadObject

variable (fp : Floats)

/-- The types that are read in the same way as an object and as the element of an array. -/
def loadElement (vt : ℕ) : Option (Load Obj) :=
  if vt = sdVT_I4 ∨ vt = sdVT_INT then some do return .int (← loadInt 4)
  else if vt = sdVT_UI4 ∨ vt = sdVT_UINT then some do return .int (← loadNat 4)
  else if vt = sdVT_I8 then some do return .int (← loadInt 8)
  else if vt = sdVT_UI8 then some do return .int (← loadNat 8)
  else if vt = sdVT_R4 then some do return .float (fp.toDouble (UInt32.ofNat (← loadNat 4)))
  else if vt = sdVT_R8 then some do return .float (UInt64.ofNat (← loadNat 8))
  -- The amount is read without its sign.
  else if vt = sdVT_CY then some do return .float (fp.tenThousandths (← loadNat 8))
  else if vt = sdVT_DATE then some LoadDate
  else if vt = sdVT_BSTR then some LoadString
  else if vt = sdVT_BOOL then some do return .bool (decide ((← loadNat 2) ≠ 0))
  else if vt = sdVT_DECIMAL then some LoadDecimal
  else if vt = sdVT_I2 then some do return .int (← loadInt 2)
  else if vt = sdVT_UI2 then some do return .int (← loadNat 2)
  else if vt = sdVT_CLSID then some LoadUUID
  -- `func` is `None`.
  else if vt = sdVT_USERIALIZER_OBJECT then some (Effect.raise .notCallable)
  else none

/-- The loop over an array. An element of another type is not read at all. -/
def loadElements (element : Option (Load Obj)) (length : ℕ) : Load (List Obj) :=
  match element with
  | some element => repeatRead element length
  | none => pure []

/-- `_loadList_(vt, func)`, where `object` reads an element that has its type in front. -/
def loadList (object : Load Obj) (vt : ℕ) : Load Obj :=
  if vt = sdVT_I1 then LoadAString
  else if vt = sdVT_UI1 then LoadBytes
  else do
    let length ← loadNat 4
    return .list (← loadElements (if vt = sdVT_VARIANT then some object else loadElement fp vt) length)

/-- The branch of `LoadObject` for the type `vt`. -/
def loadBranch (object : Load Obj) (vt : ℕ) : Load Obj :=
  if vt = sdVT_EMPTY then pure .object
  else if vt = sdVT_NULL then pure .none
  else if sdVT_ARRAY < vt then loadList fp object (vt - sdVT_ARRAY)
  else if vt = sdVT_I1 then do return .int (← loadInt 1)
  else if vt = sdVT_UI1 then do return .int (← loadNat 1)
  else (loadElement fp vt).getD (Effect.raise .unsupported)

/-- The reader with a bound on the nesting of arrays. -/
def loadObject : ℕ → Load Obj
  | 0 => fun _ ↦ .fault
  | fuel + 1 => do loadBranch fp (loadObject fuel) (← loadNat 2)

/-- `LoadObject()` -/
def LoadObject : Load Obj := fun c ↦ loadObject fp (c.length + 1) c

end LoadObject

/-! ### What is read back -/

theorem load_reads (b : List UInt8) : Reads (load b.length) b b := fun rest ↦ by
  have hlength : ¬ (b ++ rest).length < b.length := by
    rw [List.length_append]
    omega
  rw [load, if_neg hlength, List.take_left, List.drop_left]

theorem loadNat_reads (width : ℕ) {n : ℕ} (h : n < 256 ^ width) :
    Reads (loadNat width) (leBytes width n) n := fun rest ↦ by
  have hload := load_reads (leBytes width n) rest
  rw [length_leBytes] at hload
  rw [loadNat, Effect.bind_ok hload, ofLE_leBytes_of_lt h]
  rfl

/-- The bytes of a signed integer are those of its residue. -/
theorem signedLE_leBytes {width : ℕ} {n : ℤ} (h : InRange width true n) :
    signedLE (leBytes width (n % 256 ^ width).toNat) = n := by
  have hpow : (256 : ℤ) ^ width = (256 ^ width : ℕ) := by push_cast; rfl
  have hpos : 0 < 256 ^ width := Nat.pow_pos (by decide)
  rw [InRange, if_pos rfl, hpow] at h
  have hmod : (n % (256 ^ width : ℕ)).toNat < 256 ^ width := by
    have := Int.emod_lt_of_pos n (Int.natCast_pos.2 hpos)
    have := Int.emod_nonneg n (Int.natCast_pos.2 hpos).ne'
    omega
  rw [hpow, signedLE, length_leBytes, ofLE_leBytes_of_lt hmod]
  by_cases hn : 0 ≤ n
  · rw [Int.emod_eq_of_lt hn (by omega), if_pos (by omega)]
    omega
  · have hwrap : n % (256 ^ width : ℕ) = n + (256 ^ width : ℕ) := by
      rw [← Int.add_emod_right, Int.emod_eq_of_lt (by omega) (by omega)]
    rw [hwrap, if_neg (by omega), hpow]
    omega

theorem loadInt_reads {width : ℕ} {n : ℤ} (h : InRange width true n) :
    Reads (loadInt width) (leBytes width (n % 256 ^ width).toNat) n := fun rest ↦ by
  have hload := load_reads (leBytes width (n % 256 ^ width).toNat) rest
  rw [length_leBytes] at hload
  rw [loadInt, Effect.bind_ok hload, signedLE_leBytes h]
  rfl

/-- A result that may be missing comes back if it is there. -/
theorem orRaise_returnsIff {α : Type} (e : LoadError) (r : Option α) (Q : α → Prop) :
    ReturnsIff (∃ a, r = some a ∧ Q a) (orRaise e r) [] Q := by
  cases r with
  | some a =>
    refine ReturnsIff.congr (Reads.returnsIff (a := a) fun rest ↦ rfl) ⟨?_, fun hQ ↦ ⟨a, rfl, hQ⟩⟩
    rintro ⟨b, hb, hQ⟩
    cases hb
    exact hQ
  | none =>
    refine ReturnsIff.congr (Misses.returnsIff fun rest a u h ↦ nomatch h) ⟨?_, False.elim⟩
    rintro ⟨b, hb, -⟩
    cases hb

/-- What a sequence of writes leaves behind the content. -/
def bytesOf (ws : List Write) : List UInt8 := ws.flatMap Write.bytes

theorem bytesOf_append (ws ws' : List Write) : bytesOf (ws ++ ws') = bytesOf ws ++ bytesOf ws' :=
  List.flatMap_append

theorem bytesOf_flatten (wss : List (List Write)) : bytesOf wss.flatten = wss.flatMap bytesOf := by
  induction wss with
  | nil => rfl
  | cons ws wss ih => rw [List.flatten_cons, bytesOf_append, ih, List.flatMap_cons]

/-- The condition under which the writer does not raise and the reader brings something of `Q` back
from what is written. -/
structure Carries {α : Type} (P : Prop) (w : Option (List Write)) (x : Load α) (Q : α → Prop) :
    Prop where
  written : P → ∃ ws, w = some ws
  reads : ∀ ws, w = some ws → ReturnsIff P x (bytesOf ws) Q

section Carries

variable {α : Type} {P P' : Prop} {w : Option (List Write)} {x : Load α} {Q : α → Prop}

theorem Carries.iff (h : Carries P w x Q) : (∃ ws, w = some ws ∧ Returns x (bytesOf ws) Q) ↔ P := by
  constructor
  · rintro ⟨ws, hws, hreturns⟩
    exact (h.reads ws hws).iff.1 hreturns
  · intro hP
    obtain ⟨ws, hws⟩ := h.written hP
    exact ⟨ws, hws, (h.reads ws hws).returns hP⟩

theorem Carries.congr (h : Carries P w x Q) (hP : P' ↔ P) : Carries P' w x Q :=
  ⟨fun hP' ↦ h.written (hP.1 hP'), fun ws hws ↦ (h.reads ws hws).congr hP⟩

/-- A writer that raises. -/
theorem Carries.raised (hP : ¬ P) : Carries P none x Q :=
  ⟨fun h ↦ (hP h).elim, fun _ h ↦ nomatch h⟩

theorem Carries.of_some {ws : List Write} (h : ReturnsIff P x (bytesOf ws) Q) :
    Carries P (some ws) x Q := by
  refine ⟨fun _ ↦ ⟨ws, rfl⟩, fun ws' hws ↦ ?_⟩
  cases hws
  exact h

/-- One write. -/
theorem Carries.single {w : Write} (h : ReturnsIff P x w.bytes Q) : Carries P (some [w]) x Q := by
  have hbytes : bytesOf [w] = w.bytes := List.append_nil _
  refine .of_some ?_
  rw [hbytes]
  exact h

/-- One write that always comes back. -/
theorem Carries.always {w : Write} {a : α} (h : Reads x w.bytes a) (hQ : Q a) :
    Carries True (some [w]) x Q := .single (h.returnsIff.congr (iff_of_true trivial hQ))

/-- **The elements of a list** come back if and only if each of them does. -/
theorem Carries.mapM {γ : Type} {P : γ → Prop} {save : γ → Option (List Write)} {Q : γ → α → Prop}
    {cs : List γ} (h : ∀ c ∈ cs, Carries (P c) (save c) x (Q c)) :
    Carries (∀ c ∈ cs, P c) ((cs.mapM save).map List.flatten) (repeatRead x cs.length)
      fun as ↦ List.Forall₂ Q cs as := by
  refine ⟨fun hP ↦ ?_, fun ws hws ↦ ?_⟩
  · obtain ⟨wss, hwss⟩ := exists_mapM fun c hc ↦ (h c hc).written (hP c hc)
    exact ⟨wss.flatten, by rw [hwss]; rfl⟩
  · obtain ⟨wss, hwss, rfl⟩ := Option.map_eq_some_iff.1 hws
    have hmap := mapM_eq_some.1 hwss
    have hsome (c : γ) (hc : c ∈ cs) : save c = some ((save c).getD []) := by
      have hmem : save c ∈ wss.map some := hmap ▸ List.mem_map_of_mem hc
      obtain ⟨ws, -, hws⟩ := List.mem_map.1 hmem
      rw [← hws]
      rfl
    have hbytes : bytesOf wss.flatten = cs.flatMap fun c ↦ bytesOf ((save c).getD []) := by
      have hlists : cs.map (fun c ↦ (save c).getD []) = wss := by
        have hget := congrArg (List.map fun w : Option (List Write) ↦ w.getD []) hmap
        rw [List.map_map, List.map_map] at hget
        exact hget.trans (List.map_id wss)
      rw [bytesOf_flatten, ← hlists, List.flatMap_map]
    rw [hbytes]
    exact ReturnsIff.repeatRead fun c hc ↦ (h c hc).reads _ (hsome c hc)

end Carries

end SocketPro.Python
