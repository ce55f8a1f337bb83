import SocketPro.Foundation.Decode
import SocketPro.Foundation.Unicode
import SocketPro.Go.Value

/-!
# `Save` and `Load` of the Go `CUQueue`

What the methods of `cuqueue.go` append to the content of a queue, and what they take off its front.
Lengths and counts are 32-bit numbers, as in the code. A method panics when the content is too
short; that is the only exception, and nothing is read outside the content.

**Reading undoes writing.** For each type one lemma `…_decodes` says that the `Load` method takes
off what the `Save` method has appended and returns the value that was saved. Contents are shorter
than 2^32 bytes, the length of a queue being a `uint32`.
-/

namespace SocketPro.Go

open Bytes Machine Unicode Calendar

/-- `STRING_NULL_END`. -/
abbrev STRING_NULL_END : ℕ := 0xffffffff

/-- What the methods panic with. -/
inductive Panic
  | remainingData
  | serialization
  | deserialization
deriving DecidableEq, Repr

/-- The argument of `panic`. -/
def Panic.message : Panic → String
  | remainingData => "Remaining data in size smaller than expected size"
  | serialization => "Unsupported data type for serialization"
  | deserialization => "Unsupported data type for deserialization"

/-- A method that reads off the front of the content. -/
abbrev Reader (α : Type) := Effect Panic (List UInt8) α

/-- The limit of a content. -/
abbrev LIMIT : ℕ := 2 ^ 32

/-- `checkAvailable(size)`, and the bytes that are taken. -/
def take (size : ℕ) : Reader (List UInt8) := fun c ↦
  if c.length < size then .throw .remainingData c else .ok (c.take size) (c.drop size)

theorem take_decodes (bs : List UInt8) : Decodes LIMIT (take bs.length) bs bs := by
  intro rest _
  have hlen : ¬ (bs ++ rest).length < bs.length := by simp
  rw [take, if_neg hlen, List.take_left, List.drop_left]

theorem take_decodes_of_length {n : ℕ} {bs : List UInt8} (h : bs.length = n) :
    Decodes LIMIT (take n) bs bs := h ▸ take_decodes bs

/-! ### Numbers -/

/-- `SaveByte`, `SaveUShort`, `SaveUInt`, `SaveULong` and the methods that go by them: the memory of
a number of `w` bytes. -/
def saveBits (w : ℕ) (n : BitVec (8 * w)) : List UInt8 := leBytes w n.toNat

/-- `LoadByte`, `LoadUShort`, `LoadUInt`, `LoadULong` and the methods that go by them. -/
def loadBits (w : ℕ) : Reader (BitVec (8 * w)) := do
  let raw ← take w
  pure (BitVec.ofNat (8 * w) (ofLE raw))

@[simp] theorem length_saveBits (w : ℕ) (n : BitVec (8 * w)) : (saveBits w n).length = w :=
  length_leBytes _ _

theorem ofNat_ofLE_saveBits (w : ℕ) (n : BitVec (8 * w)) :
    BitVec.ofNat (8 * w) (ofLE (saveBits w n)) = n := by
  have hlt : n.toNat < 256 ^ w := by
    have hn := n.isLt
    rwa [Nat.pow_mul] at hn
  rw [saveBits, ofLE_leBytes_of_lt hlt, BitVec.ofNat_toNat, BitVec.setWidth_eq]

theorem loadBits_decodes (w : ℕ) (n : BitVec (8 * w)) :
    Decodes LIMIT (loadBits w) (saveBits w n) n := by
  have h := (take_decodes_of_length (length_saveBits w n)).map fun raw ↦
    BitVec.ofNat (8 * w) (ofLE raw)
  rwa [ofNat_ofLE_saveBits] at h

def SaveUShort (n : ℕ) : List UInt8 := leBytes 2 n
def SaveUInt (n : ℕ) : List UInt8 := leBytes 4 (n % 2 ^ 32)

def LoadUShort : Reader ℕ := do
  let raw ← take 2
  pure (ofLE raw)

def LoadUInt : Reader ℕ := do
  let raw ← take 4
  pure (ofLE raw)

def LoadULong : Reader ℕ := do
  let raw ← take 8
  pure (ofLE raw)

theorem LoadUShort_decodes {n : ℕ} (h : n < 2 ^ 16) : Decodes LIMIT LoadUShort (leBytes 2 n) n := by
  have hread := (take_decodes_of_length (length_leBytes 2 n)).map ofLE
  rwa [ofLE_leBytes_of_lt h] at hread

theorem LoadUInt_decodes {n : ℕ} (h : n < 2 ^ 32) : Decodes LIMIT LoadUInt (leBytes 4 n) n := by
  have hread := (take_decodes_of_length (length_leBytes 4 n)).map ofLE
  rwa [ofLE_leBytes_of_lt h] at hread

theorem LoadULong_decodes {n : ℕ} (h : n < 2 ^ 64) : Decodes LIMIT LoadULong (leBytes 8 n) n := by
  have hread := (take_decodes_of_length (length_leBytes 8 n)).map ofLE
  rwa [ofLE_leBytes_of_lt h] at hread

/-- A length in front, as it is written. -/
theorem LoadUInt_saved {n : ℕ} (h : n < 2 ^ 32) : Decodes LIMIT LoadUInt (SaveUInt n) n := by
  rw [SaveUInt, Nat.mod_eq_of_lt h]
  exact LoadUInt_decodes h

/-! ### Strings -/

/-- `SaveAString` and `SaveBytes` of a string that is not nil: as many bytes as the 32-bit length
says. -/
def SaveAString (s : List UInt8) : List UInt8 :=
  let len := s.length % 2 ^ 32
  SaveUInt len ++ if len = 0 then [] else s.take len

/-- `LoadAString` and `LoadBytes`. -/
def LoadAString : Reader (Option (List UInt8)) := do
  let size ← LoadUInt
  if size = STRING_NULL_END then pure none
  else do
    let s ← take size
    pure (some s)

/-- `SaveString`. -/
def SaveString (s : Option GoString) : List UInt8 :=
  match s with
  | none => SaveUInt STRING_NULL_END
  | some s =>
    let codes := encodeUTF16 (decodeUTF8 s)
    let bytes := 2 * codes.length % 2 ^ 32
    SaveUInt bytes ++ if bytes = 0 then [] else (utf16Bytes codes).take bytes

/-- `LoadString`. -/
def LoadString : Reader (Option GoString) := do
  let bytes ← LoadUInt
  if bytes = STRING_NULL_END then pure none
  else do
    let raw ← take bytes
    pure (some (encodeUTF8 (decodeUTF16 (utf16Units raw))))

/-- A length and as many bytes. -/
theorem decodes_prefixed {α : Type} (raw : List UInt8) (f : List UInt8 → α) (g : Reader α)
    (h : raw.length < STRING_NULL_END) :
    Decodes LIMIT (do
      let size ← LoadUInt
      if size = STRING_NULL_END then g
      else do
        let s ← take size
        pure (f s)) (leBytes 4 raw.length ++ raw) (f raw) := by
  refine (LoadUInt_decodes (lt_trans h (by decide))).bind ?_
  rw [if_neg (Nat.ne_of_lt h)]
  exact (take_decodes raw).map f

/-- What is written of a string: a length and as many bytes of it. -/
theorem save_prefixed (len : ℕ) {s : List UInt8} (hlen : len < 2 ^ 32) (hs : len ≤ s.length) :
    (SaveUInt len ++ if len = 0 then [] else s.take len) =
      leBytes 4 (s.take len).length ++ s.take len := by
  rw [SaveUInt, Nat.mod_eq_of_lt hlen, List.length_take, Nat.min_eq_left hs]
  split
  · next h0 => rw [h0, List.take_zero]
  · rfl

/-- What the reader makes of a string of bytes. -/
def rereadAStr (s : List UInt8) : List UInt8 := s.take (s.length % 2 ^ 32)

theorem saveAString_eq (s : List UInt8) :
    SaveAString s = leBytes 4 (rereadAStr s).length ++ rereadAStr s :=
  save_prefixed _ (Nat.mod_lt _ (by decide)) (Nat.mod_le _ _)

theorem LoadAString_decodes {s : List UInt8} (h : (SaveAString s).length < LIMIT) :
    Decodes LIMIT LoadAString (SaveAString s) (some (rereadAStr s)) := by
  rw [saveAString_eq, List.length_append, length_leBytes] at h
  rw [saveAString_eq]
  refine decodes_prefixed _ some (pure none) ?_
  show _ < 0xffffffff
  have hlimit : LIMIT = 0xffffffff + 1 := rfl
  omega

theorem rereadAStr_eq_iff (s : List UInt8) : rereadAStr s = s ↔ s.length < 2 ^ 32 := by
  rw [rereadAStr, List.take_eq_self_iff]
  have hmod : s.length % 2 ^ 32 < 2 ^ 32 := Nat.mod_lt _ (by decide)
  constructor
  · intro h
    omega
  · intro h
    rw [Nat.mod_eq_of_lt h]

/-- What the reader makes of a text in 16-bit units. -/
theorem LoadString_units {us : List UInt16} (h : 2 * us.length < STRING_NULL_END) :
    Decodes LIMIT LoadString (leBytes 4 (2 * us.length) ++ utf16Bytes us)
      (some (encodeUTF8 (decodeUTF16 us))) := by
  have hlen := length_utf16Bytes us
  have hread := decodes_prefixed (utf16Bytes us)
    (fun raw ↦ some (encodeUTF8 (decodeUTF16 (utf16Units raw)))) (pure none) (by omega)
  rwa [hlen, utf16Units_utf16Bytes] at hread

theorem LoadString_null : Decodes LIMIT LoadString (leBytes 4 STRING_NULL_END) none := by
  have hnull : Decodes LIMIT LoadString (leBytes 4 STRING_NULL_END ++ []) none := by
    refine (LoadUInt_decodes (by decide)).bind ?_
    rw [if_pos rfl]
    exact Decodes.pure none
  rwa [List.append_nil] at hnull

/-- The units of a string that are written. -/
def writtenUnits (s : GoString) : List UInt16 :=
  let codes := encodeUTF16 (decodeUTF8 s)
  codes.take (2 * codes.length % 2 ^ 32 / 2)

/-- What the reader makes of a string. -/
def reread (s : GoString) : GoString := encodeUTF8 (decodeUTF16 (writtenUnits s))

theorem utf16Bytes_take (us : List UInt16) (n : ℕ) :
    (utf16Bytes us).take (2 * n) = utf16Bytes (us.take n) := by
  induction us generalizing n with
  | nil => simp [utf16Bytes]
  | cons u us ih =>
    cases n with
    | zero => simp [utf16Bytes]
    | succ n =>
      have hlen : 2 * (n + 1) = (leBytes 2 u.toNat).length + 2 * n := by
        rw [length_leBytes]
        omega
      rw [utf16Bytes, hlen, List.take_length_add_append, ih, List.take_succ_cons, utf16Bytes]

theorem saveString_eq (s : GoString) :
    SaveString (some s) =
      leBytes 4 (2 * (writtenUnits s).length) ++ utf16Bytes (writtenUnits s) := by
  have heven : 2 * (encodeUTF16 (decodeUTF8 s)).length % 2 ^ 32 =
      2 * (2 * (encodeUTF16 (decodeUTF8 s)).length % 2 ^ 32 / 2) := by omega
  have htake : (utf16Bytes (encodeUTF16 (decodeUTF8 s))).take
      (2 * (encodeUTF16 (decodeUTF8 s)).length % 2 ^ 32) = utf16Bytes (writtenUnits s) := by
    rw [heven, utf16Bytes_take]
    rfl
  have hsave := save_prefixed (2 * (encodeUTF16 (decodeUTF8 s)).length % 2 ^ 32)
    (Nat.mod_lt _ (by decide)) (le_trans (Nat.mod_le _ _) (length_utf16Bytes _).ge)
  rw [htake, length_utf16Bytes] at hsave
  simp only [SaveString, htake]
  exact hsave

theorem LoadString_decodes {s : Option GoString} (h : (SaveString s).length < LIMIT) :
    Decodes LIMIT LoadString (SaveString s) (s.map reread) := by
  cases s with
  | none => exact LoadString_null
  | some s =>
    rw [saveString_eq, List.length_append, length_leBytes, length_utf16Bytes] at h
    rw [saveString_eq]
    refine LoadString_units ?_
    show _ < 0xffffffff
    have hlimit : LIMIT = 0xffffffff + 1 := rfl
    omega

/-- **A string comes back** if it is UTF-8 and the bytes of its units can be counted in 32 bits. -/
theorem reread_eq_iff (s : GoString) :
    reread s = s ↔ ValidUTF8 s ∧ 2 * (encodeUTF16 (decodeUTF8 s)).length < 2 ^ 32 := by
  constructor
  · intro h
    have hvalid : ValidUTF8 s := ⟨_, h⟩
    refine ⟨hvalid, ?_⟩
    have htext : decodeUTF16 (writtenUnits s) = decodeUTF8 s := by
      rw [← decodeUTF8_encodeUTF8 (decodeUTF16 (writtenUnits s)), ← reread, h]
    have hlen := length_encodeUTF16_decodeUTF16 (writtenUnits s)
    rw [htext, writtenUnits, List.length_take] at hlen
    omega
  · rintro ⟨hvalid, hlen⟩
    have hunits : writtenUnits s = encodeUTF16 (decodeUTF8 s) := by
      rw [writtenUnits, Nat.mod_eq_of_lt hlen, Nat.mul_div_cancel_left _ (by decide),
        List.take_length]
    rw [reread, hunits, decodeUTF16_encodeUTF16, encodeUTF8_decodeUTF8_iff]
    exact hvalid

/-! ### Decimals, dates and identifiers -/

/-- `SaveDecimal`. -/
def SaveDecimal (dec : DECIMAL) : List UInt8 :=
  let sign : BitVec 8 := if 0 < dec.Sign then 0x80 else dec.Sign
  saveBits 2 dec.wReserved ++ (saveBits 1 dec.Scale ++ (saveBits 1 sign ++
    (saveBits 4 dec.Hi32 ++ saveBits 8 dec.Lo64)))

/-- `LoadDecimal`. -/
def LoadDecimal : Reader DECIMAL := do
  let wReserved ← loadBits 2
  let scale ← loadBits 1
  let sign ← loadBits 1
  let hi ← loadBits 4
  let lo ← loadBits 8
  pure ⟨wReserved, scale, sign, hi, lo⟩

/-- What the reader makes of a decimal. -/
def rereadDecimal (dec : DECIMAL) : DECIMAL :=
  { dec with Sign := if 0 < dec.Sign then 0x80 else dec.Sign }

theorem LoadDecimal_decodes (dec : DECIMAL) :
    Decodes LIMIT LoadDecimal (SaveDecimal dec) (rereadDecimal dec) := by
  refine (loadBits_decodes 2 dec.wReserved).bind ?_
  refine (loadBits_decodes 1 dec.Scale).bind ?_
  refine (loadBits_decodes 1 _).bind ?_
  refine (loadBits_decodes 4 dec.Hi32).bind ?_
  exact (loadBits_decodes 8 dec.Lo64).map _

theorem rereadDecimal_eq_iff (dec : DECIMAL) :
    rereadDecimal dec = dec ↔ dec.Sign = 0 ∨ dec.Sign = 0x80 := by
  obtain ⟨wReserved, scale, sign, hi, lo⟩ := dec
  simp only [rereadDecimal, DECIMAL.mk.injEq, and_true, true_and]
  constructor
  · intro h
    split at h
    · exact .inr h.symm
    · next hpos => exact .inl (BitVec.eq_of_toNat_eq (by simpa [BitVec.lt_def] using hpos))
  · rintro (rfl | rfl) <;> rfl

/-- `SaveDate`. -/
def SaveDate (t : Time) : List UInt8 := leBytes 8 (toUTime t)

/-- `LoadDate`. -/
def LoadDate : Reader Time := do
  let mt ← LoadULong
  pure (loadDate mt)

theorem LoadDate_decodes (t : Time) :
    Decodes LIMIT LoadDate (SaveDate t) (loadDate (toUTime t)) :=
  (LoadULong_decodes (toUTime_lt t)).map loadDate

/-- `SaveUUID`. -/
def SaveUUID (id : UUID) : List UInt8 := saveBits 16 id

/-- `LoadUUID`. -/
def LoadUUID : Reader UUID := loadBits 16

/-! ### Slices -/

/-- The loops that write a count and, for each number below it, one element. -/
def saveLoop {α : Type} (f : α → List UInt8) (arr : List α) : List UInt8 :=
  SaveUInt arr.length ++ (arr.take (arr.length % 2 ^ 32)).flatMap f

/-- The loops that write a count and all elements. -/
def saveRange {α : Type} (f : α → List UInt8) (arr : List α) : List UInt8 :=
  SaveUInt arr.length ++ arr.flatMap f

/-- The loops that read a count and that many elements. -/
def loadLoop {α : Type} (g : Reader α) : Reader (List α) := do
  let size ← LoadUInt
  repeatRead g size

/-- What the reader makes of a slice, from what it makes of the elements. -/
def rereadLoop {α β : Type} (r : α → β) (arr : List α) : List β :=
  (arr.take (arr.length % 2 ^ 32)).map r

theorem flatMap_length_le {α : Type} {f : α → List UInt8} {arr : List α} {a : α} (ha : a ∈ arr) :
    (f a).length ≤ (arr.flatMap f).length := by
  obtain ⟨l, r, rfl⟩ := List.append_of_mem ha
  rw [List.flatMap_append, List.flatMap_cons, List.length_append, List.length_append]
  omega

/-- A counted loop reads what the elements have become. -/
theorem repeatRead_decodes {α β : Type} {g : Reader β} {f : α → List UInt8} {r : α → β}
    {arr : List α} (h : ∀ a ∈ arr, Decodes LIMIT g (f a) (r a)) :
    Decodes LIMIT (repeatRead g arr.length) (arr.flatMap f) (arr.map r) := by
  induction arr with
  | nil => exact Decodes.pure []
  | cons a arr ih =>
    rw [List.flatMap_cons]
    refine (h a List.mem_cons_self).bind ?_
    exact (ih fun b hb ↦ h b (List.mem_cons_of_mem a hb)).map fun bs ↦ r a :: bs

theorem loadLoop_decodes {α β : Type} {g : Reader β} {f : α → List UInt8} {r : α → β} {arr : List α}
    (hlen : (saveLoop f arr).length < LIMIT)
    (h : ∀ a ∈ arr, (f a).length < LIMIT → Decodes LIMIT g (f a) (r a)) :
    Decodes LIMIT (loadLoop g) (saveLoop f arr) (rereadLoop r arr) := by
  have hcount : (arr.take (arr.length % 2 ^ 32)).length = arr.length % 2 ^ 32 := by
    rw [List.length_take, Nat.min_eq_left (Nat.mod_le _ _)]
  rw [saveLoop, List.length_append] at hlen
  refine (LoadUInt_decodes (Nat.mod_lt _ (by decide))).bind ?_
  have hread : Decodes LIMIT (repeatRead g (arr.take (arr.length % 2 ^ 32)).length)
      ((arr.take (arr.length % 2 ^ 32)).flatMap f) (rereadLoop r arr) := by
    refine repeatRead_decodes fun a ha ↦ h a (List.mem_of_mem_take ha) ?_
    have hle := flatMap_length_le (f := f) ha
    omega
  rwa [hcount] at hread

/-- A slice comes back if its length has 32 bits and its elements come back. -/
theorem rereadLoop_eq_iff {α β : Type} {r e : α → β} (arr : List α) :
    rereadLoop r arr = arr.map e ↔ arr.length < 2 ^ 32 ∧ ∀ a ∈ arr, r a = e a := by
  have hmod : arr.length % 2 ^ 32 < 2 ^ 32 := Nat.mod_lt _ (by decide)
  constructor
  · intro h
    have hlen : arr.length < 2 ^ 32 := by
      have hcount := congrArg List.length h
      rw [rereadLoop, List.length_map, List.length_map, List.length_take] at hcount
      omega
    rw [rereadLoop, Nat.mod_eq_of_lt hlen, List.take_length] at h
    exact ⟨hlen, List.map_inj_left.1 h⟩
  · rintro ⟨hlen, h⟩
    rw [rereadLoop, Nat.mod_eq_of_lt hlen, List.take_length]
    exact List.map_congr_left h

theorem length_le_flatMap {α : Type} {f : α → List UInt8} (h : ∀ a, 0 < (f a).length)
    (arr : List α) : arr.length ≤ (arr.flatMap f).length := by
  induction arr with
  | nil => exact Nat.zero_le _
  | cons a arr ih =>
    have ha := h a
    rw [List.flatMap_cons, List.length_append, List.length_cons]
    omega

/-- Elements that take at least one byte are not too many. -/
theorem loadRange_decodes {α β : Type} {g : Reader β} {f : α → List UInt8} {r : α → β}
    {arr : List α} (hpos : ∀ a, 0 < (f a).length) (hlen : (saveRange f arr).length < LIMIT)
    (h : ∀ a ∈ arr, (f a).length < LIMIT → Decodes LIMIT g (f a) (r a)) :
    Decodes LIMIT (loadLoop g) (saveRange f arr) (arr.map r) := by
  rw [saveRange, List.length_append] at hlen
  have hcount : arr.length < 2 ^ 32 := by
    have hle := length_le_flatMap hpos arr
    have hlimit : LIMIT = 2 ^ 32 := rfl
    omega
  refine (LoadUInt_saved hcount).bind (repeatRead_decodes fun a ha ↦ h a ha ?_)
  have hle := flatMap_length_le (f := f) ha
  omega

/-! ### Slices of numbers -/

/-- `n` numbers of `w` bytes from memory; what lies behind the bytes is zero. -/
def numbersOf (w : ℕ) : ℕ → List UInt8 → List (BitVec (8 * w))
  | 0, _ => []
  | n + 1, raw => BitVec.ofNat (8 * w) (ofLE (raw.take w)) :: numbersOf w n (raw.drop w)

/-- `SaveUShortArray`, `SaveIntArray` and so on: the memory of the slice, in a 32-bit size. -/
def saveNumbers (w : ℕ) (arr : List (BitVec (8 * w))) : List UInt8 :=
  let size := arr.length % 2 ^ 32
  SaveUInt size ++ if 0 < size then (arr.flatMap (saveBits w)).take (size * w % 2 ^ 32) else []

/-- `LoadUShortArray`, `LoadIntArray` and so on. -/
def loadNumbers (w : ℕ) : Reader (List (BitVec (8 * w))) := do
  let size ← LoadUInt
  if 0 < size then do
    let raw ← take (size * w % 2 ^ 32)
    pure (numbersOf w size raw)
  else pure []

/-- What the reader makes of a slice of numbers: the memory that is written, and zeros. -/
def rereadNumbers (w : ℕ) (arr : List (BitVec (8 * w))) : List (BitVec (8 * w)) :=
  numbersOf w (arr.length % 2 ^ 32)
    ((arr.flatMap (saveBits w)).take (arr.length % 2 ^ 32 * w % 2 ^ 32))

theorem length_flatMap_saveBits (w : ℕ) (arr : List (BitVec (8 * w))) :
    (arr.flatMap (saveBits w)).length = arr.length * w := by
  induction arr with
  | nil => rw [List.flatMap_nil, List.length_nil, List.length_nil, Nat.zero_mul]
  | cons n arr ih =>
    rw [List.flatMap_cons, List.length_append, length_saveBits, ih, List.length_cons, Nat.add_mul,
      Nat.one_mul]
    exact Nat.add_comm _ _

theorem loadNumbers_decodes (w : ℕ) (arr : List (BitVec (8 * w))) :
    Decodes LIMIT (loadNumbers w) (saveNumbers w arr) (rereadNumbers w arr) := by
  have hsize : arr.length % 2 ^ 32 < 2 ^ 32 := Nat.mod_lt _ (by decide)
  refine (LoadUInt_saved hsize).bind ?_
  by_cases hpos : 0 < arr.length % 2 ^ 32
  · have hle : arr.length % 2 ^ 32 * w % 2 ^ 32 ≤ (arr.flatMap (saveBits w)).length := by
      rw [length_flatMap_saveBits]
      exact le_trans (Nat.mod_le _ _) (Nat.mul_le_mul_right w (Nat.mod_le _ _))
    have htake := take_decodes_of_length (List.length_take_of_le hle)
    rw [if_pos hpos, if_pos hpos]
    exact htake.map _
  · have hzero : arr.length % 2 ^ 32 = 0 := by omega
    rw [if_neg hpos, if_neg hpos, rereadNumbers, hzero]
    exact Decodes.pure []

/-! The bytes of a slice are counted in 32 bits, too: of a slice that has more, the front is written
and the reader leaves the numbers behind it at zero. -/

@[simp] theorem length_numbersOf (w n : ℕ) (raw : List UInt8) : (numbersOf w n raw).length = n := by
  induction n generalizing raw with
  | zero => rfl
  | succ n ih => rw [numbersOf, List.length_cons, ih]

theorem numbersOf_nil (w n : ℕ) : numbersOf w n [] = List.replicate n 0 := by
  induction n with
  | zero => rfl
  | succ n ih =>
    rw [numbersOf, List.take_nil, List.drop_nil, ih, List.replicate_succ]
    rfl

/-- Of the memory of `k` numbers, `n` numbers are read. -/
theorem numbersOf_take {w : ℕ} (arr : List (BitVec (8 * w))) {k n : ℕ} (hk : k ≤ n)
    (hn : n ≤ arr.length) :
    numbersOf w n ((arr.flatMap (saveBits w)).take (k * w)) =
      arr.take k ++ List.replicate (n - k) 0 := by
  induction arr generalizing k n with
  | nil =>
    obtain rfl : n = 0 := Nat.le_zero.1 hn
    obtain rfl : k = 0 := Nat.le_zero.1 hk
    rfl
  | cons a arr ih =>
    rcases k with - | k
    · rw [Nat.zero_mul, List.take_zero, List.take_zero, numbersOf_nil, List.nil_append,
        Nat.sub_zero]
    · obtain ⟨n, rfl⟩ : ∃ m, n = m + 1 := ⟨n - 1, by omega⟩
      have hmul : (k + 1) * w = (saveBits w a).length + k * w := by
        rw [length_saveBits, Nat.add_mul, Nat.one_mul]
        exact Nat.add_comm _ _
      have htake : (saveBits w a ++ (arr.flatMap (saveBits w)).take (k * w)).take w =
          saveBits w a := List.take_left' (length_saveBits w a)
      have hdrop : (saveBits w a ++ (arr.flatMap (saveBits w)).take (k * w)).drop w =
          (arr.flatMap (saveBits w)).take (k * w) := List.drop_left' (length_saveBits w a)
      rw [List.flatMap_cons, hmul, List.take_length_add_append, numbersOf, htake, hdrop,
        ofNat_ofLE_saveBits, ih (Nat.le_of_succ_le_succ hk) (Nat.le_of_succ_le_succ hn),
        List.take_succ_cons, List.cons_append, Nat.add_sub_add_right]

/-- How many numbers of a slice of `n` are written. -/
def writtenNumbers (w n : ℕ) : ℕ := n * w % 2 ^ 32 / w

theorem rereadNumbers_eq {w : ℕ} (arr : List (BitVec (8 * w))) (hw : 0 < w) (hdvd : w ∣ 2 ^ 32) :
    rereadNumbers w arr = arr.take (writtenNumbers w (arr.length % 2 ^ 32)) ++
      List.replicate (arr.length % 2 ^ 32 - writtenNumbers w (arr.length % 2 ^ 32)) 0 := by
  have hmul : arr.length % 2 ^ 32 * w % 2 ^ 32 = writtenNumbers w (arr.length % 2 ^ 32) * w :=
    (Nat.div_mul_cancel ((Nat.dvd_mod_iff hdvd).2 (Nat.dvd_mul_left _ _))).symm
  rw [rereadNumbers, hmul]
  refine numbersOf_take arr ?_ (Nat.mod_le _ _)
  rw [writtenNumbers, Nat.div_le_iff_le_mul_add_pred hw, Nat.mul_comm]
  exact le_trans (Nat.mod_le _ _) (by rw [Nat.mul_comm]; exact Nat.le_add_right _ _)

/-- **A slice of numbers comes back** if its length has 32 bits and the numbers that its bytes,
counted in 32 bits, do not reach are zero. -/
theorem rereadNumbers_eq_iff {w : ℕ} (arr : List (BitVec (8 * w))) (hw : 0 < w)
    (hdvd : w ∣ 2 ^ 32) :
    rereadNumbers w arr = arr ↔
      arr.length < 2 ^ 32 ∧ ∀ n ∈ arr.drop (writtenNumbers w arr.length), n = 0 := by
  have hmod : arr.length % 2 ^ 32 < 2 ^ 32 := Nat.mod_lt _ (by decide)
  have hsplit := List.take_append_drop (writtenNumbers w arr.length) arr
  constructor
  · intro h
    have hlen : arr.length < 2 ^ 32 := by
      have hcount := congrArg List.length h
      rw [rereadNumbers, length_numbersOf] at hcount
      omega
    refine ⟨hlen, fun n hn ↦ ?_⟩
    rw [rereadNumbers_eq arr hw hdvd, Nat.mod_eq_of_lt hlen] at h
    have hdrop := List.append_cancel_left (h.trans hsplit.symm)
    rw [← hdrop] at hn
    exact List.eq_of_mem_replicate hn
  · rintro ⟨hlen, hzero⟩
    have hdrop := List.eq_replicate_of_mem hzero
    rw [rereadNumbers_eq arr hw hdvd, Nat.mod_eq_of_lt hlen, ← List.length_drop, ← hdrop, hsplit]

/-- A slice whose bytes can be counted in 32 bits is written as it is. -/
theorem saveNumbers_eq {w : ℕ} {arr : List (BitVec (8 * w))} (hw : 0 < w)
    (h : arr.length * w < 2 ^ 32) :
    saveNumbers w arr = SaveUInt arr.length ++ arr.flatMap (saveBits w) := by
  have hlen : arr.length < 2 ^ 32 := lt_of_le_of_lt (Nat.le_mul_of_pos_right _ hw) h
  simp only [saveNumbers, Nat.mod_eq_of_lt hlen, Nat.mod_eq_of_lt h]
  split
  · rw [← length_flatMap_saveBits, List.take_length]
  · next hzero =>
    obtain rfl : arr = [] := List.length_eq_zero_iff.1 (Nat.eq_zero_of_not_pos hzero)
    rfl

/-- Numbers that were written one by one are read as memory. -/
theorem loadNumbers_decodes_loop {α : Type} {w : ℕ} {f : α → BitVec (8 * w)} {arr : List α}
    (hw : 0 < w) (hdvd : w ∣ 2 ^ 32)
    (hlen : (saveLoop (fun a ↦ saveBits w (f a)) arr).length < LIMIT) :
    Decodes LIMIT (loadNumbers w) (saveLoop (fun a ↦ saveBits w (f a)) arr) (rereadLoop f arr) := by
  have hmod : arr.length % 2 ^ 32 < 2 ^ 32 := Nat.mod_lt _ (by decide)
  have hcount : (rereadLoop f arr).length = arr.length % 2 ^ 32 := by
    rw [rereadLoop, List.length_map, List.length_take, Nat.min_eq_left (Nat.mod_le _ _)]
  have hbytes : (arr.take (arr.length % 2 ^ 32)).flatMap (fun a ↦ saveBits w (f a)) =
      (rereadLoop f arr).flatMap (saveBits w) := by
    rw [rereadLoop, List.flatMap_map]
  have hsave : saveLoop (fun a ↦ saveBits w (f a)) arr =
      SaveUInt (rereadLoop f arr).length ++ (rereadLoop f arr).flatMap (saveBits w) := by
    rw [saveLoop, hbytes, hcount, SaveUInt, SaveUInt, Nat.mod_mod]
  have hfit : (rereadLoop f arr).length * w < 2 ^ 32 := by
    rw [hsave, List.length_append, length_flatMap_saveBits] at hlen
    exact lt_of_le_of_lt (Nat.le_add_left _ _) hlen
  have hread := loadNumbers_decodes w (rereadLoop f arr)
  have hsame : rereadNumbers w (rereadLoop f arr) = rereadLoop f arr := by
    refine (rereadNumbers_eq_iff _ hw hdvd).2 ⟨hcount ▸ hmod, fun n hn ↦ ?_⟩
    rw [writtenNumbers, Nat.mod_eq_of_lt hfit, Nat.mul_div_cancel _ hw, List.drop_length] at hn
    exact absurd hn List.not_mem_nil
  rwa [hsame, saveNumbers_eq hw hfit, ← hsave] at hread

end SocketPro.Go
