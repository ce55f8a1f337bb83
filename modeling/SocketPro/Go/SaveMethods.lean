import SocketPro.Foundation.Sized
import SocketPro.Go.QueueWrites
import Mathlib.Data.List.Flatten

/-!
# The methods behind `Save`

What the `Save` methods of one type write, each a list of writes behind the content, and how much
the `Load` method of the type takes to give a value back. `CUQueue.lean` has the bytes that these
methods append where lengths have 32 bits; here any value may be given to them.

For each method one lemma `…_sized` says under which condition its value comes back.
-/

namespace SocketPro.Go.SaveLoad

open Bytes Machine Unicode Calendar Slices CUQueue

/-! ### Numbers -/

def SaveUInt (n : ℕ) : List Write := [.store (Go.SaveUInt n)]

/-- `SaveByte`, `SaveUShort`, `SaveULong`, `SaveFloat` and the methods that go by them. -/
def saveBits (w : ℕ) (n : BitVec (8 * w)) : List Write := [.store (Go.saveBits w n)]

def SaveBool (b : Bool) : List Write := saveBits 1 (if b then 1 else 0)

def LoadBool : Reader Bool := do
  let n ← loadBits 1
  pure (decide (n ≠ 0))

def SaveDate (t : Time) : List Write := [.store (Go.SaveDate t)]

def SaveDecimal (d : DECIMAL) : List Write := [.store (Go.SaveDecimal d)]

def SaveUUID (id : UUID) : List Write := [.copy (Go.SaveUUID id)]

@[simp] theorem bytesOf_store (s : List UInt8) : bytesOf [.store s] = s := List.append_nil s

@[simp] theorem bytesOf_copy (s : List UInt8) : bytesOf [.copy s] = s := List.append_nil s

@[simp] theorem bytesOf_nil : bytesOf [] = [] := rfl

theorem bytesOf_flatMap {α : Type} (f : α → List Write) (l : List α) :
    bytesOf (l.flatMap f) = l.flatMap fun a ↦ bytesOf (f a) := List.flatMap_assoc

theorem take_takes (n : ℕ) (bs : List UInt8) : Takes (take n) n bs := by
  intro c rest h
  obtain ⟨hle, -, rfl⟩ := take_inv h
  rw [List.length_drop]
  omega

theorem loadBits_takes (w : ℕ) (n : BitVec (8 * w)) : Takes (loadBits w) w n :=
  Takes.map fun raw _ ↦ take_takes w raw

theorem LoadUInt_takes (n : ℕ) : Takes LoadUInt 4 n := Takes.map fun raw _ ↦ take_takes 4 raw

theorem LoadDate_takes (t : Time) : Takes LoadDate 8 t :=
  Takes.map fun _ _ ↦ Takes.map fun raw _ ↦ take_takes 8 raw

theorem LoadDecimal_takes (d : DECIMAL) : Takes LoadDecimal 16 d :=
  (Takes.bind (loadBits_takes 2) fun _ ↦ Takes.bind (loadBits_takes 1) fun _ ↦
    Takes.bind (loadBits_takes 1) fun _ ↦ Takes.bind (loadBits_takes 4) fun _ ↦
      Takes.map fun lo _ ↦ loadBits_takes 8 lo)

theorem length_SaveDecimal (d : DECIMAL) : (Go.SaveDecimal d).length = 16 := by
  simp [Go.SaveDecimal]

/-- A value of as many bytes as its reader takes. -/
theorem fixed_sized {α : Type} {x : Reader α} {s : List UInt8} {n : ℕ} {a a' : α}
    (hlen : s.length = n) (hx : Decodes LIMIT x s a') (ht : Takes x n a) :
    Sized LIMIT x s n a (a' = a) :=
  .of_decodes (Nat.le_of_eq hlen) ht (fun _ ↦ hlen) fun _ ↦ hx

theorem time_sized (t : Time) :
    Sized LIMIT LoadDate (bytesOf (SaveDate t)) 8 t (loadDate (toUTime t) = t) := by
  rw [SaveDate, bytesOf_store]
  exact fixed_sized (length_leBytes _ _) (LoadDate_decodes t) (LoadDate_takes t)

theorem decimal_sized (d : DECIMAL) :
    Sized LIMIT LoadDecimal (bytesOf (SaveDecimal d)) 16 d (SignFits d) := by
  rw [SaveDecimal, bytesOf_store]
  exact (fixed_sized (length_SaveDecimal d) (LoadDecimal_decodes d) (LoadDecimal_takes d)).congr
    fun _ ↦ rereadDecimal_eq_iff d

theorem bits_sized (w : ℕ) (n : BitVec (8 * w)) :
    Sized LIMIT (loadBits w) (Go.saveBits w n) w n True :=
  (fixed_sized (length_saveBits w n) (loadBits_decodes w n) (loadBits_takes w n)).congr
    fun _ ↦ iff_of_true rfl trivial

theorem uuid_sized (id : UUID) : Sized LIMIT LoadUUID (bytesOf (SaveUUID id)) 16 id True := by
  rw [SaveUUID, bytesOf_copy]
  exact bits_sized 16 id

theorem LoadBool_decodes (b : Bool) : Decodes LIMIT LoadBool (bytesOf (SaveBool b)) b := by
  have hread := (loadBits_decodes 1 (if b then 1 else 0)).map fun n ↦ decide (n ≠ 0)
  rw [SaveBool, saveBits, bytesOf_store]
  cases b <;> exact hread

/-! ### Strings -/

/-- `SaveAString` and `SaveBytes`. -/
def SaveAString (s : Option (List UInt8)) : List Write :=
  match s with
  | none => SaveUInt STRING_NULL_END
  | some s => SaveUInt s.length ++ if s.length % 2 ^ 32 = 0 then [] else [.copy s]

def SaveString (s : Option GoString) : List Write :=
  match s with
  | none => SaveUInt STRING_NULL_END
  | some s =>
    let codes := encodeUTF16 (decodeUTF8 s)
    SaveUInt (2 * codes.length) ++
      if 2 * codes.length % 2 ^ 32 = 0 then [] else [.store (utf16Bytes codes)]

/-- A length and as many bytes. -/
def AStringSize (s : Option (List UInt8)) : ℕ := 4 + s.elim 0 List.length

/-- A length and two bytes for each unit. -/
def stringSize (s : Option GoString) : ℕ :=
  4 + s.elim 0 fun s ↦ 2 * (encodeUTF16 (decodeUTF8 s)).length

@[simp] theorem length_SaveUInt (n : ℕ) : (Go.SaveUInt n).length = 4 := length_leBytes _ _

theorem bytesOf_SaveUInt (n : ℕ) : bytesOf (SaveUInt n) = Go.SaveUInt n := bytesOf_store _

/-- What is written of a string is never more than its size. -/
theorem length_prefixed_le (n : ℕ) (s : List UInt8) (w : Write) (hw : w.bytes = s) :
    (bytesOf (SaveUInt n ++ if n % 2 ^ 32 = 0 then [] else [w])).length ≤ 4 + s.length := by
  rw [bytesOf_append, bytesOf_SaveUInt, List.length_append, length_SaveUInt]
  split
  · exact Nat.add_le_add_left (Nat.zero_le _) 4
  · rw [← hw, bytesOf, List.flatMap_singleton]

theorem bytesOf_SaveAString {s : List UInt8} (h : s.length < 2 ^ 32) :
    bytesOf (SaveAString (some s)) = leBytes 4 s.length ++ s := by
  rw [SaveAString, bytesOf_append, bytesOf_SaveUInt, Go.SaveUInt, Nat.mod_eq_of_lt h]
  split
  · next hzero =>
    rw [List.length_eq_zero_iff.1 hzero]
    rfl
  · rw [bytesOf_copy]

theorem bytesOf_SaveString {s : GoString}
    (h : 2 * (encodeUTF16 (decodeUTF8 s)).length < 2 ^ 32) :
    bytesOf (SaveString (some s)) = leBytes 4 (2 * (encodeUTF16 (decodeUTF8 s)).length) ++
      utf16Bytes (encodeUTF16 (decodeUTF8 s)) := by
  simp only [SaveString, bytesOf_append, bytesOf_SaveUInt, Go.SaveUInt, Nat.mod_eq_of_lt h]
  split
  · next hzero =>
    have hnil : encodeUTF16 (decodeUTF8 s) = [] := List.length_eq_zero_iff.1 (by omega)
    rw [hnil]
    rfl
  · rw [bytesOf_store]

/-- What a length in front and the bytes behind it take. -/
theorem LoadAString_takes (s : Option (List UInt8)) : Takes LoadAString (AStringSize s) s := by
  refine Takes.bind LoadUInt_takes fun size ↦ ?_
  split
  · intro c rest h
    cases h
    exact Nat.le_of_eq (Nat.zero_add _)
  · refine Takes.map fun raw hraw c rest h ↦ ?_
    obtain ⟨hle, hsome, rfl⟩ := take_inv h
    rw [← hraw, Option.elim_some, hsome, List.length_take, List.length_drop]
    omega

theorem length_utf16Units_le : ∀ s : List UInt8, 2 * (utf16Units s).length ≤ s.length
  | [] => Nat.le_refl _
  | [_] => Nat.zero_le _
  | _ :: _ :: s => by
    have hle := length_utf16Units_le s
    rw [utf16Units, List.length_cons, List.length_cons, List.length_cons]
    omega

theorem LoadString_takes (s : Option GoString) : Takes LoadString (stringSize s) s := by
  refine Takes.bind LoadUInt_takes fun bytes ↦ ?_
  split
  · intro c rest h
    cases h
    exact Nat.le_of_eq (Nat.zero_add _)
  · refine Takes.map fun raw hraw c rest h ↦ ?_
    obtain ⟨hle, hsome, rfl⟩ := take_inv h
    -- decoding and encoding again keeps the number of units
    have hunits := length_utf16Units_le raw
    have hraw' : raw.length ≤ bytes := by
      rw [hsome]
      exact List.length_take_le _ _
    rw [← hraw, Option.elim_some, decodeUTF8_encodeUTF8, length_encodeUTF16_decodeUTF16,
      List.length_drop]
    omega

theorem LoadAString_null : Decodes LIMIT LoadAString (leBytes 4 STRING_NULL_END) none := by
  have hnull : Decodes LIMIT LoadAString (leBytes 4 STRING_NULL_END ++ []) none := by
    refine (LoadUInt_decodes (by decide)).bind ?_
    rw [if_pos rfl]
    exact Decodes.pure none
  rwa [List.append_nil] at hnull

/-- **Strings of bytes** always come back. -/
theorem AString_sized (s : Option (List UInt8)) :
    Sized LIMIT LoadAString (bytesOf (SaveAString s)) (AStringSize s) s True := by
  cases s with
  | none =>
    rw [SaveAString, bytesOf_SaveUInt]
    exact (fixed_sized (length_SaveUInt _) LoadAString_null (LoadAString_takes none)).congr
      fun _ ↦ iff_of_true rfl trivial
  | some s =>
    refine Sized.congr (.of_decodes (c := some s) (length_prefixed_le _ _ _ rfl)
      (LoadAString_takes _) (fun h ↦ ?_) fun h ↦ ?_) fun _ ↦ iff_of_true rfl trivial
    · have hlen : 4 + s.length < 2 ^ 32 := h
      rw [bytesOf_SaveAString (by omega), List.length_append, length_leBytes]
      rfl
    · have hlen : 4 + s.length < 2 ^ 32 := h
      rw [bytesOf_SaveAString (by omega)]
      refine decodes_prefixed s some (pure none) ?_
      show _ < 0xffffffff
      omega

/-- **Texts** come back if they are UTF-8. -/
theorem string_sized (s : Option GoString) :
    Sized LIMIT LoadString (bytesOf (SaveString s)) (stringSize s) s (∀ t ∈ s, ValidUTF8 t) := by
  cases s with
  | none =>
    rw [SaveString, bytesOf_SaveUInt]
    exact (fixed_sized (length_SaveUInt _) LoadString_null (LoadString_takes none)).congr
      fun _ ↦ iff_of_true rfl nofun
  | some s =>
    have hle := length_prefixed_le (2 * (encodeUTF16 (decodeUTF8 s)).length)
      (utf16Bytes (encodeUTF16 (decodeUTF8 s))) (.store _) rfl
    rw [length_utf16Bytes] at hle
    refine Sized.congr (.of_decodes (c := some (reread s)) hle (LoadString_takes _) (fun h ↦ ?_)
      fun h ↦ ?_) fun h ↦ ?_
    · have hlen : 4 + 2 * (encodeUTF16 (decodeUTF8 s)).length < 2 ^ 32 := h
      rw [bytesOf_SaveString (by omega), List.length_append, length_leBytes, length_utf16Bytes]
      rfl
    · have hlen : 4 + 2 * (encodeUTF16 (decodeUTF8 s)).length < 2 ^ 32 := h
      have hunits : writtenUnits s = encodeUTF16 (decodeUTF8 s) := by
        rw [writtenUnits, Nat.mod_eq_of_lt (by omega), Nat.mul_div_cancel_left _ (by decide),
          List.take_length]
      rw [bytesOf_SaveString (by omega), reread, hunits]
      refine LoadString_units ?_
      show _ < 0xffffffff
      omega
    · have hlen : 4 + 2 * (encodeUTF16 (decodeUTF8 s)).length < 2 ^ 32 := h
      have hunits : 2 * (encodeUTF16 (decodeUTF8 s)).length < 2 ^ 32 := by omega
      simp only [Option.some.injEq, Option.mem_some_iff, forall_eq', reread_eq_iff, hunits,
        and_true]

/-! ### Slices -/

/-- The loops that write a count and, for each number below it, one element. -/
def saveLoop {α : Type} (f : α → List Write) (arr : List α) : List Write :=
  SaveUInt arr.length ++ (arr.take (arr.length % 2 ^ 32)).flatMap f

/-- The loops that write a count and all elements. -/
def saveRange {α : Type} (f : α → List Write) (arr : List α) : List Write :=
  SaveUInt arr.length ++ arr.flatMap f

/-- `SaveUShortArray`, `SaveIntArray` and so on. -/
def saveNumbers (w : ℕ) (arr : List (BitVec (8 * w))) : List Write :=
  let size := arr.length % 2 ^ 32
  SaveUInt size ++
    if 0 < size then [.copy ((arr.flatMap (Go.saveBits w)).take (size * w % 2 ^ 32))] else []

theorem bytesOf_saveLoop {α : Type} (f : α → List Write) (arr : List α) :
    bytesOf (saveLoop f arr) = Go.saveLoop (fun a ↦ bytesOf (f a)) arr := by
  rw [saveLoop, bytesOf_append, bytesOf_SaveUInt, bytesOf_flatMap, Go.saveLoop]

theorem bytesOf_saveRange {α : Type} (f : α → List Write) (arr : List α) :
    bytesOf (saveRange f arr) = Go.saveRange (fun a ↦ bytesOf (f a)) arr := by
  rw [saveRange, bytesOf_append, bytesOf_SaveUInt, bytesOf_flatMap, Go.saveRange]

theorem bytesOf_saveNumbers (w : ℕ) (arr : List (BitVec (8 * w))) :
    bytesOf (saveNumbers w arr) = Go.saveNumbers w arr := by
  simp only [saveNumbers, Go.saveNumbers, bytesOf_append, bytesOf_SaveUInt]
  split
  · rw [bytesOf_copy]
  · rw [bytesOf_nil]

/-- The memory of a slice, in 32 bits, behind a count. -/
def numbersSize (w n : ℕ) : ℕ := 4 + n * w % 2 ^ 32

theorem loadNumbers_takes (w : ℕ) (arr : List (BitVec (8 * w))) :
    Takes (loadNumbers w) (numbersSize w arr.length) arr := by
  refine Takes.bind LoadUInt_takes fun size ↦ ?_
  split
  · refine Takes.map fun raw hraw ↦ ?_
    rw [← hraw, length_numbersOf]
    exact take_takes _ raw
  · intro c rest h
    cases h
    simp

section Loops

variable {α : Type} {g : Reader α} {f : α → List UInt8} {size : α → ℕ} {P : α → Prop}
  {arr : List α}

theorem loadLoop_takes (h : ∀ a ∈ arr, Takes g (size a) a) :
    Takes (loadLoop g) (4 + (arr.map size).sum) arr :=
  Takes.bind LoadUInt_takes (Takes.repeatRead h)

theorem length_le_sum (hpos : ∀ a, 0 < size a) : arr.length ≤ (arr.map size).sum := by
  induction arr with
  | nil => exact Nat.le_refl _
  | cons a arr ih =>
    have ha := hpos a
    rw [List.map_cons, List.sum_cons, List.length_cons]
    omega

variable (arr)

/-- **A slice of elements** comes back if each of them does. -/
theorem range_sized (h : ∀ a ∈ arr, Sized LIMIT g (f a) (size a) a (P a))
    (hpos : ∀ a, 0 < size a) :
    Sized LIMIT (loadLoop g) (Go.saveRange f arr) (4 + (arr.map size).sum) arr
      (∀ a ∈ arr, P a) := by
  have hread := Sized.repeatRead h
  have hlen : (Go.saveRange f arr).length = 4 + (arr.flatMap f).length := by
    rw [Go.saveRange, List.length_append, length_SaveUInt]
  refine ⟨?_, loadLoop_takes fun a ha ↦ (h a ha).takes, fun hn hP ↦ ?_, fun hn hfull ↦ ?_⟩
  · rw [hlen]
    exact Nat.add_le_add_left hread.length_le 4
  · rw [hlen, hread.length_eq (lt_of_le_of_lt (Nat.le_add_left _ _) hn) hP]
  · have hcount : arr.length < 2 ^ 32 :=
      lt_of_le_of_lt (le_trans (length_le_sum hpos) (Nat.le_add_left _ _)) hn
    exact (LoadUInt_saved hcount).bind_when
      (hread.reads (lt_of_le_of_lt (Nat.le_add_left _ _) hn) (by omega))

theorem loop_sized (h : ∀ a ∈ arr, Sized LIMIT g (f a) (size a) a (P a))
    (hpos : ∀ a, 0 < size a) :
    Sized LIMIT (loadLoop g) (Go.saveLoop f arr) (4 + (arr.map size).sum) arr
      (∀ a ∈ arr, P a) := by
  have hrange := range_sized arr h hpos
  -- a slice that has a size below the limit is written to its end
  have hsame (hn : 4 + (arr.map size).sum < LIMIT) : Go.saveLoop f arr = Go.saveRange f arr := by
    have hcount : arr.length < 2 ^ 32 :=
      lt_of_le_of_lt (le_trans (length_le_sum hpos) (Nat.le_add_left _ _)) hn
    rw [Go.saveLoop, Nat.mod_eq_of_lt hcount, List.take_length, Go.saveRange]
  refine ⟨le_trans ?_ hrange.length_le, hrange.takes, fun hn ↦ ?_, fun hn ↦ ?_⟩
  · rw [Go.saveLoop, Go.saveRange, List.length_append, List.length_append]
    exact Nat.add_le_add_left ((List.take_sublist _ arr).flatMap f).length_le _
  · rw [hsame hn]
    exact hrange.length_eq hn
  · rw [hsame hn]
    exact hrange.reads hn

end Loops

theorem length_saveNumbers (w : ℕ) (arr : List (BitVec (8 * w))) :
    (bytesOf (saveNumbers w arr)).length = numbersSize w arr.length := by
  have hmod : arr.length % 2 ^ 32 * w % 2 ^ 32 = arr.length * w % 2 ^ 32 := Nat.mod_mul_mod ..
  have hle : arr.length * w % 2 ^ 32 ≤ arr.length * w := Nat.mod_le _ _
  rw [bytesOf_saveNumbers, Go.saveNumbers, List.length_append, length_SaveUInt, numbersSize]
  split
  · rw [List.length_take, length_flatMap_saveBits, hmod, Nat.min_eq_left hle]
  · next hzero =>
    rw [← hmod, Nat.eq_zero_of_not_pos hzero, Nat.zero_mul]
    rfl

/-- **A slice of numbers** comes back if its length has 32 bits and the numbers behind its bytes,
counted in 32 bits, are zero. -/
theorem numbers_sized {w : ℕ} (arr : List (BitVec (8 * w))) (hw : 0 < w) (hdvd : w ∣ 2 ^ 32) :
    Sized LIMIT (loadNumbers w) (bytesOf (saveNumbers w arr)) (numbersSize w arr.length) arr
      (Counted arr ∧ ∀ n ∈ arr.drop (writtenNumbers w arr.length), n = 0) := by
  have hdecodes := loadNumbers_decodes w arr
  rw [← bytesOf_saveNumbers] at hdecodes
  exact (fixed_sized (length_saveNumbers w arr) hdecodes (loadNumbers_takes w arr)).congr
    fun _ ↦ rereadNumbers_eq_iff arr hw hdvd

end SocketPro.Go.SaveLoad
